import PerlLsp.StructuredScalars

/-! What the structured mutation parser accepts. A text of the grammar is accepted within
the budgets of its profile with the value it denotes, and so is a text of the grammar in
which another ASCII character stands for the opening quote of a key: the parser passes
that byte without a look. -/
namespace PerlLsp.StructuredMutation
open Utf8 Text JsonGrammar List Nat

section Measures

mutual

def valueOf : Json → StructuredValue
  | .null => .null
  | .bool truth => .bool truth
  | .number spelled => numberOf spelled
  | .string text => .string text
  | .array items => .array (itemsOf items)
  | .object entries => .object (entriesOf entries)

def itemsOf : List Json → List StructuredValue
  | [] => []
  | item :: rest => valueOf item :: itemsOf rest

def entriesOf : List (List Char × Json) → List (List Char × StructuredValue)
  | [] => []
  | (key, item) :: rest => (key, valueOf item) :: entriesOf rest

end

def keyBytes (entries : List (List Char × Json)) : Nat := (entries.map fun entry => Utf8.size entry.1).sum

def ownBytes : Json → Nat
  | .null => 4
  | .bool true => 4
  | .bool false => 5
  | .number spelled => size spelled
  | .string text => size text
  | .array _ => containerDelimiterBytes
  | .object entries => containerDelimiterBytes + keyBytes entries

def partBytes (parts : List (Nat × Json)) : Nat := (parts.map fun part => ownBytes part.2).sum

variable (limits : StructuredMutationLimits)

/-- The budgets of a value without the values in it, and the keys of an object apart. -/
def Within : Json → Prop
  | .number spelled => NumberWithin limits spelled
  | .string text => size text ≤ limits.maxScalarBytes
  | .array items => items.length ≤ limits.maxEntries
  | .object entries => entries.length ≤ limits.maxEntries ∧ (entries.map Prod.fst).Nodup ∧
      ∀ entry ∈ entries, size entry.1 ≤ limits.maxScalarBytes
  | _ => True

def AllWithin (parts : List (Nat × Json)) : Prop :=
  ∀ part ∈ parts, part.1 ≤ limits.maxDepth ∧ Within limits part.2

structure Admitted (limits : StructuredMutationLimits) (tree : Json) : Prop where
  within : AllWithin limits (tree.parts 0)
  nodes : (tree.parts 0).length ≤ limits.maxNodes
  bytes : partBytes (tree.parts 0) ≤ limits.maxAggregateBytes

/-- A prefixed text of the grammar with these openings of keys, within the limits, and the value it
denotes. -/
def Profile (opening : Bool → Char → Prop) (limits : StructuredMutationLimits) (raw : List Char)
    (value : StructuredValue) : Prop :=
  size raw ≤ limits.maxInputBytes ∧ ∃ payload tree, raw = structuredPrefix ++ payload ∧
    Reads opening (.item tree) payload [] ∧ Admitted limits tree ∧ value = valueOf tree

/-- The openings that the parser lets pass: any ASCII character but a blank, and first in an object
no closing brace. -/
def passed (first : Bool) (scalar : Char) : Prop :=
  scalar.val.toNat < 0x80 ∧ isBlank scalar = false ∧ (first = true → scalar ≠ '}')

theorem quoted_passed (first : Bool) (scalar : Char) (opened : quoted first scalar) :
    passed first scalar := by
  cases opened
  exact ⟨by decide, by decide, fun _ => by decide⟩

@[simp] theorem part_bytes_cons (part : Nat × Json) (rest : List (Nat × Json)) :
    partBytes (part :: rest) = ownBytes part.2 + partBytes rest := by
  simp [partBytes]

@[simp] theorem part_bytes_append (left right : List (Nat × Json)) :
    partBytes (left ++ right) = partBytes left + partBytes right := by
  simp [partBytes]

variable {limits : StructuredMutationLimits}

theorem within_cons {part : Nat × Json} {rest : List (Nat × Json)} : AllWithin limits (part :: rest) ↔
      (part.1 ≤ limits.maxDepth ∧ Within limits part.2) ∧ AllWithin limits rest :=
  forall_mem_cons

theorem within_append {left right : List (Nat × Json)} :
    AllWithin limits (left ++ right) ↔ AllWithin limits left ∧ AllWithin limits right :=
  forall_mem_append

theorem parts_head (depth : Nat) (tree : Json) : ∃ inner, tree.parts depth = (depth, tree) :: inner := by
  cases tree with
  | null | bool | number | string => exact ⟨[], by rw [Json.parts]⟩
  | array items => exact ⟨itemParts (depth + 1) items, by rw [Json.parts]⟩
  | object entries => exact ⟨entryParts (depth + 1) entries, by rw [Json.parts]⟩

end Measures

section Places
variable {limits : StructuredMutationLimits} {p : Parser} {text : List Char}

theorem skip_ws (view : p.rest = encode text) : p.skipWs.rest = encode (text.dropWhile isBlank) :=
  (tells_blank.advance_while view).2

theorem parse_word_iff (pinned : limits.maxAggregateBytes < usizeMax) {word : List Char}
    {value result : StructuredValue} {q : Parser} (view : p.rest = encode text) :
    parseLiteral limits word value p = .ok (result, q) ↔ ∃ rest, text = word ++ rest ∧ result = value ∧
        p.aggregateBytes + size word ≤ limits.maxAggregateBytes ∧
        q = { p.advance (size word) with aggregateBytes := p.aggregateBytes + size word } := by
  unfold parseLiteral
  rw [view]
  by_cases starts : encode word <+: encode text
  · obtain ⟨tail, bytes⟩ := starts
    obtain ⟨rest, rfl, -⟩ := encoded_prefix word text tail bytes.symm
    rw [if_pos ⟨tail, bytes⟩, bind_ok]
    constructor
    · rintro ⟨place, charged, same⟩
      obtain ⟨rfl, rfl⟩ := Prod.mk.inj (Except.ok.inj same)
      exact ⟨rest, rfl, rfl, (charge_iff pinned).mp charged⟩
    · rintro ⟨other, -, rfl, charged⟩
      exact ⟨q, (charge_iff pinned).mpr charged, rfl⟩
  · rw [if_neg starts]
    refine ⟨nofun, ?_⟩
    rintro ⟨rest, rfl, -⟩
    exact absurd ⟨encode rest, (encode_append word rest).symm⟩ starts

end Places

section Soundness
variable {limits : StructuredMutationLimits}

/-- What a parser of values accepts is a value of the grammar with its blanks in front, within the
budgets, all charged. -/
def SoundAt (limits : StructuredMutationLimits)
    (parse : Parser → Except StructuredRefusal (StructuredValue × Parser)) (depth : Nat) : Prop :=
  ∀ p q text value, p.rest = encode text → InBudget limits p → parse p = .ok (value, q) →
    ∃ tree start rest, Blank text start ∧ Reads passed (.value tree) start rest ∧
      value = valueOf tree ∧ AllWithin limits (tree.parts depth) ∧
      Behind p q rest (tree.parts depth).length (partBytes (tree.parts depth)) ∧ InBudget limits q

variable {parse : Parser → Except StructuredRefusal (StructuredValue × Parser)} {depth : Nat}

section
variable (pinned : limits.maxAggregateBytes < usizeMax)
include pinned

theorem array_loop_sound
    (sound : SoundAt limits parse (depth + 1)) {left : Nat} {items : List StructuredValue}
    {p q : Parser} {text : List Char} {value : StructuredValue} (view : p.rest = encode text)
    (budget : InBudget limits p) (parsed : arrayLoop limits parse left items p = .ok (value, q)) :
    ∃ trees rest, Reads passed (.items trees) text (']' :: rest) ∧
      value = .array (items ++ itemsOf trees) ∧ trees.length ≤ left ∧
      AllWithin limits (itemParts (depth + 1) trees) ∧
      Behind p q rest (itemParts (depth + 1) trees).length
        (partBytes (itemParts (depth + 1) trees) + containerDelimiterBytes) ∧
      InBudget limits q := by
  induction left generalizing items p text with
  | zero => cases parsed
  | succ left ih =>
    rw [arrayLoop, bind_ok] at parsed
    obtain ⟨⟨item, place⟩, parsed, more⟩ := parsed
    obtain ⟨tree, start, behind, blank, reads, rfl, within, after, inside⟩ :=
      sound p place text item view budget parsed
    have skipped := skip_ws after.view
    have whole : Reads passed (.item tree) text (behind.dropWhile isBlank) :=
      .item blank reads (blank_scan behind)
    dsimp only at more
    split at more
    · rename_i comma
      obtain ⟨next, shape⟩ := head?_eq_some_iff.mp ((get_iff skipped (by decide)).mp comma)
      rw [shape] at whole skipped
      obtain ⟨trees, rest, others, rfl, few, allWithin, later, done⟩ :=
        @ih (items ++ [valueOf tree]) (place.skipWs.advance 1) next (view_next (by decide) skipped)
          ⟨inside.nodes, inside.bytes⟩ more
      refine ⟨tree :: trees, rest, .nextItem whole others, ?_, succ_le_succ few, ?_, ?_, done⟩
      · rw [itemsOf, append_assoc]
        rfl
      · rw [itemParts, within_append]
        exact ⟨within, allWithin⟩
      · have nodes : q.nodes = place.nodes + _ := later.nodes
        have bytes : q.aggregateBytes = place.aggregateBytes + _ := later.bytes
        rw [itemParts, length_append, part_bytes_append]
        exact ⟨later.view, by rw [nodes, after.nodes]; omega, by rw [bytes, after.bytes]; omega⟩
    · split at more
      · rename_i bracket
        obtain ⟨rest, shape⟩ := head?_eq_some_iff.mp ((get_iff skipped (by decide)).mp bracket)
        rw [shape] at whole skipped
        obtain ⟨last, charged, same⟩ := bind_ok.mp more
        obtain ⟨fits, rfl⟩ := (charge_iff pinned).mp charged
        obtain ⟨rfl, rfl⟩ := Prod.mk.inj (Except.ok.inj same)
        refine ⟨[tree], rest, .lastItem whole, rfl, succ_le_succ (Nat.zero_le _), ?_, ?_,
          ⟨inside.nodes, fits⟩⟩
        · rw [itemParts, itemParts, append_nil]
          exact within
        · rw [itemParts, itemParts, append_nil]
          refine ⟨view_next (by decide) skipped, after.nodes, ?_⟩
          change place.aggregateBytes + _ = _
          rw [after.bytes]
          omega
      · cases more

theorem parse_key_sound {entries : List (List Char × StructuredValue)} {p q : Parser} {text key : List Char}
    (view : p.rest = encode text) (budget : InBudget limits p)
    (parsed : parseKey limits entries p = .ok (key, q)) :
    ∃ scalar spelled colon rest, text.dropWhile isBlank = scalar :: spelled ∧
      scalar.val.toNat < 0x80 ∧ isBlank scalar = false ∧ Spells spelled key colon ∧
      Blank colon (':' :: rest) ∧ key ∉ entries.map Prod.fst ∧ size key ≤ limits.maxScalarBytes ∧
      Behind p q rest 0 (size key) ∧ InBudget limits q := by
  have skipped := skip_ws view
  unfold parseKey at parsed
  obtain ⟨⟨value, place⟩, string, more⟩ := bind_ok.mp parsed
  obtain ⟨scalar, spelled, shape, ascii, passing⟩ := string_opening skipped string
  obtain ⟨decoded, colon, spells, rfl, short, after, inside⟩ :=
    parse_string_sound pinned passing ⟨budget.nodes, budget.bytes⟩ string
  have shown : isBlank scalar = false := by
    by_contra blank
    have scanned := dropWhile_idempotent isBlank text
    rw [shape, dropWhile_cons_of_pos (by simpa using blank)] at scanned
    have lengths := congrArg List.length scanned
    have shorter := (dropWhile_suffix isBlank (l := spelled)).length_le
    rw [length_cons] at lengths
    omega
  dsimp only at more
  split at more
  · cases more
  rename_i fresh
  split at more
  · cases more
  rename_i pointed
  have skippedColon := skip_ws after.view
  obtain ⟨rest, colonShape⟩ := head?_eq_some_iff.mp
    ((get_iff skippedColon (by decide)).mp (not_not.mp pointed))
  rw [colonShape] at skippedColon
  obtain ⟨rfl, rfl⟩ := Prod.mk.inj (Except.ok.inj more)
  refine ⟨scalar, spelled, colon, rest, shape, ascii, shown, spells, ?_, ?_, short,
    ⟨view_next (by decide) skippedColon, after.nodes, after.bytes⟩, ⟨inside.nodes, inside.bytes⟩⟩
  · rw [← colonShape]
    exact blank_scan colon
  · intro member
    obtain ⟨entry, among, same⟩ := mem_map.mp member
    exact fresh (any_eq_true.mpr ⟨entry, among, by simp [same]⟩)

theorem object_loop_sound (sound : SoundAt limits parse (depth + 1)) {left : Nat}
    {entries : List (List Char × StructuredValue)} {p q : Parser} {text : List Char}
    {value : StructuredValue} (first : Bool)
    (shown : first = true → (text.dropWhile isBlank).head? ≠ some '}')
    (distinct : (entries.map Prod.fst).Nodup) (view : p.rest = encode text)
    (budget : InBudget limits p) (parsed : objectLoop limits parse left entries p = .ok (value, q)) :
    ∃ pairs rest, Reads passed (.members first pairs) text ('}' :: rest) ∧
      value = .object (entries ++ entriesOf pairs) ∧ pairs.length ≤ left ∧
      (entries.map Prod.fst ++ pairs.map Prod.fst).Nodup ∧
      (∀ entry ∈ pairs, size entry.1 ≤ limits.maxScalarBytes) ∧
      AllWithin limits (entryParts (depth + 1) pairs) ∧
      Behind p q rest (entryParts (depth + 1) pairs).length
        (partBytes (entryParts (depth + 1) pairs) + keyBytes pairs + containerDelimiterBytes) ∧
      InBudget limits q := by
  induction left generalizing entries p text first with
  | zero => cases parsed
  | succ left ih =>
    rw [objectLoop, bind_ok] at parsed
    obtain ⟨⟨key, colon⟩, keyed, parsed⟩ := parsed
    obtain ⟨scalar, spelled, colonText, valueText, opened, ascii, plain, spells, pointed, fresh, short,
      atColon, inside⟩ := parse_key_sound pinned view budget keyed
    obtain ⟨⟨item, place⟩, valued, more⟩ := bind_ok.mp parsed
    obtain ⟨tree, start, behind, blank, reads, rfl, within, after, inside⟩ :=
      sound colon place valueText item atColon.view inside valued
    have skipped := skip_ws after.view
    have opens : passed first scalar := by
      refine ⟨ascii, plain, fun isFirst same => shown isFirst ?_⟩
      rw [opened, same]
      rfl
    have before : Blank text (scalar :: spelled) := opened ▸ blank_scan text
    have whole : Reads passed (.member first key tree) text (behind.dropWhile isBlank) :=
      .member before opens spells pointed (.item blank reads (blank_scan behind))
    have apart : ((entries ++ [(key, valueOf tree)]).map Prod.fst).Nodup := by
      rw [map_append, nodup_append]
      refine ⟨distinct, by simp, fun other member key' single => ?_⟩
      rw [mem_singleton.mp single]
      rintro rfl
      exact fresh member
    dsimp only at more
    split at more
    · rename_i comma
      obtain ⟨next, shape⟩ := head?_eq_some_iff.mp ((get_iff skipped (by decide)).mp comma)
      rw [shape] at whole skipped
      obtain ⟨pairs, rest, others, rfl, few, unique, shorts, allWithin, later, done⟩ :=
        @ih (entries ++ [(key, valueOf tree)]) (place.skipWs.advance 1) next false nofun apart
          (view_next (by decide) skipped) ⟨inside.nodes, inside.bytes⟩ more
      refine ⟨(key, tree) :: pairs, rest, .nextMember whole others, ?_, succ_le_succ few, ?_,
        forall_mem_cons.mpr ⟨short, shorts⟩, ?_, ?_, done⟩
      · rw [append_assoc]
        rfl
      · rw [map_append, append_assoc] at unique
        exact unique
      · rw [entryParts, within_append]
        exact ⟨within, allWithin⟩
      · have nodes : q.nodes = place.nodes + _ := later.nodes
        have bytes : q.aggregateBytes = place.aggregateBytes + _ := later.bytes
        have keys : keyBytes ((key, tree) :: pairs) = size key + keyBytes pairs := by simp [keyBytes]
        rw [entryParts, length_append, part_bytes_append]
        exact ⟨later.view, by rw [nodes, after.nodes, atColon.nodes]; omega,
          by rw [bytes, after.bytes, atColon.bytes]; omega⟩
    · split at more
      · rename_i brace
        obtain ⟨rest, shape⟩ := head?_eq_some_iff.mp ((get_iff skipped (by decide)).mp brace)
        rw [shape] at whole skipped
        obtain ⟨last, charged, same⟩ := bind_ok.mp more
        obtain ⟨fits, rfl⟩ := (charge_iff pinned).mp charged
        obtain ⟨rfl, rfl⟩ := Prod.mk.inj (Except.ok.inj same)
        refine ⟨[(key, tree)], rest, .lastMember whole, rfl, succ_le_succ (Nat.zero_le _), ?_,
          by simpa using short, ?_, ?_, ⟨inside.nodes, fits⟩⟩
        · rw [map_append] at apart
          exact apart
        · rw [entryParts, entryParts, append_nil]
          exact within
        · have keys : keyBytes [(key, tree)] = size key := by simp [keyBytes]
          rw [entryParts, entryParts, append_nil]
          refine ⟨view_next (by decide) skipped, ?_, ?_⟩
          · change place.nodes = _
            rw [after.nodes, atColon.nodes]
            omega
          · change place.aggregateBytes + _ = _
            rw [after.bytes, atColon.bytes]
            omega
      · cases more

end

/-- The match on the first byte is a match on the first character. -/
theorem dispatch_char {p : Parser} {scalar : Char} {more : List Char}
    (view : p.rest = encode (scalar :: more)) : dispatch limits parse p =
      if scalar = 'n' then parseLiteral limits ['n', 'u', 'l', 'l'] .null p
      else if scalar = 't' then parseLiteral limits ['t', 'r', 'u', 'e'] (.bool true) p
      else if scalar = 'f' then parseLiteral limits ['f', 'a', 'l', 's', 'e'] (.bool false) p
      else if scalar = '"' then parseString limits p
      else if scalar = '[' then parseArray limits parse p
      else if scalar = '{' then parseObject limits parse p
      else if scalar = '-' ∨ scalar.isDigit = true then parseNumber limits p
      else .error (.invalidSyntax p.pos) := by
  have heads {other : Char} (ascii : other.val.toNat < 0x80) :
      p.get = some (byte other) ↔ scalar = other := by
    rw [get_iff view ascii, head?_cons, Option.some.injEq]
  have digits : p.atDigit = scalar.isDigit := at_digit view
  simp only [dispatch, @heads 'n' (by decide), @heads 't' (by decide), @heads 'f' (by decide),
    @heads '"' (by decide), @heads '[' (by decide), @heads '{' (by decide), @heads '-' (by decide),
    digits]

def Denotes (limits : StructuredMutationLimits) (depth : Nat) (p q : Parser) (text : List Char)
    (value : StructuredValue) : Prop :=
  ∃ tree rest nodes, Reads passed (.value tree) text rest ∧ value = valueOf tree ∧
    AllWithin limits (tree.parts depth) ∧ (tree.parts depth).length = nodes + 1 ∧
    Behind p q rest nodes (partBytes (tree.parts depth)) ∧ InBudget limits q

/-- A value is denoted by what reads it, with the values in it counted apart. -/
theorem parts_denote {p q : Parser} {text rest : List Char} {value : StructuredValue} (tree : Json)
    {inner : List (Nat × Json)} (parts : tree.parts depth = (depth, tree) :: inner)
    (reads : Reads passed (.value tree) text rest) (same : value = valueOf tree)
    (shallow : depth ≤ limits.maxDepth) (own : Within limits tree) (within : AllWithin limits inner)
    (after : Behind p q rest inner.length (ownBytes tree + partBytes inner))
    (inside : InBudget limits q) : Denotes limits depth p q text value := by
  refine ⟨tree, rest, inner.length, reads, same, ?_⟩
  rw [parts, within_cons, length_cons, part_bytes_cons]
  exact ⟨⟨⟨shallow, own⟩, within⟩, rfl, after, inside⟩

theorem no_parts_within : AllWithin limits [] := by simp [AllWithin]

section
variable (pinned : limits.maxAggregateBytes < usizeMax) (sound : SoundAt limits parse (depth + 1))
    {p q : Parser} {text : List Char} {value : StructuredValue}
include pinned sound p q text value

theorem parse_array_sound (view : p.rest = encode ('[' :: text)) (budget : InBudget limits p)
    (shallow : depth ≤ limits.maxDepth) (parsed : parseArray limits parse p = .ok (value, q)) :
    Denotes limits depth p q ('[' :: text) value := by
  have next := view_next (by decide) view
  have skipped := skip_ws next
  unfold parseArray at parsed
  dsimp only at parsed
  split at parsed
  · rename_i bracket
    obtain ⟨rest, shape⟩ := head?_eq_some_iff.mp ((get_iff skipped (by decide)).mp bracket)
    have scanned := blank_scan text
    rw [shape] at skipped scanned
    obtain ⟨last, charged, same⟩ := bind_ok.mp parsed
    obtain ⟨fits, rfl⟩ := (charge_iff pinned).mp charged
    obtain ⟨rfl, rfl⟩ := Prod.mk.inj (Except.ok.inj same)
    exact parts_denote (.array []) (by rw [Json.parts, itemParts]) (.emptyArray scanned)
      (by rw [valueOf, itemsOf]) shallow (Nat.zero_le _) no_parts_within
      ⟨view_next (by decide) skipped, rfl, rfl⟩ ⟨budget.nodes, fits⟩
  · obtain ⟨trees, rest, reads, rfl, few, within, after, inside⟩ :=
      @array_loop_sound limits parse depth pinned sound _ [] _ q _ value skipped
        ⟨budget.nodes, budget.bytes⟩ parsed
    have bytes : q.aggregateBytes = p.aggregateBytes + _ := after.bytes
    exact parts_denote (.array trees) (by rw [Json.parts])
      (.array (reads.behind_blank (blank_scan text) nofun)) (by rw [valueOf]; rfl) shallow few within
      ⟨after.view, after.nodes, by rw [bytes, ownBytes]; omega⟩ inside

theorem parse_object_sound (view : p.rest = encode ('{' :: text)) (budget : InBudget limits p)
    (shallow : depth ≤ limits.maxDepth) (parsed : parseObject limits parse p = .ok (value, q)) :
    Denotes limits depth p q ('{' :: text) value := by
  have next := view_next (by decide) view
  have skipped := skip_ws next
  unfold parseObject at parsed
  dsimp only at parsed
  split at parsed
  · rename_i brace
    obtain ⟨rest, shape⟩ := head?_eq_some_iff.mp ((get_iff skipped (by decide)).mp brace)
    have scanned := blank_scan text
    rw [shape] at skipped scanned
    obtain ⟨last, charged, same⟩ := bind_ok.mp parsed
    obtain ⟨fits, rfl⟩ := (charge_iff pinned).mp charged
    obtain ⟨rfl, rfl⟩ := Prod.mk.inj (Except.ok.inj same)
    exact parts_denote (.object []) (by rw [Json.parts, entryParts]) (.emptyObject scanned)
      (by rw [valueOf, entriesOf]) shallow ⟨Nat.zero_le _, nodup_nil, by simp⟩ no_parts_within
      ⟨view_next (by decide) skipped, rfl, rfl⟩ ⟨budget.nodes, fits⟩
  · rename_i other
    have shown : true = true → ((text.dropWhile isBlank).dropWhile isBlank).head? ≠ some '}' := by
      intro _ same
      rw [dropWhile_idempotent] at same
      exact other ((get_iff skipped (by decide)).mpr same)
    obtain ⟨pairs, rest, reads, rfl, few, unique, shorts, within, after, inside⟩ :=
      @object_loop_sound limits parse depth pinned sound _ [] _ q _ value true shown nodup_nil
        skipped ⟨budget.nodes, budget.bytes⟩ parsed
    have bytes : q.aggregateBytes = p.aggregateBytes + _ := after.bytes
    exact parts_denote (.object pairs) (by rw [Json.parts])
      (.object (reads.behind_blank (blank_scan text) nofun)) (by rw [valueOf]; rfl) shallow
      ⟨few, unique, shorts⟩ within ⟨after.view, after.nodes, by rw [ownBytes]; omega⟩ inside

end

theorem dispatch_sound (pinned : limits.maxAggregateBytes < usizeMax)
    (sound : SoundAt limits parse (depth + 1)) {p q : Parser} {text : List Char}
    {value : StructuredValue} (view : p.rest = encode text) (budget : InBudget limits p)
    (shallow : depth ≤ limits.maxDepth) (parsed : dispatch limits parse p = .ok (value, q)) :
    Denotes limits depth p q text value := by
  cases text with
  | nil =>
    have bare : p.get = none := by
      rw [Parser.get, view]
      rfl
    have digitless : p.atDigit = false := at_digit view
    simp [dispatch, bare, digitless] at parsed
  | cons scalar more =>
    rw [dispatch_char view] at parsed
    split at parsed
    · obtain ⟨rest, shape, rfl, fits, rfl⟩ := (parse_word_iff pinned view).mp parsed
      rw [shape] at view ⊢
      exact parts_denote .null (by rw [Json.parts]) (.null rest) (by rw [valueOf]) shallow trivial
        no_parts_within ⟨view_advance view, rfl, rfl⟩ ⟨budget.nodes, fits⟩
    split at parsed
    · obtain ⟨rest, shape, rfl, fits, rfl⟩ := (parse_word_iff pinned view).mp parsed
      rw [shape] at view ⊢
      exact parts_denote (.bool true) (by rw [Json.parts]) (.true rest) (by rw [valueOf]) shallow
        trivial no_parts_within ⟨view_advance view, rfl, rfl⟩ ⟨budget.nodes, fits⟩
    split at parsed
    · obtain ⟨rest, shape, rfl, fits, rfl⟩ := (parse_word_iff pinned view).mp parsed
      rw [shape] at view ⊢
      exact parts_denote (.bool false) (by rw [Json.parts]) (.false rest) (by rw [valueOf]) shallow
        trivial no_parts_within ⟨view_advance view, rfl, rfl⟩ ⟨budget.nodes, fits⟩
    split at parsed
    · rename_i quote
      subst quote
      obtain ⟨decoded, rest, spells, rfl, short, after, inside⟩ :=
        parse_string_sound pinned (view_next (by decide) view) budget parsed
      exact parts_denote (.string decoded) (by rw [Json.parts]) (.string spells) (by rw [valueOf])
        shallow short no_parts_within ⟨after.view, after.nodes, after.bytes⟩ inside
    split at parsed
    · rename_i bracket
      subst bracket
      exact parse_array_sound pinned sound view budget shallow parsed
    split at parsed
    · rename_i brace
      subst brace
      exact parse_object_sound pinned sound view budget shallow parsed
    split at parsed
    · obtain ⟨spelled, rest, shape, number, fits, rfl, after, inside⟩ :=
        parse_number_sound pinned view budget parsed
      rw [shape]
      exact parts_denote (.number spelled) (by rw [Json.parts]) (.number rest number)
        (by rw [valueOf]) shallow fits no_parts_within ⟨after.view, after.nodes, after.bytes⟩ inside
    · cases parsed

/-- Every level of the descent is sound at its depth. -/
theorem parse_value_sound (pinned : limits.maxAggregateBytes < usizeMax) {levels depth : Nat}
    (level : levels + depth = limits.maxDepth + 1) : SoundAt limits (parseValue limits levels) depth := by
  induction levels generalizing depth with
  | zero => exact fun p q text value view budget parsed => by cases parsed
  | succ levels ih =>
    intro p q text value view budget parsed
    rw [parseValue, bind_ok] at parsed
    obtain ⟨bumped, counted, parsed⟩ := parsed
    obtain ⟨fits, rfl⟩ := bump_iff.mp counted
    have skipped := @skip_ws { p with nodes := p.nodes + 1 } text view
    obtain ⟨tree, rest, nodes, reads, rfl, within, count, after, inside⟩ :=
      dispatch_sound pinned (@ih (depth + 1) (by omega)) skipped ⟨fits, budget.bytes⟩ (by omega) parsed
    have nodesAfter : q.nodes = p.nodes + 1 + nodes := after.nodes
    refine ⟨tree, _, rest, blank_scan text, reads, rfl, within, ⟨after.view, ?_, after.bytes⟩, inside⟩
    omega

end Soundness

section Completeness
variable {limits : StructuredMutationLimits}

/-- What may follow an item. -/
def Stops (rest : List Char) : Prop :=
  ∀ scalar, rest.head? = some scalar → scalar = ',' ∨ scalar = ']' ∨ scalar = '}'

variable {rest : List Char} {tree : Json}

theorem Stops.shown (stops : Stops rest) : rest.head?.any isBlank = false := by
  cases rest with
  | nil => rfl
  | cons scalar more => rcases stops scalar rfl with rfl | rfl | rfl <;> rfl

theorem Stops.ends {behind : List Char} (stops : Stops rest) (blank : Blank behind rest) : Ends behind := by
  intro scalar head
  rcases blank.head with rfl | first
  · rcases stops scalar head with rfl | rfl | rfl <;> decide
  · rw [head] at first
    simp only [Option.any_some, isBlank, Bool.or_eq_true, beq_iff_eq] at first
    rcases first with ((rfl | rfl) | rfl) | rfl <;> decide

structure Room (limits : StructuredMutationLimits) (p : Parser) (nodes bytes : Nat) : Prop where
  nodes : p.nodes + nodes ≤ limits.maxNodes
  bytes : p.aggregateBytes + bytes ≤ limits.maxAggregateBytes

def Ahead (p : Parser) (text : List Char) : Prop := p.skipWs.rest = encode (text.dropWhile isBlank)

/-- What the parser makes of a phrase for which there is room: it reads the phrase and blanks behind
it, and charges its cost. The loops read the closing bracket as well. -/
def Accepted (limits : StructuredMutationLimits) : Phrase → List Char → List Char → Prop
  | .value tree, text, rest => ∀ depth levels p, levels + depth = limits.maxDepth → Ends rest →
      p.rest = encode text → AllWithin limits (tree.parts depth) →
      Room limits p ((tree.parts depth).length - 1) (partBytes (tree.parts depth)) →
      ∃ q, dispatch limits (parseValue limits levels) p = .ok (valueOf tree, q) ∧
        Behind p q rest ((tree.parts depth).length - 1) (partBytes (tree.parts depth))
  | .item tree, text, rest => ∀ depth levels p, levels + depth = limits.maxDepth + 1 → Stops rest →
      Ahead p text → AllWithin limits (tree.parts depth) →
      Room limits p (tree.parts depth).length (partBytes (tree.parts depth)) →
      ∃ q, parseValue limits levels p = .ok (valueOf tree, q) ∧
        Behind p q.skipWs rest (tree.parts depth).length (partBytes (tree.parts depth))
  | .items trees, text, rest => ∀ depth levels p left items after,
      levels + depth = limits.maxDepth + 1 → rest = ']' :: after → Ahead p text →
      trees.length ≤ left → AllWithin limits (itemParts depth trees) →
      Room limits p (itemParts depth trees).length
        (partBytes (itemParts depth trees) + containerDelimiterBytes) →
      ∃ q, arrayLoop limits (parseValue limits levels) left items p =
          .ok (.array (items ++ itemsOf trees), q) ∧
        Behind p q after (itemParts depth trees).length
          (partBytes (itemParts depth trees) + containerDelimiterBytes)
  | .member _ key tree, text, rest => ∀ depth levels p (entries : List (List Char × StructuredValue)),
      levels + depth = limits.maxDepth + 1 → Stops rest → Ahead p text →
      key ∉ entries.map Prod.fst → size key ≤ limits.maxScalarBytes →
      AllWithin limits (tree.parts depth) →
      Room limits p (tree.parts depth).length (size key + partBytes (tree.parts depth)) →
      ∃ colon q, parseKey limits entries p = .ok (key, colon) ∧
        parseValue limits levels colon = .ok (valueOf tree, q) ∧
        Behind p q.skipWs rest (tree.parts depth).length (size key + partBytes (tree.parts depth))
  | .members _ pairs, text, rest => ∀ depth levels p left
      (entries : List (List Char × StructuredValue)) after,
      levels + depth = limits.maxDepth + 1 → rest = '}' :: after → Ahead p text →
      pairs.length ≤ left → (entries.map Prod.fst ++ pairs.map Prod.fst).Nodup →
      (∀ entry ∈ pairs, size entry.1 ≤ limits.maxScalarBytes) →
      AllWithin limits (entryParts depth pairs) →
      Room limits p (entryParts depth pairs).length
        (partBytes (entryParts depth pairs) + keyBytes pairs + containerDelimiterBytes) →
      ∃ q, objectLoop limits (parseValue limits levels) left entries p =
          .ok (.object (entries ++ entriesOf pairs), q) ∧
        Behind p q after (entryParts depth pairs).length
          (partBytes (entryParts depth pairs) + keyBytes pairs + containerDelimiterBytes)

theorem ahead_of_view {p : Parser} (view : p.rest = encode text) : Ahead p text :=
  skip_ws view

theorem Ahead.skipped {p : Parser} (ahead : Ahead p text) : Ahead p.skipWs text := by
  have again := skip_ws ahead
  rw [dropWhile_idempotent] at again
  exact again

section
variable (pinned : limits.maxAggregateBytes < usizeMax)
include pinned

theorem literal_accepted {tree : Json}
    {word rest : List Char} {p : Parser} {depth : Nat} (leaf : tree.parts depth = [(depth, tree)])
    (own : ownBytes tree = size word) (view : p.rest = encode (word ++ rest))
    (room : Room limits p ((tree.parts depth).length - 1) (partBytes (tree.parts depth))) :
    ∃ q, parseLiteral limits word (valueOf tree) p = .ok (valueOf tree, q) ∧
      Behind p q rest ((tree.parts depth).length - 1) (partBytes (tree.parts depth)) := by
  have bytes : partBytes (tree.parts depth) = size word := by
    rw [leaf, part_bytes_cons]
    exact own
  rw [bytes] at room ⊢
  refine ⟨_, (parse_word_iff pinned view).mpr ⟨rest, rfl, rfl, room.bytes, rfl⟩, ?_⟩
  rw [leaf]
  exact ⟨view_advance view, rfl, rfl⟩

theorem string_accepted {text decoded rest : List Char}
    (spells : Spells text decoded rest) : Accepted limits (.value (.string decoded)) ('"' :: text) rest := by
  intro depth levels p _ _ view within room
  rw [Json.parts, within_cons] at within
  rw [dispatch_char view, if_neg (by decide), if_neg (by decide), if_pos rfl, valueOf]
  exact parse_string_complete pinned (view_next (by decide) view) spells within.1.2 room.bytes

theorem number_accepted (exponents : limits.maxAbsoluteExponent ≤ i64Max) {spelled rest : List Char}
    (number : Number spelled) : Accepted limits (.value (.number spelled)) (spelled ++ rest) rest := by
  intro depth levels p _ ends view within room
  rw [Json.parts, within_cons] at within
  have parsed := parse_number_complete pinned exponents view number ends within.1.2 room.bytes
  obtain ⟨first, more, rfl, start⟩ := number_head number
  have other {scalar : Char} (minus : scalar ≠ '-') (letter : scalar.isDigit = false) : first ≠ scalar := by
    rcases start with rfl | isDigit
    · exact minus.symm
    · exact digit_apart isDigit letter
  rw [dispatch_char view, if_neg (other (by decide) (by decide)), if_neg (other (by decide) (by decide)),
    if_neg (other (by decide) (by decide)), if_neg (other (by decide) (by decide)),
    if_neg (other (by decide) (by decide)), if_neg (other (by decide) (by decide)), if_pos start]
  exact parsed

end

theorem item_accepted {start behind : List Char} (before : Blank text start)
    (reads : Reads passed (.value tree) start behind) (after : Blank behind rest)
    (value : Accepted limits (.value tree) start behind) : Accepted limits (.item tree) text rest := by
  intro depth levels p level stops ahead within room
  obtain ⟨inner, parts⟩ := parts_head depth tree
  have shallow : depth ≤ limits.maxDepth := by
    rw [parts, within_cons] at within
    exact within.1.1
  obtain ⟨first, more, shape, shown, -⟩ := value_head reads
  have scanned : text.dropWhile isBlank = start :=
    before.ends (by rw [shape, head?_cons]; exact shown)
  cases levels with
  | zero => omega
  | succ levels =>
    have count : (tree.parts depth).length = (tree.parts depth).length - 1 + 1 := by
      rw [parts]
      rfl
    have nodes := room.nodes
    have bumped : ({ p with nodes := p.nodes + 1 } : Parser).skipWs.rest = encode start := by
      rw [← scanned]
      exact ahead
    obtain ⟨q, dispatched, there⟩ := value depth levels ({ p with nodes := p.nodes + 1 } : Parser).skipWs
      (by omega) (stops.ends after) bumped within
      ⟨by change p.nodes + 1 + _ ≤ _; omega, room.bytes⟩
    refine ⟨q, ?_, ?_, ?_, there.bytes⟩
    · rw [parseValue, bind_ok]
      exact ⟨_, bump_iff.mpr ⟨by omega, rfl⟩, dispatched⟩
    · rw [skip_ws there.view, after.ends stops.shown]
    · have sum : q.nodes = p.nodes + 1 + _ := there.nodes
      change q.nodes = _
      omega

theorem comma_stops (rest : List Char) : Stops (',' :: rest) := by
  rintro _ ⟨⟩
  exact .inl rfl

theorem bracket_stops (rest : List Char) : Stops (']' :: rest) := by
  rintro _ ⟨⟩
  exact .inr (.inl rfl)

theorem brace_stops (rest : List Char) : Stops ('}' :: rest) := by
  rintro _ ⟨⟩
  exact .inr (.inr rfl)

theorem last_item_accepted (pinned : limits.maxAggregateBytes < usizeMax)
    (item : Accepted limits (.item tree) text rest) : Accepted limits (.items [tree]) text rest := by
  rintro depth levels p left items after level rfl ahead few within room
  rw [itemParts, itemParts, append_nil] at within room ⊢
  cases left with
  | zero => simp at few
  | succ left =>
    obtain ⟨q, parsed, there⟩ := item depth levels p level (bracket_stops after) ahead within
      ⟨room.nodes, by have bytes := room.bytes; omega⟩
    have bytes : q.aggregateBytes = p.aggregateBytes + partBytes (tree.parts depth) := there.bytes
    have fits := room.bytes
    refine ⟨{ q.skipWs.advance 1 with aggregateBytes := q.aggregateBytes + containerDelimiterBytes }, ?_,
      ⟨view_next (by decide) there.view, there.nodes, ?_⟩⟩
    · rw [arrayLoop, bind_ok]
      refine ⟨_, parsed, ?_⟩
      dsimp only
      rw [if_neg fun same => by simpa using (get_iff there.view (by decide)).mp same,
        if_pos ((get_iff there.view (by decide)).mpr rfl), bind_ok]
      refine ⟨_, (charge_iff pinned).mpr ⟨?_, rfl⟩, rfl⟩
      change q.aggregateBytes + _ ≤ _
      omega
    · change q.aggregateBytes + _ = _
      omega

theorem next_item_accepted {trees : List Json} {next : List Char}
    (item : Accepted limits (.item tree) text (',' :: next))
    (others : Accepted limits (.items trees) next rest) :
    Accepted limits (.items (tree :: trees)) text rest := by
  intro depth levels p left items after level ends ahead few within room
  rw [itemParts, length_append, part_bytes_append] at room ⊢
  rw [itemParts, within_append] at within
  have nodes := room.nodes
  have bytes := room.bytes
  cases left with
  | zero => simp at few
  | succ left =>
    obtain ⟨middle, parsed, there⟩ := item depth levels p level (comma_stops next) ahead within.1
      ⟨by omega, by omega⟩
    have nodesThere : middle.nodes = p.nodes + _ := there.nodes
    have bytesThere : middle.aggregateBytes = p.aggregateBytes + _ := there.bytes
    obtain ⟨q, looped, last⟩ := others depth levels (middle.skipWs.advance 1) left
      (items ++ [valueOf tree]) after level ends (ahead_of_view (view_next (by decide) there.view))
      (le_of_succ_le_succ few) within.2
      ⟨by change middle.nodes + _ ≤ _; omega, by change middle.aggregateBytes + _ ≤ _; omega⟩
    have nodesLast : q.nodes = middle.nodes + _ := last.nodes
    have bytesLast : q.aggregateBytes = middle.aggregateBytes + _ := last.bytes
    refine ⟨q, ?_, last.view, by omega, by omega⟩
    rw [arrayLoop, bind_ok]
    refine ⟨_, parsed, ?_⟩
    dsimp only
    rw [if_pos ((get_iff there.view (by decide)).mpr rfl), looped, append_assoc]
    rfl

theorem empty_array_accepted (pinned : limits.maxAggregateBytes < usizeMax)
    (blank : Blank text (']' :: rest) ) : Accepted limits (.value (.array [])) ('[' :: text) rest := by
  intro depth levels p _ _ view within room
  have skipped := skip_ws (view_next (by decide) view)
  rw [blank.ends rfl] at skipped
  refine ⟨{ ((p.advance 1).skipWs).advance 1 with
    aggregateBytes := p.aggregateBytes + containerDelimiterBytes }, ?_,
    ⟨view_next (by decide) skipped, rfl, rfl⟩⟩
  rw [dispatch_char view, if_neg (by decide), if_neg (by decide), if_neg (by decide),
    if_neg (by decide), if_pos rfl, parseArray]
  rw [if_pos ((get_iff skipped (by decide)).mpr rfl), bind_ok, valueOf]
  exact ⟨_, (charge_iff pinned).mpr ⟨room.bytes, rfl⟩, rfl⟩

theorem items_head {opening : Bool → Char → Prop} {trees : List Json}
    (reads : Reads opening (.items trees) text rest) : (text.dropWhile isBlank).head? ≠ some ']' := by
  have start {tree : Json} {rest : List Char} (item : Reads opening (.item tree) text rest) :
      (text.dropWhile isBlank).head? ≠ some ']' := by
    cases item with
    | item before value after =>
      obtain ⟨first, more, rfl, shown, other⟩ := value_head value
      rw [before.ends (by rw [head?_cons, Option.any_some]; exact shown)]
      exact fun same => other (Option.some.inj same)
  cases reads with
  | lastItem item | nextItem item _ => exact start item

theorem array_accepted {trees : List Json} (reads : Reads passed (.items trees) text (']' :: rest) )
    (items : Accepted limits (.items trees) text (']' :: rest)) :
    Accepted limits (.value (.array trees)) ('[' :: text) rest := by
  intro depth levels p level _ view within room
  rw [Json.parts, within_cons] at within
  rw [Json.parts, part_bytes_cons, ownBytes, length_cons] at room ⊢
  have next : (p.advance 1).rest = encode text := view_next (by decide) view
  have skipped := skip_ws next
  obtain ⟨q, looped, there⟩ := items (depth + 1) levels (p.advance 1).skipWs limits.maxEntries [] rest
    (by omega) rfl (ahead_of_view next).skipped within.1.2 within.2
    ⟨room.nodes, by rw [Nat.add_comm (partBytes _)]; exact room.bytes⟩
  refine ⟨q, ?_, there.view, there.nodes, by rw [Nat.add_comm containerDelimiterBytes]; exact there.bytes⟩
  rw [dispatch_char view, if_neg (by decide), if_neg (by decide), if_neg (by decide)]
  exact (if_neg fun same => items_head reads ((get_iff skipped (by decide)).mp same)).trans looped

theorem member_accepted (pinned : limits.maxAggregateBytes < usizeMax) {first : Bool}
    {scalar : Char} {key : List Char} {spelled colon value : List Char}
    (before : Blank text (scalar :: spelled)) (opened : passed first scalar)
    (spells : Spells spelled key colon) (pointed : Blank colon (':' :: value))
    (item : Accepted limits (.item tree) value rest) :
    Accepted limits (.member first key tree) text rest := by
  intro depth levels p entries level stops ahead fresh short within room
  have nodes := room.nodes
  have bytes := room.bytes
  have opening : p.skipWs.rest = encode (scalar :: spelled) := by
    rw [← before.ends (by rw [head?_cons, Option.any_some]; exact opened.2.1)]
    exact ahead
  have fits : p.skipWs.aggregateBytes + size key ≤ limits.maxAggregateBytes := by
    change p.aggregateBytes + _ ≤ _
    omega
  obtain ⟨place, string, there⟩ :=
    parse_string_complete pinned (view_next opened.1 opening) spells short fits
  have nodesThere : place.nodes = p.nodes + 0 := there.nodes
  have bytesThere : place.aggregateBytes = p.aggregateBytes + size key := there.bytes
  have atColon := skip_ws there.view
  rw [pointed.ends rfl] at atColon
  obtain ⟨q, parsed, last⟩ := item depth levels (place.skipWs.advance 1) level stops
    (ahead_of_view (view_next (by decide) atColon)) within
    ⟨by change place.nodes + _ ≤ _; omega, by change place.aggregateBytes + _ ≤ _; omega⟩
  have nodesLast : q.skipWs.nodes = place.nodes + _ := last.nodes
  have bytesLast : q.skipWs.aggregateBytes = place.aggregateBytes + _ := last.bytes
  refine ⟨place.skipWs.advance 1, q, ?_, parsed, last.view, by omega, by omega⟩
  rw [parseKey, bind_ok]
  refine ⟨_, string, ?_⟩
  dsimp only
  have unseen : ¬ (entries.any fun entry => entry.1 == key) = true := by
    rw [any_eq_true]
    rintro ⟨entry, among, same⟩
    exact fresh (mem_map.mpr ⟨entry, among, by simpa using same⟩)
  rw [if_neg unseen, if_neg (not_not.mpr ((get_iff atColon (by decide)).mpr rfl))]

theorem last_member_accepted (pinned : limits.maxAggregateBytes < usizeMax) {first : Bool}
    {key : List Char} (member : Accepted limits (.member first key tree) text rest) :
    Accepted limits (.members first [(key, tree)]) text rest := by
  rintro depth levels p left entries after level rfl ahead few distinct shorts within room
  have keys : keyBytes [(key, tree)] = size key := by simp [keyBytes]
  rw [entryParts, entryParts, append_nil] at within room ⊢
  have bytes := room.bytes
  cases left with
  | zero => simp at few
  | succ left =>
    have fresh : key ∉ entries.map Prod.fst := by
      intro among
      exact (nodup_append.mp distinct).2.2 key among key mem_cons_self rfl
    obtain ⟨colon, q, keyed, parsed, there⟩ := member depth levels p entries level (brace_stops after)
      ahead fresh (shorts _ mem_cons_self) within ⟨room.nodes, by omega⟩
    have bytesThere : q.aggregateBytes = p.aggregateBytes + _ := there.bytes
    refine ⟨{ q.skipWs.advance 1 with aggregateBytes := q.aggregateBytes + containerDelimiterBytes }, ?_,
      ⟨view_next (by decide) there.view, there.nodes, ?_⟩⟩
    · rw [objectLoop, bind_ok]
      refine ⟨_, keyed, bind_ok.mpr ⟨_, parsed, ?_⟩⟩
      dsimp only
      rw [if_neg fun same => by simpa using (get_iff there.view (by decide)).mp same,
        if_pos ((get_iff there.view (by decide)).mpr rfl), bind_ok]
      refine ⟨_, (charge_iff pinned).mpr ⟨?_, rfl⟩, rfl⟩
      change q.aggregateBytes + _ ≤ _
      omega
    · change q.aggregateBytes + _ = _
      omega

theorem next_member_accepted {first : Bool} {key : List Char} {pairs : List (List Char × Json)}
    {next : List Char} (member : Accepted limits (.member first key tree) text (',' :: next))
    (others : Accepted limits (.members false pairs) next rest) :
    Accepted limits (.members first ((key, tree) :: pairs)) text rest := by
  intro depth levels p left entries after level ends ahead few distinct shorts within room
  have keys : keyBytes ((key, tree) :: pairs) = size key + keyBytes pairs := by simp [keyBytes]
  rw [entryParts, length_append, part_bytes_append] at room ⊢
  rw [entryParts, within_append] at within
  have nodes := room.nodes
  have bytes := room.bytes
  cases left with
  | zero => simp at few
  | succ left =>
    have fresh : key ∉ entries.map Prod.fst := by
      intro among
      exact (nodup_append.mp distinct).2.2 key among key mem_cons_self rfl
    have apart : ((entries ++ [(key, valueOf tree)]).map Prod.fst ++ pairs.map Prod.fst).Nodup := by
      rw [map_append, append_assoc]
      exact distinct
    obtain ⟨colon, middle, keyed, parsed, there⟩ := member depth levels p entries level
      (comma_stops next) ahead fresh (shorts _ mem_cons_self) within.1 ⟨by omega, by omega⟩
    have nodesThere : middle.nodes = p.nodes + _ := there.nodes
    have bytesThere : middle.aggregateBytes = p.aggregateBytes + _ := there.bytes
    obtain ⟨q, looped, last⟩ := others depth levels (middle.skipWs.advance 1) left
      (entries ++ [(key, valueOf tree)]) after level ends
      (ahead_of_view (view_next (by decide) there.view)) (le_of_succ_le_succ few) apart
      (fun entry among => shorts entry (mem_cons_of_mem _ among)) within.2
      ⟨by change middle.nodes + _ ≤ _; omega, by change middle.aggregateBytes + _ ≤ _; omega⟩
    have nodesLast : q.nodes = middle.nodes + _ := last.nodes
    have bytesLast : q.aggregateBytes = middle.aggregateBytes + _ := last.bytes
    refine ⟨q, ?_, last.view, by omega, by omega⟩
    rw [objectLoop, bind_ok]
    refine ⟨_, keyed, bind_ok.mpr ⟨_, parsed, ?_⟩⟩
    dsimp only
    rw [if_pos ((get_iff there.view (by decide)).mpr rfl), looped, append_assoc]
    rfl

theorem empty_object_accepted (pinned : limits.maxAggregateBytes < usizeMax)
    (blank : Blank text ('}' :: rest) ) : Accepted limits (.value (.object [])) ('{' :: text) rest := by
  intro depth levels p _ _ view within room
  have skipped := skip_ws (view_next (by decide) view)
  rw [blank.ends rfl] at skipped
  refine ⟨{ ((p.advance 1).skipWs).advance 1 with
    aggregateBytes := p.aggregateBytes + containerDelimiterBytes }, ?_,
    ⟨view_next (by decide) skipped, rfl, rfl⟩⟩
  rw [dispatch_char view, if_neg (by decide), if_neg (by decide), if_neg (by decide),
    if_neg (by decide), if_neg (by decide), if_pos rfl, parseObject]
  rw [if_pos ((get_iff skipped (by decide)).mpr rfl), bind_ok, valueOf]
  exact ⟨_, (charge_iff pinned).mpr ⟨room.bytes, rfl⟩, rfl⟩

theorem members_head {pairs : List (List Char × Json)}
    (reads : Reads passed (.members true pairs) text rest) : (text.dropWhile isBlank).head? ≠ some '}' := by
  have start {key : List Char} {tree : Json} {rest : List Char}
      (member : Reads passed (.member true key tree) text rest) :
      (text.dropWhile isBlank).head? ≠ some '}' := by
    cases member with
    | member before opened spells after item =>
      rw [before.ends (by rw [head?_cons, Option.any_some]; exact opened.2.1)]
      exact fun same => opened.2.2 rfl (Option.some.inj same)
  cases reads with
  | lastMember member | nextMember member _ => exact start member

theorem object_accepted {pairs : List (List Char × Json)}
    (reads : Reads passed (.members true pairs) text ('}' :: rest) )
    (members : Accepted limits (.members true pairs) text ('}' :: rest)) :
    Accepted limits (.value (.object pairs)) ('{' :: text) rest := by
  intro depth levels p level _ view within room
  rw [Json.parts, within_cons] at within
  obtain ⟨⟨-, few, distinct, shorts⟩, inner⟩ := within
  rw [Json.parts, part_bytes_cons, ownBytes, length_cons] at room ⊢
  have total : containerDelimiterBytes + keyBytes pairs + partBytes (entryParts (depth + 1) pairs) =
      partBytes (entryParts (depth + 1) pairs) + keyBytes pairs + containerDelimiterBytes := by omega
  rw [total] at room ⊢
  have next : (p.advance 1).rest = encode text := view_next (by decide) view
  have skipped := skip_ws next
  obtain ⟨q, looped, there⟩ := members (depth + 1) levels (p.advance 1).skipWs limits.maxEntries [] rest
    (by omega) rfl (ahead_of_view next).skipped few distinct shorts inner ⟨room.nodes, room.bytes⟩
  refine ⟨q, ?_, there.view, there.nodes, there.bytes⟩
  rw [dispatch_char view, if_neg (by decide), if_neg (by decide), if_neg (by decide)]
  exact (if_neg fun same => members_head reads ((get_iff skipped (by decide)).mp same)).trans looped

/-- Whatever can be read is accepted where there is room for it. -/
theorem reads_accepted (pinned : limits.maxAggregateBytes < usizeMax)
    (exponents : limits.maxAbsoluteExponent ≤ i64Max) {phrase : Phrase}
    (reads : Reads passed phrase text rest) : Accepted limits phrase text rest := by
  induction reads with
  | null rest =>
    intro depth levels p _ _ view _ room
    rw [dispatch_char view]
    exact literal_accepted pinned (by rw [Json.parts]) rfl view room
  | true rest =>
    intro depth levels p _ _ view _ room
    rw [dispatch_char view, if_pos rfl]
    exact literal_accepted pinned (by rw [Json.parts]) rfl view room
  | false rest =>
    intro depth levels p _ _ view _ room
    rw [dispatch_char view, if_neg (by decide), if_pos rfl]
    exact literal_accepted pinned (by rw [Json.parts]) rfl view room
  | number rest number => exact number_accepted pinned exponents number
  | string spells => exact string_accepted pinned spells
  | emptyArray blank => exact empty_array_accepted pinned blank
  | array items ih => exact array_accepted items ih
  | emptyObject blank => exact empty_object_accepted pinned blank
  | object members ih => exact object_accepted members ih
  | item before value after ih => exact item_accepted before value after ih
  | lastItem _ ih => exact last_item_accepted pinned ih
  | nextItem _ _ ihItem ihItems => exact next_item_accepted ihItem ihItems
  | member before opened spells after _ ih => exact member_accepted pinned before opened spells after ih
  | lastMember _ ih => exact last_member_accepted pinned ih
  | nextMember _ _ ihMember ihMembers => exact next_member_accepted ihMember ihMembers

end Completeness

section Entry
variable {Digest : Type} (toJson : StructuredValue → Option (List UInt8))
  (ofBytes : List UInt8 → Digest)

theorem pinned_bounds {limits : StructuredMutationLimits} (pinned : limits.withinPinnedV1 = true) :
    limits.maxAggregateBytes < usizeMax ∧ limits.maxAbsoluteExponent ≤ i64Max := by
  have aggregate : pinnedV1Maxima.maxAggregateBytes < usizeMax := by decide
  have exponent : pinnedV1Maxima.maxAbsoluteExponent ≤ i64Max := by decide
  simp only [StructuredMutationLimits.withinPinnedV1, Bool.and_eq_true, decide_eq_true_eq] at pinned
  omega

theorem payload_iff {raw payload : List Char} :
    structuredPayload raw = .ok payload ↔ raw = structuredPrefix ++ payload := by
  unfold structuredPayload
  constructor
  · intro stripped
    split at stripped
    · rename_i starts
      obtain ⟨rest, rfl⟩ := starts
      cases stripped
      rw [drop_left]
    · cases stripped
  · rintro rfl
    rw [if_pos (prefix_append _ _), drop_left]

/-- `Accepts raw limits value`: the parser returns an envelope with the value. -/
def Accepts (raw : List Char) (limits : StructuredMutationLimits) (value : StructuredValue) : Prop :=
  ∃ envelope, parseStructuredMutation toJson ofBytes raw limits = .ok envelope ∧ envelope.value = value

theorem accepts_sound {raw : List Char} {limits : StructuredMutationLimits} {value : StructuredValue}
    (pinned : limits.withinPinnedV1 = true) (accepts : Accepts toJson ofBytes raw limits value) :
    Profile passed limits raw value := by
  obtain ⟨aggregate, -⟩ := pinned_bounds pinned
  obtain ⟨envelope, parsed, rfl⟩ := accepts
  obtain ⟨payload, stripped, parsed⟩ := bind_ok.mp parsed
  obtain rfl := payload_iff.mp stripped
  split at parsed
  · cases parsed
  rename_i sized
  rw [if_neg (by simp [pinned])] at parsed
  obtain ⟨⟨value, p⟩, valued, parsed⟩ := bind_ok.mp parsed
  obtain ⟨tree, start, rest, blank, reads, rfl, within, behind, inside⟩ :=
    parse_value_sound aggregate (Nat.add_zero _) (.new (encode payload)) p payload value rfl
      ⟨Nat.zero_le _, Nat.zero_le _⟩ valued
  dsimp only at parsed
  split at parsed
  · cases parsed
  rename_i consumed
  have skipped := skip_ws behind.view
  rw [not_not.mp consumed] at skipped
  have scanned := blank_scan rest
  rw [encode_injective (skipped.symm.trans encode_nil.symm)] at scanned
  split at parsed
  · cases parsed
  cases parsed
  have nodes : p.nodes = 0 + _ := behind.nodes
  have bytes : p.aggregateBytes = 0 + _ := behind.bytes
  have budgetNodes := inside.nodes
  have budgetBytes := inside.bytes
  exact ⟨Nat.not_lt.mp sized, payload, tree, rfl, .item blank reads scanned,
    ⟨within, by omega, by omega⟩, rfl⟩

theorem accepts_complete (total : ∀ value, (toJson value).isSome = true) {raw : List Char}
    {limits : StructuredMutationLimits} {value : StructuredValue}
    (pinned : limits.withinPinnedV1 = true) (profile : Profile passed limits raw value) :
    Accepts toJson ofBytes raw limits value := by
  obtain ⟨aggregate, exponents⟩ := pinned_bounds pinned
  obtain ⟨sized, payload, tree, rfl, reads, admitted, rfl⟩ := profile
  obtain ⟨q, parsed, behind⟩ := reads_accepted aggregate exponents reads 0 (limits.maxDepth + 1)
    (.new (encode payload)) rfl nofun (ahead_of_view rfl) admitted.within
    ⟨by have nodes := admitted.nodes; change 0 + _ ≤ _; omega,
      by have bytes := admitted.bytes; change 0 + _ ≤ _; omega⟩
  obtain ⟨canonical, serialized⟩ := Option.isSome_iff_exists.mp (total (valueOf tree))
  refine ⟨⟨mutationStructuredValueSchemaVersion, valueOf tree, ofBytes canonical⟩, ?_, rfl⟩
  refine bind_ok.mpr ⟨payload, payload_iff.mpr rfl, ?_⟩
  rw [if_neg (Nat.not_lt.mpr sized), if_neg (by simp [pinned])]
  refine bind_ok.mpr ⟨_, parsed, ?_⟩
  dsimp only
  have consumed : q.skipWs.rest = [] := behind.view
  rw [if_neg (not_not.mpr consumed), serialized]

/-- The parser accepts exactly the grammar's texts, within the limits and with the value they
denote, when no text is read only by letting another character than the quotation mark open a key.
-/
theorem grammar_exact_iff (total : ∀ value, (toJson value).isSome = true) (raw : List Char)
    (limits : StructuredMutationLimits) (pinned : limits.withinPinnedV1 = true) :
    (∀ value, Accepts toJson ofBytes raw limits value ↔ Profile quoted limits raw value) ↔
      ∀ value, Profile passed limits raw value → Profile quoted limits raw value := by
  constructor
  · intro exact value profile
    exact (exact value).mp (accepts_complete toJson ofBytes total pinned profile)
  · intro kept value
    constructor
    · exact fun accepts => kept value (accepts_sound toJson ofBytes pinned accepts)
    · rintro ⟨sized, payload, tree, rfl, reads, admitted, rfl⟩
      exact accepts_complete toJson ofBytes total pinned
        ⟨sized, payload, tree, rfl, reads.loosen quoted_passed, admitted, rfl⟩

end Entry

section Samples

def sampleJson : StructuredValue → Option (List UInt8)
  | .null => some (encode ['"', 'N', 'u', 'l', 'l', '"'])
  | _ => some (encode ("\x7b\"Object\":[[\"a\",\x7b\"Integer\":1\x7d]]\x7d".toList))

theorem sample_json_total (value : StructuredValue) : (sampleJson value).isSome = true := by
  cases value <;> rfl

def bareKey : List Char := ['{', 'x', 'a', '"', ':', '1', '}']

variable {more rest : List Char}

theorem quoted_member {first : Bool} {key : List Char} {tree : Json} :
    ¬ Reads quoted (.member first key tree) ('x' :: more) rest := by
  intro reads
  cases reads with
  | member before opened _ _ _ =>
    cases opened
    rcases before.head with same | blank
    · cases same
    · exact absurd blank (Bool.false_ne_true)

theorem quoted_members {pairs : List (List Char × Json)} :
    ¬ Reads quoted (.members true pairs) ('x' :: more) rest := by
  intro reads
  cases reads with
  | lastMember member | nextMember member _ => exact quoted_member member

theorem quoted_value {tree : Json} {text : List Char} (reads : Reads quoted (.value tree) text rest) :
    text ≠ '{' :: 'x' :: more := by
  intro shape
  cases reads with
  | null => cases shape
  | true => cases shape
  | false => cases shape
  | number _ number =>
    obtain ⟨first, others, rfl, start⟩ := number_head number
    obtain ⟨rfl, -⟩ := List.cons.inj shape
    rcases start with minus | isDigit
    · exact absurd minus (by decide)
    · exact absurd isDigit (by decide)
  | string => cases shape
  | emptyArray => cases shape
  | array => cases shape
  | emptyObject blank =>
    cases shape
    rcases blank.head with same | blank
    · cases same
    · exact absurd blank (Bool.false_ne_true)
  | object members =>
    cases shape
    exact quoted_members members

/-- The text is accepted, as if the key's first character were its opening quotation mark. -/
theorem bare_key_accepted :
    Accepts sampleJson id (structuredPrefix ++ bareKey) pinnedV1Maxima (.object [(['a'], .integer 1)]) ∧
      ¬ Profile quoted pinnedV1Maxima (structuredPrefix ++ bareKey) (.object [(['a'], .integer 1)]) := by
  refine ⟨⟨_, rfl, rfl⟩, ?_⟩
  rintro ⟨-, payload, tree, same, reads, -, -⟩
  obtain rfl := append_cancel_left same
  cases reads with
  | item before value after =>
    rcases before.head with rfl | blank
    · exact quoted_value value rfl
    · exact absurd blank (Bool.false_ne_true)

theorem null_value {opening : Bool → Char → Prop} {tree : Json} {text : List Char}
    (reads : Reads opening (.value tree) text rest) (shape : text = 'n' :: more) :
    tree = .null ∧ text = ['n', 'u', 'l', 'l'] ++ rest := by
  cases reads with
  | null => exact ⟨rfl, rfl⟩
  | true => cases shape
  | false => cases shape
  | number _ number =>
    obtain ⟨first, others, rfl, start⟩ := number_head number
    obtain ⟨rfl, -⟩ := List.cons.inj shape
    rcases start with minus | isDigit
    · exact absurd minus (by decide)
    · exact absurd isDigit (by decide)
  | string => cases shape
  | emptyArray => cases shape
  | array => cases shape
  | emptyObject => cases shape
  | object => cases shape

theorem null_exact :
    (∀ value, Profile passed pinnedV1Maxima (structuredPrefix ++ ['n', 'u', 'l', 'l']) value →
      Profile quoted pinnedV1Maxima (structuredPrefix ++ ['n', 'u', 'l', 'l']) value) ∧
    ∀ value, Accepts sampleJson id (structuredPrefix ++ ['n', 'u', 'l', 'l']) pinnedV1Maxima value ↔
      Profile quoted pinnedV1Maxima (structuredPrefix ++ ['n', 'u', 'l', 'l']) value := by
  have kept : ∀ value, Profile passed pinnedV1Maxima (structuredPrefix ++ ['n', 'u', 'l', 'l']) value →
      Profile quoted pinnedV1Maxima (structuredPrefix ++ ['n', 'u', 'l', 'l']) value := by
    rintro other ⟨sized, payload, tree, same, reads, admitted, rfl⟩
    obtain rfl := append_cancel_left same
    refine ⟨sized, _, tree, rfl, ?_, admitted, rfl⟩
    cases reads with
    | item before value after =>
      rcases before.head with rfl | blank
      · obtain ⟨rfl, shape⟩ := null_value value rfl
        rw [shape]
        exact .item (.stop _) (.null _) after
      · exact absurd blank (Bool.false_ne_true)
  exact ⟨kept,
    (grammar_exact_iff sampleJson id sample_json_total _ pinnedV1Maxima (by decide)).mpr kept⟩

end Samples

end PerlLsp.StructuredMutation
