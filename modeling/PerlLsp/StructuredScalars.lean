import PerlLsp.JsonGrammar
import PerlLsp.StructuredMutation

/-! The scalars of the structured mutation parser against the JSON grammar. The parser's
bytes are the encoding of characters at every place where a value begins; what is proved
of a place is stated over these characters. -/
namespace PerlLsp.StructuredMutation
open Utf8 Text JsonGrammar List Char Option

section Places

theorem byte_nat {scalar : Char} (ascii : scalar.val.toNat < 0x80) :
    (byte scalar).toNat = scalar.val.toNat := by
  rw [byte, UInt8.toNat_ofNat']
  omega

theorem byte_eq_iff {left right : Char} (leftAscii : left.val.toNat < 0x80)
    (rightAscii : right.val.toNat < 0x80) : byte left = byte right ↔ left = right := by
  rw [← UInt8.toNat_inj, byte_nat leftAscii, byte_nat rightAscii, UInt32.toNat_inj, val_inj]

theorem encode_byte {scalar : Char} (ascii : scalar.val.toNat < 0x80) (rest : List Char) :
    encode (scalar :: rest) = byte scalar :: encode rest := by
  rw [encode_cons, encode_ascii scalar ascii]
  rfl

/-- A low byte in front is an ASCII character. -/
theorem low_byte_char {text : List Char} {b : UInt8} {rest : List UInt8} (low : b.toNat < 0x80)
    (bytes : encode text = b :: rest) :
    ∃ scalar more, text = scalar :: more ∧ scalar.val.toNat < 0x80 ∧ b = byte scalar ∧
      rest = encode more := by
  cases text with
  | nil => cases bytes
  | cons scalar more =>
    by_cases ascii : scalar.val.toNat < 0x80
    · rw [encode_byte ascii] at bytes
      obtain ⟨rfl, rfl⟩ := List.cons.inj bytes
      exact ⟨scalar, more, rfl, ascii, rfl, rfl⟩
    obtain ⟨first, tail, shape⟩ := encoded_nonempty scalar
    have high := encoded_high scalar (by omega) first (by rw [shape]; simp)
    rw [encode_cons, shape, cons_append] at bytes
    obtain ⟨rfl, -⟩ := List.cons.inj bytes
    rw [UInt8.le_iff_toNat_le] at high
    change 128 ≤ _ at high
    omega

variable {p : Parser} {text : List Char}

theorem get_iff (view : p.rest = encode text) {scalar : Char} (ascii : scalar.val.toNat < 0x80) :
    p.get = some (byte scalar) ↔ text.head? = some scalar := by
  rw [Parser.get, view]
  exact encode_head text scalar ascii

theorem low_of_narrow {scalar : Char} (narrow : scalar.utf8Size = 1) : scalar.val.toNat < 0x80 := by
  by_contra high
  rw [← String.length_utf8EncodeChar, String.utf8EncodeChar, if_neg (by omega)] at narrow
  split at narrow
  · cases narrow
  · split at narrow <;> cases narrow

theorem view_advance {front back : List Char} (view : p.rest = encode (front ++ back)) :
    (p.advance (size front)).rest = encode back := by
  change p.rest.drop (size front) = _
  rw [view, encode_append]
  exact drop_left' rfl

theorem view_next {scalar : Char} (ascii : scalar.val.toNat < 0x80)
    (view : p.rest = encode (scalar :: text)) : (p.advance 1).rest = encode text := by
  change p.rest.drop 1 = _
  rw [view, encode_byte ascii]
  rfl

theorem size_ascii (ascii : ∀ scalar ∈ text, scalar.val.toNat < 0x80) : size text = text.length := by
  induction text with
  | nil => rfl
  | cons scalar rest ih =>
    have one : scalar.utf8Size = 1 := by
      rw [← String.length_utf8EncodeChar, encode_ascii scalar (ascii scalar mem_cons_self)]
      rfl
    rw [size_cons, one, ih fun other member => ascii other (mem_cons_of_mem _ member),
      length_cons, Nat.add_comm]

structure Tells (accepted : UInt8 → Bool) (keep : Char → Bool) : Prop where
  low : ∀ b, accepted b = true → b.toNat < 0x80
  ascii : ∀ scalar, keep scalar = true → scalar.val.toNat < 0x80
  same : ∀ scalar, scalar.val.toNat < 0x80 → accepted (byte scalar) = keep scalar

section
variable {accepted : UInt8 → Bool} {keep : Char → Bool} (tells : Tells accepted keep)
include accepted keep tells

theorem Tells.take_while : (encode text).takeWhile accepted = encode (text.takeWhile keep) := by
  apply encode_take_while
  · intro scalar kept b member
    have ascii := tells.ascii scalar kept
    rw [encode_ascii scalar ascii, mem_singleton] at member
    subst member
    exact (tells.same scalar ascii).trans kept
  · intro scalar refused
    obtain ⟨first, tail, shape⟩ := encoded_nonempty scalar
    refine ⟨first, tail, shape, ?_⟩
    by_contra some
    rw [Bool.not_eq_false] at some
    have bytes : encode [scalar] = first :: tail := by rw [encode_cons, shape]; simp
    obtain ⟨other, rest, same, ascii, rfl, -⟩ := low_byte_char (tells.low first some) bytes
    obtain ⟨rfl, -⟩ := List.cons.inj same
    rw [tells.same _ ascii, refused] at some
    cases some

theorem Tells.advance_while (view : p.rest = encode text) :
    p.advanceWhile accepted = p.advance (text.takeWhile keep).length ∧
      (p.advanceWhile accepted).rest = encode (text.dropWhile keep) := by
  have width : (p.rest.takeWhile accepted).length = (text.takeWhile keep).length := by
    rw [view, tells.take_while]
    exact size_ascii fun scalar member => tells.ascii scalar (mem_takeWhile_imp member)
  have front : (text.takeWhile keep).length = size (text.takeWhile keep) :=
    (size_ascii fun scalar member => tells.ascii scalar (mem_takeWhile_imp member)).symm
  have moved : p.advanceWhile accepted = p.advance (text.takeWhile keep).length := by
    rw [Parser.advanceWhile, width]
  refine ⟨moved, ?_⟩
  rw [moved, front]
  apply view_advance
  rw [takeWhile_append_dropWhile, view]

theorem Tells.at_place (view : p.rest = encode text) : p.get.any accepted = text.head?.any keep := by
  rw [Parser.get, view]
  cases text with
  | nil => rfl
  | cons scalar rest =>
    by_cases ascii : scalar.val.toNat < 0x80
    · rw [encode_byte ascii]
      exact tells.same scalar ascii
    obtain ⟨first, tail, shape⟩ := encoded_nonempty scalar
    rw [encode_cons, shape]
    change accepted first = keep scalar
    have refused : keep scalar = false := by
      by_contra kept
      exact ascii (tells.ascii scalar (Bool.of_not_eq_false kept))
    rw [refused]
    by_contra some
    have bytes : encode [scalar] = first :: tail := by rw [encode_cons, shape]; simp
    obtain ⟨other, more, same, low, -⟩ :=
      low_byte_char (tells.low first (Bool.of_not_eq_false some)) bytes
    obtain ⟨rfl, -⟩ := List.cons.inj same
    exact ascii low

end

theorem tells_blank : Tells isWs isBlank where
  low b some := by
    simp only [isWs, Bool.or_eq_true, beq_iff_eq] at some
    rcases some with ((rfl | rfl) | rfl) | rfl <;> decide
  ascii scalar kept := by
    simp only [isBlank, Bool.or_eq_true, beq_iff_eq] at kept
    rcases kept with ((rfl | rfl) | rfl) | rfl <;> decide
  same scalar ascii := by
    have bytes (other : Char) (low : other.val.toNat < 0x80) :
        (byte scalar == byte other) = (scalar == other) := by
      rw [Bool.eq_iff_iff, beq_iff_eq, beq_iff_eq, byte_eq_iff ascii low]
    simp only [isWs, isBlank]
    rw [bytes ' ' (by decide), bytes '\t' (by decide), bytes '\n' (by decide), bytes '\r' (by decide)]

theorem byte_le_iff {left right : Char} (leftAscii : left.val.toNat < 0x80)
    (rightAscii : right.val.toNat < 0x80) : byte left ≤ byte right ↔ left ≤ right := by
  rw [UInt8.le_iff_toNat_le, byte_nat leftAscii, byte_nat rightAscii, le_def, UInt32.le_iff_toNat_le]

theorem tells_digit : Tells isAsciiDigit Char.isDigit where
  low b some := by
    simp only [isAsciiDigit, Bool.and_eq_true, decide_eq_true_eq] at some
    have limit := UInt8.le_iff_toNat_le.mp some.2
    change _ ≤ 57 at limit
    omega
  ascii scalar kept := by
    have limit := (digit_range scalar kept).2
    change scalar.val.toNat ≤ 57 at limit
    omega
  same scalar ascii := by
    rw [isAsciiDigit, Bool.eq_iff_iff, Bool.and_eq_true, decide_eq_true_eq, decide_eq_true_eq,
      byte_le_iff (by decide) ascii, byte_le_iff ascii (by decide)]
    simp [Char.isDigit, le_def]

end Places

section Budgets
variable {limits : StructuredMutationLimits}

/-- Behind `p`, with this rest, so many nodes and bytes later. -/
structure Behind (p q : Parser) (rest : List Char) (nodes bytes : Nat) : Prop where
  view : q.rest = encode rest
  nodes : q.nodes = p.nodes + nodes
  bytes : q.aggregateBytes = p.aggregateBytes + bytes

structure InBudget (limits : StructuredMutationLimits) (p : Parser) : Prop where
  nodes : p.nodes ≤ limits.maxNodes
  bytes : p.aggregateBytes ≤ limits.maxAggregateBytes

/-- The sum does not saturate below the pinned maximum. -/
theorem charge_iff (pinned : limits.maxAggregateBytes < usizeMax) {count : Nat} {p q : Parser} :
    chargeBytes limits count p = .ok q ↔ p.aggregateBytes + count ≤ limits.maxAggregateBytes ∧
      q = { p with aggregateBytes := p.aggregateBytes + count } := by
  unfold chargeBytes
  dsimp only
  by_cases fits : p.aggregateBytes + count ≤ limits.maxAggregateBytes
  · rw [Nat.min_eq_left (by omega), if_neg (by omega), Except.ok.injEq, eq_comm]
    exact ⟨fun same => ⟨fits, same⟩, fun both => both.2⟩
  · rw [if_pos (by omega)]
    exact ⟨nofun, fun both => absurd both.1 fits⟩

theorem bump_iff {p q : Parser} :
    bumpNode limits p = .ok q ↔ p.nodes + 1 ≤ limits.maxNodes ∧ q = { p with nodes := p.nodes + 1 } := by
  unfold bumpNode
  by_cases fits : p.nodes + 1 ≤ limits.maxNodes
  · rw [if_neg (by omega), Except.ok.injEq, eq_comm]
    exact ⟨fun same => ⟨fits, same⟩, fun both => both.2⟩
  · rw [if_pos (by omega)]
    exact ⟨nofun, fun both => absurd both.1 fits⟩

theorem bind_ok {First Second : Type} {first : Except StructuredRefusal First}
    {next : First → Except StructuredRefusal Second} {result : Second} :
    (first >>= next) = .ok result ↔ ∃ middle, first = .ok middle ∧ next middle = .ok result := by
  cases first with
  | error refusal => exact ⟨nofun, nofun⟩
  | ok middle => exact ⟨fun done => ⟨middle, rfl, done⟩, fun ⟨_, rfl, done⟩ => done⟩

end Budgets

section Strings

theorem hex_digit_char {scalar : Char} (ascii : scalar.val.toNat < 0x80) :
    hexDigit (byte scalar) = hexValue scalar := by
  have low {other : Char} (otherAscii : other.val.toNat < 0x80) :
      byte other ≤ byte scalar ↔ other ≤ scalar := byte_le_iff otherAscii ascii
  have high {other : Char} (otherAscii : other.val.toNat < 0x80) :
      byte scalar ≤ byte other ↔ scalar ≤ other := byte_le_iff ascii otherAscii
  simp only [hexDigit, @low '0' (by decide), @high '9' (by decide), @low 'a' (by decide),
    @high 'f' (by decide), @low 'A' (by decide), @high 'F' (by decide), byte_nat ascii]
  rfl

theorem hex_value_ascii {scalar : Char} {value : Nat} (digit : hexValue scalar = some value) :
    scalar.val.toNat < 0x80 ∧ value < 16 := by
  change (if 48 ≤ scalar.val.toNat ∧ scalar.val.toNat ≤ 57 then some (scalar.val.toNat - 48)
    else if 97 ≤ scalar.val.toNat ∧ scalar.val.toNat ≤ 102 then some (scalar.val.toNat - 97 + 10)
    else if 65 ≤ scalar.val.toNat ∧ scalar.val.toNat ≤ 70 then some (scalar.val.toNat - 65 + 10)
    else none) = some value at digit
  split at digit
  · cases digit
    omega
  split at digit
  · cases digit
    omega
  split at digit
  · cases digit
    omega
  · cases digit

theorem hex_digit_low {b : UInt8} {value : Nat} (digit : hexDigit b = some value) : b.toNat < 0x80 := by
  change (if 48 ≤ b.toNat ∧ b.toNat ≤ 57 then some (b.toNat - 48)
    else if 97 ≤ b.toNat ∧ b.toNat ≤ 102 then some (b.toNat - 97 + 10)
    else if 65 ≤ b.toNat ∧ b.toNat ≤ 70 then some (b.toNat - 65 + 10)
    else none) = some value at digit
  split at digit
  · omega
  split at digit
  · omega
  · split at digit
    · omega
    · cases digit

theorem hex_step {offset steps value result : Nat} {text : List Char} :
    hexSteps offset (steps + 1) value (encode text) = .ok result ↔
      ∃ scalar digit rest, text = scalar :: rest ∧ hexValue scalar = some digit ∧
        hexSteps offset steps (value * 16 + digit) (encode rest) = .ok result := by
  constructor
  · intro done
    cases bytes : encode text with
    | nil =>
      rw [bytes, hexSteps] at done
      cases done
    | cons b tail =>
      rw [bytes, hexSteps] at done
      cases found : hexDigit b with
      | none =>
        rw [found] at done
        cases done
      | some digit =>
        rw [found] at done
        obtain ⟨scalar, rest, rfl, ascii, rfl, rfl⟩ := low_byte_char (hex_digit_low found) bytes
        rw [hex_digit_char ascii] at found
        exact ⟨scalar, digit, rest, rfl, found, done⟩
  · rintro ⟨scalar, digit, rest, rfl, found, done⟩
    have ascii := (hex_value_ascii found).1
    rw [encode_byte ascii, hexSteps, hex_digit_char ascii, found]
    exact done

theorem hex4_iff {text : List Char} {offset result : Nat} :
    hex4 (encode text) offset = .ok result ↔ ∃ rest, Unit16 text result rest := by
  unfold hex4
  simp only [hex_step, Nat.zero_mul, Nat.zero_add]
  constructor
  · rintro ⟨a, first, _, rfl, firstDigit, b, second, _, rfl, secondDigit, c, third, _, rfl, thirdDigit,
      d, fourth, rest, rfl, fourthDigit, done⟩
    cases done
    exact ⟨rest, .spelled rest firstDigit secondDigit thirdDigit fourthDigit⟩
  · rintro ⟨rest, digits⟩
    cases digits with
    | spelled _ firstDigit secondDigit thirdDigit fourthDigit =>
      exact ⟨_, _, _, rfl, firstDigit, _, _, _, rfl, secondDigit, _, _, _, rfl, thirdDigit, _, _, _,
        rfl, fourthDigit, rfl⟩

/-- The digits of a code unit are four bytes. -/
theorem unit_parts {text rest : List Char} {unit : Nat} (digits : Unit16 text unit rest) :
    unit < 0x10000 ∧ ∃ front, text = front ++ rest ∧ front.length = 4 ∧
      ∀ scalar ∈ front, scalar.val.toNat < 0x80 := by
  cases digits with
  | @spelled a b c d first second third fourth _ firstDigit secondDigit thirdDigit fourthDigit =>
    obtain ⟨aAscii, firstSmall⟩ := hex_value_ascii firstDigit
    obtain ⟨bAscii, secondSmall⟩ := hex_value_ascii secondDigit
    obtain ⟨cAscii, thirdSmall⟩ := hex_value_ascii thirdDigit
    obtain ⟨dAscii, fourthSmall⟩ := hex_value_ascii fourthDigit
    refine ⟨by omega, [a, b, c, d], rfl, rfl, ?_⟩
    simp only [forall_mem_cons]
    exact ⟨aAscii, bAscii, cAscii, dAscii, by simp⟩

def Takes (text : List Char) (count : Nat) (rest : List Char) : Prop :=
  ∃ front, text = front ++ rest ∧ count = size front

theorem Takes.view {p : Parser} {text rest : List Char} {count : Nat} (takes : Takes text count rest)
    (view : p.rest = encode text) : (p.advance count).rest = encode rest := by
  obtain ⟨front, rfl, rfl⟩ := takes
  exact view_advance view

theorem unit_takes {text rest : List Char} {unit : Nat} (digits : Unit16 text unit rest) :
    Takes ('\\' :: 'u' :: text) 6 rest := by
  obtain ⟨-, front, rfl, width, ascii⟩ := unit_parts digits
  refine ⟨'\\' :: 'u' :: front, rfl, ?_⟩
  rw [size_ascii, length_cons, length_cons, width]
  simp only [forall_mem_cons]
  exact ⟨by decide, by decide, ascii⟩

theorem pair_takes {text next rest : List Char} {high low : Nat}
    (first : Unit16 text high ('\\' :: 'u' :: next)) (second : Unit16 next low rest) :
    Takes ('\\' :: 'u' :: text) 12 rest := by
  obtain ⟨front, parts, width⟩ := unit_takes first
  obtain ⟨back, parts', width'⟩ := unit_takes second
  refine ⟨front ++ back, ?_, ?_⟩
  · rw [parts, parts', append_assoc]
  · rw [size_append, ← width, ← width']

theorem char_from_valid {value : Nat} (valid : value.isValidChar) :
    charFromU32 value = some (Char.ofNat value) := if_pos valid

/-- The bytes behind a code unit. -/
theorem behind_unit {p : Parser} {text rest : List Char} {unit : Nat}
    (view : p.rest = encode ('\\' :: 'u' :: text)) (digits : Unit16 text unit rest) :
    p.rest[6]? = (encode rest)[0]? ∧ p.rest[7]? = (encode rest)[1]? ∧
      p.rest.drop 8 = (encode rest).drop 2 := by
  have dropped : p.rest.drop 6 = encode rest := (unit_takes digits).view view
  refine ⟨?_, ?_, ?_⟩ <;> rw [← dropped]
  · rw [getElem?_drop]
  · rw [getElem?_drop]
  · rw [drop_drop]

theorem escape_ahead {rest : List Char} :
    (encode rest)[0]? = some (byte '\\') ∧ (encode rest)[1]? = some (byte 'u') ↔
      ∃ next, rest = '\\' :: 'u' :: next := by
  constructor
  · rintro ⟨first, second⟩
    rw [← head?_eq_getElem?] at first
    have leads := (encode_head rest '\\' (by decide)).mp first
    obtain ⟨more, rfl⟩ := head?_eq_some_iff.mp leads
    rw [encode_byte (by decide), getElem?_cons_succ, ← head?_eq_getElem?] at second
    obtain ⟨next, rfl⟩ := head?_eq_some_iff.mp ((encode_head more 'u' (by decide)).mp second)
    exact ⟨next, rfl⟩
  · rintro ⟨next, rfl⟩
    rw [encode_byte (by decide), encode_byte (by decide)]
    exact ⟨rfl, rfl⟩

theorem unicode_escape_sound {p : Parser} {text : List Char} {scalar : Char} {count : Nat}
    (view : p.rest = encode ('\\' :: 'u' :: text)) (decoded : decodeUnicodeEscape p = .ok (scalar, count)) :
    ∃ rest, Spelling ('\\' :: 'u' :: text) scalar rest ∧ Takes ('\\' :: 'u' :: text) count rest := by
  have behind : p.rest.drop 2 = encode text := by
    rw [view, encode_byte (by decide)]
    rfl
  rw [decodeUnicodeEscape, bind_ok] at decoded
  obtain ⟨unit, hex, decoded⟩ := decoded
  rw [behind, hex4_iff] at hex
  obtain ⟨rest, digits⟩ := hex
  have small := (unit_parts digits).1
  obtain ⟨sixth, seventh, eighth⟩ := behind_unit view digits
  rw [sixth, seventh, eighth] at decoded
  split at decoded
  · cases decoded
  split at decoded
  · rename_i leads
    split at decoded
    · cases decoded
    rename_i ahead
    obtain ⟨next, rfl⟩ := escape_ahead.mp (by simpa using ahead)
    rw [bind_ok] at decoded
    obtain ⟨low, hex, decoded⟩ := decoded
    obtain ⟨rest, second⟩ := hex4_iff.mp hex
    split at decoded
    · cases decoded
    rename_i trails
    rw [char_from_valid (.inr (by omega))] at decoded
    obtain ⟨rfl, rfl⟩ := Prod.mk.inj (Except.ok.inj decoded)
    exact ⟨rest, .pair digits leads second (not_not.mp trails), pair_takes digits second⟩
  · have whole : unit < 0xD800 ∨ 0xDFFF < unit := by omega
    rw [char_from_valid (whole.imp id fun above => ⟨above, by omega⟩)] at decoded
    cases decoded
    exact ⟨rest, .unit digits whole, unit_takes digits⟩

theorem unicode_escape_complete {p : Parser} {text rest : List Char} {scalar : Char}
    (view : p.rest = encode ('\\' :: 'u' :: text)) (spelling : Spelling ('\\' :: 'u' :: text) scalar rest) :
    ∃ count, decodeUnicodeEscape p = .ok (scalar, count) ∧ Takes ('\\' :: 'u' :: text) count rest := by
  have behind : p.rest.drop 2 = encode text := by
    rw [view, encode_byte (by decide)]
    rfl
  cases spelling with
  | plain _ _ _ escape => exact absurd rfl escape
  | short _ listed => simp [escapes] at listed
  | @unit _ _ unit digits whole =>
    have small := (unit_parts digits).1
    refine ⟨6, ?_, unit_takes digits⟩
    rw [decodeUnicodeEscape, bind_ok]
    refine ⟨unit, by rw [behind, hex4_iff]; exact ⟨rest, digits⟩, ?_⟩
    rw [if_neg (by omega), if_neg (by omega), char_from_valid (whole.imp id fun above => ⟨above, by omega⟩)]
  | @pair _ next _ high low first leads second trails =>
    refine ⟨12, ?_, pair_takes first second⟩
    obtain ⟨sixth, seventh, eighth⟩ := behind_unit view first
    obtain ⟨slash, letter⟩ := escape_ahead.mpr ⟨next, rfl⟩
    have dropped : p.rest.drop 8 = encode next := by
      rw [eighth, encode_byte (by decide)]
      rfl
    rw [decodeUnicodeEscape, bind_ok]
    refine ⟨high, by rw [behind, hex4_iff]; exact ⟨_, first⟩, ?_⟩
    rw [if_neg (by omega), if_pos leads, sixth, seventh, slash, letter, if_neg (by simp), bind_ok]
    refine ⟨low, by rw [dropped, hex4_iff]; exact ⟨_, second⟩, ?_⟩
    rw [if_neg (not_not.mpr trails), char_from_valid (.inr (by omega))]

theorem escapes_listed {letter scalar : Char} (listed : (letter, scalar) ∈ escapes) :
    letter.val.toNat < 0x80 ∧ shortEscapes.lookup (byte letter) = some scalar := by
  simp only [escapes, mem_cons, not_mem_nil, or_false] at listed
  rcases listed with ⟨rfl, rfl⟩ | ⟨rfl, rfl⟩ | ⟨rfl, rfl⟩ | ⟨rfl, rfl⟩ | ⟨rfl, rfl⟩ | ⟨rfl, rfl⟩ |
    ⟨rfl, rfl⟩ | ⟨rfl, rfl⟩ <;> exact ⟨by decide, rfl⟩

theorem escape_found {b : UInt8} {scalar : Char} (found : shortEscapes.lookup b = some scalar) :
    ∃ letter, b = byte letter ∧ (letter, scalar) ∈ escapes := by
  obtain ⟨front, back, parts, -⟩ := lookup_eq_some_iff.mp found
  have listed : (b, scalar) ∈ shortEscapes := by
    rw [parts]
    simp
  have images : shortEscapes = escapes.map fun entry => (byte entry.1, entry.2) := rfl
  rw [images, List.mem_map] at listed
  obtain ⟨⟨letter, other⟩, member, same⟩ := listed
  obtain ⟨rfl, rfl⟩ := Prod.mk.inj same
  exact ⟨letter, rfl, member⟩

variable {p : Parser}

theorem second_byte {first : Char} {more : List Char} (ascii : first.val.toNat < 0x80)
    (view : p.rest = encode (first :: more)) : p.rest[1]? = (encode more)[0]? := by
  rw [view, encode_byte ascii, getElem?_cons_succ]

theorem parse_char_sound {text : List Char} {b : UInt8} {scalar : Char} {count : Nat}
    (view : p.rest = encode text) (here : p.get = some b) (quote : b ≠ byte '"')
    (parsed : parseChar b p = .ok (scalar, count)) :
    ∃ rest, Spelling text scalar rest ∧ Takes text count rest := by
  unfold parseChar at parsed
  split at parsed
  · rename_i slash
    subst slash
    obtain ⟨more, rfl⟩ := head?_eq_some_iff.mp ((get_iff view (by decide)).mp here)
    rw [second_byte (by decide) view] at parsed
    split at parsed
    · cases parsed
    rename_i escape next
    rw [← head?_eq_getElem?] at next
    split at parsed
    · rename_i replacement found
      obtain ⟨letter, rfl, listed⟩ := escape_found found
      obtain ⟨ascii, -⟩ := escapes_listed listed
      obtain ⟨rest, rfl⟩ := head?_eq_some_iff.mp ((encode_head more letter ascii).mp next)
      cases parsed
      refine ⟨rest, .short rest listed, ['\\', letter], rfl, ?_⟩
      rw [size_ascii]
      · rfl
      · simp only [forall_mem_cons]
        exact ⟨by decide, ascii, by simp⟩
    · split at parsed
      · rename_i letter
        subst letter
        obtain ⟨rest, rfl⟩ := head?_eq_some_iff.mp ((encode_head more 'u' (by decide)).mp next)
        exact unicode_escape_sound view parsed
      · cases parsed
  · rename_i slash
    rw [Parser.get, view] at here
    obtain ⟨tail, bytes⟩ := head?_eq_some_iff.mp here
    split at parsed
    · rename_i low
      split at parsed
      · cases parsed
      rename_i printed
      obtain ⟨first, rest, rfl, ascii, rfl, -⟩ := low_byte_char (UInt8.lt_iff_toNat_lt.mp low) bytes
      have same : Char.ofNat (byte first).toNat = first := by
        rw [byte_nat ascii]
        exact ofNat_toNat first
      rw [same] at parsed
      obtain ⟨rfl, rfl⟩ := Prod.mk.inj (Except.ok.inj parsed)
      refine ⟨rest, .plain rest ?_ ?_ ?_, [first], rfl, ?_⟩
      · have least := mt UInt8.lt_iff_toNat_lt.mpr printed
        rw [byte_nat ascii] at least
        exact Nat.not_lt.mp least
      · rintro rfl
        exact quote rfl
      · rintro rfl
        exact slash rfl
      · exact (@size_ascii [first] (by simpa using ascii)).symm
    · rename_i high
      rw [view, decode_encode] at parsed
      cases text with
      | nil => cases bytes
      | cons first rest =>
        obtain ⟨rfl, rfl⟩ := Prod.mk.inj (Except.ok.inj parsed)
        have wide : ¬ first.val.toNat < 0x80 := by
          intro ascii
          rw [encode_byte ascii] at bytes
          obtain ⟨rfl, -⟩ := List.cons.inj bytes
          apply high
          rw [UInt8.lt_iff_toNat_lt, byte_nat ascii]
          exact ascii
        refine ⟨rest, .plain rest ?_ ?_ ?_, [first], rfl, ?_⟩
        · change 32 ≤ first.val.toNat
          omega
        · rintro rfl
          exact wide (by decide)
        · rintro rfl
          exact wide (by decide)
        · rw [size_cons, size_nil, Nat.add_zero]

theorem parse_char_unicode {more : List Char} {result : Char × Nat}
    (view : p.rest = encode ('\\' :: 'u' :: more)) (decoded : decodeUnicodeEscape p = .ok result) :
    parseChar (byte '\\') p = .ok result := by
  have next : p.rest[1]? = some (byte 'u') := by
    rw [second_byte (by decide) view]
    rfl
  rw [parseChar, next]
  exact decoded

theorem parse_char_complete {text rest : List Char} {scalar : Char}
    (view : p.rest = encode text) (spelling : Spelling text scalar rest) :
    ∃ b count, p.get = some b ∧ b ≠ byte '"' ∧ parseChar b p = .ok (scalar, count) ∧
      Takes text count rest := by
  cases spelling with
  | plain _ printed quote escape =>
    by_cases ascii : scalar.val.toNat < 0x80
    · have one : size [scalar] = 1 := size_ascii (by simpa using ascii)
      refine ⟨byte scalar, 1, (get_iff view ascii).mpr rfl, ?_, ?_, [scalar], rfl, one.symm⟩
      · exact fun same => quote ((byte_eq_iff ascii (by decide)).mp same)
      · have low : byte scalar < 0x80 := by
          rw [UInt8.lt_iff_toNat_lt, byte_nat ascii]
          exact ascii
        have shown : ¬ byte scalar < 0x20 := by
          rw [UInt8.lt_iff_toNat_lt, byte_nat ascii]
          exact Nat.not_lt.mpr printed
        have same : Char.ofNat (byte scalar).toNat = scalar := by
          rw [byte_nat ascii]
          exact ofNat_toNat scalar
        rw [parseChar, if_neg fun same => escape ((byte_eq_iff ascii (by decide)).mp same),
          if_pos low, if_neg shown, same]
    · obtain ⟨first, tail, shape⟩ := encoded_nonempty scalar
      have high := encoded_high scalar (by omega) first (by rw [shape]; simp)
      have here : p.get = some first := by
        rw [Parser.get, view, encode_cons, shape]
        rfl
      have apart {other : Char} (low : other.val.toNat < 0x80) : first ≠ byte other := by
        rintro rfl
        rw [UInt8.le_iff_toNat_le, byte_nat low] at high
        exact absurd high (Nat.not_le.mpr low)
      refine ⟨first, scalar.utf8Size, here, apart (by decide), ?_, [scalar], rfl, by simp⟩
      rw [parseChar, if_neg (apart (by decide)), if_neg (UInt8.not_lt.mpr high), view, decode_encode]
      rfl
  | @short letter _ _ listed =>
    obtain ⟨ascii, found⟩ := escapes_listed listed
    have next : p.rest[1]? = some (byte letter) := by
      rw [second_byte (by decide) view, encode_byte ascii]
      rfl
    refine ⟨byte '\\', 2, (get_iff view (by decide)).mpr rfl, by decide, ?_, ['\\', letter], rfl, ?_⟩
    · rw [parseChar, if_pos rfl, next]
      dsimp only
      rw [found]
    · rw [size_ascii]
      · rfl
      · simp only [forall_mem_cons]
        exact ⟨by decide, ascii, by simp⟩
  | @unit more _ unit digits whole =>
    obtain ⟨count, decoded, takes⟩ := unicode_escape_complete view (.unit digits whole)
    refine ⟨byte '\\', count, (get_iff view (by decide)).mpr rfl, by decide, ?_, takes⟩
    exact parse_char_unicode view decoded
  | @pair more _ _ _ _ first leads second trails =>
    obtain ⟨count, decoded, takes⟩ := unicode_escape_complete view (.pair first leads second trails)
    refine ⟨byte '\\', count, (get_iff view (by decide)).mpr rfl, by decide, ?_, takes⟩
    exact parse_char_unicode view decoded

theorem spelling_shorter {text rest : List Char} {scalar : Char} (spelling : Spelling text scalar rest) :
    rest.length < text.length := by
  cases spelling with
  | plain => simp
  | short =>
    simp only [length_cons]
    omega
  | unit digits =>
    obtain ⟨-, front, rfl, width, -⟩ := unit_parts digits
    simp only [length_cons, length_append]
    omega
  | pair first _ second _ =>
    obtain ⟨-, front, rfl, width, -⟩ := unit_parts first
    obtain ⟨-, front', rfl, width', -⟩ := unit_parts second
    simp only [length_cons, length_append]
    omega

theorem length_le_size (text : List Char) : text.length ≤ size text := by
  induction text with
  | nil => exact Nat.le_refl _
  | cons scalar rest ih =>
    have positive := scalar.utf8Size_pos
    rw [length_cons, size_cons]
    omega

variable {limits : StructuredMutationLimits}

theorem string_loop_sound (pinned : limits.maxAggregateBytes < usizeMax) {turns : Nat}
    {decoded text : List Char} {p q : Parser} {value : StructuredValue} (view : p.rest = encode text)
    (budget : InBudget limits p) (short : size decoded ≤ limits.maxScalarBytes)
    (parsed : stringLoop limits turns decoded p = .ok (value, q)) :
    ∃ more rest, Spells text more rest ∧ value = .string (decoded ++ more) ∧
      size (decoded ++ more) ≤ limits.maxScalarBytes ∧
      Behind p q rest 0 (size (decoded ++ more)) ∧ InBudget limits q := by
  induction turns generalizing decoded text p with
  | zero => cases parsed
  | succ turns ih =>
    rw [stringLoop] at parsed
    split at parsed
    · cases parsed
    rename_i b here
    split at parsed
    · rename_i quote
      subst quote
      obtain ⟨rest, rfl⟩ := head?_eq_some_iff.mp ((get_iff view (by decide)).mp here)
      obtain ⟨place, charged, done⟩ := bind_ok.mp parsed
      obtain ⟨fits, rfl⟩ := (charge_iff pinned).mp charged
      cases done
      refine ⟨[], rest, .close rest, by rw [append_nil], by rw [append_nil]; exact short, ?_,
        ⟨budget.nodes, fits⟩⟩
      rw [append_nil]
      exact ⟨view_next (by decide) view, rfl, rfl⟩
    · rename_i quote
      obtain ⟨⟨scalar, count⟩, taken, parsed⟩ := bind_ok.mp parsed
      obtain ⟨next, spelling, takes⟩ := parse_char_sound view here quote taken
      dsimp only at parsed
      split at parsed
      · cases parsed
      rename_i fits
      obtain ⟨more, rest, spells, rfl, bounded, behind, inside⟩ :=
        @ih (decoded ++ [scalar]) next (p.advance count) (takes.view view)
          ⟨budget.nodes, budget.bytes⟩ (by omega) parsed
      rw [append_assoc] at bounded behind ⊢
      exact ⟨scalar :: more, rest, .more spelling spells, rfl, bounded,
        ⟨behind.view, behind.nodes, behind.bytes⟩, inside⟩

theorem string_loop_complete (pinned : limits.maxAggregateBytes < usizeMax)
    {text more rest : List Char} (spells : Spells text more rest) {turns : Nat} {decoded : List Char}
    {p : Parser} (view : p.rest = encode text) (enough : text.length ≤ turns)
    (short : size (decoded ++ more) ≤ limits.maxScalarBytes)
    (room : p.aggregateBytes + size (decoded ++ more) ≤ limits.maxAggregateBytes) :
    ∃ q, stringLoop limits turns decoded p = .ok (.string (decoded ++ more), q) ∧
      Behind p q rest 0 (size (decoded ++ more)) := by
  induction spells generalizing turns decoded p with
  | close rest =>
    cases turns with
    | zero => simp at enough
    | succ turns =>
      rw [append_nil] at short room ⊢
      rw [stringLoop, (get_iff view (by decide)).mpr rfl]
      dsimp only
      rw [if_pos rfl]
      refine ⟨_, bind_ok.mpr ⟨_, (charge_iff pinned).mpr ⟨room, rfl⟩, rfl⟩, ?_⟩
      exact ⟨view_next (by decide) view, rfl, rfl⟩
  | @more text next others rest scalar first _ ih =>
    have shorter := spelling_shorter first
    cases turns with
    | zero => omega
    | succ turns =>
      obtain ⟨b, count, here, quote, taken, takes⟩ := parse_char_complete view first
      have joined : decoded ++ scalar :: others = decoded ++ [scalar] ++ others := by simp
      rw [joined] at short room ⊢
      have fits : size (decoded ++ [scalar]) ≤ limits.maxScalarBytes := by
        rw [size_append] at short
        omega
      obtain ⟨q, done, behind⟩ := @ih turns (decoded ++ [scalar]) (p.advance count)
        (takes.view view) (by omega) short room
      refine ⟨q, ?_, ⟨behind.view, behind.nodes, behind.bytes⟩⟩
      rw [stringLoop, here]
      dsimp only
      rw [if_neg quote, bind_ok]
      refine ⟨(scalar, count), taken, ?_⟩
      dsimp only
      rw [if_neg (Nat.not_lt.mpr fits), done]

/-- The byte passed as the opening quote is an ASCII character: behind the first byte of any other
no text can be decoded. -/
theorem string_opening {text : List Char} {p q : Parser} {value : StructuredValue}
    (view : p.rest = encode text) (parsed : parseString limits p = .ok (value, q)) :
    ∃ scalar body, text = scalar :: body ∧ scalar.val.toNat < 0x80 ∧ (p.advance 1).rest = encode body := by
  cases text with
  | nil =>
    have bare : (p.advance 1).rest = [] := by
      change p.rest.drop 1 = []
      rw [view]
      rfl
    rw [parseString, bare] at parsed
    cases parsed
  | cons scalar body =>
    refine ⟨scalar, body, rfl, ?_⟩
    by_cases ascii : scalar.val.toNat < 0x80
    · exact ⟨ascii, view_next ascii view⟩
    obtain ⟨first, tail, shape, lead, trailing⟩ := encoded_tail scalar
    have behind : (p.advance 1).rest = tail ++ encode body := by
      change p.rest.drop 1 = _
      rw [view, encode_cons, shape]
      rfl
    have wide : tail ≠ [] := by
      rintro rfl
      have narrow : scalar.utf8Size = 1 := by
        rw [← String.length_utf8EncodeChar, shape]
        rfl
      exact ascii (low_of_narrow narrow)
    obtain ⟨b, others, rfl⟩ := exists_cons_of_ne_nil wide
    have continues := trailing b mem_cons_self
    have range := (continuation_range b).mp continues
    have undecodable : decode (p.advance 1).rest = none := by
      rw [behind, ← not_isSome_iff_eq_none, isSome_iff_exists]
      rintro ⟨other, decoded⟩
      have bytes := (decode_eq_some _ _).mp decoded
      cases other with
      | nil => cases bytes
      | cons start more =>
        obtain ⟨initial, remaining, form, leading, -⟩ := encoded_tail start
        rw [encode_cons, form] at bytes
        obtain ⟨rfl, -⟩ := List.cons.inj bytes
        rw [continues] at leading
        cases leading
    have here : (p.advance 1).get = some b := by
      rw [Parser.get, behind]
      rfl
    have apart {other : Char} (low : other.val.toNat < 0x80) : b ≠ byte other := by
      rintro rfl
      rw [byte_nat low] at range
      omega
    have refused : parseChar b (p.advance 1) = .error (.invalidSyntax (p.advance 1).pos) := by
      have high : ¬ b < 0x80 := by
        rw [UInt8.lt_iff_toNat_lt]
        change ¬ _ < 128
        omega
      rw [parseChar, if_neg (apart (by decide)), if_neg high, undecodable]
      rfl
    have some : (p.advance 1).rest.length = (others ++ encode body).length + 1 := by
      rw [behind]
      rfl
    rw [parseString, some, stringLoop, here] at parsed
    dsimp only at parsed
    rw [if_neg (apart (by decide)), refused] at parsed
    cases parsed

theorem parse_string_sound (pinned : limits.maxAggregateBytes < usizeMax) {body : List Char}
    {p q : Parser} {value : StructuredValue} (view : (p.advance 1).rest = encode body)
    (budget : InBudget limits p) (parsed : parseString limits p = .ok (value, q)) :
    ∃ decoded rest, Spells body decoded rest ∧ value = .string decoded ∧
      size decoded ≤ limits.maxScalarBytes ∧ Behind p q rest 0 (size decoded) ∧
      InBudget limits q := by
  obtain ⟨decoded, rest, spells, same, short, behind, inside⟩ :=
    @string_loop_sound limits pinned _ [] body (p.advance 1) q value view
      ⟨budget.nodes, budget.bytes⟩ (Nat.zero_le _) parsed
  exact ⟨decoded, rest, spells, same, short, ⟨behind.view, behind.nodes, behind.bytes⟩, inside⟩

theorem parse_string_complete (pinned : limits.maxAggregateBytes < usizeMax)
    {body decoded rest : List Char} {p : Parser} (view : (p.advance 1).rest = encode body)
    (spells : Spells body decoded rest) (short : size decoded ≤ limits.maxScalarBytes)
    (room : p.aggregateBytes + size decoded ≤ limits.maxAggregateBytes) :
    ∃ q, parseString limits p = .ok (.string decoded, q) ∧ Behind p q rest 0 (size decoded) := by
  obtain ⟨q, done, behind⟩ := @string_loop_complete limits pinned body decoded rest spells
    (p.advance 1).rest.length [] (p.advance 1) view (by rw [view]; exact length_le_size body) short room
  exact ⟨q, done, ⟨behind.view, behind.nodes, behind.bytes⟩⟩

end Strings

section Numbers

theorem advance_advance (p : Parser) (first second : Nat) :
    (p.advance first).advance second = p.advance (first + second) := by
  simp [Parser.advance, Nat.add_assoc]

theorem digit_ascii {digits : List Char} (all : ∀ digit ∈ digits, digit.isDigit = true) :
    ∀ digit ∈ digits, digit.val.toNat < 0x80 :=
  fun digit member => tells_digit.ascii digit (all digit member)

theorem digit_apart {digit other : Char} (isDigit : digit.isDigit = true)
    (letter : other.isDigit = false) : digit ≠ other := by
  rintro rfl
  rw [isDigit] at letter
  cases letter

/-- A run of digits ends where no digit follows. -/
theorem digits_run {digits rest : List Char} (all : ∀ digit ∈ digits, digit.isDigit = true)
    (stops : rest.head?.any Char.isDigit = false) : (digits ++ rest).takeWhile Char.isDigit = digits := by
  rw [takeWhile_append_of_pos all]
  cases rest with
  | nil => simp
  | cons scalar more =>
    have refused : scalar.isDigit = false := stops
    simp [refused]

variable {p : Parser} {text : List Char}

theorem at_digit (view : p.rest = encode text) : p.atDigit = text.head?.any Char.isDigit :=
  tells_digit.at_place view

theorem skip_digits (view : p.rest = encode text) :
    p.skipDigits = p.advance (text.takeWhile Char.isDigit).length :=
  (tells_digit.advance_while view).1

theorem parse_integer_sound {q : Parser} (view : p.rest = encode text) (parsed : parseInteger p = .ok q) :
    ∃ whole rest, text = whole ++ rest ∧ Whole whole ∧ q = p.advance whole.length := by
  unfold parseInteger at parsed
  rw [at_digit view] at parsed
  cases text with
  | nil => cases parsed
  | cons digit more =>
    split at parsed
    · rename_i isDigit
      have ascii := tells_digit.ascii digit isDigit
      have next := view_next ascii view
      dsimp only at parsed
      split at parsed
      · rename_i zero
        have first := (get_iff view (by decide)).mp zero
        obtain rfl : digit = '0' := Option.some.inj first
        split at parsed
        · cases parsed
        · cases parsed
          exact ⟨['0'], more, rfl, ⟨⟨by simp, by simp⟩, fun _ => rfl⟩, rfl⟩
      · rename_i nonzero
        rw [skip_digits next, advance_advance] at parsed
        cases parsed
        refine ⟨digit :: more.takeWhile Char.isDigit, more.dropWhile Char.isDigit, ?_,
          ⟨⟨by simp, ?_⟩, ?_⟩, ?_⟩
        · rw [cons_append, takeWhile_append_dropWhile]
        · intro other member
          rcases mem_cons.mp member with rfl | among
          · exact isDigit
          · exact mem_takeWhile_imp among
        · intro zero
          exact absurd ((get_iff view (by decide)).mpr zero) nonzero
        · rw [length_cons, Nat.add_comm]
    · cases parsed

theorem parse_integer_complete {whole rest : List Char} (view : p.rest = encode (whole ++ rest))
    (isWhole : Whole whole) (stops : rest.head?.any Char.isDigit = false) :
    parseInteger p = .ok (p.advance whole.length) := by
  obtain ⟨⟨some, all⟩, leading⟩ := isWhole
  obtain ⟨digit, more, rfl⟩ := exists_cons_of_ne_nil some
  have isDigit := all digit mem_cons_self
  have next : (p.advance 1).rest = encode (more ++ rest) :=
    view_next (tells_digit.ascii digit isDigit) view
  have here : p.atDigit = true := by
    rw [at_digit view]
    exact isDigit
  rw [parseInteger, if_pos here]
  by_cases zero : digit = '0'
  · subst zero
    obtain ⟨-, rfl⟩ := List.cons.inj (leading rfl)
    rw [if_pos ((get_iff view (by decide)).mpr rfl), at_digit next, if_neg]
    · rfl
    · simpa using stops
  · rw [if_neg fun same => zero (Option.some.inj ((get_iff view (by decide)).mp same)),
      skip_digits next, digits_run (fun other member => all other (mem_cons_of_mem _ member)) stops,
      advance_advance, length_cons, Nat.add_comm]

theorem parse_fraction_sound {q : Parser} {found : Bool} (view : p.rest = encode text)
    (parsed : parseFraction p = .ok (found, q)) :
    ∃ fraction rest, text = fraction ++ rest ∧ Fraction fraction ∧ found = !fraction.isEmpty ∧
      q = p.advance fraction.length := by
  unfold parseFraction at parsed
  split at parsed
  · rename_i point
    obtain ⟨more, rfl⟩ := head?_eq_some_iff.mp ((get_iff view (by decide)).mp point)
    have next := view_next (by decide) view
    dsimp only at parsed
    rw [at_digit next, skip_digits next, advance_advance] at parsed
    split at parsed
    · rename_i isDigit
      cases parsed
      refine ⟨'.' :: more.takeWhile Char.isDigit, more.dropWhile Char.isDigit, ?_,
        .inr ⟨_, rfl, ?_, fun digit member => mem_takeWhile_imp member⟩, rfl, ?_⟩
      · rw [cons_append, takeWhile_append_dropWhile]
      · cases more with
        | nil => cases isDigit
        | cons digit others =>
          have first : digit.isDigit = true := isDigit
          simp [first]
      · rw [length_cons, Nat.add_comm]
    · cases parsed
  · cases parsed
    exact ⟨[], text, rfl, .inl rfl, rfl, rfl⟩

theorem parse_fraction_complete {fraction rest : List Char} (view : p.rest = encode (fraction ++ rest))
    (isFraction : Fraction fraction) (stops : rest.head?.any Char.isDigit = false)
    (point : rest.head? ≠ some '.') :
    parseFraction p = .ok (!fraction.isEmpty, p.advance fraction.length) := by
  rcases isFraction with rfl | ⟨digits, rfl, some, all⟩
  · rw [parseFraction, if_neg fun same => point ((get_iff view (by decide)).mp same)]
    rfl
  have next : (p.advance 1).rest = encode (digits ++ rest) := view_next (by decide) view
  have here : (p.advance 1).atDigit = true := by
    rw [at_digit next]
    obtain ⟨digit, more, rfl⟩ := exists_cons_of_ne_nil some
    exact all digit mem_cons_self
  rw [parseFraction, if_pos ((get_iff view (by decide)).mpr rfl)]
  rw [if_pos here, skip_digits next, digits_run all stops, advance_advance, Nat.add_comm]
  rfl

theorem magnitude_step {digit : Char} (ascii : digit.val.toNat < 0x80) (acc : Nat) :
    magnitudeStep (some acc) (byte digit) =
      if 10 * acc + (digit.toNat - '0'.toNat) ≤ i64Max then
        some (10 * acc + (digit.toNat - '0'.toNat)) else none := by
  have zero : (byte '0').toNat = '0'.toNat := rfl
  have value : (byte digit).toNat = digit.toNat := byte_nat ascii
  rw [magnitudeStep, zero, value, Nat.mul_comm 10 acc]
  dsimp only [bind_eq_bind, bind_some]
  split
  · rw [if_neg (by omega)]
  · split
    · rw [if_neg (by omega)]
    · rw [if_pos (by omega)]

theorem magnitude_none (digits : List UInt8) : digits.foldl magnitudeStep none = none := by
  induction digits with
  | nil => rfl
  | cons d rest ih => exact ih

section
variable {digits : List Char} (ascii : ∀ digit ∈ digits, digit.val.toNat < 0x80)
include digits ascii

theorem magnitude_from {acc : Nat} (small : acc ≤ i64Max) : (encode digits).foldl magnitudeStep (some acc) =
      if Nat.ofDigitChars 10 digits acc ≤ i64Max then some (Nat.ofDigitChars 10 digits acc)
      else none := by
  induction digits generalizing acc with
  | nil =>
    rw [Nat.ofDigitChars_nil, if_pos small]
    rfl
  | cons digit rest ih =>
    have first := ascii digit mem_cons_self
    rw [encode_byte first, foldl_cons, magnitude_step first, Nat.ofDigitChars_cons]
    split
    · rename_i fits
      exact ih (fun other member => ascii other (mem_cons_of_mem _ member)) fits
    · rename_i large
      have grows := of_digit_chars_grows rest (10 * acc + (digit.toNat - '0'.toNat))
      rw [magnitude_none, if_neg (by omega)]

/-- The checked sum is the number of the digits, where that fits. -/
theorem magnitude_of : magnitudeOf (encode digits) =
      if Nat.ofDigitChars 10 digits 0 ≤ i64Max then some (Nat.ofDigitChars 10 digits 0) else none :=
  magnitude_from ascii (Nat.zero_le _)

end

theorem signed_magnitude (negative : Prop) [Decidable negative] (magnitude : Nat) :
    (if negative then -(magnitude : Int) else (magnitude : Int)).natAbs = magnitude := by
  split
  · rw [Int.natAbs_neg, Int.natAbs_natCast]
  · exact Int.natAbs_natCast magnitude

variable {limits : StructuredMutationLimits}

/-- An optional sign in front of digits. -/
theorem sign_split (text : List Char) :
    ∃ sign rest, text = sign ++ rest ∧ (sign = [] ∨ sign = ['+'] ∨ sign = ['-']) ∧
      (sign = [] → text.head? ≠ some '-' ∧ text.head? ≠ some '+') := by
  by_cases signed : text.head? = some '-' ∨ text.head? = some '+'
  · rcases signed with minus | plus
    · obtain ⟨rest, rfl⟩ := head?_eq_some_iff.mp minus
      exact ⟨['-'], rest, rfl, .inr (.inr rfl), by simp⟩
    · obtain ⟨rest, rfl⟩ := head?_eq_some_iff.mp plus
      exact ⟨['+'], rest, rfl, .inr (.inl rfl), by simp⟩
  · exact ⟨[], text, rfl, .inl rfl, fun _ => not_or.mp signed⟩

theorem behind_sign {sign rest : List Char} (view : p.rest = encode (sign ++ rest))
    (signs : sign = [] ∨ sign = ['+'] ∨ sign = ['-'])
    (bare : sign = [] → rest.head? ≠ some '-' ∧ rest.head? ≠ some '+') :
    (if p.get = some (byte '-') ∨ p.get = some (byte '+') then p.advance 1 else p) =
      p.advance sign.length := by
  have minus := @get_iff p _ view '-' (by decide)
  have plus := @get_iff p _ view '+' (by decide)
  rcases signs with rfl | rfl | rfl
  · obtain ⟨noMinus, noPlus⟩ := bare rfl
    rw [if_neg (not_or.mpr ⟨mt minus.mp noMinus, mt plus.mp noPlus⟩)]
    rfl
  · rw [if_pos (.inr (plus.mpr rfl))]
    rfl
  · rw [if_pos (.inl (minus.mpr rfl))]
    rfl

theorem parse_exponent_sound {q : Parser} {found : Bool}
    (view : p.rest = encode text) (parsed : parseExponent limits p = .ok (found, q)) :
    ∃ exponent rest, text = exponent ++ rest ∧ Exponent exponent ∧ found = !exponent.isEmpty ∧
      Nat.ofDigitChars 10 (exponent.filter Char.isDigit) 0 ≤ limits.maxAbsoluteExponent ∧
      q = p.advance exponent.length := by
  unfold parseExponent at parsed
  split at parsed
  · rename_i marked
    obtain ⟨mark, more, rfl, letter⟩ : ∃ mark more, text = mark :: more ∧ (mark = 'e' ∨ mark = 'E') := by
      rcases marked with small | large
      · obtain ⟨more, rfl⟩ := head?_eq_some_iff.mp ((get_iff view (by decide)).mp small)
        exact ⟨'e', more, rfl, .inl rfl⟩
      · obtain ⟨more, rfl⟩ := head?_eq_some_iff.mp ((get_iff view (by decide)).mp large)
        exact ⟨'E', more, rfl, .inr rfl⟩
    have next : (p.advance 1).rest = encode more :=
      view_next (by rcases letter with rfl | rfl <;> decide) view
    obtain ⟨sign, rest, rfl, signs, bare⟩ := sign_split more
    have signAscii : ∀ scalar ∈ sign, scalar.val.toNat < 0x80 := by
      rcases signs with rfl | rfl | rfl <;> simp
    have behind : ((p.advance 1).advance sign.length).rest = encode rest := by
      rw [← size_ascii signAscii]
      exact view_advance next
    dsimp only at parsed
    rw [behind_sign next signs fun empty => by subst empty; exact bare rfl] at parsed
    have digits : ((p.advance 1).advance sign.length).rest.takeWhile isAsciiDigit =
        encode (rest.takeWhile Char.isDigit) := by
      rw [behind, tells_digit.take_while]
    have all : ∀ digit ∈ rest.takeWhile Char.isDigit, digit.isDigit = true :=
      fun digit member => mem_takeWhile_imp member
    rw [digits, magnitude_of (digit_ascii all), skip_digits behind] at parsed
    split at parsed
    · cases parsed
    rename_i some
    split at parsed
    · cases parsed
    rename_i magnitude summed
    split at summed
    · cases summed
      rw [signed_magnitude] at parsed
      split at parsed
      · cases parsed
      cases parsed
      have filtered : (mark :: (sign ++ rest.takeWhile Char.isDigit)).filter Char.isDigit =
          rest.takeWhile Char.isDigit := by
        have letterless : mark.isDigit = false := by rcases letter with rfl | rfl <;> decide
        have signless : sign.filter Char.isDigit = [] := by
          rcases signs with rfl | rfl | rfl <;> decide
        rw [filter_cons_of_neg (by simp [letterless]), filter_append, signless, nil_append, filter_eq_self]
        exact all
      refine ⟨mark :: (sign ++ rest.takeWhile Char.isDigit), rest.dropWhile Char.isDigit, ?_,
        .inr ⟨mark, sign, _, rfl, letter, signs, ?_, all⟩, rfl, ?_, ?_⟩
      · rw [cons_append, append_assoc, takeWhile_append_dropWhile]
      · rintro empty
        rw [empty] at some
        exact some rfl
      · rw [filtered]
        omega
      · rw [advance_advance, advance_advance, length_cons, length_append]
        congr 1
        omega
    · cases summed
  · cases parsed
    exact ⟨[], text, rfl, .inl rfl, rfl, Nat.zero_le _, rfl⟩

theorem parse_exponent_complete (pinned : limits.maxAbsoluteExponent ≤ i64Max)
    {exponent rest : List Char} (view : p.rest = encode (exponent ++ rest))
    (isExponent : Exponent exponent) (stops : rest.head?.any Char.isDigit = false)
    (unmarked : rest.head? ≠ some 'e' ∧ rest.head? ≠ some 'E')
    (small : Nat.ofDigitChars 10 (exponent.filter Char.isDigit) 0 ≤ limits.maxAbsoluteExponent) :
    parseExponent limits p = .ok (!exponent.isEmpty, p.advance exponent.length) := by
  rcases isExponent with rfl | ⟨mark, sign, digits, rfl, letter, signs, some, all⟩
  · have apart : ¬ (p.get = Option.some (byte 'e') ∨ p.get = Option.some (byte 'E')) := by
      rintro (same | same)
      · exact unmarked.1 ((get_iff view (by decide)).mp same)
      · exact unmarked.2 ((get_iff view (by decide)).mp same)
    rw [parseExponent, if_neg apart]
    rfl
  have markAscii : mark.val.toNat < 0x80 := by rcases letter with rfl | rfl <;> decide
  have marked : p.get = Option.some (byte 'e') ∨ p.get = Option.some (byte 'E') := by
    rcases letter with rfl | rfl
    · exact .inl ((get_iff view (by decide)).mpr rfl)
    · exact .inr ((get_iff view (by decide)).mpr rfl)
  have next : (p.advance 1).rest = encode (sign ++ (digits ++ rest)) := by
    have behind := view_next markAscii view
    rw [← append_assoc]
    exact behind
  have signAscii : ∀ scalar ∈ sign, scalar.val.toNat < 0x80 := by
    rcases signs with rfl | rfl | rfl <;> simp
  have behind : ((p.advance 1).advance sign.length).rest = encode (digits ++ rest) := by
    rw [← size_ascii signAscii]
    exact view_advance next
  obtain ⟨digit, more, rfl⟩ := exists_cons_of_ne_nil some
  have isDigit := all digit mem_cons_self
  have filtered : (mark :: (sign ++ digit :: more)).filter Char.isDigit = digit :: more := by
    have letterless : mark.isDigit = false := by rcases letter with rfl | rfl <;> decide
    have signless : sign.filter Char.isDigit = [] := by
      rcases signs with rfl | rfl | rfl <;> decide
    rw [filter_cons_of_neg (by simp [letterless]), filter_append, signless, nil_append, filter_eq_self]
    exact all
  rw [filtered] at small
  have full : encode (digit :: more) ≠ [] := by
    rw [encode_byte (tells_digit.ascii digit isDigit)]
    exact cons_ne_nil _ _
  rw [parseExponent, if_pos marked]
  dsimp only
  rw [behind_sign next signs fun _ => ⟨fun same => digit_apart isDigit (by decide) (Option.some.inj same),
      fun same => digit_apart isDigit (by decide) (Option.some.inj same)⟩,
    behind, tells_digit.take_while, digits_run all stops, if_neg full, magnitude_of (digit_ascii all),
    if_pos (by omega), skip_digits behind, digits_run all stops]
  dsimp only
  rw [if_neg (by omega), advance_advance, advance_advance, length_cons (a := mark), length_append]
  rw [Nat.add_comm 1]
  rfl

/-- `parse::<i64>` on the text of an integer. -/
theorem parse_i64_whole {minus whole : List Char} (sign : minus = [] ∨ minus = ['-'])
    (isWhole : Whole whole) : parseI64 (minus ++ whole) =
      if -2 ^ 63 ≤ integerOf (minus ++ whole) ∧ integerOf (minus ++ whole) < 2 ^ 63 then
        some (integerOf (minus ++ whole)) else none := by
  obtain ⟨digit, more, rfl, isDigit⟩ := whole_head isWhole
  obtain ⟨-, -, -, noMinus, noPlus⟩ := digit_plain isDigit
  have all : (digit :: more).all Char.isDigit = true := all_eq_true.mpr isWhole.1.2
  unfold parseI64 integerOf
  rcases sign with rfl | rfl
  · simp [noMinus, noPlus, all]
  · simp [all]

def numberOf (spelled : List Char) : StructuredValue :=
  if isDecimal spelled then .decimal spelled else .integer (integerOf spelled)

def NumberWithin (limits : StructuredMutationLimits) (spelled : List Char) : Prop :=
  if isDecimal spelled then
    spelled.countP Char.isDigit ≤ limits.maxSignificantDigits ∧
      exponentOf spelled ≤ limits.maxAbsoluteExponent
  else -2 ^ 63 ≤ integerOf spelled ∧ integerOf spelled < 2 ^ 63

theorem ascii_view {front back : List Char} (ascii : ∀ scalar ∈ front, scalar.val.toNat < 0x80)
    (view : p.rest = encode (front ++ back)) : (p.advance front.length).rest = encode back := by
  rw [← size_ascii ascii]
  exact view_advance view

theorem minus_ascii {minus : List Char} (sign : minus = [] ∨ minus = ['-']) :
    ∀ scalar ∈ minus, scalar.val.toNat < 0x80 := by
  rcases sign with rfl | rfl <;> simp

theorem fraction_ascii {fraction : List Char} (isFraction : Fraction fraction) :
    ∀ scalar ∈ fraction, scalar.val.toNat < 0x80 := by
  rcases isFraction with rfl | ⟨digits, rfl, -, all⟩
  · simp
  · exact forall_mem_cons.mpr ⟨by decide, digit_ascii all⟩

theorem exponent_ascii {exponent : List Char} (isExponent : Exponent exponent) :
    ∀ scalar ∈ exponent, scalar.val.toNat < 0x80 := by
  rcases isExponent with rfl | ⟨mark, sign, digits, rfl, letter, signs, -, all⟩
  · simp
  · refine forall_mem_cons.mpr ⟨by rcases letter with rfl | rfl <;> decide, ?_⟩
    refine forall_mem_append.mpr ⟨?_, digit_ascii all⟩
    rcases signs with rfl | rfl | rfl <;> simp

theorem number_ascii {spelled : List Char} (number : Number spelled) :
    ∀ scalar ∈ spelled, scalar.val.toNat < 0x80 := by
  obtain ⟨minus, whole, fraction, exponent, rfl, sign, isWhole, isFraction, isExponent⟩ := number
  simp only [forall_mem_append]
  exact ⟨⟨⟨minus_ascii sign, digit_ascii isWhole.1.2⟩, fraction_ascii isFraction⟩, exponent_ascii isExponent⟩

theorem number_text {spelled rest : List Char} (number : Number spelled)
    (view : p.rest = encode (spelled ++ rest)) :
    decode (p.rest.take ((p.advance spelled.length).pos - p.pos)) = some spelled := by
  have width : (p.advance spelled.length).pos - p.pos = size spelled := by
    rw [size_ascii (number_ascii number)]
    exact Nat.add_sub_cancel_left _ _
  rw [width, view, encode_append, size, take_left' rfl, decode_encode]

theorem number_value_iff (pinned : limits.maxAggregateBytes < usizeMax) {spelled : List Char}
    (number : Number spelled) (small : exponentOf spelled ≤ limits.maxAbsoluteExponent)
    {value : StructuredValue} {q : Parser} :
    numberValue limits (isDecimal spelled) spelled p = .ok (value, q) ↔
      NumberWithin limits spelled ∧ value = numberOf spelled ∧
        p.aggregateBytes + size spelled ≤ limits.maxAggregateBytes ∧
        q = { p with aggregateBytes := p.aggregateBytes + size spelled } := by
  have charged {result : StructuredValue} :
      (chargeBytes limits (size spelled) p >>= fun place => Except.ok (result, place)) = .ok (value, q) ↔
        value = result ∧ p.aggregateBytes + size spelled ≤ limits.maxAggregateBytes ∧
          q = { p with aggregateBytes := p.aggregateBytes + size spelled } := by
    rw [bind_ok]
    constructor
    · rintro ⟨place, done, same⟩
      obtain ⟨rfl, rfl⟩ := Prod.mk.inj (Except.ok.inj same)
      exact ⟨rfl, (charge_iff pinned).mp done⟩
    · rintro ⟨rfl, done⟩
      exact ⟨q, (charge_iff pinned).mpr done, rfl⟩
  unfold numberValue NumberWithin numberOf
  cases decimal : isDecimal spelled with
  | true =>
    rw [if_neg (by simp), if_pos rfl, if_pos rfl]
    by_cases digits : spelled.countP Char.isDigit ≤ limits.maxSignificantDigits
    · rw [if_neg (Nat.not_lt.mpr digits), charged]
      exact ⟨fun done => ⟨⟨digits, small⟩, done⟩, fun both => both.2⟩
    · rw [if_pos (Nat.not_le.mp digits)]
      exact ⟨nofun, fun both => absurd both.1.1 digits⟩
  | false =>
    have parsed : parseI64 spelled =
        if -2 ^ 63 ≤ integerOf spelled ∧ integerOf spelled < 2 ^ 63 then some (integerOf spelled)
        else none := by
      obtain ⟨minus, whole, fraction, exponent, rfl, sign, isWhole, isFraction, isExponent⟩ := number
      rw [is_decimal_parts sign isWhole isFraction isExponent] at decimal
      obtain ⟨rfl, rfl⟩ : fraction = [] ∧ exponent = [] := by simpa using decimal
      rw [append_nil, append_nil]
      exact parse_i64_whole sign isWhole
    rw [if_pos rfl, if_neg Bool.false_ne_true, if_neg Bool.false_ne_true, parsed]
    by_cases range : -2 ^ 63 ≤ integerOf spelled ∧ integerOf spelled < 2 ^ 63
    · rw [if_pos range]
      dsimp only
      rw [charged]
      exact ⟨fun done => ⟨range, done⟩, fun both => both.2⟩
    · rw [if_neg range]
      exact ⟨nofun, fun both => absurd both.1 range⟩

theorem minus_split (view : p.rest = encode text) :
    ∃ minus rest, text = minus ++ rest ∧ (minus = [] ∨ minus = ['-']) ∧
      (if p.get = some (byte '-') then p.advance 1 else p) = p.advance minus.length := by
  by_cases negative : p.get = some (byte '-')
  · obtain ⟨rest, rfl⟩ := head?_eq_some_iff.mp ((get_iff view (by decide)).mp negative)
    exact ⟨['-'], rest, rfl, .inr rfl, if_pos negative⟩
  · exact ⟨[], text, rfl, .inl rfl, if_neg negative⟩

theorem parse_number_sound (pinned : limits.maxAggregateBytes < usizeMax)
    {value : StructuredValue} {q : Parser} (view : p.rest = encode text) (budget : InBudget limits p)
    (parsed : parseNumber limits p = .ok (value, q)) :
    ∃ spelled rest, text = spelled ++ rest ∧ Number spelled ∧ NumberWithin limits spelled ∧
      value = numberOf spelled ∧ Behind p q rest 0 (size spelled) ∧ InBudget limits q := by
  obtain ⟨minus, rest₀, rfl, sign, moved⟩ := minus_split view
  have view₀ := ascii_view (minus_ascii sign) view
  unfold parseNumber at parsed
  dsimp only at parsed
  rw [moved] at parsed
  obtain ⟨_, integer, parsed⟩ := bind_ok.mp parsed
  obtain ⟨whole, rest₁, rfl, isWhole, rfl⟩ := parse_integer_sound view₀ integer
  have view₁ := ascii_view (digit_ascii isWhole.1.2) view₀
  obtain ⟨⟨hasFraction, _⟩, fractional, parsed⟩ := bind_ok.mp parsed
  obtain ⟨fraction, rest₂, rfl, isFraction, rfl, rfl⟩ := parse_fraction_sound view₁ fractional
  have view₂ := ascii_view (fraction_ascii isFraction) view₁
  obtain ⟨⟨hasExponent, _⟩, exponential, parsed⟩ := bind_ok.mp parsed
  obtain ⟨exponent, rest, rfl, isExponent, rfl, small, rfl⟩ :=
    parse_exponent_sound view₂ exponential
  have number : Number (minus ++ whole ++ fraction ++ exponent) :=
    ⟨minus, whole, fraction, exponent, rfl, sign, isWhole, isFraction, isExponent⟩
  have joined : minus ++ (whole ++ (fraction ++ (exponent ++ rest))) =
      minus ++ whole ++ fraction ++ exponent ++ rest := by simp
  have place : (((p.advance minus.length).advance whole.length).advance fraction.length).advance
      exponent.length = p.advance (minus ++ whole ++ fraction ++ exponent).length := by
    simp only [advance_advance, length_append]
  rw [joined] at view
  have read := number_text number view
  dsimp only at parsed
  rw [place, read] at parsed
  dsimp only at parsed
  rw [← is_decimal_parts sign isWhole isFraction isExponent] at parsed
  rw [← exponent_of_parts sign isWhole isFraction isExponent] at small
  obtain ⟨within, rfl, fits, rfl⟩ := (number_value_iff pinned number small).mp parsed
  exact ⟨_, rest, joined, number, within, rfl, ⟨ascii_view (number_ascii number) view, rfl, rfl⟩,
    ⟨budget.nodes, fits⟩⟩

def Ends (rest : List Char) : Prop :=
  ∀ scalar, rest.head? = some scalar → scalar.isDigit = false ∧ scalar ≠ '.' ∧ scalar ≠ 'e' ∧ scalar ≠ 'E'

theorem Ends.digit {rest : List Char} (ends : Ends rest) : rest.head?.any Char.isDigit = false := by
  cases rest with
  | nil => rfl
  | cons scalar more => exact (ends scalar rfl).1

/-- Behind the digits of a number comes no digit, and behind its fraction no point either. -/
theorem Ends.parts {fraction exponent rest : List Char} (ends : Ends rest)
    (isFraction : Fraction fraction) (isExponent : Exponent exponent) :
    (fraction ++ (exponent ++ rest)).head?.any Char.isDigit = false ∧
      (exponent ++ rest).head?.any Char.isDigit = false ∧ (exponent ++ rest).head? ≠ some '.' := by
  have later : (exponent ++ rest).head?.any Char.isDigit = false ∧ (exponent ++ rest).head? ≠ some '.' := by
    rcases exponent_head isExponent with rfl | ⟨mark, more, rfl, letter⟩
    · exact ⟨ends.digit, fun point => (ends '.' point).2.1 rfl⟩
    · rcases letter with rfl | rfl <;> exact ⟨rfl, by simp⟩
  refine ⟨?_, later⟩
  rcases fraction_head isFraction with rfl | ⟨more, rfl⟩
  · exact later.1
  · rfl

theorem NumberWithin.exponent {spelled : List Char} (number : Number spelled)
    (within : NumberWithin limits spelled) : exponentOf spelled ≤ limits.maxAbsoluteExponent := by
  unfold NumberWithin at within
  split at within
  · exact within.2
  rename_i decimal
  obtain ⟨minus, whole, fraction, exponent, rfl, sign, isWhole, isFraction, isExponent⟩ := number
  rw [is_decimal_parts sign isWhole isFraction isExponent] at decimal
  obtain ⟨rfl, rfl⟩ : fraction = [] ∧ exponent = [] := by simpa using decimal
  rw [exponent_of_parts sign isWhole isFraction isExponent]
  exact Nat.zero_le _

theorem minus_skipped {minus whole rest : List Char} (view : p.rest = encode (minus ++ (whole ++ rest)))
    (sign : minus = [] ∨ minus = ['-']) (isWhole : Whole whole) :
    (if p.get = some (byte '-') then p.advance 1 else p) = p.advance minus.length := by
  obtain ⟨digit, more, rfl, isDigit⟩ := whole_head isWhole
  rcases sign with rfl | rfl
  · rw [if_neg]
    · rfl
    · intro same
      have first := (get_iff view (by decide)).mp same
      exact (digit_plain isDigit).2.2.2.1 (Option.some.inj first)
  · rw [if_pos ((get_iff view (by decide)).mpr rfl)]
    rfl

theorem parse_number_complete (pinned : limits.maxAggregateBytes < usizeMax)
    (exponents : limits.maxAbsoluteExponent ≤ i64Max) {spelled rest : List Char}
    (view : p.rest = encode (spelled ++ rest)) (number : Number spelled) (ends : Ends rest)
    (within : NumberWithin limits spelled)
    (room : p.aggregateBytes + size spelled ≤ limits.maxAggregateBytes) :
    ∃ q, parseNumber limits p = .ok (numberOf spelled, q) ∧ Behind p q rest 0 (size spelled) := by
  have small := within.exponent number
  have read := number_text number view
  have last := ascii_view (number_ascii number) view
  have valued := (@number_value_iff (p.advance spelled.length) limits pinned spelled number small
    (numberOf spelled) _).mpr ⟨within, rfl, room, rfl⟩
  obtain ⟨minus, whole, fraction, exponent, rfl, sign, isWhole, isFraction, isExponent⟩ := number
  obtain ⟨behindWhole, behindFraction, point⟩ := ends.parts isFraction isExponent
  have joined : minus ++ whole ++ fraction ++ exponent ++ rest =
      minus ++ (whole ++ (fraction ++ (exponent ++ rest))) := by simp
  rw [joined] at view
  have place : (((p.advance minus.length).advance whole.length).advance fraction.length).advance
      exponent.length = p.advance (minus ++ whole ++ fraction ++ exponent).length := by
    simp only [advance_advance, length_append]
  have view₀ := ascii_view (minus_ascii sign) view
  have view₁ := ascii_view (digit_ascii isWhole.1.2) view₀
  have view₂ := ascii_view (fraction_ascii isFraction) view₁
  rw [exponent_of_parts sign isWhole isFraction isExponent] at small
  have integer := parse_integer_complete view₀ isWhole behindWhole
  have fractional := parse_fraction_complete view₁ isFraction behindFraction point
  have exponential := parse_exponent_complete exponents view₂ isExponent ends.digit
    ⟨fun mark => (ends 'e' mark).2.2.1 rfl, fun mark => (ends 'E' mark).2.2.2 rfl⟩ small
  refine ⟨{ p.advance (minus ++ whole ++ fraction ++ exponent).length with
    aggregateBytes := p.aggregateBytes + size (minus ++ whole ++ fraction ++ exponent) }, ?_,
    ⟨last, rfl, rfl⟩⟩
  rw [parseNumber]
  dsimp only
  rw [minus_skipped view sign isWhole, bind_ok]
  refine ⟨_, integer, bind_ok.mpr ⟨_, fractional, bind_ok.mpr ⟨_, exponential, ?_⟩⟩⟩
  rw [place, read]
  rw [← is_decimal_parts sign isWhole isFraction isExponent]
  exact valued

end Numbers

end PerlLsp.StructuredMutation
