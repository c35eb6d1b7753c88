import PerlLsp.DebuggerValue

/-! Perl literals as a debugger shows them, with any spacing, and the parser on them: it gives the
value back, as long as the brackets of a kind are not nested deeper than its counters reach. -/
namespace PerlLsp.DebuggerLiteral
open Text Utf8 DebuggerValue List Nat
open StructuredMutation (parseI64)

abbrev I64 := { value : Int // -2 ^ 63 ≤ value ∧ value < 2 ^ 63 }

inductive Bracket where
  | round
  | square
  | curly
  deriving DecidableEq

def Bracket.opening : Bracket → Char
  | round => '('
  | square => '['
  | curly => '\x7b'

def Bracket.closing : Bracket → Char
  | round => ')'
  | square => ']'
  | curly => '\x7d'

inductive Lead : Bool → Type where
  | bare (before : Nat) : Lead false
  | keyed (before : Nat) (key : List Char) (left right : Nat) : Lead true

mutual

inductive Literal where
  | undef
  | integer (value : I64)
  | string (text : List Char)
  | emptyArray (square : Bool) (blank : Nat)
  | array (square : Bool) (items : Items false)
  | emptyHash (blank : Nat)
  | hash (items : Items true)

inductive Items : Bool → Type where
  | last {keyed : Bool} (lead : Lead keyed) (value : Literal) (after : Nat) : Items keyed
  | more {keyed : Bool} (lead : Lead keyed) (value : Literal) (after : Nat) (rest : Items keyed) :
      Items keyed

end

def arrayBracket (square : Bool) : Bracket := if square then .square else .round

section Printing

def spaces (count : Nat) : List Char := List.replicate count ' '

def escapeChar : Char → List Char
  | '\\' => ['\\', '\\']
  | '"' => ['\\', '"']
  | '\n' => ['\\', 'n']
  | '\r' => ['\\', 'r']
  | '\t' => ['\\', 't']
  | scalar => [scalar]

def escaped (text : List Char) : List Char := text.flatMap escapeChar

def quote (text : List Char) : List Char := '"' :: (escaped text ++ ['"'])

def integerText (value : Int) : List Char :=
  if value < 0 then '-' :: decimal value.natAbs else decimal value.natAbs

def Lead.before {keyed : Bool} : Lead keyed → Nat
  | .bare before => before
  | .keyed before _ _ _ => before

def Lead.key {keyed : Bool} : Lead keyed → List Char
  | .bare _ => []
  | .keyed _ key _ _ => key

def Lead.label {keyed : Bool} : Lead keyed → List Char
  | .bare _ => []
  | .keyed _ key left right => quote key ++ spaces left ++ ['=', '>'] ++ spaces right

mutual

def Literal.text : Literal → List Char
  | .undef => ['u', 'n', 'd', 'e', 'f']
  | .integer value => integerText value
  | .string text => quote text
  | .emptyArray square blank =>
    (arrayBracket square).opening :: (spaces blank ++ [(arrayBracket square).closing])
  | .array square items =>
    (arrayBracket square).opening :: (items.text ++ [(arrayBracket square).closing])
  | .emptyHash blank => Bracket.curly.opening :: (spaces blank ++ [Bracket.curly.closing])
  | .hash items => Bracket.curly.opening :: (items.text ++ [Bracket.curly.closing])

def Items.text {keyed : Bool} : Items keyed → List Char
  | .last lead value after => spaces lead.before ++ (lead.label ++ value.text) ++ spaces after
  | .more lead value after rest =>
    spaces lead.before ++ (lead.label ++ value.text) ++ spaces after ++ ',' :: rest.text

end

mutual

def Literal.value (Number : Type) : Literal → PerlValue Number
  | .undef => .undef
  | .integer value => .integer value
  | .string text => .scalar text
  | .emptyArray _ _ => .array []
  | .array _ items => .array ((items.pairs Number).map Prod.snd)
  | .emptyHash _ => .hash []
  | .hash items => .hash (items.pairs Number)

def Items.pairs (Number : Type) {keyed : Bool} : Items keyed → List (List Char × PerlValue Number)
  | .last lead value _ => [(lead.key, value.value Number)]
  | .more lead value _ rest => (lead.key, value.value Number) :: rest.pairs Number

end

mutual

/-- How many collections lie around the innermost value. -/
def Literal.depth : Literal → Nat
  | .array _ items => items.depth
  | .hash items => items.depth
  | _ => 0

def Items.depth {keyed : Bool} : Items keyed → Nat
  | .last _ value _ => value.depth + 1
  | .more _ value _ rest => max (value.depth + 1) rest.depth

end

mutual

def Literal.nesting (kind : Bracket) : Literal → Nat
  | .emptyArray square _ => if kind = arrayBracket square then 1 else 0
  | .array square items => (if kind = arrayBracket square then 1 else 0) + items.nesting kind
  | .emptyHash _ => if kind = .curly then 1 else 0
  | .hash items => (if kind = .curly then 1 else 0) + items.nesting kind
  | _ => 0

def Items.nesting {keyed : Bool} (kind : Bracket) : Items keyed → Nat
  | .last _ value _ => value.nesting kind
  | .more _ value _ rest => max (value.nesting kind) (rest.nesting kind)

end

def Literal.inside (kind : Bracket) : Literal → Nat
  | .array _ items => items.nesting kind
  | .hash items => items.nesting kind
  | _ => 0

/-- No bracket is nested deeper than a `u32` counts. -/
def Literal.Counted (literal : Literal) : Prop := ∀ kind, literal.inside kind ≤ u32Max

end Printing

section Quoted
variable {Symbol : Type} {backslash double single : Symbol}

/-- Symbols a string in double quotes may hold: none ends it, and no escape is left open. -/
inductive Inside (backslash double : Symbol) : List Symbol → Prop where
  | nil : Inside backslash double []
  | plain {symbol : Symbol} {rest : List Symbol} (bare : symbol ≠ backslash)
      (kept : symbol ≠ double) (further : Inside backslash double rest) :
      Inside backslash double (symbol :: rest)
  | escaped {symbol : Symbol} {rest : List Symbol} (further : Inside backslash double rest) :
      Inside backslash double (backslash :: symbol :: rest)

theorem inside_plain {front rest : List Symbol}
    (plain : ∀ symbol ∈ front, symbol ≠ backslash ∧ symbol ≠ double)
    (further : Inside backslash double rest) : Inside backslash double (front ++ rest) := by
  induction front with
  | nil => exact further
  | cons symbol front ih =>
    obtain ⟨bare, kept⟩ := plain symbol mem_cons_self
    exact .plain bare kept (ih fun other member => plain other (mem_cons_of_mem _ member))

theorem escaped_inside (text : List Char) : Inside '\\' '"' (escaped text) := by
  induction text with
  | nil => exact .nil
  | cons scalar rest ih =>
    change Inside '\\' '"' (escapeChar scalar ++ escaped rest)
    unfold escapeChar
    split
    · exact .escaped ih
    · exact .escaped ih
    · exact .escaped ih
    · exact .escaped ih
    · exact .escaped ih
    · next bare kept _ _ _ => exact .plain bare kept ih

theorem bytes_apart {scalar other : Char} {byte : UInt8} (ascii : byte.toNat < 0x80)
    (value : byte.toNat = other.val.toNat) (differs : scalar ≠ other) :
    ∀ symbol ∈ String.utf8EncodeChar scalar, symbol ≠ byte := by
  rintro symbol member rfl
  by_cases low : scalar.val.toNat < 0x80
  · rw [encode_ascii scalar low, mem_singleton, ← UInt8.toNat_inj, UInt8.toNat_ofNat'] at member
    refine differs (Char.ext (UInt32.toNat_inj.mp ?_))
    omega
  · have high := encoded_high scalar (by omega) _ member
    simp [UInt8.le_iff_toNat_le] at high
    omega

/-- The bytes of such a text are such bytes: those of a longer scalar are never ASCII. -/
theorem inside_bytes {text : List Char} (inside : Inside '\\' '"' text) :
    Inside (0x5C : UInt8) 0x22 (encode text) := by
  induction inside with
  | nil => exact .nil
  | plain bare kept _ ih =>
    exact inside_plain (fun symbol member => ⟨bytes_apart (by decide) rfl bare symbol member,
      bytes_apart (by decide) rfl kept symbol member⟩) ih
  | @escaped symbol rest _ ih =>
    obtain ⟨first, tail, bytes, -, behind⟩ := encoded_tail symbol
    have whole : encode ('\\' :: symbol :: rest) = 0x5C :: first :: (tail ++ encode rest) := by
      change String.utf8EncodeChar '\\' ++ (String.utf8EncodeChar symbol ++ encode rest) = _
      rw [bytes]
      rfl
    rw [whole]
    refine .escaped (inside_plain ?_ ih)
    intro byte member
    have range := (continuation_range byte).mp (behind byte member)
    constructor
    · rintro rfl
      exact absurd range.1 (by decide)
    · rintro rfl
      exact absurd range.1 (by decide)

variable [DecidableEq Symbol]

/-- The flags inside a string. -/
def within (double : Symbol) : Quoting Symbol := ⟨true, double, false⟩

theorem next_plain {symbol : Symbol} (bare : symbol ≠ backslash) (kept : symbol ≠ double) :
    (within double).next backslash double single symbol = some (within double) := by
  simp [Quoting.next, within, bare, kept]

theorem next_escape :
    (within double).next backslash double single backslash = some ⟨true, double, true⟩ := by
  simp [Quoting.next, within]

theorem next_escaped (symbol : Symbol) :
    (Quoting.mk true double true).next backslash double single symbol = some (within double) := by
  simp [Quoting.next, within]

theorem next_close (apart : double ≠ backslash) :
    (within double).next backslash double single double = some ⟨false, double, false⟩ := by
  simp [Quoting.next, within, apart]

theorem next_open {quoting : Quoting Symbol} (apart : double ≠ backslash)
    (outside : quoting.inString = false) (unescaped : quoting.escapeNext = false) :
    quoting.next backslash double single double = some (within double) := by
  simp [Quoting.next, within, apart, outside, unescaped]

theorem next_outside {quoting : Quoting Symbol} {symbol : Symbol}
    (outside : quoting.inString = false) (unescaped : quoting.escapeNext = false)
    (bare : symbol ≠ backslash) (first : symbol ≠ double) (second : symbol ≠ single) :
    quoting.next backslash double single symbol = none := by
  simp [Quoting.next, outside, unescaped, bare, first, second]

end Quoted

section Scanning

def depthOf (split : Split) : Bracket → Nat
  | .round => split.parenDepth
  | .square => split.bracketDepth
  | .curly => split.braceDepth

structure Outside (split : Split) : Prop where
  string : split.quoting.inString = false
  escape : split.quoting.escapeNext = false

structure Pushed (split : Split) (text : List Char) (after : Split) : Prop where
  elements : after.elements = split.elements
  current : after.current = split.current ++ text
  depths : ∀ kind, depthOf after kind = depthOf split kind
  outside : Outside after

variable {checks : Bool} {split middle after : Split}

def scan (checks : Bool) (split : Split) (text : List Char) : Option Split :=
  text.foldlM (Split.step checks) split

theorem scan_append (split : Split) (left right : List Char) :
    scan checks split (left ++ right) = (scan checks split left).bind (scan checks · right) :=
  foldlM_append

theorem scan_cons (split : Split) (scalar : Char) (rest : List Char) :
    scan checks split (scalar :: rest) = (split.step checks scalar).bind (scan checks · rest) := rfl

theorem pushed_nil (outside : Outside split) : Pushed split [] split :=
  ⟨rfl, (append_nil _).symm, fun _ => rfl, outside⟩

theorem Pushed.trans {left right : List Char} (first : Pushed split left middle)
    (second : Pushed middle right after) : Pushed split (left ++ right) after := by
  constructor
  · rw [second.elements, first.elements]
  · rw [second.current, first.current, append_assoc]
  · intro kind
    rw [second.depths, first.depths]
  · exact second.outside

def special : List Char := ['\\', '"', '\'', '(', ')', '[', ']', '\x7b', '\x7d', ',']

theorem step_plain {scalar : Char} (outside : Outside split) (plain : scalar ∉ special) :
    split.step checks scalar = some (split.push scalar) := by
  simp only [special, mem_cons, not_mem_nil, not_or] at plain
  obtain ⟨bare, first, second, p, p', b, b', c, c', comma⟩ := plain
  unfold Split.step
  rw [next_outside outside.string outside.escape bare first second]
  dsimp only
  split <;> first | rfl | contradiction

/-- A text without quotes, brackets and commas is taken as it is. -/
theorem scan_plain {text : List Char} (outside : Outside split) (plain : ∀ scalar ∈ text, scalar ∉ special) :
    ∃ after, scan checks split text = some after ∧ Pushed split text after := by
  induction text generalizing split with
  | nil => exact ⟨split, rfl, pushed_nil outside⟩
  | cons scalar rest ih =>
    have first : Pushed split [scalar] (split.push scalar) :=
      ⟨rfl, rfl, fun _ => rfl, ⟨outside.string, outside.escape⟩⟩
    obtain ⟨after, ran, pushed⟩ :=
      ih first.outside fun other member => plain other (mem_cons_of_mem _ member)
    refine ⟨after, ?_, first.trans pushed⟩
    rw [scan_cons, step_plain outside (plain scalar mem_cons_self), Option.bind_some, ran]

/-- Inside of a string, whatever may stand there is taken. -/
theorem scan_inside {text : List Char} (inside : Inside '\\' '"' text) (split : Split) :
    scan checks { split with quoting := within '"' } text =
      some { split with current := split.current ++ text, quoting := within '"' } := by
  induction inside generalizing split with
  | nil =>
    rw [append_nil]
    rfl
  | @plain scalar rest bare kept _ ih =>
    have step : Split.step checks { split with quoting := within '"' } scalar =
        some { split.push scalar with quoting := within '"' } := by
      unfold Split.step
      rw [next_plain bare kept]
      rfl
    rw [scan_cons, step, Option.bind_some, ih]
    simp [Split.push]
  | @escaped scalar rest _ ih =>
    have first : Split.step checks { split with quoting := within '"' } '\\' =
        some { split.push '\\' with quoting := ⟨true, '"', true⟩ } := by
      unfold Split.step
      rw [next_escape]
      rfl
    have second : Split.step checks { split.push '\\' with quoting := ⟨true, '"', true⟩ } scalar =
        some { (split.push '\\').push scalar with quoting := within '"' } := by
      unfold Split.step
      rw [next_escaped]
      rfl
    rw [scan_cons, first, Option.bind_some, scan_cons, second, Option.bind_some, ih]
    simp [Split.push]

theorem scan_quote (outside : Outside split) (text : List Char) :
    ∃ after, scan checks split (quote text) = some after ∧ Pushed split (quote text) after := by
  have opened : split.step checks '"' = some { split.push '"' with quoting := within '"' } := by
    unfold Split.step
    rw [next_open (by decide) outside.string outside.escape]
  refine ⟨{ split with current := split.current ++ quote text, quoting := ⟨false, '"', false⟩ },
    ?_, ⟨rfl, rfl, fun kind => by cases kind <;> rfl, ⟨rfl, rfl⟩⟩⟩
  rw [quote, scan_cons, opened, Option.bind_some, scan_append, scan_inside (escaped_inside text),
    Option.bind_some, scan_cons]
  unfold Split.step
  rw [next_close (by decide)]
  simp [Split.push, scan]

def bracketed (split : Split) (kind : Bracket) (scalar : Char) (depth : Nat) : Split :=
  match kind with
  | .round => { split.push scalar with parenDepth := depth }
  | .square => { split.push scalar with bracketDepth := depth }
  | .curly => { split.push scalar with braceDepth := depth }

theorem bracketed_depth (split : Split) (kind other : Bracket) (scalar : Char) (depth : Nat) :
    depthOf (bracketed split kind scalar depth) other =
      if other = kind then depth else depthOf split other := by
  cases kind <;> cases other <;> rfl

theorem bracketed_same (split : Split) (kind : Bracket) (scalar : Char) (depth : Nat) :
    (bracketed split kind scalar depth).elements = split.elements ∧
      (bracketed split kind scalar depth).current = split.current ++ [scalar] ∧
      (bracketed split kind scalar depth).quoting = split.quoting := by
  cases kind <;> exact ⟨rfl, rfl, rfl⟩

theorem step_opening (outside : Outside split) (kind : Bracket) : split.step checks kind.opening =
      (increment checks (depthOf split kind)).map (bracketed split kind kind.opening) := by
  unfold Split.step
  cases kind <;>
    rw [next_outside outside.string outside.escape (by decide) (by decide) (by decide)] <;> rfl

theorem step_closing (outside : Outside split) (kind : Bracket) : split.step checks kind.closing =
      some (bracketed split kind kind.closing (depthOf split kind - 1)) := by
  unfold Split.step
  cases kind <;>
    rw [next_outside outside.string outside.escape (by decide) (by decide) (by decide)] <;> rfl

theorem step_comma (outside : Outside split) (deep : ∃ kind, depthOf split kind ≠ 0) :
    split.step checks ',' = some (split.push ',') := by
  obtain ⟨kind, some⟩ := deep
  have innerText : ¬ (split.parenDepth = 0 ∧ split.bracketDepth = 0 ∧ split.braceDepth = 0) := by
    rintro ⟨round, square, curly⟩
    cases kind with
    | round => exact some round
    | square => exact some square
    | curly => exact some curly
  unfold Split.step
  rw [next_outside outside.string outside.escape (by decide) (by decide) (by decide)]
  exact if_neg innerText

structure Opened (split : Split) (kind : Bracket) (middle : Split) : Prop where
  elements : middle.elements = split.elements
  current : middle.current = split.current ++ [kind.opening]
  depths : ∀ other, depthOf middle other = depthOf split other + if other = kind then 1 else 0
  outside : Outside middle

theorem scan_opening (outside : Outside split) {kind : Bracket} (room : depthOf split kind < u32Max) :
    ∃ middle, split.step checks kind.opening = some middle ∧ Opened split kind middle := by
  obtain ⟨elements, current, quoting⟩ :=
    bracketed_same split kind kind.opening (depthOf split kind + 1)
  refine ⟨_, ?_, elements, current, ?_, ?_⟩
  · rw [step_opening outside, increment, if_pos room]
    rfl
  · intro other
    rw [bracketed_depth]
    split
    next same => rw [same]
    next => rfl
  · constructor
    · rw [quoting]
      exact outside.string
    · rw [quoting]
      exact outside.escape

theorem scan_bracketed (outside : Outside split) {kind : Bracket} {body : List Char}
    (room : depthOf split kind < u32Max) (inside : ∀ middle, Opened split kind middle →
      ∃ after, scan checks middle body = some after ∧ Pushed middle body after) :
    ∃ after, scan checks split (kind.opening :: (body ++ [kind.closing])) = some after ∧
      Pushed split (kind.opening :: (body ++ [kind.closing])) after := by
  obtain ⟨first, opened, state⟩ := @scan_opening checks split outside kind room
  obtain ⟨last, ran, pushed⟩ := inside first state
  obtain ⟨elements, current, quoting⟩ :=
    bracketed_same last kind kind.closing (depthOf last kind - 1)
  refine ⟨bracketed last kind kind.closing (depthOf last kind - 1), ?_, ?_, ?_, ?_, ?_⟩
  · rw [scan_cons, opened, Option.bind_some, scan_append, ran, Option.bind_some, scan_cons,
      step_closing pushed.outside]
    rfl
  · rw [elements, pushed.elements, state.elements]
  · rw [current, pushed.current, state.current]
    simp
  · intro other
    rw [bracketed_depth, pushed.depths, pushed.depths, state.depths, state.depths, if_pos rfl,
      Nat.add_sub_cancel]
    split
    next same => rw [same]
    next => rfl
  · constructor
    · rw [quoting]
      exact pushed.outside.string
    · rw [quoting]
      exact pushed.outside.escape

theorem scan_both {left right : List Char}
    (first : ∃ middle, scan checks split left = some middle ∧ Pushed split left middle)
    (second : ∀ middle, Pushed split left middle →
      ∃ after, scan checks middle right = some after ∧ Pushed middle right after) :
    ∃ after, scan checks split (left ++ right) = some after ∧ Pushed split (left ++ right) after := by
  obtain ⟨middle, ran, pushed⟩ := first
  obtain ⟨after, further, last⟩ := second middle pushed
  refine ⟨after, ?_, pushed.trans last⟩
  rw [scan_append, ran, Option.bind_some, further]

theorem spaces_plain (count : Nat) : ∀ scalar ∈ spaces count, scalar ∉ special := by
  intro scalar member
  obtain rfl := eq_of_mem_replicate member
  decide

theorem integer_plain (value : Int) : ∀ scalar ∈ integerText value, scalar ∉ special := by
  have digits (scalar : Char) (isDigit : scalar.isDigit = true) : scalar ∉ special := by
    have range := digit_range scalar isDigit
    simp only [special, mem_cons, not_mem_nil, or_false, not_or]
    refine ⟨?_, ?_, ?_, ?_, ?_, ?_, ?_, ?_, ?_, ?_⟩ <;>
    · rintro rfl
      revert range
      decide
  intro scalar member
  unfold integerText at member
  split at member
  · rcases mem_cons.mp member with rfl | digit
    · decide
    · exact digits scalar (decimal_digits _ scalar digit)
  · exact digits scalar (decimal_digits _ scalar member)

theorem scan_label {keyed : Bool} (lead : Lead keyed) (outside : Outside split) :
    ∃ after, scan checks split lead.label = some after ∧ Pushed split lead.label after := by
  cases lead with
  | bare before => exact ⟨split, rfl, pushed_nil outside⟩
  | keyed before key left right =>
    apply scan_both
    · apply scan_both
      · apply scan_both
        · exact scan_quote outside key
        · exact fun _ quoted => scan_plain quoted.outside (spaces_plain left)
      · exact fun _ quoted => scan_plain quoted.outside (by simp [special])
    · exact fun _ quoted => scan_plain quoted.outside (spaces_plain right)

/-- An item, once its value has been taken. -/
theorem scan_item {keyed : Bool} (lead : Lead keyed) {text : List Char} (after : Nat)
    (outside : Outside split) (value : ∀ middle, Pushed split (spaces lead.before ++ lead.label) middle →
      ∃ last, scan checks middle text = some last ∧ Pushed middle text last) :
    ∃ last, scan checks split (spaces lead.before ++ (lead.label ++ text) ++ spaces after) = some last ∧
      Pushed split (spaces lead.before ++ (lead.label ++ text) ++ spaces after) last := by
  rw [← append_assoc (spaces lead.before)]
  apply scan_both
  · apply scan_both
    · apply scan_both
      · exact scan_plain outside (spaces_plain _)
      · exact fun _ spaced => scan_label lead spaced.outside
    · exact value
  · exact fun _ whole => scan_plain whole.outside (spaces_plain after)

mutual

theorem scan_literal (checks : Bool) (literal : Literal) (split : Split) (outside : Outside split)
    (fits : ∀ kind, depthOf split kind + literal.nesting kind ≤ u32Max) :
    ∃ after, scan checks split literal.text = some after ∧ Pushed split literal.text after := by
  match literal with
  | .undef => exact scan_plain outside (by simp [Literal.text, special])
  | .integer value => exact scan_plain outside (integer_plain value)
  | .string text => exact scan_quote outside text
  | .emptyArray square blank =>
    have room := fits (arrayBracket square)
    rw [Literal.nesting, if_pos rfl] at room
    exact scan_bracketed outside (by omega) fun middle opened =>
      scan_plain opened.outside (spaces_plain blank)
  | .emptyHash blank =>
    have room := fits .curly
    rw [Literal.nesting, if_pos rfl] at room
    exact scan_bracketed outside (by omega) fun middle opened =>
      scan_plain opened.outside (spaces_plain blank)
  | .array square items =>
    have room := fits (arrayBracket square)
    rw [Literal.nesting, if_pos rfl] at room
    refine scan_bracketed outside (by omega) fun middle opened => ?_
    apply scan_items checks items middle opened.outside
    · refine ⟨arrayBracket square, ?_⟩
      rw [opened.depths, if_pos rfl]
      exact succ_ne_zero _
    · intro kind
      have bound := fits kind
      rw [Literal.nesting] at bound
      rw [opened.depths]
      omega
  | .hash items =>
    have room := fits .curly
    rw [Literal.nesting, if_pos rfl] at room
    refine scan_bracketed outside (by omega) fun middle opened => ?_
    apply scan_items checks items middle opened.outside
    · refine ⟨.curly, ?_⟩
      rw [opened.depths, if_pos rfl]
      exact succ_ne_zero _
    · intro kind
      have bound := fits kind
      rw [Literal.nesting] at bound
      rw [opened.depths]
      omega

/-- Below a bracket the commas are part of the element. -/
theorem scan_items (checks : Bool) {keyed : Bool} (items : Items keyed) (split : Split)
    (outside : Outside split) (deep : ∃ kind, depthOf split kind ≠ 0)
    (fits : ∀ kind, depthOf split kind + items.nesting kind ≤ u32Max) :
    ∃ after, scan checks split items.text = some after ∧ Pushed split items.text after := by
  match items with
  | .last lead value after =>
    refine scan_item lead after outside fun middle pushed => ?_
    refine scan_literal checks value middle pushed.outside fun kind => ?_
    rw [pushed.depths]
    exact fits kind
  | .more lead value after rest =>
    have bounds (kind : Bracket) : depthOf split kind + value.nesting kind ≤ u32Max ∧
        depthOf split kind + rest.nesting kind ≤ u32Max := by
      have bound := fits kind
      rw [Items.nesting] at bound
      omega
    apply scan_both
    · refine scan_item lead after outside fun middle pushed => ?_
      refine scan_literal checks value middle pushed.outside fun kind => ?_
      rw [pushed.depths]
      exact (bounds kind).1
    · intro middle pushed
      obtain ⟨kind, some⟩ := deep
      have below : ∃ kind, depthOf middle kind ≠ 0 := ⟨kind, by rwa [pushed.depths]⟩
      apply @scan_both _ _ [','] rest.text
      · refine ⟨middle.push ',', ?_, rfl, rfl, fun _ => rfl, ?_⟩
        · rw [scan_cons, step_comma pushed.outside below]
          rfl
        · exact ⟨pushed.outside.string, pushed.outside.escape⟩
      · intro last comma
        apply scan_items checks rest last comma.outside
        · exact ⟨kind, by rwa [comma.depths, pushed.depths]⟩
        · intro kind
          rw [comma.depths, pushed.depths]
          exact (bounds kind).2

end

/-- A comma leaves the flags and the depths alone, whether it ends an element or not. -/
theorem step_comma_neutral (outside : Outside split) :
    ∃ after, split.step checks ',' = some after ∧ Outside after ∧
      ∀ kind, depthOf after kind = depthOf split kind := by
  unfold Split.step
  rw [next_outside outside.string outside.escape (by decide) (by decide) (by decide)]
  by_cases top : split.parenDepth = 0 ∧ split.bracketDepth = 0 ∧ split.braceDepth = 0
  · exact ⟨split.flush, if_pos top, ⟨outside.string, outside.escape⟩, fun kind => by cases kind <;> rfl⟩
  · exact ⟨split.push ',', if_neg top, ⟨outside.string, outside.escape⟩, fun _ => rfl⟩

theorem opening_overflows (outside : Outside split) {kind : Bracket}
    (full : u32Max ≤ depthOf split kind) (rest : List Char) :
    scan true split (kind.opening :: rest) = none := by
  rw [scan_cons, step_opening outside, increment, if_neg (by omega)]
  rfl

theorem item_overflows {keyed : Bool} (lead : Lead keyed) {text : List Char} (after : Nat)
    (outside : Outside split) (value : ∀ middle, Pushed split (spaces lead.before ++ lead.label) middle →
      scan true middle text = none) :
    scan true split (spaces lead.before ++ (lead.label ++ text) ++ spaces after) = none := by
  obtain ⟨middle, ran, pushed⟩ : ∃ middle, scan true split (spaces lead.before ++ lead.label) = some middle ∧
        Pushed split (spaces lead.before ++ lead.label) middle := by
    apply scan_both
    · exact scan_plain outside (spaces_plain _)
    · exact fun _ spaced => scan_label lead spaced.outside
  rw [← append_assoc (spaces lead.before), scan_append, scan_append, ran, Option.bind_some,
    value middle pushed]
  rfl

/-- The bracket itself or what is in it exceeds the counter. -/
theorem bracket_overflows (outside : Outside split) {kind : Bracket} {inside : Bracket → Nat}
    {body : List Char} (counted : ∀ other, depthOf split other ≤ u32Max)
    (exceeds : ∃ other, u32Max < depthOf split other + ((if other = kind then 1 else 0) + inside other))
    (below : ∀ middle, Outside middle → (∀ other, depthOf middle other ≤ u32Max) →
      (∃ other, u32Max < depthOf middle other + inside other) → scan true middle body = none) :
    scan true split (kind.opening :: (body ++ [kind.closing])) = none := by
  by_cases full : u32Max ≤ depthOf split kind
  · exact opening_overflows outside full _
  obtain ⟨middle, opened, state⟩ := @scan_opening true split outside kind (Nat.lt_of_not_le full)
  have fails : scan true middle body = none := by
    apply below middle state.outside
    · intro other
      have low := counted other
      rw [state.depths]
      split
      next same =>
        rw [same]
        omega
      next => exact low
    · obtain ⟨other, high⟩ := exceeds
      refine ⟨other, ?_⟩
      rw [state.depths]
      omega
  rw [scan_cons, opened, Option.bind_some, scan_append, fails]
  rfl

mutual

theorem literal_overflows (literal : Literal) (split : Split) (outside : Outside split)
    (counted : ∀ kind, depthOf split kind ≤ u32Max)
    (exceeds : ∃ kind, u32Max < depthOf split kind + literal.nesting kind) :
    scan true split literal.text = none := by
  have leaf (none : ∀ kind, literal.nesting kind = 0) : False := by
    obtain ⟨kind, high⟩ := exceeds
    have low := counted kind
    rw [none kind] at high
    omega
  match literal with
  | .undef | .integer value | .string text => exact (leaf fun _ => rfl).elim
  | .emptyArray square blank | .emptyHash blank =>
    refine @bracket_overflows split outside _ (fun _ => 0) _ counted exceeds fun middle _ low high => ?_
    obtain ⟨kind, high⟩ := high
    exact absurd (low kind) (Nat.not_le.mpr high)
  | .array square items | .hash items =>
    exact bracket_overflows outside counted exceeds fun middle outside low high =>
      items_overflow items middle outside low high

theorem items_overflow {keyed : Bool} (items : Items keyed) (split : Split)
    (outside : Outside split) (counted : ∀ kind, depthOf split kind ≤ u32Max)
    (exceeds : ∃ kind, u32Max < depthOf split kind + items.nesting kind) :
    scan true split items.text = none := by
  have value_overflows (lead : Lead keyed) (value : Literal) (after : Nat)
      (fails : ∀ middle, Outside middle → (∀ kind, depthOf middle kind = depthOf split kind) →
        scan true middle value.text = none) :
      scan true split (spaces lead.before ++ (lead.label ++ value.text) ++ spaces after) = none :=
    item_overflows lead after outside fun middle pushed => fails middle pushed.outside pushed.depths
  match items with
  | .last lead value after =>
    refine value_overflows lead value after fun middle outside same => ?_
    apply literal_overflows value middle outside
    · intro kind
      rw [same]
      exact counted kind
    · obtain ⟨kind, high⟩ := exceeds
      exact ⟨kind, by rw [same]; exact high⟩
  | .more lead value after rest =>
    change scan true split (_ ++ ',' :: rest.text) = none
    by_cases fits : ∀ kind, depthOf split kind + value.nesting kind ≤ u32Max
    · obtain ⟨middle, ran, pushed⟩ := @scan_item true split keyed lead value.text after outside
        fun middle pushed => scan_literal true value middle pushed.outside fun kind => by
          rw [pushed.depths]
          exact fits kind
      obtain ⟨next, stepped, beyond, same⟩ := @step_comma_neutral true middle pushed.outside
      have depths (kind : Bracket) : depthOf next kind = depthOf split kind := by
        rw [same, pushed.depths]
      rw [scan_append, ran, Option.bind_some, scan_cons, stepped, Option.bind_some]
      apply items_overflow rest next beyond
      · intro kind
        rw [depths]
        exact counted kind
      · obtain ⟨kind, high⟩ := exceeds
        have low := fits kind
        refine ⟨kind, ?_⟩
        rw [Items.nesting] at high
        rw [depths]
        omega
    · obtain ⟨kind, high⟩ := Classical.not_forall.mp fits
      have fails := value_overflows lead value after fun middle outside same => by
        apply literal_overflows value middle outside
        · intro kind
          rw [same]
          exact counted kind
        · exact ⟨kind, by rw [same]; omega⟩
      rw [scan_append, fails]
      rfl

end

end Scanning

section Solid

structure Solid (text : List Char) : Prop where
  first : ∃ scalar, text.head? = some scalar ∧ isWhitespace scalar = false
  last : ∃ scalar, text.getLast? = some scalar ∧ isWhitespace scalar = false

theorem Solid.join {left right : List Char} (first : Solid left) (last : Solid right) :
    Solid (left ++ right) := by
  obtain ⟨head, isHead, solidHead⟩ := first.first
  obtain ⟨foot, isFoot, solidFoot⟩ := last.last
  refine ⟨⟨head, ?_, solidHead⟩, ⟨foot, ?_, solidFoot⟩⟩
  · rw [head?_append, isHead]
    rfl
  · rw [getLast?_append, isFoot]
    rfl

theorem Solid.between {left right : List Char} (first : Solid left) (last : Solid right)
    (middle : List Char) : Solid (left ++ middle ++ right) := by
  obtain ⟨head, isHead, solidHead⟩ := first.first
  obtain ⟨foot, isFoot, solidFoot⟩ := last.last
  refine ⟨⟨head, ?_, solidHead⟩, ⟨foot, ?_, solidFoot⟩⟩
  · rw [append_assoc, head?_append, isHead]
    rfl
  · rw [getLast?_append, isFoot]
    rfl

theorem solid_single {scalar : Char} (solid : isWhitespace scalar = false) : Solid [scalar] :=
  ⟨⟨scalar, rfl, solid⟩, ⟨scalar, rfl, solid⟩⟩

theorem solid_digits {text : List Char} (some : text ≠ []) (digits : ∀ digit ∈ text, digit.isDigit = true) :
    Solid text := by
  obtain ⟨head, rest, rfl⟩ := exists_cons_of_ne_nil some
  constructor
  · exact ⟨head, rfl, digit_not_whitespace head (digits head mem_cons_self)⟩
  · refine ⟨(head :: rest).getLast some, getLast?_eq_some_getLast some, ?_⟩
    exact digit_not_whitespace _ (digits _ (getLast_mem some))

theorem solid_bracketed (kind : Bracket) (body : List Char) :
    Solid (kind.opening :: (body ++ [kind.closing])) := by
  have opening : Solid [kind.opening] := solid_single (by cases kind <;> decide)
  have closing : Solid [kind.closing] := solid_single (by cases kind <;> decide)
  exact opening.between closing body

theorem solid_quote (text : List Char) : Solid (quote text) :=
  (solid_single (by decide)).between (solid_single (by decide)) (escaped text)

theorem solid_literal (literal : Literal) : Solid literal.text := by
  cases literal with
  | undef => exact ⟨⟨'u', rfl, by decide⟩, ⟨'f', rfl, by decide⟩⟩
  | integer value =>
    change Solid (integerText value)
    have digits := solid_digits (decimal_nonempty value.val.natAbs) (decimal_digits _)
    unfold integerText
    split
    · exact (solid_single (by decide)).join digits
    · exact digits
  | string text => exact solid_quote text
  | emptyArray square blank | array square items | emptyHash blank | hash items =>
    exact solid_bracketed _ _

theorem solid_item {keyed : Bool} (lead : Lead keyed) (value : Literal) :
    Solid (lead.label ++ value.text) := by
  cases lead with
  | bare before => exact solid_literal value
  | keyed before key left right =>
    have joined := (solid_quote key).between (solid_literal value)
      (spaces left ++ ['=', '>'] ++ spaces right)
    simpa only [Lead.label, append_assoc] using joined

theorem trim_solid {text : List Char} (solid : Solid text) (before after : Nat) :
    trim (spaces before ++ text ++ spaces after) = text := by
  obtain ⟨⟨head, isHead, solidHead⟩, ⟨foot, isFoot, solidFoot⟩⟩ := solid
  induction before with
  | zero =>
    obtain ⟨rest, rfl⟩ : ∃ rest, text = head :: rest := head?_eq_some_iff.mp isHead
    have start : trimStart (spaces 0 ++ (head :: rest) ++ spaces after) =
        (head :: rest) ++ spaces after := by simp [trimStart, spaces, solidHead]
    rw [trim, start, trimEnd]
    induction after with
    | zero =>
      rw [spaces, replicate_zero, append_nil, rdropWhile_eq_self_iff]
      intro some
      rw [Option.some.inj isFoot, solidFoot]
      exact Bool.false_ne_true
    | succ after ih =>
      have space : isWhitespace ' ' = true := by decide
      rw [spaces, replicate_succ', ← append_assoc, rdropWhile_concat_pos _ _ _ space]
      apply ih
      simp [trimStart, spaces, solidHead]
  | succ before ih =>
    exact ih

theorem trim_spaces (count : Nat) : trim (spaces count) = [] := by
  induction count with
  | zero => rfl
  | succ count ih =>
    exact ih

theorem trim_some {text : List Char} {scalar : Char} (member : scalar ∈ text)
    (solid : isWhitespace scalar = false) : trim text ≠ [] := by
  intro blank
  have all := rdropWhile_eq_nil_iff.mp blank
  cases dropped : trimStart text with
  | nil =>
    have white := dropWhile_eq_nil_iff.mp dropped scalar member
    rw [solid] at white
    cases white
  | cons head rest =>
    have white := all head (by rw [dropped]; exact mem_cons_self)
    have stops := head?_dropWhile_not isWhitespace text
    unfold trimStart at dropped
    rw [dropped] at stops
    exact Bool.false_ne_true (stops.symm.trans white)

end Solid

section Elements

/-- What the items look like to the parser: key, arrow and value, without spaces around. -/
def Items.pieces {keyed : Bool} : Items keyed → List (List Char)
  | .last lead value _ => [lead.label ++ value.text]
  | .more lead value _ rest => (lead.label ++ value.text) :: rest.pieces

variable {checks : Bool}

theorem flush_solid {split : Split} {text : List Char} {before after : Nat} (solid : Solid text)
    (current : split.current = spaces before ++ text ++ spaces after) :
    split.flush.elements = split.elements ++ [text] := by
  have some : text ≠ [] := by
    rintro rfl
    obtain ⟨⟨head, isHead, -⟩, -⟩ := solid
    cases isHead
  unfold Split.flush
  rw [current, trim_solid solid, if_neg some]

/-- At the outermost level the commas end the elements. -/
theorem scan_elements {keyed : Bool} (items : Items keyed) (split : Split) (outside : Outside split)
    (flat : ∀ kind, depthOf split kind = 0) (fresh : split.current = [])
    (fits : ∀ kind, items.nesting kind ≤ u32Max) : ∃ after, scan checks split items.text = some after ∧
      after.flush.elements = split.elements ++ items.pieces := by
  have item (lead : Lead keyed) (value : Literal) (after : Nat)
      (fits : ∀ kind, value.nesting kind ≤ u32Max) :
      ∃ last, scan checks split (spaces lead.before ++ (lead.label ++ value.text) ++ spaces after) =
          some last ∧ Outside last ∧ (∀ kind, depthOf last kind = 0) ∧
        last.flush.elements = split.elements ++ [lead.label ++ value.text] := by
    obtain ⟨last, ran, pushed⟩ := @scan_item checks split keyed lead value.text after outside
      fun middle pushed => scan_literal checks value middle pushed.outside fun kind => by
        rw [pushed.depths, flat, Nat.zero_add]
        exact fits kind
    have current := pushed.current
    rw [fresh, nil_append] at current
    refine ⟨last, ran, pushed.outside, fun kind => (pushed.depths kind).trans (flat kind), ?_⟩
    rw [flush_solid (solid_item lead value) current, pushed.elements]
  match items with
  | .last lead value after =>
    obtain ⟨last, ran, -, -, elements⟩ := item lead value after fits
    exact ⟨last, ran, elements⟩
  | .more lead value after rest =>
    have bounds (kind : Bracket) : value.nesting kind ≤ u32Max ∧ rest.nesting kind ≤ u32Max := by
      have bound := fits kind
      rw [Items.nesting] at bound
      omega
    obtain ⟨middle, ran, beyond, zero, elements⟩ := item lead value after fun kind => (bounds kind).1
    have ended : middle.step checks ',' = some middle.flush := by
      unfold Split.step
      rw [next_outside beyond.string beyond.escape (by decide) (by decide) (by decide)]
      exact if_pos ⟨zero .round, zero .square, zero .curly⟩
    obtain ⟨last, further, all⟩ := scan_elements rest middle.flush ⟨beyond.string, beyond.escape⟩
      (fun kind => by
        have same := zero kind
        cases kind <;> exact same) rfl fun kind => (bounds kind).2
    refine ⟨last, ?_, ?_⟩
    · change scan checks split (_ ++ ',' :: rest.text) = _
      rw [scan_append, ran, Option.bind_some, scan_cons, ended, Option.bind_some, further]
    · rw [all, elements, append_assoc]
      rfl

theorem split_start : Outside Split.start ∧ ∀ kind, depthOf Split.start kind = 0 :=
  ⟨⟨rfl, rfl⟩, fun kind => by cases kind <;> rfl⟩

/-- The elements of a collection are found while its brackets can be counted. -/
theorem split_counted (checks : Bool) {keyed : Bool} (items : Items keyed)
    (fits : ∀ kind, items.nesting kind ≤ u32Max) : splitElements checks items.text = .ok items.pieces := by
  obtain ⟨outside, flat⟩ := split_start
  obtain ⟨after, ran, elements⟩ := @scan_elements checks keyed items Split.start outside flat rfl fits
  unfold scan at ran
  rw [splitElements, ran]
  exact congrArg Except.ok elements

theorem split_overflows {keyed : Bool} (items : Items keyed)
    (exceeds : ∃ kind, u32Max < items.nesting kind) : splitElements true items.text = .error .overflow := by
  obtain ⟨outside, flat⟩ := split_start
  obtain ⟨kind, high⟩ := exceeds
  have fails := items_overflow items Split.start outside (fun kind => by
    rw [flat]
    exact Nat.zero_le _) ⟨kind, by rwa [flat, Nat.zero_add]⟩
  unfold scan at fails
  rw [splitElements, fails]

end Elements

section Scalars
variable {Number : Type} (library : Library Number)

theorem digits_digits {text : List Char} (some : text ≠ [])
    (digits : ∀ digit ∈ text, digit.isDigit = true) : isDigits library text = true := by
  unfold isDigits
  rw [Bool.and_eq_true, decide_eq_true_eq, all_eq_true]
  refine ⟨some, ?_⟩
  intro digit member
  have isDigit := digits digit member
  have range := digit_range digit isDigit
  rw [library.digit_ascii digit (by omega)]
  exact isDigit

theorem parse_i64_integer (value : I64) : parseI64 (integerText value) = some value.val := by
  obtain ⟨value, low, high⟩ := value
  have digits := decimal_digits value.natAbs
  have all : (decimal value.natAbs).all Char.isDigit = true := all_eq_true.mpr digits
  have some := decimal_nonempty value.natAbs
  have magnitude : Nat.ofDigitChars 10 (decimal value.natAbs) 0 = value.natAbs :=
    ofDigitChars_toDigits (by decide) (by decide)
  change parseI64 (integerText value) = Option.some value
  unfold integerText
  split
  next negative =>
    unfold parseI64
    simp only [head?_cons, true_or, if_true, tail_cons, some, all, false_or, Bool.true_eq_false, if_false]
    rw [if_pos (by omega)]
    congr 1
    omega
  next positive =>
    obtain ⟨digit, rest, spelled⟩ := exists_cons_of_ne_nil some
    have range := digit_range digit (digits digit (by rw [spelled]; exact mem_cons_self))
    have unsign (sign : Char) (other : sign.toNat < 48) :
        ((decimal value.natAbs).head? = Option.some sign) = False := by
      rw [spelled, head?_cons, Option.some.injEq, eq_iff_iff, iff_false]
      rintro rfl
      omega
    unfold parseI64
    simp only [unsign '-' (by decide), unsign '+' (by decide), or_self, if_false, some, all,
      Bool.true_eq_false]
    rw [if_pos (by omega)]
    congr 1
    omega

theorem integer_pattern (value : I64) :
    parsePatterns library (integerText value) = some (.ok (.integer value)) := by
  have digits := decimal_digits value.val.natAbs
  have some := decimal_nonempty value.val.natAbs
  have unsigned_text : unsigned (integerText value) = decimal value.val.natAbs := by
    unfold integerText
    split
    next => rfl
    next =>
      unfold unsigned
      split
      next rest same =>
        have isDigit := digits '-' (by rw [same]; exact mem_cons_self)
        exact absurd isDigit (by decide)
      next => rfl
  have isInteger : integerRe library (integerText value) = true := by
    rw [integerRe, unsigned_text]
    exact digits_digits library some digits
  have other : integerText value ≠ ['u', 'n', 'd', 'e', 'f'] := by
    intro same
    have plain := unsigned_text
    rw [same] at plain
    have isDigit := digits 'u' (by rw [← plain]; exact mem_cons_self)
    exact absurd isDigit (by decide)
  unfold parsePatterns
  rw [if_neg other, if_pos isInteger, parse_i64_integer]

/-- What opens with another scalar than a digit, a sign or a point is no number. -/
theorem not_numeric {scalar : Char} {rest : List Char} (ascii : scalar.toNat < 128)
    (nondigit : scalar.isDigit = false) (unsign : scalar ≠ '-') (point : scalar ≠ '.') :
    integerRe library (scalar :: rest) = false ∧ numberRe library (scalar :: rest) = false := by
  have bare : unsigned (scalar :: rest) = scalar :: rest := by
    unfold unsigned
    split
    next same => exact absurd (List.cons.inj same).1 unsign
    next => rfl
  have other : library.isDigit scalar = false := (library.digit_ascii scalar ascii).trans nondigit
  constructor
  · rw [integerRe, bare]
    simp [isDigits, other]
  · rw [numberRe, bare]
    rw [takeWhile_cons_of_neg (by simp [other]), dropWhile_cons_of_neg (by simp [other])]
    split
    next same => exact absurd (List.cons.inj same).1 point
    next => rfl

variable (text : List Char)

theorem unescape_escaped : unescapeString (escaped text) = text := by
  induction text with
  | nil => rfl
  | cons scalar rest ih =>
    change unescapeString (escapeChar scalar ++ escaped rest) = _
    unfold escapeChar
    split
    · exact congrArg ('\\' :: ·) ih
    · exact congrArg ('"' :: ·) ih
    · exact congrArg ('\n' :: ·) ih
    · exact congrArg ('\r' :: ·) ih
    · exact congrArg ('\t' :: ·) ih
    · next bare _ _ _ _ =>
        rw [singleton_append, unescapeString, ih]
        · exact fun same => absurd same bare
        · exact fun _ _ same => absurd same bare

theorem closes_escaped (rest : List Char) : closesQuote '"' (escaped text ++ '"' :: rest) = true := by
  induction text with
  | nil => simp [escaped, closesQuote]
  | cons scalar text ih =>
    change closesQuote '"' (escapeChar scalar ++ escaped text ++ '"' :: rest) = true
    rw [append_assoc]
    unfold escapeChar
    split
    · simpa [closesQuote] using ih
    · simpa [closesQuote] using ih
    · simpa [closesQuote] using ih
    · simpa [closesQuote] using ih
    · simpa [closesQuote] using ih
    · next bare _ _ _ _ =>
        rw [singleton_append, closesQuote, ih, Bool.or_true]
        · exact fun same => absurd same bare
        · exact fun _ _ same => absurd same bare

theorem quote_ends : isQuoted (quote text) ∧ innerText (quote text) = escaped text ∧
    2 ≤ size (quote text) := by
  refine ⟨.inl ⟨rfl, ?_⟩, ?_, ?_⟩
  · rw [quote, ← cons_append, getLast?_concat]
  · rw [innerText, quote, drop_one, tail_cons, dropLast_concat]
  · rw [quote, size_cons, size_append]
    have mark : ('"' : Char).utf8Size = 1 := rfl
    have last : size ['"'] = 1 := rfl
    omega

theorem quote_pattern : parsePatterns library (quote text) = some (.ok (.scalar text)) := by
  obtain ⟨noInteger, noNumber⟩ := @not_numeric _ library '"' (escaped text ++ ['"']) (by decide)
    (by decide) (by decide) (by decide)
  obtain ⟨quoted, content, long⟩ := quote_ends text
  have matched : quotedStringRe (quote text) = true := closes_escaped text []
  have unquoted : unquoteString (quote text) = .ok text := by
    rw [unquoteString, if_neg (by omega), if_pos quoted, content, unescape_escaped]
  have noInteger' : integerRe library (quote text) = false := noInteger
  have noNumber' : numberRe library (quote text) = false := noNumber
  unfold parsePatterns
  rw [noInteger', noNumber', matched, unquoted]
  rfl

theorem bracket_pattern (kind : Bracket) (rest : List Char) :
    parsePatterns library (kind.opening :: rest) = none := by
  have ascii : kind.opening.toNat < 128 := by cases kind <;> decide
  obtain ⟨noInteger, noNumber⟩ := @not_numeric _ library kind.opening rest ascii
    (by cases kind <;> decide) (by cases kind <;> decide) (by cases kind <;> decide)
  have undefined : kind.opening :: rest ≠ ['u', 'n', 'd', 'e', 'f'] := by
    intro same
    have first := (List.cons.inj same).1
    cases kind <;> exact absurd first (by decide)
  have unquoted : quotedStringRe (kind.opening :: rest) = false := by cases kind <;> rfl
  have unaddressed : isAddress arrayTag (kind.opening :: rest) = false ∧
      isAddress hashTag (kind.opening :: rest) = false ∧
      isAddress codeTag (kind.opening :: rest) = false := by
    cases kind <;> exact ⟨rfl, rfl, rfl⟩
  have nonpath : isPath library kind.opening = false := by
    rw [isPath, library.word_ascii kind.opening ascii]
    cases kind <;> rfl
  have unblessed : objectRe library (kind.opening :: rest) = none := by
    unfold objectRe
    rw [dropWhile_cons_of_neg (by simp [nonpath])]
    cases kind <;> rfl
  have unglobbed : globRe library (kind.opening :: rest) = none := by cases kind <;> rfl
  unfold parsePatterns
  rw [if_neg undefined, noInteger, noNumber, unquoted, unaddressed.1, unaddressed.2.1, unaddressed.2.2,
    unblessed, unglobbed]
  rfl

end Scalars

section Keys

theorem fat_comma_inside {bytes : List UInt8} (inside : Inside (0x5C : UInt8) 0x22 bytes) (idx : Nat)
    (rest : List UInt8) :
    fatComma idx (within 0x22) (bytes ++ rest) = fatComma (idx + bytes.length) (within 0x22) rest := by
  induction inside generalizing idx with
  | nil => rfl
  | plain bare kept _ ih =>
    rw [cons_append, fatComma, next_plain bare kept]
    dsimp only
    rw [ih, length_cons]
    congr 1
    omega
  | escaped _ ih =>
    rw [cons_append, cons_append, fatComma, next_escape]
    dsimp only
    rw [fatComma, next_escaped]
    dsimp only
    rw [ih, length_cons, length_cons]
    congr 1
    omega

theorem fat_comma_quote (key : List Char) (idx : Nat) (mark : UInt8) (rest : List UInt8) :
    fatComma idx ⟨false, mark, false⟩ (encode (quote key) ++ rest) =
      fatComma (idx + size (quote key)) ⟨false, 0x22, false⟩ rest := by
  have bytes : encode (quote key) = 0x22 :: (encode (escaped key) ++ [0x22]) := by
    change encode (['"'] ++ (escaped key ++ ['"'])) = _
    rw [encode_append, encode_append]
    rfl
  have width : size (quote key) = (encode (escaped key)).length + 2 := by
    rw [Utf8.size, bytes]
    simp
  rw [bytes, cons_append, fatComma, next_open (by decide) rfl rfl]
  dsimp only
  rw [append_assoc, fat_comma_inside (inside_bytes (escaped_inside key)), singleton_append,
    fatComma, next_close (by decide)]
  dsimp only
  congr 1
  omega

theorem spaces_bytes (count : Nat) : encode (spaces count) = List.replicate count 0x20 := by
  induction count with
  | zero => rfl
  | succ count ih =>
    exact congrArg (0x20 :: ·) ih

theorem fat_comma_spaces (count idx : Nat) (mark : UInt8) (rest : List UInt8) :
    fatComma idx ⟨false, mark, false⟩ (encode (spaces count) ++ rest) =
      fatComma (idx + size (spaces count)) ⟨false, mark, false⟩ rest := by
  rw [Utf8.size, spaces_bytes, length_replicate]
  induction count generalizing idx with
  | zero => rfl
  | succ count ih =>
    rw [replicate_succ, cons_append, fatComma, next_outside rfl rfl (by decide) (by decide) (by decide)]
    dsimp only
    rw [if_neg (fun both => absurd both.1 (by decide)), ih]
    congr 1
    omega

/-- The arrow found is the one behind the key. -/
theorem split_keyed (key : List Char) (left right : Nat) (value : List Char) :
    splitFatComma (quote key ++ spaces left ++ ['=', '>'] ++ spaces right ++ value) =
      some (quote key ++ spaces left, spaces right ++ value) := by
  have place : fatComma 0 ⟨false, 0x20, false⟩
      (encode (quote key ++ spaces left ++ ['=', '>'] ++ spaces right ++ value)) =
        some (size (quote key ++ spaces left)) := by
    simp only [append_assoc, encode_append]
    rw [fat_comma_quote, fat_comma_spaces, size_append, Nat.zero_add]
    rfl
  have front := slice_parts [] (quote key ++ spaces left) (['=', '>'] ++ spaces right ++ value)
  have back := slice_parts (quote key ++ spaces left ++ ['=', '>']) (spaces right ++ value) []
  have arrow : size ['=', '>'] = 2 := rfl
  have total : size (quote key ++ spaces left ++ ['=', '>'] ++ spaces right ++ value) =
      size (quote key ++ spaces left ++ ['=', '>']) + size (spaces right ++ value) := by
    rw [← size_append, append_assoc]
  unfold splitFatComma
  rw [place]
  dsimp only [Option.bind_eq_bind, Option.bind_some]
  rw [total, ← arrow, ← size_append]
  simp only [nil_append, size_nil, Nat.zero_add, ← append_assoc, append_nil] at front back
  rw [front, back]
  rfl

theorem unquote_key_quote (key : List Char) : unquoteKey (quote key) = key := by
  obtain ⟨quoted, content, long⟩ := quote_ends key
  rw [unquoteKey, if_pos ⟨long, quoted⟩, content, unescape_escaped]

end Keys

section Parsing
variable {Number : Type} (library : Library Number) (parser : VariableParser)

theorem inner_bracketed (kind : Bracket) (body : List Char) :
    innerText (kind.opening :: (body ++ [kind.closing])) = body := by
  rw [innerText, drop_one, tail_cons, dropLast_concat]

theorem between_iff (kind other : Bracket) (body : List Char) :
    isBetween other.opening other.closing (kind.opening :: (body ++ [kind.closing])) ↔ other = kind := by
  have last : (kind.opening :: (body ++ [kind.closing])).getLast? = some kind.closing := by
    rw [← cons_append, getLast?_concat]
  unfold isBetween
  rw [last, head?_cons]
  cases kind <;> cases other <;> decide

theorem items_solid {keyed : Bool} (items : Items keyed) : trim items.text ≠ [] := by
  have item (lead : Lead keyed) (value : Literal) (rest : List Char) :
      trim (spaces lead.before ++ (lead.label ++ value.text) ++ rest) ≠ [] := by
    obtain ⟨⟨head, isHead, solid⟩, -⟩ := solid_item lead value
    refine trim_some ?_ solid
    have member := mem_of_mem_head? isHead
    simp only [mem_append] at member ⊢
    exact .inl (.inr member)
  cases items with
  | last lead value after => exact item lead value (spaces after)
  | more lead value after rest =>
    have some := item lead value (spaces after ++ ',' :: rest.text)
    rwa [← append_assoc] at some

theorem inside_nesting (kind : Bracket) (literal : Literal) :
    literal.inside kind ≤ literal.nesting kind := by
  cases literal with
  | undef | integer value | string text => exact Nat.le_refl _
  | emptyArray square blank | emptyHash blank => exact Nat.zero_le _
  | array square items | hash items => exact Nat.le_add_left _ _

theorem parse_bracketed (checks : Bool) (kind : Bracket) (body : List Char) {depth : Nat}
    (room : depth ≤ parser.maxDepth) (before after : Nat) : parseValue library checks parser
        (spaces before ++ (kind.opening :: (body ++ [kind.closing])) ++ spaces after) depth =
      match kind with
      | .curly => parseHashLiteral checks (parseValue library checks parser · (depth + 1))
          (kind.opening :: (body ++ [kind.closing]))
      | _ => parseArrayLiteral checks (parseValue library checks parser · (depth + 1))
          (kind.opening :: (body ++ [kind.closing])) := by
  have between := between_iff kind
  rw [parseValue, if_neg (Nat.not_lt.mpr room), trim_solid (solid_bracketed kind body), bracket_pattern]
  dsimp only
  cases kind with
  | round => exact if_pos ((between .round body).mpr rfl)
  | square =>
    have round : ¬ isBetween '(' ')' _ := mt (between .round body).mp (by decide)
    rw [if_neg round]
    exact if_pos ((between .square body).mpr rfl)
  | curly =>
    have round : ¬ isBetween '(' ')' _ := mt (between .round body).mp (by decide)
    have square : ¬ isBetween '[' ']' _ := mt (between .square body).mp (by decide)
    rw [if_neg round, if_neg square]
    exact if_pos ((between .curly body).mpr rfl)

theorem parse_array (checks square : Bool) (body : List Char) {depth : Nat}
    (room : depth ≤ parser.maxDepth) (before after : Nat) :
    parseValue library checks parser (spaces before ++ ((arrayBracket square).opening ::
        (body ++ [(arrayBracket square).closing])) ++ spaces after) depth =
      if trim body = [] then .ok (.array [])
      else splitElements checks body >>= fun elements =>
        elements.mapM (parseValue library checks parser · (depth + 1)) >>= fun parsed =>
          .ok (.array parsed) := by
  have array (kind : Bracket) : parseArrayLiteral checks (parseValue library checks parser · (depth + 1))
      (kind.opening :: (body ++ [kind.closing])) =
        if trim body = [] then .ok (.array [])
        else splitElements checks body >>= fun elements =>
          elements.mapM (parseValue library checks parser · (depth + 1)) >>= fun parsed =>
            .ok (.array parsed) := by
    unfold parseArrayLiteral
    rw [inner_bracketed]
  rw [parse_bracketed library parser checks _ body room]
  cases square with
  | false => exact array .round
  | true => exact array .square

theorem parse_hash (checks : Bool) (body : List Char) {depth : Nat}
    (room : depth ≤ parser.maxDepth) (before after : Nat) :
    parseValue library checks parser (spaces before ++ (Bracket.curly.opening ::
        (body ++ [Bracket.curly.closing])) ++ spaces after) depth =
      if trim body = [] then .ok (.hash [])
      else splitElements checks body >>= fun elements =>
        elements.mapM (parsePair (parseValue library checks parser · (depth + 1))) >>= fun pairs =>
          .ok (.hash pairs) := by
  rw [parse_bracketed library parser checks _ body room]
  unfold parseHashLiteral
  rw [inner_bracketed]

theorem ok_bind {First Second : Type} (value : First) (next : First → Except Failure Second) :
    (Except.ok value >>= next) = next value := rfl

theorem parse_piece {checks : Bool} {value : Literal} {depth : Nat} {result : PerlValue Number}
    (parsed : parseValue library checks parser (spaces 0 ++ value.text ++ spaces 0) (depth + 1) =
      .ok result) {before left right : Nat} {key : List Char} :
    parsePair (parseValue library checks parser · (depth + 1))
        ((Lead.keyed before key left right).label ++ value.text) = .ok (key, result) := by
  have front : trim (quote key ++ spaces left) = quote key := trim_solid (solid_quote key) 0 left
  have back : trim (spaces right ++ value.text) = value.text := by
    have trimmed := trim_solid (solid_literal value) right 0
    have none : spaces 0 = [] := rfl
    rwa [none, append_nil] at trimmed
  rw [spaces, replicate_zero, nil_append, append_nil] at parsed
  unfold parsePair
  rw [Lead.label, split_keyed]
  dsimp only
  rw [front, back, parsed, unquote_key_quote]
  rfl

mutual

/-- The value of a literal, read anywhere above the depth limit. -/
theorem parse_literal (checks : Bool) (literal : Literal) (depth : Nat)
    (room : depth + literal.depth ≤ parser.maxDepth) (counted : literal.Counted) (before after : Nat) :
    parseValue library checks parser (spaces before ++ literal.text ++ spaces after) depth =
      .ok (literal.value Number) := by
  have shallow : depth ≤ parser.maxDepth := Nat.le_trans (Nat.le_add_right _ _) room
  have scalar (result : PerlValue Number)
      (pattern : parsePatterns library literal.text = some (.ok result)) :
      parseValue library checks parser (spaces before ++ literal.text ++ spaces after) depth =
        .ok result := by
    rw [parseValue, if_neg (Nat.not_lt.mpr shallow), trim_solid (solid_literal literal), pattern]
  match literal with
  | .undef => exact scalar .undef rfl
  | .integer value => exact scalar (.integer value) (integer_pattern library value)
  | .string text => exact scalar (.scalar text) (quote_pattern library text)
  | .emptyArray square blank =>
    rw [Literal.text, parse_array library parser checks square _ shallow, if_pos (trim_spaces blank)]
    rfl
  | .emptyHash blank =>
    rw [Literal.text, parse_hash library parser checks _ shallow, if_pos (trim_spaces blank)]
    rfl
  | .array square items =>
    rw [Literal.text, parse_array library parser checks square _ shallow, if_neg (items_solid items),
      split_counted checks items counted, ok_bind, parse_values checks items depth room counted]
    rfl
  | .hash items =>
    rw [Literal.text, parse_hash library parser checks _ shallow, if_neg (items_solid items),
      split_counted checks items counted, ok_bind, parse_pairs checks items depth room counted]
    rfl

theorem parse_values (checks : Bool) (items : Items false) (depth : Nat)
    (room : depth + items.depth ≤ parser.maxDepth) (counted : ∀ kind, items.nesting kind ≤ u32Max) :
    items.pieces.mapM (parseValue library checks parser · (depth + 1)) =
      .ok ((items.pairs Number).map Prod.snd) := by
  match items with
  | .last (.bare before) value after =>
    rw [Items.depth] at room
    have parsed := parse_literal checks value (depth + 1) (by omega)
      (fun kind => (inside_nesting kind value).trans (counted kind)) 0 0
    rw [spaces, replicate_zero, nil_append, append_nil] at parsed
    rw [Items.pieces, mapM_cons, mapM_nil]
    change (parseValue library checks parser value.text (depth + 1) >>= _) = _
    rw [parsed]
    rfl
  | .more (.bare before) value after rest =>
    rw [Items.depth] at room
    have bounds (kind : Bracket) : value.nesting kind ≤ u32Max ∧ rest.nesting kind ≤ u32Max := by
      have bound := counted kind
      rw [Items.nesting] at bound
      omega
    have parsed := parse_literal checks value (depth + 1) (by omega)
      (fun kind => (inside_nesting kind value).trans (bounds kind).1) 0 0
    have others := parse_values checks rest depth (by omega) fun kind => (bounds kind).2
    rw [spaces, replicate_zero, nil_append, append_nil] at parsed
    rw [Items.pieces, mapM_cons]
    change (parseValue library checks parser value.text (depth + 1) >>= _) = _
    rw [parsed, others]
    rfl

theorem parse_pairs (checks : Bool) (items : Items true) (depth : Nat)
    (room : depth + items.depth ≤ parser.maxDepth) (counted : ∀ kind, items.nesting kind ≤ u32Max) :
    items.pieces.mapM (parsePair (parseValue library checks parser · (depth + 1))) =
      .ok (items.pairs Number) := by
  match items with
  | .last (.keyed before key left right) value after =>
    rw [Items.depth] at room
    have parsed := parse_literal checks value (depth + 1) (by omega)
      (fun kind => (inside_nesting kind value).trans (counted kind)) 0 0
    rw [Items.pieces, mapM_cons, mapM_nil, parse_piece library parser parsed]
    rfl
  | .more (.keyed before key left right) value after rest =>
    rw [Items.depth] at room
    have bounds (kind : Bracket) : value.nesting kind ≤ u32Max ∧ rest.nesting kind ≤ u32Max := by
      have bound := counted kind
      rw [Items.nesting] at bound
      omega
    have parsed := parse_literal checks value (depth + 1) (by omega)
      (fun kind => (inside_nesting kind value).trans (bounds kind).1) 0 0
    have others := parse_pairs checks rest depth (by omega) fun kind => (bounds kind).2
    rw [Items.pieces, mapM_cons, parse_piece library parser parsed, others]
    rfl

end

/-- With overflow checks, brackets that exceed a counter end the parser. -/
theorem parse_overflows (literal : Literal) (depth : Nat) (shallow : depth ≤ parser.maxDepth)
    (exceeds : ∃ kind, u32Max < literal.inside kind) (before after : Nat) :
    parseValue library true parser (spaces before ++ literal.text ++ spaces after) depth =
      .error .overflow := by
  cases literal with
  | array square items =>
    rw [Literal.text, parse_array library parser true square _ shallow, if_neg (items_solid items),
      split_overflows items exceeds]
    rfl
  | hash items =>
    rw [Literal.text, parse_hash library parser true _ shallow, if_neg (items_solid items),
      split_overflows items exceeds]
    rfl
  | _ =>
    obtain ⟨kind, high⟩ := exceeds
    exact absurd high (Nat.not_lt.mpr (Nat.zero_le _))

/-- A literal within the depth limit is read back in every build exactly if its brackets can be
counted. -/
theorem parse_literal_iff (literal : Literal) (shallow : literal.depth ≤ parser.maxDepth)
    (before after : Nat) :
    (∀ checks, parseValue library checks parser (spaces before ++ literal.text ++ spaces after) 0 =
        .ok (literal.value Number)) ↔
      literal.Counted := by
  constructor
  · intro read kind
    by_contra exceeds
    have fails := parse_overflows library parser literal 0 (Nat.zero_le _)
      ⟨kind, Nat.lt_of_not_le exceeds⟩ before after
    rw [read true] at fails
    cases fails
  · intro counted checks
    exact parse_literal library parser checks literal 0 (by omega) counted before after

end Parsing

theorem word_plain (scalar : Char) (_ : scalar.toNat < 128) :
    (scalar.isAlphanum || scalar == '_') = (scalar.isAlphanum || scalar == '_') := rfl

/-- Classes that agree with the ones of the crate on ASCII, and no floats. -/
def asciiLibrary : Library Unit where
  isDigit := Char.isDigit
  isWord scalar := scalar.isAlphanum || scalar == '_'
  parseF64 _ := none
  digit_ascii _ _ := rfl
  word_ascii := word_plain

/-- `[ {"k" => 7} ,"a,]"]` -/
def sampleLiteral : Literal :=
  .array true (.more (.bare 1) (.hash (.last (.keyed 0 ['k'] 1 1) (.integer ⟨7, by decide⟩) 0)) 1
    (.last (.bare 0) (.string ['a', ',', ']']) 0))

theorem sample_read :
    (∀ checks, parseValue asciiLibrary checks ⟨50⟩ (spaces 2 ++ sampleLiteral.text ++ spaces 0) 0 =
        .ok (sampleLiteral.value Unit)) ↔
      sampleLiteral.Counted :=
  parse_literal_iff asciiLibrary ⟨50⟩ sampleLiteral (by decide) 2 0

section Wrapping

def nested : Nat → Items false → Items false
  | 0, items => items
  | depth + 1, items => .last (.bare 0) (.array true (nested depth items)) 0

section
variable (depth : Nat) (items : Items false)
include depth items

theorem nested_text :
    (nested depth items).text = List.replicate depth '[' ++ items.text ++ List.replicate depth ']' := by
  induction depth with
  | zero => simp [nested]
  | succ depth ih =>
    change [] ++ ([] ++ '[' :: ((nested depth items).text ++ [']'])) ++ [] = _
    rw [ih, replicate_succ, replicate_succ']
    simp

theorem nested_depth : (nested depth items).depth = items.depth + depth := by
  induction depth with
  | zero => rfl
  | succ depth ih =>
    rw [nested, Items.depth, Literal.depth]
    omega

theorem nested_nesting : (nested depth items).nesting .square = items.nesting .square + depth := by
  induction depth with
  | zero => rfl
  | succ depth ih =>
    change 1 + _ = _
    omega

end

/-- Without overflow checks the count of opening brackets is taken modulo 2^32. -/
theorem scan_wraps {split : Split} (outside : Outside split) (depth : Nat)
    (low : split.bracketDepth ≤ u32Max) : scan false split (List.replicate depth '[') =
      some { split with
        current := split.current ++ List.replicate depth '['
        bracketDepth := (split.bracketDepth + depth) % 2 ^ 32 } := by
  induction depth generalizing split with
  | zero =>
    unfold u32Max at low
    rw [replicate_zero, append_nil, Nat.add_zero, mod_eq_of_lt (by omega)]
    rfl
  | succ depth ih =>
    have counted : increment false split.bracketDepth = some ((split.bracketDepth + 1) % 2 ^ 32) := by
      unfold increment u32Max at *
      split
      next => rw [mod_eq_of_lt (by omega)]
      next full =>
        rw [if_neg Bool.false_ne_true]
        congr 1
        omega
    have opened := @step_opening false split outside .square
    change split.step false '[' = (increment false split.bracketDepth).map _ at opened
    rw [counted] at opened
    rw [replicate_succ, scan_cons, opened]
    have bounded : (split.bracketDepth + 1) % 2 ^ 32 ≤ u32Max := by
      unfold u32Max
      omega
    have further := @ih (bracketed split .square '[' ((split.bracketDepth + 1) % 2 ^ 32))
      ⟨outside.string, outside.escape⟩ bounded
    refine further.trans ?_
    have total : ((split.bracketDepth + 1) % 2 ^ 32 + depth) % 2 ^ 32 =
        (split.bracketDepth + (depth + 1)) % 2 ^ 32 := by omega
    simp only [bracketed, Split.push, append_assoc, singleton_append, total]

theorem flush_keeps (split : Split) : split.elements <+: split.flush.elements := by
  unfold Split.flush
  split
  next => exact prefix_refl _
  next => exact prefix_append _ _

theorem step_keeps (split : Split) (scalar : Char) : ∃ after, split.step false scalar = some after ∧
    split.elements <+: after.elements := by
  have counts (depth : Nat) : ∃ next, increment false depth = some next := by
    unfold increment
    split
    next => exact ⟨_, rfl⟩
    next => exact ⟨0, rfl⟩
  unfold Split.step
  split
  next => exact ⟨_, rfl, prefix_refl _⟩
  next =>
    split
    next =>
      obtain ⟨next, counted⟩ := counts split.parenDepth
      rw [counted]
      exact ⟨_, rfl, prefix_refl _⟩
    next => exact ⟨_, rfl, prefix_refl _⟩
    next =>
      obtain ⟨next, counted⟩ := counts split.bracketDepth
      rw [counted]
      exact ⟨_, rfl, prefix_refl _⟩
    next => exact ⟨_, rfl, prefix_refl _⟩
    next =>
      obtain ⟨next, counted⟩ := counts split.braceDepth
      rw [counted]
      exact ⟨_, rfl, prefix_refl _⟩
    next => exact ⟨_, rfl, prefix_refl _⟩
    next =>
      split
      next => exact ⟨_, rfl, flush_keeps split⟩
      next => exact ⟨_, rfl, prefix_refl _⟩
    next => exact ⟨_, rfl, prefix_refl _⟩

/-- Without overflow checks the scanner reads any text, and keeps the elements it has found. -/
theorem scan_keeps (split : Split) (text : List Char) :
    ∃ after, scan false split text = some after ∧ split.elements <+: after.elements := by
  induction text generalizing split with
  | nil => exact ⟨split, rfl, prefix_refl _⟩
  | cons scalar rest ih =>
    obtain ⟨middle, stepped, kept⟩ := step_keeps split scalar
    obtain ⟨after, ran, more⟩ := ih middle
    exact ⟨after, by rw [scan_cons, stepped, Option.bind_some, ran], kept.trans more⟩

/-- When the count is back at zero, the comma ends an element inside the brackets. -/
theorem split_wrapped {depth : Nat} (wraps : depth % 2 ^ 32 = 0) (rest : List Char) :
    ∃ more, splitElements false (List.replicate depth '[' ++ '1' :: ',' :: rest) =
      .ok ((List.replicate depth '[' ++ ['1']) :: more) := by
  have solid : Solid (List.replicate depth '[' ++ ['1']) := by
    cases depth with
    | zero => exact solid_single (by decide)
    | succ depth =>
      rw [replicate_succ, cons_append]
      exact ⟨⟨'[', rfl, by decide⟩, ⟨'1', by rw [← cons_append, getLast?_concat], by decide⟩⟩
  have outside := split_start.1
  have opened := @scan_wraps Split.start outside depth (Nat.zero_le _)
  have zero : (Split.start.bracketDepth + depth) % 2 ^ 32 = 0 := by
    change (0 + depth) % 2 ^ 32 = 0
    rw [Nat.zero_add, wraps]
  rw [zero] at opened
  generalize state : ({ Split.start with
      current := Split.start.current ++ List.replicate depth '['
      bracketDepth := 0 } : Split) = first at opened
  have beyond : Outside first := by
    rw [← state]
    exact ⟨outside.string, outside.escape⟩
  have pushed : Outside (first.push '1') := ⟨beyond.string, beyond.escape⟩
  have ended : (first.push '1').step false ',' = some (first.push '1').flush := by
    unfold Split.step
    rw [next_outside pushed.string pushed.escape (by decide) (by decide) (by decide)]
    refine if_pos ?_
    rw [← state]
    exact ⟨rfl, rfl, rfl⟩
  have found : (first.push '1').flush.elements = [List.replicate depth '[' ++ ['1']] := by
    rw [@flush_solid (first.push '1') _ 0 0 solid (by rw [← state]; simp [Split.push, Split.start, spaces]),
      ← state]
    rfl
  obtain ⟨after, ran, kept⟩ := scan_keeps (first.push '1').flush rest
  obtain ⟨more, whole⟩ := kept.trans (flush_keeps after)
  rw [found] at whole
  have scanned : scan false Split.start (List.replicate depth '[' ++ '1' :: ',' :: rest) = some after := by
    rw [scan_append, opened, Option.bind_some, scan_cons, step_plain beyond (by decide),
      Option.bind_some, scan_cons, ended, Option.bind_some, ran]
  unfold scan at scanned
  refine ⟨more, ?_⟩
  rw [splitElements, scanned]
  exact congrArg Except.ok whole.symm

/-- An opening bracket that is not closed is read as a scalar. -/
theorem open_scalar {Number : Type} (library : Library Number) (parser : VariableParser) (checks : Bool)
    {depth brackets : Nat} (shallow : depth ≤ parser.maxDepth) :
    parseValue library checks parser (List.replicate (brackets + 1) '[' ++ ['1']) depth =
      .ok (.scalar (List.replicate (brackets + 1) '[' ++ ['1'])) := by
  have last : ('[' :: (List.replicate brackets '[' ++ ['1'])).getLast? = some '1' := by
    rw [← cons_append, getLast?_concat]
  have solid : Solid ('[' :: (List.replicate brackets '[' ++ ['1'])) :=
    ⟨⟨'[', rfl, by decide⟩, ⟨'1', last, by decide⟩⟩
  have trimmed := trim_solid solid 0 0
  rw [spaces, replicate_zero, nil_append, append_nil] at trimmed
  have unclosed (opening closing : Char) (other : closing ≠ '1') :
      ¬ isBetween opening closing ('[' :: (List.replicate brackets '[' ++ ['1'])) := by
    rintro ⟨-, ends⟩
    rw [last] at ends
    exact other (Option.some.inj ends).symm
  have pattern := bracket_pattern library .square (List.replicate brackets '[' ++ ['1'])
  change parsePatterns library ('[' :: _) = none at pattern
  rw [replicate_succ, cons_append, parseValue, if_neg (Nat.not_lt.mpr shallow), trimmed, pattern]
  dsimp only
  rw [if_neg (unclosed _ _ (by decide)), if_neg (unclosed _ _ (by decide)),
    if_neg (unclosed _ _ (by decide))]

/-- `1,2` in brackets of a given depth. -/
def deepItems (depth : Nat) : Items false :=
  nested depth (.more (.bare 0) (.integer ⟨1, by decide⟩) 0
    (.last (.bare 0) (.integer ⟨2, by decide⟩) 0))

theorem deep_misread {brackets : Nat} (wraps : (brackets + 1) % 2 ^ 32 = 0) {parser : VariableParser}
    (some : 1 ≤ parser.maxDepth) :
    parseValue asciiLibrary false parser (Literal.array true (deepItems (brackets + 1))).text 0 ≠
      .ok ((Literal.array true (deepItems (brackets + 1))).value Unit) := by
  have spelled : (deepItems (brackets + 1)).text =
      List.replicate (brackets + 1) '[' ++ '1' :: ',' :: ('2' :: List.replicate (brackets + 1) ']') := by
    rw [deepItems, nested_text, append_assoc]
    rfl
  obtain ⟨more, splits⟩ := split_wrapped wraps ('2' :: List.replicate (brackets + 1) ']')
  have parsed := parse_array asciiLibrary parser false true (deepItems (brackets + 1)).text
    (Nat.zero_le _) 0 0
  have text : spaces 0 ++ ((arrayBracket true).opening :: ((deepItems (brackets + 1)).text ++
      [(arrayBracket true).closing])) ++ spaces 0 =
        (Literal.array true (deepItems (brackets + 1))).text := by
    rw [Literal.text]
    exact append_nil _
  rw [text, if_neg (items_solid _), spelled, splits, ok_bind, mapM_cons,
    open_scalar asciiLibrary parser false some] at parsed
  rw [parsed, ok_bind]
  cases (more.mapM fun element => parseValue asciiLibrary false parser element (0 + 1)) with
  | error failure => nofun
  | ok others => nofun

theorem deep_depth (brackets : Nat) : (Literal.array true (deepItems brackets)).depth = 1 + brackets ∧
      (Literal.array true (deepItems brackets)).inside .square = brackets := by
  constructor
  · rw [Literal.depth, deepItems, nested_depth]
    rfl
  · rw [Literal.inside, deepItems, nested_nesting]
    exact Nat.zero_add _

/-- Brackets nested 2^32 deep inside of others are not read back, with overflow checks or without. -/
theorem deep_brackets_misread :
    (¬ ∀ literal : Literal, literal.depth ≤ 1 + 2 ^ 32 →
      parseValue asciiLibrary true ⟨1 + 2 ^ 32⟩ literal.text 0 = .ok (literal.value Unit)) ∧
    ¬ ∀ literal : Literal, literal.depth ≤ 1 + 2 ^ 32 →
      parseValue asciiLibrary false ⟨1 + 2 ^ 32⟩ literal.text 0 = .ok (literal.value Unit) := by
  obtain ⟨depth, inside⟩ := deep_depth (2 ^ 32)
  constructor
  · intro reads
    have read := reads _ (Nat.le_of_eq depth)
    have fails := parse_overflows asciiLibrary ⟨1 + 2 ^ 32⟩ _ 0 (Nat.zero_le _)
      ⟨.square, by rw [inside]; decide⟩ 0 0
    have none : spaces 0 = [] := rfl
    rw [none, nil_append, append_nil, read] at fails
    cases fails
  · intro reads
    exact deep_misread (by decide) (Nat.le_add_right _ _) (reads _ (Nat.le_of_eq depth))

end Wrapping

end PerlLsp.DebuggerLiteral
