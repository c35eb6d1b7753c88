import Mathlib.Data.List.TakeWhile

/-! The grammar of RFC 8259 texts over characters. A phrase is read from the front of a
text and leaves a rest. A text denotes a tree, whose numbers are kept as they are spelled;
a string whose surrogate escapes do not pair denotes nothing. The character that opens a
key is a parameter: the grammar proper has the quotation mark there. -/
namespace PerlLsp.JsonGrammar

inductive Json where
  | null
  | bool (truth : Bool)
  | number (spelled : List Char)
  | string (text : List Char)
  | array (items : List Json)
  | object (entries : List (List Char × Json))

section Parts

mutual

def Json.parts : Nat → Json → List (Nat × Json)
  | depth, .null => [(depth, .null)]
  | depth, .bool truth => [(depth, .bool truth)]
  | depth, .number spelled => [(depth, .number spelled)]
  | depth, .string text => [(depth, .string text)]
  | depth, .array items => (depth, .array items) :: itemParts (depth + 1) items
  | depth, .object entries => (depth, .object entries) :: entryParts (depth + 1) entries

def itemParts : Nat → List Json → List (Nat × Json)
  | _, [] => []
  | depth, item :: rest => item.parts depth ++ itemParts depth rest

def entryParts : Nat → List (List Char × Json) → List (Nat × Json)
  | _, [] => []
  | depth, (_, item) :: rest => item.parts depth ++ entryParts depth rest

end

end Parts

section Tokens

def isBlank (scalar : Char) : Bool :=
  scalar == ' ' || scalar == '\t' || scalar == '\n' || scalar == '\r'

/-- `ws`, any amount of it. -/
inductive Blank : List Char → List Char → Prop where
  | stop (rest : List Char) : Blank rest rest
  | skip {scalar : Char} {text rest : List Char} (blank : isBlank scalar = true)
      (more : Blank text rest) : Blank (scalar :: text) rest

variable (text : List Char)

def Digits : Prop := text ≠ [] ∧ ∀ digit ∈ text, digit.isDigit = true

/-- `int`: no digits behind a leading zero. -/
def Whole : Prop := Digits text ∧ (text.head? = some '0' → text = ['0'])

def Fraction : Prop := text = [] ∨ ∃ digits, text = '.' :: digits ∧ Digits digits

def Exponent : Prop :=
  text = [] ∨ ∃ mark sign digits, text = mark :: (sign ++ digits) ∧ (mark = 'e' ∨ mark = 'E') ∧
    (sign = [] ∨ sign = ['+'] ∨ sign = ['-']) ∧ Digits digits

def Number : Prop :=
  ∃ minus whole fraction exponent, text = minus ++ whole ++ fraction ++ exponent ∧
    (minus = [] ∨ minus = ['-']) ∧ Whole whole ∧ Fraction fraction ∧ Exponent exponent

variable (spelled : List Char)

/-- Whether a number has a fraction or an exponent. -/
def isDecimal : Bool :=
  spelled.any fun scalar => scalar == '.' || scalar == 'e' || scalar == 'E'

def integerOf : Int :=
  if spelled.head? = some '-' then -(Nat.ofDigitChars 10 spelled.tail 0 : Int)
  else (Nat.ofDigitChars 10 spelled 0 : Int)

def exponentOf : Nat :=
  Nat.ofDigitChars 10
    ((spelled.dropWhile fun scalar => scalar != 'e' && scalar != 'E').filter Char.isDigit) 0

def hexValue (scalar : Char) : Option Nat :=
  if '0' ≤ scalar ∧ scalar ≤ '9' then some (scalar.toNat - '0'.toNat)
  else if 'a' ≤ scalar ∧ scalar ≤ 'f' then some (scalar.toNat - 'a'.toNat + 10)
  else if 'A' ≤ scalar ∧ scalar ≤ 'F' then some (scalar.toNat - 'A'.toNat + 10)
  else none

inductive Unit16 : List Char → Nat → List Char → Prop where
  | spelled {a b c d : Char} {first second third fourth : Nat} (rest : List Char)
      (firstDigit : hexValue a = some first) (secondDigit : hexValue b = some second)
      (thirdDigit : hexValue c = some third) (fourthDigit : hexValue d = some fourth) :
      Unit16 (a :: b :: c :: d :: rest) (((first * 16 + second) * 16 + third) * 16 + fourth) rest

def escapes : List (Char × Char) :=
  [('"', '"'), ('\\', '\\'), ('/', '/'), ('b', '\x08'), ('f', '\x0c'), ('n', '\n'), ('r', '\r'),
    ('t', '\t')]

/-- One character of a string. -/
inductive Spelling : List Char → Char → List Char → Prop where
  | plain {scalar : Char} (rest : List Char) (printed : 0x20 ≤ scalar.toNat)
      (quote : scalar ≠ '"') (escape : scalar ≠ '\\') : Spelling (scalar :: rest) scalar rest
  | short {letter scalar : Char} (rest : List Char) (listed : (letter, scalar) ∈ escapes) :
      Spelling ('\\' :: letter :: rest) scalar rest
  | unit {text rest : List Char} {unit : Nat} (digits : Unit16 text unit rest)
      (whole : unit < 0xD800 ∨ 0xDFFF < unit) : Spelling ('\\' :: 'u' :: text) (Char.ofNat unit) rest
  | pair {text next rest : List Char} {high low : Nat}
      (first : Unit16 text high ('\\' :: 'u' :: next)) (leads : 0xD800 ≤ high ∧ high ≤ 0xDBFF)
      (second : Unit16 next low rest) (trails : 0xDC00 ≤ low ∧ low ≤ 0xDFFF) :
      Spelling ('\\' :: 'u' :: text)
        (Char.ofNat (0x10000 + (high - 0xD800) * 0x400 + (low - 0xDC00))) rest

/-- The characters of a string and its closing quotation mark. -/
inductive Spells : List Char → List Char → List Char → Prop where
  | close (rest : List Char) : Spells ('"' :: rest) [] rest
  | more {text next decoded rest : List Char} {scalar : Char} (first : Spelling text scalar next)
      (others : Spells next decoded rest) : Spells text (scalar :: decoded) rest

end Tokens

inductive Phrase where
  | value (tree : Json)
  | item (tree : Json)
  | items (trees : List Json)
  | member (first : Bool) (key : List Char) (tree : Json)
  | members (first : Bool) (entries : List (List Char × Json))

/-- Reading a phrase. An `item` is a value with blanks around it; `first` tells an object's first
member from the others. -/
inductive Reads (opening : Bool → Char → Prop) : Phrase → List Char → List Char → Prop where
  | null (rest : List Char) : Reads opening (.value .null) (['n', 'u', 'l', 'l'] ++ rest) rest
  | true (rest : List Char) : Reads opening (.value (.bool true)) (['t', 'r', 'u', 'e'] ++ rest) rest
  | false (rest : List Char) :
      Reads opening (.value (.bool false)) (['f', 'a', 'l', 's', 'e'] ++ rest) rest
  | number {spelled : List Char} (rest : List Char) (number : Number spelled) :
      Reads opening (.value (.number spelled)) (spelled ++ rest) rest
  | string {text decoded rest : List Char} (spells : Spells text decoded rest) :
      Reads opening (.value (.string decoded)) ('"' :: text) rest
  | emptyArray {text rest : List Char} (blank : Blank text (']' :: rest)) :
      Reads opening (.value (.array [])) ('[' :: text) rest
  | array {trees : List Json} {text rest : List Char}
      (items : Reads opening (.items trees) text (']' :: rest)) :
      Reads opening (.value (.array trees)) ('[' :: text) rest
  | emptyObject {text rest : List Char} (blank : Blank text ('}' :: rest)) :
      Reads opening (.value (.object [])) ('{' :: text) rest
  | object {entries : List (List Char × Json)} {text rest : List Char}
      (members : Reads opening (.members true entries) text ('}' :: rest)) :
      Reads opening (.value (.object entries)) ('{' :: text) rest
  | item {tree : Json} {text start behind rest : List Char} (before : Blank text start)
      (value : Reads opening (.value tree) start behind) (after : Blank behind rest) :
      Reads opening (.item tree) text rest
  | lastItem {tree : Json} {text rest : List Char} (item : Reads opening (.item tree) text rest) :
      Reads opening (.items [tree]) text rest
  | nextItem {tree : Json} {trees : List Json} {text next rest : List Char}
      (item : Reads opening (.item tree) text (',' :: next))
      (items : Reads opening (.items trees) next rest) :
      Reads opening (.items (tree :: trees)) text rest
  | member {first : Bool} {scalar : Char} {key : List Char} {tree : Json}
      {text spelled colon value rest : List Char} (before : Blank text (scalar :: spelled))
      (opened : opening first scalar) (spells : Spells spelled key colon)
      (after : Blank colon (':' :: value)) (item : Reads opening (.item tree) value rest) :
      Reads opening (.member first key tree) text rest
  | lastMember {first : Bool} {key : List Char} {tree : Json} {text rest : List Char}
      (member : Reads opening (.member first key tree) text rest) :
      Reads opening (.members first [(key, tree)]) text rest
  | nextMember {first : Bool} {key : List Char} {tree : Json}
      {entries : List (List Char × Json)} {text next rest : List Char}
      (member : Reads opening (.member first key tree) text (',' :: next))
      (members : Reads opening (.members false entries) next rest) :
      Reads opening (.members first ((key, tree) :: entries)) text rest

section Numbers

theorem digit_plain {digit : Char} (isDigit : digit.isDigit = true) :
    digit ≠ '.' ∧ digit ≠ 'e' ∧ digit ≠ 'E' ∧ digit ≠ '-' ∧ digit ≠ '+' := by
  refine ⟨?_, ?_, ?_, ?_, ?_⟩ <;> rintro rfl <;> exact absurd isDigit (by decide)

variable {minus whole fraction exponent : List Char}

theorem minus_plain (sign : minus = [] ∨ minus = ['-']) :
    ∀ scalar ∈ minus, scalar ≠ '.' ∧ scalar ≠ 'e' ∧ scalar ≠ 'E' := by
  rcases sign with rfl | rfl <;> simp

theorem fraction_plain (isFraction : Fraction fraction) :
    ∀ scalar ∈ fraction, scalar ≠ 'e' ∧ scalar ≠ 'E' := by
  rcases isFraction with rfl | ⟨digits, rfl, -, all⟩
  · simp
  intro scalar member
  rcases List.mem_cons.mp member with rfl | among
  · decide
  · exact ⟨(digit_plain (all scalar among)).2.1, (digit_plain (all scalar among)).2.2.1⟩

section
variable (sign : minus = [] ∨ minus = ['-']) (isWhole : Whole whole)
    (isFraction : Fraction fraction) (isExponent : Exponent exponent)
include sign isWhole isFraction isExponent

theorem is_decimal_parts :
    isDecimal (minus ++ whole ++ fraction ++ exponent) = (!fraction.isEmpty || !exponent.isEmpty) := by
  have front : (minus ++ whole).any (fun scalar => scalar == '.' || scalar == 'e' || scalar == 'E') =
      false := by
    rw [List.any_eq_false]
    intro scalar member
    rcases List.mem_append.mp member with among | among
    · simp [minus_plain sign scalar among]
    · simp [digit_plain (isWhole.1.2 scalar among)]
  rw [isDecimal, List.any_append, List.any_append, front, Bool.false_or]
  rcases isFraction with rfl | ⟨digits, rfl, -⟩
  · rcases isExponent with rfl | ⟨mark, sign, digits, rfl, letter, -⟩
    · rfl
    · rcases letter with rfl | rfl <;> rfl
  · rfl

theorem exponent_of_parts : exponentOf (minus ++ whole ++ fraction ++ exponent) =
      Nat.ofDigitChars 10 (exponent.filter Char.isDigit) 0 := by
  have front : ∀ scalar ∈ minus ++ whole ++ fraction, (scalar != 'e' && scalar != 'E') = true := by
    intro scalar member
    rcases List.mem_append.mp member with among | among
    · rcases List.mem_append.mp among with early | late
      · simp [minus_plain sign scalar early]
      · simp [digit_plain (isWhole.1.2 scalar late)]
    · simp [fraction_plain isFraction scalar among]
  rw [exponentOf, List.dropWhile_append_of_pos front]
  rcases isExponent with rfl | ⟨mark, sign, digits, rfl, letter, -⟩
  · rfl
  · rcases letter with rfl | rfl <;> rfl

end

/-- What is neither empty nor a sign alone starts with a digit behind the sign. -/
theorem whole_head (isWhole : Whole whole) : ∃ digit more, whole = digit :: more ∧ digit.isDigit = true := by
  obtain ⟨digit, more, rfl⟩ := List.exists_cons_of_ne_nil isWhole.1.1
  exact ⟨digit, more, rfl, isWhole.1.2 digit List.mem_cons_self⟩

theorem exponent_head (isExponent : Exponent exponent) :
    exponent = [] ∨ ∃ mark more, exponent = mark :: more ∧ (mark = 'e' ∨ mark = 'E') := by
  rcases isExponent with rfl | ⟨mark, sign, digits, rfl, letter, -⟩
  · exact .inl rfl
  · exact .inr ⟨mark, sign ++ digits, rfl, letter⟩

theorem fraction_head (isFraction : Fraction fraction) : fraction = [] ∨ ∃ more, fraction = '.' :: more := by
  rcases isFraction with rfl | ⟨digits, rfl, -⟩
  · exact .inl rfl
  · exact .inr ⟨digits, rfl⟩

end Numbers

section Blanks
variable {text rest : List Char}

theorem Blank.drop (blank : Blank text rest) : text.dropWhile isBlank = rest.dropWhile isBlank := by
  induction blank with
  | stop rest => rfl
  | skip blank _ ih => rw [List.dropWhile_cons_of_pos blank, ih]

theorem blank_scan (text : List Char) : Blank text (text.dropWhile isBlank) := by
  induction text with
  | nil => exact .stop []
  | cons scalar rest ih =>
    by_cases blank : isBlank scalar = true
    · rw [List.dropWhile_cons_of_pos blank]
      exact .skip blank ih
    · rw [List.dropWhile_cons_of_neg blank]
      exact .stop _

/-- Blanks end where the text goes on with something else. -/
theorem Blank.ends (blank : Blank text rest) (shown : rest.head?.any isBlank = false) :
    text.dropWhile isBlank = rest := by
  rw [blank.drop]
  cases rest with
  | nil => rfl
  | cons scalar more => exact List.dropWhile_cons_of_neg (by simpa using shown)

theorem Blank.head (blank : Blank text rest) : text = rest ∨ text.head?.any isBlank = true := by
  cases blank with
  | stop => exact .inl rfl
  | skip blank _ => exact .inr blank

theorem digit_shown {digit : Char} (isDigit : digit.isDigit = true) : isBlank digit = false := by
  by_contra blank
  simp only [isBlank, Bool.not_eq_false, Bool.or_eq_true, beq_iff_eq] at blank
  rcases blank with ((rfl | rfl) | rfl) | rfl <;> exact absurd isDigit (by decide)

theorem number_head {spelled : List Char} (number : Number spelled) :
    ∃ first more, spelled = first :: more ∧ (first = '-' ∨ first.isDigit = true) := by
  obtain ⟨minus, whole, fraction, exponent, rfl, sign, isWhole, -, -⟩ := number
  obtain ⟨digit, more, rfl, isDigit⟩ := whole_head isWhole
  rcases sign with rfl | rfl
  · exact ⟨digit, more ++ fraction ++ exponent, by simp, .inr isDigit⟩
  · exact ⟨'-', digit :: more ++ fraction ++ exponent, by simp, .inl rfl⟩

/-- A value starts with a character of its own. -/
theorem value_head {opening : Bool → Char → Prop} {tree : Json}
    (reads : Reads opening (.value tree) text rest) :
    ∃ first more, text = first :: more ∧ isBlank first = false ∧ first ≠ ']' := by
  cases reads with
  | null | true | false | string | emptyArray | array | emptyObject | object =>
    exact ⟨_, _, rfl, by decide, by decide⟩
  | number _ number =>
    obtain ⟨first, more, rfl, start⟩ := number_head number
    rcases start with rfl | isDigit
    · exact ⟨_, _, rfl, by decide, by decide⟩
    · refine ⟨first, more ++ rest, rfl, digit_shown isDigit, ?_⟩
      rintro rfl
      exact absurd isDigit (by decide)

end Blanks

theorem Blank.trans {text middle rest : List Char} (first : Blank text middle)
    (second : Blank middle rest) : Blank text rest := by
  induction first with
  | stop => exact second
  | skip blank _ ih => exact .skip blank (ih second)

theorem Reads.behind_blank {opening : Bool → Char → Prop} {phrase : Phrase} {text middle rest : List Char}
    (blank : Blank text middle) (reads : Reads opening phrase middle rest)
    (padded : ∀ tree, phrase ≠ .value tree) : Reads opening phrase text rest := by
  induction reads with
  | null | true | false | number | string | emptyArray | array | emptyObject | object =>
    exact absurd rfl (padded _)
  | item before value after => exact .item (blank.trans before) value after
  | lastItem _ ih => exact .lastItem (ih blank nofun)
  | nextItem _ items ih _ => exact .nextItem (ih blank nofun) items
  | member before opened spells after item =>
    exact .member (blank.trans before) opened spells after item
  | lastMember _ ih => exact .lastMember (ih blank nofun)
  | nextMember _ members ih _ => exact .nextMember (ih blank nofun) members

/-- What more characters may open a key, the more can be read. -/
theorem Reads.loosen {narrow wide : Bool → Char → Prop}
    (loose : ∀ first scalar, narrow first scalar → wide first scalar) {phrase : Phrase}
    {text rest : List Char} (reads : Reads narrow phrase text rest) : Reads wide phrase text rest := by
  induction reads with
  | null rest => exact .null rest
  | true rest => exact .true rest
  | false rest => exact .false rest
  | number rest number => exact .number rest number
  | string spells => exact .string spells
  | emptyArray blank => exact .emptyArray blank
  | array _ ih => exact .array ih
  | emptyObject blank => exact .emptyObject blank
  | object _ ih => exact .object ih
  | item before _ after ih => exact .item before ih after
  | lastItem _ ih => exact .lastItem ih
  | nextItem _ _ ihItem ihItems => exact .nextItem ihItem ihItems
  | member before opened spells after _ ih => exact .member before (loose _ _ opened) spells after ih
  | lastMember _ ih => exact .lastMember ih
  | nextMember _ _ ihMember ihMembers => exact .nextMember ihMember ihMembers

def quoted (_ : Bool) (scalar : Char) : Prop := scalar = '"'

end PerlLsp.JsonGrammar
