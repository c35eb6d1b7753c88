import Mathlib.Algebra.Ring.Nat
import Mathlib.Data.List.DropRight

/-! The string functions of the Rust standard library that text-handling code relies on, over a text
as a list of scalar values. Each follows the documented behaviour on every input; the lemmas cover
the shapes a decimal header field takes. -/
namespace PerlLsp.Text
open Nat

def usizeMax : Nat := 2 ^ 64 - 1

-- One optional CR directly before the line feed belongs to the line ending.
def stripCr (line : List Char) : List Char :=
  if line.getLast? = some '\r' then line.dropLast else line

def linesFrom : List Char → List Char → List (List Char)
  | current, [] => if current.isEmpty then [] else [current]
  | current, scalar :: rest =>
    if scalar = '\n' then stripCr current :: linesFrom [] rest
    else linesFrom (current ++ [scalar]) rest

/-- `str::lines`: LF or CRLF ends a line, a final line ending opens no new line. -/
def lines (text : List Char) : List (List Char) := linesFrom [] text

/-- The `White_Space` property of the Unicode character database. -/
def isWhitespace (scalar : Char) : Bool :=
  let v := scalar.toNat
  (0x9 ≤ v && v ≤ 0xD) || v == 0x20 || v == 0x85 || v == 0xA0 || v == 0x1680 ||
    (0x2000 ≤ v && v ≤ 0x200A) || v == 0x2028 || v == 0x2029 || v == 0x202F || v == 0x205F ||
    v == 0x3000

def trimStart (text : List Char) : List Char := text.dropWhile isWhitespace

def trimEnd (text : List Char) : List Char := text.rdropWhile isWhitespace

def trim (text : List Char) : List Char := trimEnd (trimStart text)

def trimEndMatches (scalar : Char) (text : List Char) : List Char := text.rdropWhile (· == scalar)

def splitOnce (separator : Char) : List Char → Option (List Char × List Char)
  | [] => none
  | scalar :: rest =>
    if scalar = separator then some ([], rest)
    else (splitOnce separator rest).map fun parts => (scalar :: parts.1, parts.2)

def eqIgnoreAsciiCase (left right : List Char) : Bool :=
  left.map Char.toLower == right.map Char.toLower

-- Checked accumulation: a non-digit or a value past the type's maximum fails.
def parseDigits (value : Nat) : List Char → Option Nat
  | [] => some value
  | digit :: rest =>
    if digit.isDigit then
      let next := 10 * value + (digit.toNat - '0'.toNat)
      if next ≤ usizeMax then parseDigits next rest else none
    else none

/-- `parse::<usize>`: one optional plus sign, then at least one digit. -/
def parseUsize (text : List Char) : Option Nat :=
  match text with
  | [] => none
  | '+' :: rest => if rest.isEmpty then none else parseDigits 0 rest
  | other => parseDigits 0 other

/-- `Display` of an unsigned integer. -/
def decimal (value : Nat) : List Char := Nat.toDigits 10 value

theorem lines_from_single (current text : List Char) (single : '\n' ∉ text)
    (nonempty : current ++ text ≠ []) : linesFrom current text = [current ++ text] := by
  induction text generalizing current with
  | nil =>
    have some : current ≠ [] := by simpa using nonempty
    simp [linesFrom, some]
  | cons scalar rest ih =>
    have other : scalar ≠ '\n' := fun same => single (by simp [same])
    have tail : '\n' ∉ rest := fun member => single (by simp [member])
    rw [linesFrom, if_neg other, ih (current ++ [scalar]) tail (by simp)]
    simp

variable (digit : Char) (digits : List Char) (value : Nat) (text : List Char)

theorem lines_single (single : '\n' ∉ text) (nonempty : text ≠ []) : lines text = [text] :=
  lines_from_single [] text single (by simpa using nonempty)

theorem trim_end_matches_absent (scalar : Char) (text : List Char) (absent : scalar ∉ text) :
    trimEndMatches scalar text = text := by
  rw [trimEndMatches, List.rdropWhile_eq_self_iff]
  intro nonempty
  simp only [beq_iff_eq]
  intro same
  exact absent (same ▸ List.getLast_mem nonempty)

theorem split_once_first (separator : Char) (before after : List Char) (absent : separator ∉ before) :
    splitOnce separator (before ++ separator :: after) = some (before, after) := by
  induction before with
  | nil => simp [splitOnce]
  | cons scalar rest ih =>
    have other : scalar ≠ separator := fun same => absent (by simp [same])
    have tail : separator ∉ rest := fun member => absent (by simp [member])
    simp [splitOnce, other, ih tail]

theorem trim_bare (bare : ∀ scalar ∈ text, isWhitespace scalar = false) : trim text = text := by
  have start : trimStart text = text := by
    cases text with
    | nil => rfl
    | cons scalar rest => simp [trimStart, bare scalar (by simp)]
  rw [trim, start, trimEnd, List.rdropWhile_eq_self_iff]
  intro nonempty
  simp [bare _ (List.getLast_mem nonempty)]

theorem trim_space : trim (' ' :: text) = trim text := by
  have space : isWhitespace ' ' = true := by decide
  simp [trim, trimStart, space]

theorem digit_range (isDigit : digit.isDigit = true) : 48 ≤ digit.toNat ∧ digit.toNat ≤ 57 := by
  simp only [Char.isDigit, Bool.and_eq_true, decide_eq_true_eq] at isDigit
  exact isDigit

theorem digit_not_whitespace (isDigit : digit.isDigit = true) : isWhitespace digit = false := by
  have range := digit_range digit isDigit
  unfold isWhitespace
  simp only [Bool.or_eq_false_iff, Bool.and_eq_false_iff, decide_eq_false_iff_not, beq_eq_false_iff_ne]
  omega

theorem decimal_digits : ∀ digit ∈ decimal value, digit.isDigit = true := by
  intro digit member
  exact isDigit_of_mem_toDigits (by decide) (by decide) member

theorem decimal_nonempty : decimal value ≠ [] := toDigits_ne_nil

theorem of_digit_chars_grows : value ≤ Nat.ofDigitChars 10 digits value := by
  induction digits generalizing value with
  | nil => simp
  | cons digit rest ih =>
    rw [ofDigitChars_cons]
    exact le_trans (by omega) (ih _)

theorem parse_digits_all (isDigits : ∀ digit ∈ digits, digit.isDigit = true)
    (fits : Nat.ofDigitChars 10 digits value ≤ usizeMax) :
    parseDigits value digits = some (Nat.ofDigitChars 10 digits value) := by
  induction digits generalizing value with
  | nil => simp [parseDigits]
  | cons digit rest ih =>
    rw [ofDigitChars_cons] at fits ⊢
    have bound := of_digit_chars_grows rest (10 * value + (digit.toNat - '0'.toNat))
    rw [parseDigits, if_pos (isDigits digit (by simp))]
    rw [if_pos (by omega)]
    exact ih _ (fun other member => isDigits other (by simp [member])) fits

/-- Parsing what was formatted gives the value back, as far as it is a `usize`. -/
theorem parse_decimal (fits : value ≤ usizeMax) : parseUsize (decimal value) = some value := by
  have rebuilt : Nat.ofDigitChars 10 (decimal value) 0 = value := ofDigitChars_ten_toDigits
  have parsed := parse_digits_all (decimal value) 0 (decimal_digits value) (by rw [rebuilt]; exact fits)
  rw [rebuilt] at parsed
  have digits := decimal_digits value
  cases shape : decimal value with
  | nil => exact absurd shape (decimal_nonempty value)
  | cons first rest =>
    rw [shape] at parsed digits
    have range := digit_range first (digits first (by simp))
    have unsigned : first ≠ '+' := by
      rintro rfl
      revert range
      decide
    simp [parseUsize, unsigned, parsed]

theorem decimal_length (width : Nat) (positive : 0 < width) (bound : value < 10 ^ width) :
    (decimal value).length ≤ width :=
  (length_toDigits_le_iff (by decide) positive).mpr bound

end PerlLsp.Text
