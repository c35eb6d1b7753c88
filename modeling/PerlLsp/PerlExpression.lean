import PerlLsp.Text

/-! Perl's scalar values, operators and constant expressions: a reference to compare
analyses with. A scalar has a string form, a number and a truth value. Arithmetic on
integers is exact, as Perl's is while they stay within 2^53. What lies beyond integers
and plain decimal strings (fractions, references, strings such as `3abc` or `0x10`) is
left open in `Perl`. -/
namespace PerlLsp.PerlExpression
open Text (decimal)

universe u
variable {Outside : Type u}

inductive Number (Outside : Type u) where
  | int (value : Int)
  | outside (value : Outside)

/-- `no` is what a comparison or a negation yields when it does not hold. -/
inductive Scalar (Outside : Type u) where
  | undef
  | no
  | integer (value : Int)
  | string (text : List Char)
  | outside (value : Outside)

inductive ArithmeticOp where
  | add
  | sub
  | mul
  | div
  deriving DecidableEq

inductive BinaryOp where
  | arithmetic (op : ArithmeticOp)
  | concat
  | numericEqual
  | numericUnequal
  | stringEqual
  | stringUnequal
  deriving DecidableEq

inductive UnaryOp where
  | plus
  | minus
  | not
  deriving DecidableEq

/-- What Perl does beyond integers and plain decimal strings. Arithmetic that dies has
no value. -/
structure Perl (Outside : Type u) where
  text : Outside → List Char
  number : Outside → Number Outside
  truth : Outside → Bool
  numify : List Char → Number Outside
  fraction : Int → Int → Outside
  arithmetic : ArithmeticOp → Number Outside → Number Outside → Option (Number Outside)
  equal : Number Outside → Number Outside → Bool
  minus : Scalar Outside → Scalar Outside

def displayInteger (value : Int) : List Char :=
  if value < 0 then '-' :: decimal value.natAbs else decimal value.natAbs

/-- `char::to_digit`, and the value of a digit in a Perl literal. -/
def toDigit (radix : Nat) (scalar : Char) : Option Nat :=
  let digit :=
    if '0' ≤ scalar ∧ scalar ≤ '9' then scalar.toNat - 48
    else if 'a' ≤ scalar ∧ scalar ≤ 'z' then scalar.toNat - 87
    else if 'A' ≤ scalar ∧ scalar ≤ 'Z' then scalar.toNat - 55
    else radix
  if digit < radix then some digit else none

def digitsValue (radix : Nat) (digits : List Char) : Nat :=
  digits.foldl (fun value digit => value * radix + (toDigit radix digit).getD 0) 0

def PlainDecimal (text : List Char) : Prop := ∀ scalar ∈ text, scalar.isDigit = true

instance (text : List Char) : Decidable (PlainDecimal text) :=
  inferInstanceAs (Decidable (∀ scalar ∈ text, _))

def Scalar.yes : Scalar Outside := .integer 1

def Scalar.ofBool (holds : Bool) : Scalar Outside := if holds then .yes else .no

def Scalar.ofNumber : Number Outside → Scalar Outside
  | .int value => .integer value
  | .outside value => .outside value

def Scalar.IsInteger : Scalar Outside → Prop
  | .integer _ => True
  | .no => True
  | _ => False

namespace Perl
variable (perl : Perl Outside)

def textOf : Scalar Outside → List Char
  | .undef => []
  | .no => []
  | .integer value => displayInteger value
  | .string text => text
  | .outside value => perl.text value

def numifyText (text : List Char) : Number Outside :=
  if PlainDecimal text then .int (digitsValue 10 text) else perl.numify text

def numberOf : Scalar Outside → Number Outside
  | .undef => .int 0
  | .no => .int 0
  | .integer value => .int value
  | .string text => perl.numifyText text
  | .outside value => perl.number value

def truthOf : Scalar Outside → Bool
  | .undef => false
  | .no => false
  | .integer value => value ≠ 0
  | .string text => text ≠ [] ∧ text ≠ ['0']
  | .outside value => perl.truth value

/-- Exact on integers; a quotient that is no integer lies outside. -/
def calculate (op : ArithmeticOp) : Number Outside → Number Outside → Option (Number Outside)
  | .int left, .int right =>
    match op with
    | .add => some (.int (left + right))
    | .sub => some (.int (left - right))
    | .mul => some (.int (left * right))
    | .div =>
      if right = 0 then none
      else if right ∣ left then some (.int (left / right))
      else some (.outside (perl.fraction left right))
  | left, right => perl.arithmetic op left right

def numbersEqual : Number Outside → Number Outside → Bool
  | .int left, .int right => left = right
  | left, right => perl.equal left right

def binary (op : BinaryOp) (left right : Scalar Outside) : Option (Scalar Outside) :=
  match op with
  | .arithmetic op => (perl.calculate op (perl.numberOf left) (perl.numberOf right)).map .ofNumber
  | .concat => some (.string (perl.textOf left ++ perl.textOf right))
  | .numericEqual => some (.ofBool (perl.numbersEqual (perl.numberOf left) (perl.numberOf right)))
  | .numericUnequal =>
    some (.ofBool (!perl.numbersEqual (perl.numberOf left) (perl.numberOf right)))
  | .stringEqual => some (.ofBool (perl.textOf left = perl.textOf right))
  | .stringUnequal => some (.ofBool (perl.textOf left ≠ perl.textOf right))

def unary (op : UnaryOp) (operand : Scalar Outside) : Scalar Outside :=
  match op with
  | .plus => operand
  | .minus =>
    match operand with
    | .integer value => .integer (-value)
    | .no => .integer 0
    | other => perl.minus other
  | .not => .ofBool (!perl.truthOf operand)

structure Alike (left right : Scalar Outside) : Prop where
  text : perl.textOf left = perl.textOf right
  number : perl.numberOf left = perl.numberOf right
  truth : perl.truthOf left = perl.truthOf right

theorem alike_refl (value : Scalar Outside) : perl.Alike value value := ⟨rfl, rfl, rfl⟩

end Perl

inductive LiteralStyle where
  | decimal
  | hex (upper : Bool)
  | binary (upper : Bool)
  | octal (upper : Bool)
  | leadingZero
  deriving DecidableEq

def LiteralStyle.radix : LiteralStyle → Nat
  | .decimal => 10
  | .hex _ => 16
  | .binary _ => 2
  | .octal _ => 8
  | .leadingZero => 8

def LiteralStyle.lead : LiteralStyle → List Char
  | .decimal => []
  | .hex upper => ['0', if upper then 'X' else 'x']
  | .binary upper => ['0', if upper then 'B' else 'b']
  | .octal upper => ['0', if upper then 'O' else 'o']
  | .leadingZero => ['0']

/-- An integer literal: digits, with underscores between them. A decimal one is `0` or starts with
another digit. -/
structure IntegerLiteral where
  style : LiteralStyle
  digits : List Char
  valid : ∀ scalar ∈ digits, scalar ≠ '_' → (toDigit style.radix scalar).isSome = true
  someDigit : ∃ scalar ∈ digits, scalar ≠ '_'
  decimalStart : style = .decimal →
    digits = ['0'] ∨ ∃ first rest, digits = first :: rest ∧ first ≠ '_' ∧ first ≠ '0'

variable (literal : IntegerLiteral)

def IntegerLiteral.bare : List Char :=
  literal.digits.filter (· ≠ '_')

def IntegerLiteral.value : Int :=
  digitsValue literal.style.radix literal.bare

def IntegerLiteral.spelled : List Char :=
  literal.style.lead ++ literal.digits

/-- A piece between single quotes: a scalar that stands for itself, an escaped backslash or quote,
or a kept backslash. -/
inductive QuotedPiece where
  | plain (scalar : Char) (bare : scalar ≠ '\\' ∧ scalar ≠ '\'')
  | backslash
  | quote
  | kept (scalar : Char) (bare : scalar ≠ '\\' ∧ scalar ≠ '\'')

def QuotedPiece.spelled : QuotedPiece → List Char
  | .plain scalar _ => [scalar]
  | .backslash => ['\\', '\\']
  | .quote => ['\\', '\'']
  | .kept scalar _ => ['\\', scalar]

def QuotedPiece.text : QuotedPiece → List Char
  | .plain scalar _ => [scalar]
  | .backslash => ['\\']
  | .quote => ['\'']
  | .kept scalar _ => ['\\', scalar]

inductive Expr where
  | integer (literal : IntegerLiteral)
  | quoted (body : List QuotedPiece)
  | undef
  | variable (name : String)
  | binary (op : BinaryOp) (left right : Expr)
  | unary (op : UnaryOp) (operand : Expr)
  | ternary (condition thenExpr elseExpr : Expr)

def Perl.value (perl : Perl Outside) (env : String → Scalar Outside) : Expr → Option (Scalar Outside)
  | .integer literal => some (.integer literal.value)
  | .quoted body => some (.string (body.flatMap QuotedPiece.text))
  | .undef => some .undef
  | .variable name => some (env name)
  | .binary op left right =>
    (perl.value env left).bind fun left =>
      (perl.value env right).bind fun right => perl.binary op left right
  | .unary op operand => (perl.value env operand).map (perl.unary op)
  | .ternary condition thenExpr elseExpr =>
    (perl.value env condition).bind fun held =>
      if perl.truthOf held then perl.value env thenExpr else perl.value env elseExpr

end PerlLsp.PerlExpression
