import Mathlib.Algebra.Ring.Int.Defs
import PerlLsp.PerlExpression

/-! The bounded evaluator of value_analysis.rs: expression trees of literals, operators
and conditionals are folded to abstract values, everything else widens. It is compared
with Perl's own value of the expression. -/
namespace PerlLsp.ValueAnalysis
open PerlExpression List

inductive ScalarValue where
  | integer (value : Int)
  | string (value : List Char)
  | undef
  deriving DecidableEq

inductive AbstractValue where
  | scalar (value : ScalarValue)
  | finite (values : List ScalarValue)
  | unknown
  | dynamic
  | overBudget
  deriving DecidableEq

structure EvaluationBudget where
  maxAlternatives : Nat := 8
  maxDepth : Nat := 64
  maxStringLength : Nat := 4096

inductive Node where
  | expressionStatement (expression : Node)
  | number (value : List Char)
  | string (value : List Char) (interpolated : Bool)
  | undef
  | arrayLiteral (elements : List Node)
  | binary (op : String) (left right : Node)
  | unary (op : String) (operand : Node)
  | ternary (condition thenExpr elseExpr : Node)
  | functionCall
  | methodCall
  | amperCall
  | indirectCall
  | readline
  | glob
  | variable (name : String)
  | other

def i128Min : Int := -2 ^ 127
def i128Max : Int := 2 ^ 127 - 1

def FitsI128 (value : Int) : Prop := i128Min ≤ value ∧ value ≤ i128Max

instance (value : Int) : Decidable (FitsI128 value) := inferInstanceAs (Decidable (_ ∧ _))

/-- The checked operations of `i128`: none on overflow. -/
def checked (value : Int) : Option Int := if FitsI128 value then some value else none

def checkedRem (left right : Int) : Option Int :=
  if right = 0 ∨ (left = i128Min ∧ right = -1) then none else some (left.tmod right)

def checkedDiv (left right : Int) : Option Int :=
  if right = 0 ∨ (left = i128Min ∧ right = -1) then none else some (left.tdiv right)

def byteLength (text : List Char) : Nat := (text.map Char.utf8Size).sum

/-- `i128::from_str_radix`. -/
def fromStrRadix (text : List Char) (radix : Nat) : Option Int :=
  let (negative, digits) :=
    match text with
    | '-' :: rest => (true, rest)
    | '+' :: rest => (false, rest)
    | _ => (false, text)
  if digits ≠ [] ∧ digits.all fun scalar => (toDigit radix scalar).isSome then
    checked (if negative then -(digitsValue radix digits : Int) else digitsValue radix digits)
  else none

def parseInteger (value : List Char) : Option Int :=
  let value := value.filter (· ≠ '_')
  let (negative, value) :=
    match value with
    | '-' :: rest => (true, rest)
    | _ => (false, value)
  let parsed :=
    match value with
    | '0' :: 'x' :: rest => fromStrRadix rest 16
    | '0' :: 'X' :: rest => fromStrRadix rest 16
    | '0' :: 'b' :: rest => fromStrRadix rest 2
    | '0' :: 'B' :: rest => fromStrRadix rest 2
    | '0' :: 'o' :: rest => fromStrRadix rest 8
    | '0' :: 'O' :: rest => fromStrRadix rest 8
    | _ =>
      if 1 < value.length ∧ value.head? = some '0' ∧ value.all Char.isDigit then
        fromStrRadix value.tail 8
      else if '.' ∉ value ∧ 'e' ∉ value ∧ 'E' ∉ value then fromStrRadix value 10
      else none
  parsed.map fun value => if negative then -value else value

def decodeSingleQuoted : List Char → Option (List Char)
  | [] => some []
  | '\\' :: '\\' :: rest => (decodeSingleQuoted rest).map ('\\' :: ·)
  | '\\' :: '\'' :: rest => (decodeSingleQuoted rest).map ('\'' :: ·)
  | '\\' :: other :: rest => (decodeSingleQuoted rest).map fun decoded => '\\' :: other :: decoded
  | ['\\'] => none
  | ch :: rest => (decodeSingleQuoted rest).map (ch :: ·)

def stripQuotes (quote : Char) (raw : List Char) : Option (List Char) :=
  match raw with
  | [] => none
  | first :: rest =>
    if first = quote ∧ rest.getLast? = some quote then some rest.dropLast else none

def decodeLiteral (raw : List Char) : Option (List Char) :=
  if 1 < raw.length ∧ raw.head? = some 'q' ∧ ¬ ['q', 'q'] <+: raw then none
  else
    match stripQuotes '\'' raw with
    | some content => decodeSingleQuoted content
    | none =>
      match stripQuotes '"' raw with
      | some content => if '\\' ∈ content then none else some content
      | none => if '\\' ∈ raw then none else some raw

def scalarInteger (value : Int) : AbstractValue := .scalar (.integer value)

def scalarBool (value : Bool) : AbstractValue := scalarInteger (if value then 1 else 0)

def isTruthy : ScalarValue → Bool
  | .integer value => value ≠ 0
  | .string value => value ≠ [] ∧ value ≠ ['0']
  | .undef => false

def formatScalar : ScalarValue → List Char
  | .integer value => displayInteger value
  | .string value => value
  | .undef => []

def numifyString (value : List Char) : Option Int :=
  if value = [] then some 0
  else if value.all Char.isDigit then fromStrRadix value 10
  else none

def numericValue : ScalarValue → Option Int
  | .integer value => some value
  | .string value => numifyString value
  | .undef => some 0

def numericEqual (left right : ScalarValue) : Option Bool :=
  (numericValue left).bind fun left => (numericValue right).map fun right => left == right

def stringEqual (left right : ScalarValue) : Option Bool :=
  some (formatScalar left == formatScalar right)

def orUnknown {α : Type} (found : Option α) (publish : α → AbstractValue) : AbstractValue :=
  found.elim .unknown publish

section Evaluator
variable (budget : EvaluationBudget)

def concat (left right : ScalarValue) : AbstractValue :=
  let value := formatScalar left ++ formatScalar right
  if budget.maxStringLength < byteLength value then .overBudget else .scalar (.string value)

def foldBinary (op : String) (left right : ScalarValue) : AbstractValue :=
  match op, left, right with
  | "+", .integer a, .integer b => orUnknown (checked (a + b)) scalarInteger
  | "-", .integer a, .integer b => orUnknown (checked (a - b)) scalarInteger
  | "*", .integer a, .integer b => orUnknown (checked (a * b)) scalarInteger
  | "/", .integer a, .integer b =>
    if b ≠ 0 ∧ checkedRem a b = some 0 then orUnknown (checkedDiv a b) scalarInteger
    else .unknown
  | ".", a, b => concat budget a b
  | "==", a, b => orUnknown (numericEqual a b) scalarBool
  | "!=", a, b => orUnknown (numericEqual a b) fun equal => scalarBool (!equal)
  | "eq", a, b => orUnknown (stringEqual a b) scalarBool
  | "ne", a, b => orUnknown (stringEqual a b) fun equal => scalarBool (!equal)
  | _, _, _ => .unknown

def evalBinary (op : String) (left right : AbstractValue) : AbstractValue :=
  if left = .overBudget ∨ right = .overBudget then .overBudget
  else if left = .dynamic ∨ right = .dynamic then .dynamic
  else
    match left, right with
    | .scalar left, .scalar right => foldBinary budget op left right
    | _, _ => .unknown

def evalUnary (op : String) (operand : AbstractValue) : AbstractValue :=
  match operand with
  | .scalar value =>
    match op, value with
    | "+", .integer value => scalarInteger value
    | "", .integer value => scalarInteger value
    | "-", .integer value => orUnknown (checked (-value)) scalarInteger
    | "!", value => scalarBool (!isTruthy value)
    | _, _ => .unknown
  | other => other

def pushNew (values : List ScalarValue) (value : ScalarValue) : List ScalarValue :=
  if value ∈ values then values else values ++ [value]

/-- The loop of `join` over the values still to be added. -/
def joinFrom (values : List ScalarValue) : List AbstractValue → AbstractValue
  | [] => if budget.maxAlternatives < values.length then .overBudget else .finite values
  | .scalar value :: rest => joinFrom (pushNew values value) rest
  | .finite more :: rest => joinFrom (more.foldl pushNew values) rest
  | .overBudget :: _ => .overBudget
  | .dynamic :: _ => .dynamic
  | .unknown :: _ => .unknown

def join (left right : AbstractValue) : AbstractValue := joinFrom budget [] [left, right]

mutual

def eval (depth : Nat) : Node → AbstractValue
  | .expressionStatement expression =>
    if budget.maxDepth < depth then .overBudget else eval (depth + 1) expression
  | .number value =>
    if budget.maxDepth < depth then .overBudget else orUnknown (parseInteger value) scalarInteger
  | .string value interpolated =>
    if budget.maxDepth < depth then .overBudget
    else if interpolated then
      if value.head? = some '\x60' then .dynamic else .unknown
    else orUnknown (decodeLiteral value) fun value =>
      if budget.maxStringLength < byteLength value then .overBudget else .scalar (.string value)
  | .undef => if budget.maxDepth < depth then .overBudget else .scalar .undef
  | .arrayLiteral elements =>
    if budget.maxDepth < depth then .overBudget else evalArray depth [] elements
  | .binary op left right =>
    if budget.maxDepth < depth then .overBudget
    else evalBinary budget op (eval (depth + 1) left) (eval (depth + 1) right)
  | .unary op operand =>
    if budget.maxDepth < depth then .overBudget else evalUnary op (eval (depth + 1) operand)
  | .ternary condition thenExpr elseExpr =>
    if budget.maxDepth < depth then .overBudget
    else
      match eval (depth + 1) condition with
      | .scalar value =>
        if isTruthy value then eval (depth + 1) thenExpr else eval (depth + 1) elseExpr
      | .overBudget => .overBudget
      | .dynamic => .dynamic
      | .unknown => join budget (eval (depth + 1) thenExpr) (eval (depth + 1) elseExpr)
      | .finite _ => .unknown
  | .functionCall | .methodCall | .amperCall | .indirectCall | .readline | .glob =>
    if budget.maxDepth < depth then .overBudget else .dynamic
  | .variable _ | .other => if budget.maxDepth < depth then .overBudget else .unknown

def evalArray (depth : Nat) (values : List ScalarValue) : List Node → AbstractValue
  | [] => .finite values
  | element :: rest =>
    match eval (depth + 1) element with
    | .scalar value =>
      if value ∈ values then evalArray depth values rest
      else if budget.maxAlternatives ≤ values.length then .overBudget
      else evalArray depth (values ++ [value]) rest
    | .finite _ => .unknown
    | .overBudget => .overBudget
    | .dynamic => .dynamic
    | .unknown => .unknown

end

def evaluateWithBudget (node : Node) : AbstractValue := eval budget 0 node

end Evaluator

def evaluate (node : Node) : AbstractValue := evaluateWithBudget {} node

example : evaluate (.binary "+" (.number "2".toList)
    (.binary "*" (.number "3".toList) (.number "0x_4".toList))) = scalarInteger 14 := by decide

theorem char_le_iff (left right : Char) : left ≤ right ↔ left.toNat ≤ right.toNat := Iff.rfl

variable {digits : List Char} (body : List QuotedPiece) {radix : Nat} {scalar : Char}

theorem to_digit_range (valid : (toDigit radix scalar).isSome = true) :
    '0' ≤ scalar ∧ scalar ≤ '9' ∨ 'a' ≤ scalar ∧ scalar ≤ 'z' ∨ 'A' ≤ scalar ∧ scalar ≤ 'Z' := by
  by_contra outside
  obtain ⟨number, letters⟩ := not_or.mp outside
  obtain ⟨lower, upper⟩ := not_or.mp letters
  simp [toDigit, number, lower, upper] at valid

theorem to_digit_decimal (small : radix ≤ 10) (valid : (toDigit radix scalar).isSome = true) :
    scalar.isDigit = true := by
  have letter : ∀ c : Nat, ¬ (97 ≤ c ∧ c - 87 < radix) ∧ ¬ (65 ≤ c ∧ c - 55 < radix) := by omega
  simp only [Char.isDigit, Bool.and_eq_true, decide_eq_true_eq]
  by_contra other
  have number : ¬('0' ≤ scalar ∧ scalar ≤ '9') := other
  rcases to_digit_range valid with inside | lower | upper
  · exact number inside
  · have within : scalar.toNat - 87 < radix := by
      by_contra beyond
      simp [toDigit, number, lower, beyond] at valid
    exact (letter scalar.toNat).1 ⟨(char_le_iff _ _).mp lower.1, within⟩
  · have notLower : ¬('a' ≤ scalar ∧ scalar ≤ 'z') := by
      rw [char_le_iff, char_le_iff] at upper ⊢
      have a : 'a'.toNat = 97 := rfl
      have z : 'Z'.toNat = 90 := rfl
      omega
    have within : scalar.toNat - 55 < radix := by
      by_contra beyond
      simp [toDigit, number, notLower, upper, beyond] at valid
    exact (letter scalar.toNat).2 ⟨(char_le_iff _ _).mp upper.1, within⟩

theorem to_digit_unsigned (valid : (toDigit radix scalar).isSome = true) : scalar ≠ '-' ∧ scalar ≠ '+' := by
  constructor
  · rintro rfl
    simp [toDigit] at valid
  · rintro rfl
    simp [toDigit] at valid

theorem from_str_radix_digits (radix : Nat) (digits : List Char) (nonempty : digits ≠ [])
    (valid : ∀ scalar ∈ digits, (toDigit radix scalar).isSome = true) :
    fromStrRadix digits radix = checked (digitsValue radix digits) := by
  have all : (digits.all fun scalar => (toDigit radix scalar).isSome) = true :=
    all_eq_true.mpr valid
  obtain ⟨first, rest, rfl⟩ := exists_cons_of_ne_nil nonempty
  obtain ⟨minus, plus⟩ := to_digit_unsigned (valid first mem_cons_self)
  simp [fromStrRadix, minus, plus, all]

section
variable (literal : IntegerLiteral)
include literal

theorem bare_valid : ∀ scalar ∈ literal.bare, (toDigit literal.style.radix scalar).isSome = true := by
  intro scalar among
  obtain ⟨inside, other⟩ := mem_filter.mp among
  exact literal.valid scalar inside (of_decide_eq_true other)

theorem bare_nonempty : literal.bare ≠ [] := by
  obtain ⟨scalar, inside, other⟩ := literal.someDigit
  exact ne_nil_of_mem (mem_filter.mpr ⟨inside, decide_eq_true other⟩)

theorem spelled_filtered : literal.spelled.filter (· ≠ '_') = literal.style.lead ++ literal.bare := by
  have kept : literal.style.lead.filter (· ≠ '_') = literal.style.lead := by
    cases literal.style with
    | decimal => rfl
    | hex upper | binary upper | octal upper => cases upper <;> rfl
    | leadingZero => rfl
  rw [IntegerLiteral.spelled, filter_append, kept]
  rfl

theorem bare_value : fromStrRadix literal.bare literal.style.radix = checked literal.value :=
  from_str_radix_digits _ _ (bare_nonempty literal) (bare_valid literal)

/-- The literal without its underscores is read from its lead and its digits. -/
theorem parse_integer_bare :
    parseInteger literal.spelled = parseInteger (literal.style.lead ++ literal.bare) := by
  have clean : (literal.style.lead ++ literal.bare).filter (· ≠ '_') =
      literal.style.lead ++ literal.bare := by
    rw [← spelled_filtered]
    simp
  unfold parseInteger
  rw [clean, spelled_filtered]

theorem bare_underscores : literal.bare.filter (· ≠ '_') = literal.bare := by
  rw [IntegerLiteral.bare]
  simp

end

theorem unsigned (parsed : Option Int) :
    (parsed.map fun value => if false = true then -value else value) = parsed := by simp

/-- A marked literal is read in the base of its mark. -/
theorem parse_marked (style : LiteralStyle) (rest : List Char)
    (marked : style ≠ .decimal ∧ style ≠ .leadingZero) :
    parseInteger (style.lead ++ rest) = fromStrRadix (rest.filter (· ≠ '_')) style.radix := by
  cases style with
  | decimal => exact absurd rfl marked.1
  | hex upper | binary upper | octal upper => cases upper <;> exact unsigned _
  | leadingZero => exact absurd rfl marked.2

theorem decimal_plain (decimals : ∀ scalar ∈ digits, scalar.isDigit = true) :
    digits.filter (· ≠ '_') = digits ∧ '.' ∉ digits ∧ 'e' ∉ digits ∧ 'E' ∉ digits := by
  refine ⟨filter_eq_self.mpr fun scalar among => decide_eq_true ?_, ?_, ?_, ?_⟩
  · rintro rfl
    exact absurd (decimals '_' among) (by decide)
  · intro among
    exact absurd (decimals '.' among) (by decide)
  · intro among
    exact absurd (decimals 'e' among) (by decide)
  · intro among
    exact absurd (decimals 'E' among) (by decide)

/-- Digits behind a leading zero are octal. -/
theorem parse_leading_zero (nonempty : digits ≠ []) (decimals : ∀ scalar ∈ digits, scalar.isDigit = true) :
    parseInteger ('0' :: digits) = fromStrRadix digits 8 := by
  obtain ⟨first, rest, rfl⟩ := exists_cons_of_ne_nil nonempty
  have clean := (decimal_plain decimals).1
  have head := decimals first mem_cons_self
  have marks : first ≠ 'x' ∧ first ≠ 'X' ∧ first ≠ 'b' ∧ first ≠ 'B' ∧ first ≠ 'o' ∧ first ≠ 'O' := by
    refine ⟨?_, ?_, ?_, ?_, ?_, ?_⟩ <;>
      · rintro rfl
        exact absurd head (by decide)
  unfold parseInteger
  rw [filter_cons_of_pos (by decide), clean]
  simp [marks]
  intro mixed
  obtain ⟨digit, among, other⟩ := mixed head
  rw [decimals digit (mem_cons_of_mem _ among)] at other
  cases other

theorem parse_decimal_digits {first : Char} {rest : List Char} (nonzero : first ≠ '0')
    (decimals : ∀ scalar ∈ first :: rest, scalar.isDigit = true) :
    parseInteger (first :: rest) = fromStrRadix (first :: rest) 10 := by
  obtain ⟨clean, point, lower, upper⟩ := decimal_plain decimals
  have minus : first ≠ '-' := by
    rintro rfl
    exact absurd (decimals '-' mem_cons_self) (by decide)
  unfold parseInteger
  rw [clean]
  simp [nonzero, minus]
  simp only [mem_cons, not_or] at point lower upper
  intro exponent
  exact absurd (exponent point.1 point.2 lower.1 lower.2 upper.1) upper.2

theorem parse_integer_literal (literal : IntegerLiteral) :
    parseInteger literal.spelled = checked literal.value := by
  have value := bare_value literal
  have bare := bare_underscores literal
  rw [parse_integer_bare]
  by_cases marked : literal.style ≠ .decimal ∧ literal.style ≠ .leadingZero
  · rw [parse_marked _ _ marked, bare, value]
  have small : literal.style.radix ≤ 10 := by
    cases style : literal.style with
    | decimal => exact Nat.le_refl 10
    | hex upper | binary upper | octal upper => simp [style] at marked
    | leadingZero => decide
  have decimals : ∀ scalar ∈ literal.bare, scalar.isDigit = true := fun scalar among =>
    to_digit_decimal small (bare_valid literal scalar among)
  cases style : literal.style with
  | decimal =>
    rw [style] at value
    rcases literal.decimalStart style with zero | ⟨first, rest, starts, mark, nonzero⟩
    · have single : literal.bare = ['0'] := by rw [IntegerLiteral.bare, zero]; rfl
      rw [single] at value ⊢
      exact value
    have split : literal.bare = first :: rest.filter (· ≠ '_') := by
      rw [IntegerLiteral.bare, starts, filter_cons_of_pos (by simpa using mark)]
    rw [split] at value decimals ⊢
    rw [← value]
    exact parse_decimal_digits nonzero decimals
  | hex upper | binary upper | octal upper => simp [style] at marked
  | leadingZero =>
    rw [style] at value
    rw [← value]
    exact parse_leading_zero (bare_nonempty literal) decimals

theorem decode_pieces :
    decodeSingleQuoted (body.flatMap QuotedPiece.spelled) = some (body.flatMap QuotedPiece.text) := by
  induction body with
  | nil => rfl
  | cons piece rest ih =>
    cases piece with
    | plain scalar bare | kept scalar bare =>
      simp [QuotedPiece.spelled, QuotedPiece.text, decodeSingleQuoted, bare, ih]
    | backslash | quote => simp [QuotedPiece.spelled, QuotedPiece.text, decodeSingleQuoted, ih]

def quotedSpelled (body : List QuotedPiece) : List Char :=
  '\'' :: body.flatMap QuotedPiece.spelled ++ ['\'']

theorem decode_quoted : decodeLiteral (quotedSpelled body) = some (body.flatMap QuotedPiece.text) := by
  have content : stripQuotes '\'' (quotedSpelled body) = some (body.flatMap QuotedPiece.spelled) := by
    simp [stripQuotes, quotedSpelled]
  have notQ : (quotedSpelled body).head? ≠ some 'q' := by simp [quotedSpelled]
  rw [decodeLiteral, if_neg fun quoteLike => notQ quoteLike.2.1, content]
  exact decode_pieces body

def spelledArithmetic : ArithmeticOp → String
  | .add => "+"
  | .sub => "-"
  | .mul => "*"
  | .div => "/"

def spelledBinary : BinaryOp → String
  | .arithmetic op => spelledArithmetic op
  | .concat => "."
  | .numericEqual => "=="
  | .numericUnequal => "!="
  | .stringEqual => "eq"
  | .stringUnequal => "ne"

def spelledUnary : UnaryOp → String
  | .plus => "+"
  | .minus => "-"
  | .not => "!"

/-- The tree the parser makes of an expression. -/
def node : Expr → Node
  | .integer literal => .number literal.spelled
  | .quoted body => .string (quotedSpelled body) false
  | .undef => .undef
  | .variable name => .variable name
  | .binary op left right => .binary (spelledBinary op) (node left) (node right)
  | .unary op operand => .unary (spelledUnary op) (node operand)
  | .ternary condition thenExpr elseExpr =>
    .ternary (node condition) (node thenExpr) (node elseExpr)

end PerlLsp.ValueAnalysis
