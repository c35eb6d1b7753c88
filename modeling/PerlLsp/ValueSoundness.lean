import PerlLsp.ValueAnalysis

/-! What the results of value_analysis.rs say about Perl's value of the expression. A
fold is exact on the operands it covers; the one exception is the false value of a
comparison or negation, which the evaluator keeps as the integer 0 although Perl prints
it as the empty string. -/
namespace PerlLsp.ValueAnalysis
open PerlExpression Int

universe u
variable {Outside : Type u}

def ScalarValue.perl : ScalarValue → Scalar Outside
  | .integer value => .integer value
  | .string value => .string value
  | .undef => .undef

section Reference
variable (perl : Perl Outside) (env : String → Scalar Outside)

def Counts : Scalar Outside → Prop
  | .string text => PlainDecimal text ∧ FitsI128 (digitsValue 10 text)
  | .outside _ => False
  | _ => True

def Folds (op : BinaryOp) (left right : Scalar Outside) : Prop :=
  match op with
  | .arithmetic op =>
    left.IsInteger ∧ right.IsInteger ∧
      ∃ value, perl.calculate op (perl.numberOf left) (perl.numberOf right) = some (.int value) ∧
        FitsI128 value
  | .concat => True
  | .numericEqual => Counts left ∧ Counts right
  | .numericUnequal => Counts left ∧ Counts right
  | .stringEqual => True
  | .stringUnequal => True

def FoldsUnary (op : UnaryOp) (operand : Scalar Outside) : Prop :=
  match op with
  | .plus => operand.IsInteger
  | .minus => operand.IsInteger ∧ ∀ value, perl.unary .minus operand = .integer value → FitsI128 value
  | .not => True

def Known : Expr → Prop
  | .integer literal => FitsI128 literal.value
  | .quoted _ => True
  | .undef => True
  | .variable _ => False
  | .binary op left right =>
    Known left ∧ Known right ∧ ∃ a b, perl.value env left = some a ∧
      perl.value env right = some b ∧ Folds perl op a b
  | .unary op operand =>
    Known operand ∧ ∃ a, perl.value env operand = some a ∧ FoldsUnary perl op a
  | .ternary condition thenExpr elseExpr =>
    Known condition ∧ ∃ a, perl.value env condition = some a ∧
      if perl.truthOf a then Known thenExpr else Known elseExpr

/-- A conditional with an unknown condition between values that are known or such conditionals
again; also as the chosen branch of another one or behind a sign. -/
def Alternatives : Expr → Prop
  | .unary _ operand => Alternatives operand
  | .ternary condition thenExpr elseExpr =>
    (¬ Known perl env condition ∧ (Known perl env thenExpr ∨ Alternatives thenExpr) ∧
        (Known perl env elseExpr ∨ Alternatives elseExpr)) ∨
      (Known perl env condition ∧ ∃ a, perl.value env condition = some a ∧
        if perl.truthOf a then Alternatives thenExpr else Alternatives elseExpr)
  | _ => False

def ReadsText : BinaryOp → Prop
  | .concat => True
  | .stringEqual => True
  | .stringUnequal => True
  | _ => False

/-- Where the evaluator goes, no known false value of a comparison or negation is read as
text, and no sign or negation stands before an undecided conditional. -/
def Conforms : Expr → Prop
  | .binary op left right =>
    Conforms left ∧ Conforms right ∧
      (ReadsText op → Known perl env left → Known perl env right →
        perl.value env left ≠ some .no ∧ perl.value env right ≠ some .no)
  | .unary op operand => Conforms operand ∧ (op ≠ .plus → ¬ Alternatives perl env operand)
  | .ternary condition thenExpr elseExpr =>
    Conforms condition ∧
      (¬ Known perl env condition → Conforms thenExpr ∧ Conforms elseExpr) ∧
      ∀ a, Known perl env condition → perl.value env condition = some a →
        if perl.truthOf a then Conforms thenExpr else Conforms elseExpr
  | _ => True

def Fits : ScalarValue → Prop
  | .integer value => FitsI128 value
  | _ => True

inductive Reads : Scalar Outside → ScalarValue → Prop where
  | same (value : ScalarValue) (fits : Fits value) : Reads value.perl value
  | no : Reads .no (.integer 0)

/-- What a result says about the expression. -/
def Faithful (expr : Expr) : AbstractValue → Prop
  | .scalar value => Known perl env expr ∧ ∃ p, perl.value env expr = some p ∧ Reads p value
  | .finite values =>
    Alternatives perl env expr ∧ ∀ p, perl.value env expr = some p → ∃ v ∈ values, Reads p v
  | .unknown => ¬ Known perl env expr
  | .dynamic => ¬ Known perl env expr
  | .overBudget => True

variable {perl env}

theorem alternatives_not_known (expr : Expr) (alternatives : Alternatives perl env expr) :
    ¬ Known perl env expr := by
  induction expr with
  | integer literal | quoted body | undef | «variable» name | binary op left right =>
    exact alternatives.elim
  | unary op operand ih => exact fun known => ih alternatives known.1
  | ternary condition thenExpr elseExpr _ ihThen ihElse =>
    rintro ⟨known, a, held, chosen⟩
    rcases alternatives with ⟨unknown, -, -⟩ | ⟨-, b, again, other⟩
    · exact unknown known
    obtain rfl : a = b := Option.some.inj (held.symm.trans again)
    split at chosen
    · next truth => exact ihThen (by rwa [if_pos truth] at other) chosen
    · next truth => exact ihElse (by rwa [if_neg truth] at other) chosen

variable (perl) in
theorem reads_truth {p : Scalar Outside} {value : ScalarValue} (reads : Reads p value) :
    perl.truthOf p = isTruthy value := by
  cases reads with
  | same => cases value <;> rfl
  | no => rfl

theorem reads_text {p : Scalar Outside} {value : ScalarValue} (reads : Reads p value)
    (other : p ≠ .no) : perl.textOf p = formatScalar value := by
  cases reads with
  | same => cases value <;> rfl
  | no => exact absurd rfl other

variable (perl) in
theorem reads_integer {p : Scalar Outside} {value : Int} (reads : Reads p (.integer value)) :
    p.IsInteger ∧ FitsI128 value ∧ perl.numberOf p = .int value := by
  cases reads with
  | same _ fits => exact ⟨trivial, fits, rfl⟩
  | no => exact ⟨trivial, by decide, rfl⟩

theorem integer_read {p : Scalar Outside} {value : ScalarValue} (reads : Reads p value)
    (integer : p.IsInteger) : ∃ n, value = .integer n := by
  cases reads with
  | same =>
    cases value with
    | integer n => exact ⟨n, rfl⟩
    | string text | undef => exact integer.elim
  | no => exact ⟨0, rfl⟩

theorem digit_to_digit {scalar : Char} (digit : scalar.isDigit = true) :
    (toDigit 10 scalar).isSome = true := by
  have range := Text.digit_range scalar digit
  have inside : '0' ≤ scalar ∧ scalar ≤ '9' := range
  have small : scalar.toNat - 48 < 10 := by omega
  simp [toDigit, inside, small]

theorem checked_some {value n : Int} : checked value = some n ↔ FitsI128 value ∧ value = n := by
  rw [checked, Option.ite_none_right_eq_some, Option.some.injEq]

theorem checked_none {value : Int} : checked value = none ↔ ¬ FitsI128 value := by
  by_cases fits : FitsI128 value
  · simp [checked]
  · simp [checked]

theorem numify_plain (text : List Char) :
    numifyString text = if PlainDecimal text then checked (digitsValue 10 text) else none := by
  rw [numifyString]
  by_cases empty : text = []
  · have zero : checked (digitsValue 10 []) = some 0 := checked_some.mpr ⟨by decide, rfl⟩
    have plain : PlainDecimal [] := fun scalar among => absurd among List.not_mem_nil
    rw [if_pos empty, empty, if_pos plain, zero]
  rw [if_neg empty]
  by_cases plain : PlainDecimal text
  · rw [if_pos plain, if_pos (List.all_eq_true.mpr plain)]
    exact from_str_radix_digits 10 text empty fun scalar among => digit_to_digit (plain scalar among)
  · rw [if_neg plain, if_neg fun all => plain (List.all_eq_true.mp all)]

variable (perl) in
theorem reads_numeric {p : Scalar Outside} {value : ScalarValue} (reads : Reads p value) :
    (∀ n, numericValue value = some n → Counts p ∧ perl.numberOf p = .int n) ∧
      (numericValue value = none → ¬ Counts p) := by
  cases reads with
  | same =>
    cases value with
    | integer n | undef =>
      exact ⟨fun m same => ⟨trivial, congrArg Number.int (Option.some.inj same)⟩,
        fun none => absurd none (Option.some_ne_none _)⟩
    | string text =>
      simp only [numericValue, numify_plain, ScalarValue.perl, Counts, Perl.numberOf, Perl.numifyText]
      by_cases plain : PlainDecimal text
      · simp only [plain, if_true, checked_some, checked_none, true_and]
        exact ⟨fun n counts => ⟨counts.1, congrArg Number.int counts.2⟩, id⟩
      · simp [plain]
  | no =>
    exact ⟨fun m same => ⟨trivial, congrArg Number.int (Option.some.inj same)⟩,
      fun none => absurd none (Option.some_ne_none _)⟩

variable (perl) in
def FoldFaithful (op : BinaryOp) (a b : Scalar Outside) : AbstractValue → Prop
  | .scalar value => Folds perl op a b ∧ ∃ p, perl.binary op a b = some p ∧ Reads p value
  | .unknown => ¬ Folds perl op a b
  | .overBudget => True
  | _ => False

theorem reads_bool (holds : Bool) :
    Reads (.ofBool holds : Scalar Outside) (.integer (if holds then 1 else 0)) := by
  cases holds with
  | false => exact .no
  | true => exact .same (.integer 1) (by decide : FitsI128 1)

variable (perl) in
theorem reads_equal {a b : Scalar Outside} {v w : ScalarValue} (left : Reads a v) (right : Reads b w) :
    match numericEqual v w with
    | some equal => Counts a ∧ Counts b ∧
        perl.numbersEqual (perl.numberOf a) (perl.numberOf b) = equal
    | none => ¬ (Counts a ∧ Counts b) := by
  obtain ⟨leftSome, leftNone⟩ := reads_numeric perl left
  obtain ⟨rightSome, rightNone⟩ := reads_numeric perl right
  rw [numericEqual]
  cases leftValue : numericValue v with
  | none => exact fun counts => leftNone leftValue counts.1
  | some m =>
    cases rightValue : numericValue w with
    | none => exact fun counts => rightNone rightValue counts.2
    | some n =>
      obtain ⟨leftCounts, leftNumber⟩ := leftSome m leftValue
      obtain ⟨rightCounts, rightNumber⟩ := rightSome n rightValue
      refine ⟨leftCounts, rightCounts, ?_⟩
      rw [leftNumber, rightNumber]
      rfl

theorem arithmetic_faithful {op : ArithmeticOp} {a b : Scalar Outside} {m n : Int}
    (left : Reads a (.integer m)) (right : Reads b (.integer n)) {value : Int}
    (exact : perl.calculate op (.int m) (.int n) = some (.int value)) :
    FoldFaithful perl (.arithmetic op) a b (orUnknown (checked value) scalarInteger) := by
  obtain ⟨leftInteger, -, leftNumber⟩ := reads_integer perl left
  obtain ⟨rightInteger, -, rightNumber⟩ := reads_integer perl right
  have calculated : perl.calculate op (perl.numberOf a) (perl.numberOf b) = some (.int value) := by
    rw [leftNumber, rightNumber, exact]
  by_cases fits : FitsI128 value
  · rw [checked_some.mpr ⟨fits, rfl⟩]
    refine ⟨⟨leftInteger, rightInteger, value, calculated, fits⟩, .integer value, ?_,
      .same (.integer value) fits⟩
    simp only [Perl.binary, calculated]
    rfl
  · rw [checked_none.mpr fits]
    rintro ⟨-, -, other, again, fitting⟩
    rw [calculated] at again
    cases again
    exact fits fitting

theorem quotient_fits {m n : Int} (fits : FitsI128 m) (whole : n ∣ m) (nonzero : n ≠ 0)
    (bounded : ¬ (m = i128Min ∧ n = -1)) : FitsI128 (m / n) := by
  obtain ⟨quotient, rfl⟩ := whole
  rw [mul_ediv_cancel_left quotient nonzero]
  have magnitude : quotient.natAbs ≤ (n * quotient).natAbs := by
    rw [natAbs_mul]
    exact Nat.le_mul_of_pos_left _ (Int.natAbs_pos.mpr nonzero)
  simp only [FitsI128, i128Min, i128Max] at fits bounded ⊢
  by_cases edge : quotient = 2 ^ 127
  · subst edge
    have upper : -2 < n := by omega
    exact absurd ⟨by omega, by omega⟩ bounded
  · omega

theorem division_faithful {a b : Scalar Outside} {m n : Int} (left : Reads a (.integer m))
    (right : Reads b (.integer n)) : FoldFaithful perl (.arithmetic .div) a b
      (if n ≠ 0 ∧ checkedRem m n = some 0 then orUnknown (checkedDiv m n) scalarInteger
        else .unknown) := by
  obtain ⟨leftInteger, fits, leftNumber⟩ := reads_integer perl left
  obtain ⟨rightInteger, -, rightNumber⟩ := reads_integer perl right
  split
  · next exact =>
      obtain ⟨nonzero, remainder⟩ := exact
      obtain ⟨bounded, divides⟩ := Option.ite_none_left_eq_some.mp remainder
      have whole : n ∣ m := dvd_of_tmod_eq_zero (Option.some.inj divides)
      have fitting : FitsI128 (m / n) :=
        quotient_fits fits whole nonzero fun overflow => bounded (.inr overflow)
      have quotient : checkedDiv m n = some (m / n) := by
        rw [checkedDiv, if_neg bounded, tdiv_eq_ediv_of_dvd whole]
      have same : orUnknown (checkedDiv m n) scalarInteger = orUnknown (checked (m / n)) scalarInteger := by
        rw [quotient, checked_some.mpr ⟨fitting, rfl⟩]
      rw [same]
      exact arithmetic_faithful left right (by simp [Perl.calculate, nonzero, whole])
  · next inexact =>
      rintro ⟨-, -, value, calculated, fitting⟩
      rw [leftNumber, rightNumber] at calculated
      simp only [Perl.calculate] at calculated
      split at calculated
      · cases calculated
      rename_i nonzero
      split at calculated
      · next whole =>
          obtain rfl := Number.int.inj (Option.some.inj calculated)
          refine inexact ⟨nonzero, ?_⟩
          rw [checkedRem, if_neg, tmod_eq_zero_of_dvd whole]
          rintro (zero | ⟨rfl, rfl⟩)
          · exact nonzero zero
          · exact absurd fitting (by decide)
      · cases calculated

theorem concat_faithful (budget : EvaluationBudget) {a b : Scalar Outside} {v w : ScalarValue}
    (left : Reads a v) (right : Reads b w) (leftText : a ≠ .no) (rightText : b ≠ .no) :
    FoldFaithful perl .concat a b (concat budget v w) := by
  simp only [concat]
  split
  · trivial
  · refine ⟨trivial, _, ?_, .same (.string _) trivial⟩
    rw [Perl.binary, reads_text left leftText, reads_text right rightText]
    rfl

variable (perl) in
theorem reads_same_text {a b : Scalar Outside} {v w : ScalarValue} (left : Reads a v)
    (right : Reads b w) (leftText : a ≠ .no) (rightText : b ≠ .no) :
    decide (perl.textOf a = perl.textOf b) = (formatScalar v == formatScalar w) := by
  rw [reads_text left leftText, reads_text right rightText, beq_eq_decide]

theorem numbers_faithful {op : BinaryOp} {a b : Scalar Outside} {v w : ScalarValue}
    (left : Reads a v) (right : Reads b w) (decide : Bool → Bool)
    (covers : Folds perl op a b ↔ Counts a ∧ Counts b) (result : perl.binary op a b =
      some (.ofBool (decide (perl.numbersEqual (perl.numberOf a) (perl.numberOf b))))) :
    FoldFaithful perl op a b (orUnknown (numericEqual v w) fun equal => scalarBool (decide equal)) := by
  have equal := reads_equal perl left right
  split at equal
  · next holds found =>
      obtain ⟨leftCounts, rightCounts, same⟩ := equal
      rw [found]
      exact ⟨covers.mpr ⟨leftCounts, rightCounts⟩, _, by rw [result, same], reads_bool _⟩
  · next found =>
      rw [found]
      exact fun folds => equal (covers.mp folds)

theorem arithmetic_unknown {op : ArithmeticOp} {a b : Scalar Outside} {v w : ScalarValue}
    (left : Reads a v) (right : Reads b w) (other : ∀ m n, ¬ (v = .integer m ∧ w = .integer n)) :
    FoldFaithful perl (.arithmetic op) a b .unknown := by
  rintro ⟨leftInteger, rightInteger, -⟩
  obtain ⟨m, leftSame⟩ := integer_read left leftInteger
  obtain ⟨n, rightSame⟩ := integer_read right rightInteger
  exact other m n ⟨leftSame, rightSame⟩

theorem fold_arithmetic_faithful (budget : EvaluationBudget) (op : ArithmeticOp)
    {a b : Scalar Outside} {v w : ScalarValue} (left : Reads a v) (right : Reads b w) :
    FoldFaithful perl (.arithmetic op) a b (foldBinary budget (spelledArithmetic op) v w) := by
  by_cases integers : ∃ m n, v = .integer m ∧ w = .integer n
  · obtain ⟨m, n, rfl, rfl⟩ := integers
    cases op with
    | add | sub | mul => exact arithmetic_faithful left right rfl
    | div => exact division_faithful left right
  · have widened : foldBinary budget (spelledArithmetic op) v w = .unknown := by
      cases op <;> cases v <;> cases w <;> first | rfl | exact absurd ⟨_, _, rfl, rfl⟩ integers
    rw [widened]
    exact arithmetic_unknown left right fun m n same => integers ⟨m, n, same⟩

theorem fold_faithful (budget : EvaluationBudget) (op : BinaryOp) {a b : Scalar Outside}
    {v w : ScalarValue} (left : Reads a v) (right : Reads b w) (texts : ReadsText op → a ≠ .no ∧ b ≠ .no) :
    FoldFaithful perl op a b (foldBinary budget (spelledBinary op) v w) := by
  cases op with
  | arithmetic op => exact fold_arithmetic_faithful budget op left right
  | concat =>
    obtain ⟨leftText, rightText⟩ := texts trivial
    exact concat_faithful budget left right leftText rightText
  | numericEqual => exact numbers_faithful left right id Iff.rfl rfl
  | numericUnequal => exact numbers_faithful left right not Iff.rfl rfl
  | stringEqual =>
    obtain ⟨leftText, rightText⟩ := texts trivial
    have same := reads_same_text perl left right leftText rightText
    exact ⟨trivial, _, congrArg (fun holds => some (Scalar.ofBool holds)) same, reads_bool _⟩
  | stringUnequal =>
    obtain ⟨leftText, rightText⟩ := texts trivial
    have same := reads_same_text perl left right leftText rightText
    refine ⟨trivial, .ofBool (!(formatScalar v == formatScalar w)), ?_, reads_bool _⟩
    rw [← same]
    simp [Perl.binary]

variable {result : AbstractValue} {values : List ScalarValue}

theorem known_result {expr : Expr} (faithful : Faithful perl env expr result)
    (known : Known perl env expr) (within : result ≠ .overBudget) : ∃ v, result = .scalar v := by
  cases result with
  | scalar v => exact ⟨v, rfl⟩
  | finite values => exact absurd known (alternatives_not_known expr faithful.1)
  | unknown | dynamic => exact absurd known faithful
  | overBudget => exact absurd rfl within

theorem folded_faithful {op : BinaryOp} {left right : Expr} {a b : Scalar Outside}
    (leftKnown : Known perl env left) (rightKnown : Known perl env right)
    (leftIs : perl.value env left = some a) (rightIs : perl.value env right = some b)
    (folded : FoldFaithful perl op a b result) : Faithful perl env (.binary op left right) result := by
  cases result with
  | scalar value =>
    obtain ⟨folds, p, result, reads⟩ := folded
    refine ⟨⟨leftKnown, rightKnown, a, b, leftIs, rightIs, folds⟩, p, ?_, reads⟩
    simp only [Perl.value, leftIs, rightIs, Option.bind_some, result]
  | unknown =>
    rintro ⟨-, -, c, d, leftAgain, rightAgain, folds⟩
    obtain rfl : a = c := Option.some.inj (leftIs.symm.trans leftAgain)
    obtain rfl : b = d := Option.some.inj (rightIs.symm.trans rightAgain)
    exact folded folds
  | overBudget => trivial
  | finite values | dynamic => exact folded.elim

theorem eval_binary_faithful (budget : EvaluationBudget) {op : BinaryOp} {left right : Expr}
    {leftValue rightValue : AbstractValue} (conforms : Conforms perl env (.binary op left right))
    (fromLeft : Faithful perl env left leftValue) (fromRight : Faithful perl env right rightValue) :
    Faithful perl env (.binary op left right)
      (evalBinary budget (spelledBinary op) leftValue rightValue) := by
  simp only [evalBinary]
  split
  · trivial
  rename_i within
  obtain ⟨leftWithin, rightWithin⟩ := not_or.mp within
  split
  · next dynamic =>
      rcases dynamic with rfl | rfl
      · exact fun known => fromLeft known.1
      · exact fun known => fromRight known.2.1
  split
  · next v w =>
      obtain ⟨leftKnown, a, leftIs, leftReads⟩ := fromLeft
      obtain ⟨rightKnown, b, rightIs, rightReads⟩ := fromRight
      refine folded_faithful leftKnown rightKnown leftIs rightIs
        (fold_faithful budget op leftReads rightReads fun reads => ?_)
      obtain ⟨leftText, rightText⟩ := conforms.2.2 reads leftKnown rightKnown
      rw [leftIs] at leftText
      rw [rightIs] at rightText
      exact ⟨fun no => leftText (congrArg some no), fun no => rightText (congrArg some no)⟩
  · next other =>
      intro known
      obtain ⟨v, leftScalar⟩ := known_result fromLeft known.1 leftWithin
      obtain ⟨w, rightScalar⟩ := known_result fromRight known.2.1 rightWithin
      exact other v w leftScalar rightScalar

variable (perl) in
theorem minus_integer {a : Scalar Outside} {n : Int} (reads : Reads a (.integer n)) :
    perl.unary .minus a = .integer (-n) := by
  cases reads with
  | same => rfl
  | no => rfl

theorem fold_minus_faithful {a : Scalar Outside} {n : Int} (reads : Reads a (.integer n)) :
    match orUnknown (checked (-n)) scalarInteger with
    | .scalar value => FoldsUnary perl .minus a ∧ Reads (perl.unary .minus a) value
    | .unknown => ¬ FoldsUnary perl .minus a
    | _ => False := by
  have result := minus_integer perl reads
  by_cases fits : FitsI128 (-n)
  · rw [checked_some.mpr ⟨fits, rfl⟩]
    refine ⟨⟨(reads_integer perl reads).1, fun value is => ?_⟩, ?_⟩
    · rw [result] at is
      exact Scalar.integer.inj is ▸ fits
    · rw [result]
      exact .same (.integer (-n)) fits
  · rw [checked_none.mpr fits]
    exact fun folds => fits (folds.2 (-n) result)

variable (perl) in
theorem fold_unary_faithful (op : UnaryOp) {a : Scalar Outside} {v : ScalarValue} (reads : Reads a v) :
    match evalUnary (spelledUnary op) (.scalar v) with
    | .scalar value => FoldsUnary perl op a ∧ Reads (perl.unary op a) value
    | .unknown => ¬ FoldsUnary perl op a
    | _ => False := by
  have signed : a.IsInteger → ∃ n, v = .integer n := integer_read reads
  cases op with
  | plus =>
    cases v with
    | integer n => exact ⟨(reads_integer perl reads).1, reads⟩
    | string text | undef => exact fun integer => nomatch signed integer
  | minus =>
    cases v with
    | integer n => exact fold_minus_faithful reads
    | string text | undef => exact fun folds => nomatch signed folds.1
  | not =>
    have truth := reads_truth perl reads
    refine ⟨trivial, ?_⟩
    rw [Perl.unary, truth]
    exact reads_bool _

theorem eval_unary_faithful {op : UnaryOp} {operand : Expr} {value : AbstractValue}
    (conforms : Conforms perl env (.unary op operand)) (fromOperand : Faithful perl env operand value) :
    Faithful perl env (.unary op operand) (evalUnary (spelledUnary op) value) := by
  cases value with
  | scalar v =>
    obtain ⟨known, a, is, reads⟩ := fromOperand
    have folded := fold_unary_faithful perl op reads
    generalize evalUnary (spelledUnary op) (.scalar v) = result at folded ⊢
    cases result with
    | scalar value =>
      exact ⟨⟨known, a, is, folded.1⟩, _, congrArg (Option.map _) is, folded.2⟩
    | unknown =>
      rintro ⟨-, b, again, folds⟩
      obtain rfl : a = b := Option.some.inj (is.symm.trans again)
      exact folded folds
    | overBudget => trivial
    | finite values | dynamic => exact folded.elim
  | finite values =>
    have sign : op = .plus := by
      by_contra other
      exact conforms.2 other fromOperand.1
    subst sign
    refine ⟨fromOperand.1, fun p is => fromOperand.2 p ?_⟩
    obtain ⟨a, operandIs, same⟩ := Option.map_eq_some_iff.mp is
    rw [operandIs, ← same]
    rfl
  | unknown | dynamic => exact fun known => fromOperand known.1
  | overBudget => trivial

/-- The value stands among the alternatives, alone or as a set of its own. -/
def Covered (values : List ScalarValue) : AbstractValue → Prop
  | .scalar value => value ∈ values
  | .finite more => ∀ value ∈ more, value ∈ values
  | _ => False

theorem mem_push_new {new value : ScalarValue} :
    value ∈ pushNew values new ↔ value ∈ values ∨ value = new := by
  rw [pushNew]
  split
  · next among => exact ⟨Or.inl, fun old => old.elim id fun same => same ▸ among⟩
  · rw [List.mem_append, List.mem_singleton]

theorem mem_foldl_push_new {more : List ScalarValue} {value : ScalarValue} :
    value ∈ more.foldl pushNew values ↔ value ∈ values ∨ value ∈ more := by
  induction more generalizing values with
  | nil => simp
  | cons new more ih => rw [List.foldl_cons, ih, mem_push_new, List.mem_cons, or_assoc]

theorem join_from_covers (budget : EvaluationBudget) {start : List ScalarValue}
    {results : List AbstractValue} (joined : joinFrom budget start results = .finite values) :
    (∀ value ∈ start, value ∈ values) ∧ ∀ result ∈ results, Covered values result := by
  induction results generalizing start with
  | nil =>
    simp only [joinFrom] at joined
    split at joined
    · cases joined
    · obtain rfl := AbstractValue.finite.inj joined
      exact ⟨fun _ => id, nofun⟩
  | cons result rest ih =>
    cases result with
    | scalar new =>
      obtain ⟨kept, others⟩ := ih joined
      refine ⟨fun value among => kept value (mem_push_new.mpr (.inl among)), ?_⟩
      exact List.forall_mem_cons.mpr ⟨kept new (mem_push_new.mpr (.inr rfl)), others⟩
    | finite more =>
      obtain ⟨kept, others⟩ := ih joined
      refine ⟨fun value among => kept value (mem_foldl_push_new.mpr (.inl among)), ?_⟩
      refine List.forall_mem_cons.mpr ⟨fun value among => ?_, others⟩
      exact kept value (mem_foldl_push_new.mpr (.inr among))
    | unknown => cases joined
    | dynamic => cases joined
    | overBudget => cases joined

theorem join_from_not_scalar (budget : EvaluationBudget) (start : List ScalarValue)
    (results : List AbstractValue) (value : ScalarValue) :
    joinFrom budget start results ≠ .scalar value := by
  induction results generalizing start with
  | nil => simp only [joinFrom]; split <;> exact nofun
  | cons result rest ih =>
    cases result with
    | scalar new => exact ih _
    | finite more => exact ih _
    | unknown => exact nofun
    | dynamic => exact nofun
    | overBudget => exact nofun

theorem covered_faithful {expr : Expr} (faithful : Faithful perl env expr result)
    (covered : Covered values result) : (Known perl env expr ∨ Alternatives perl env expr) ∧
      ∀ p, perl.value env expr = some p → ∃ v ∈ values, Reads p v := by
  cases result with
  | scalar value =>
    obtain ⟨known, p, is, reads⟩ := faithful
    refine ⟨.inl known, fun q again => ?_⟩
    obtain rfl : p = q := Option.some.inj (is.symm.trans again)
    exact ⟨value, covered, reads⟩
  | finite more =>
    refine ⟨.inr faithful.1, fun p is => ?_⟩
    obtain ⟨v, among, reads⟩ := faithful.2 p is
    exact ⟨v, covered v among, reads⟩
  | unknown | dynamic | overBudget => exact covered.elim

/-- The values of both branches, when nothing is known of the condition. -/
theorem join_faithful (budget : EvaluationBudget) {condition thenExpr elseExpr : Expr}
    {thenValue elseValue : AbstractValue} (unknown : ¬ Known perl env condition)
    (fromThen : Faithful perl env thenExpr thenValue) (fromElse : Faithful perl env elseExpr elseValue) :
    Faithful perl env (.ternary condition thenExpr elseExpr) (join budget thenValue elseValue) := by
  have undecided : ¬ Known perl env (.ternary condition thenExpr elseExpr) := fun known => unknown known.1
  cases joined : join budget thenValue elseValue with
  | scalar value => exact absurd joined (join_from_not_scalar _ _ _ _)
  | unknown | dynamic => exact undecided
  | overBudget => trivial
  | finite values =>
    have covers := (join_from_covers budget joined).2
    obtain ⟨thenOut, thenIn⟩ := covered_faithful fromThen (covers thenValue (by simp))
    obtain ⟨elseOut, elseIn⟩ := covered_faithful fromElse (covers elseValue (by simp))
    refine ⟨.inl ⟨unknown, thenOut, elseOut⟩, fun p is => ?_⟩
    obtain ⟨held, -, chosen⟩ := Option.bind_eq_some_iff.mp is
    split at chosen
    · exact thenIn p chosen
    · exact elseIn p chosen

theorem chosen_faithful {condition thenExpr elseExpr chosen : Expr} {a : Scalar Outside}
    (known : Known perl env condition) (held : perl.value env condition = some a)
    (branch : chosen = if perl.truthOf a then thenExpr else elseExpr)
    (fromChosen : Faithful perl env chosen result) :
    Faithful perl env (.ternary condition thenExpr elseExpr) result := by
  have value : perl.value env (.ternary condition thenExpr elseExpr) = perl.value env chosen := by
    rw [branch, Perl.value, held, Option.bind_some]
    split <;> rfl
  have knows : Known perl env (.ternary condition thenExpr elseExpr) ↔ Known perl env chosen := by
    rw [branch]
    constructor
    · rintro ⟨-, b, again, branchKnown⟩
      split at branchKnown <;> simp_all
    · intro branchKnown
      refine ⟨known, a, held, ?_⟩
      split at branchKnown <;> simp_all
  have alternates : Alternatives perl env chosen →
      Alternatives perl env (.ternary condition thenExpr elseExpr) := by
    intro alternatives
    refine .inr ⟨known, a, held, ?_⟩
    rw [branch] at alternatives
    split at alternatives <;> simp_all
  cases result with
  | scalar v => exact ⟨knows.mpr fromChosen.1, value.symm ▸ fromChosen.2⟩
  | finite values => exact ⟨alternates fromChosen.1, value.symm ▸ fromChosen.2⟩
  | unknown | dynamic => exact fun whole => fromChosen (knows.mp whole)
  | overBudget => trivial

theorem eval_faithful (budget : EvaluationBudget) (expr : Expr) (depth : Nat)
    (conforms : Conforms perl env expr) : Faithful perl env expr (eval budget depth (node expr)) := by
  induction expr generalizing depth with
  | integer literal =>
    simp only [node, eval, parse_integer_literal]
    split
    · trivial
    by_cases fits : FitsI128 literal.value
    · rw [checked_some.mpr ⟨fits, rfl⟩]
      exact ⟨fits, _, rfl, .same (.integer literal.value) fits⟩
    · rw [checked_none.mpr fits]
      exact fits
  | quoted body =>
    simp only [node, eval, decode_quoted, Bool.false_eq_true, if_false, orUnknown, Option.elim_some]
    split
    · trivial
    · split
      · trivial
      · exact ⟨trivial, _, rfl, .same (.string _) trivial⟩
  | undef =>
    simp only [node, eval]
    split
    · trivial
    · exact ⟨trivial, _, rfl, .same .undef trivial⟩
  | «variable» name =>
    simp only [node, eval]
    split
    · trivial
    · exact id
  | binary op left right ihLeft ihRight =>
    simp only [node, eval]
    split
    · trivial
    · exact eval_binary_faithful budget conforms (ihLeft _ conforms.1) (ihRight _ conforms.2.1)
  | unary op operand ih =>
    simp only [node, eval]
    split
    · trivial
    · exact eval_unary_faithful conforms (ih _ conforms.1)
  | ternary condition thenExpr elseExpr ih ihThen ihElse =>
    obtain ⟨first, undecided, decided⟩ := conforms
    have fromCondition := ih (depth + 1) first
    simp only [node, eval]
    split
    · trivial
    split
    · next v found =>
        rw [found] at fromCondition
        obtain ⟨known, a, held, reads⟩ := fromCondition
        have branch := decided a known held
        rw [← reads_truth perl reads]
        refine chosen_faithful known held rfl ?_
        split
        · next truth => exact ihThen _ (by rwa [if_pos truth] at branch)
        · next truth => exact ihElse _ (by rwa [if_neg truth] at branch)
    · trivial
    · next found =>
        rw [found] at fromCondition
        exact fun known => fromCondition known.1
    · next found =>
        rw [found] at fromCondition
        obtain ⟨thenConforms, elseConforms⟩ := undecided fromCondition
        exact join_faithful budget fromCondition (ihThen _ thenConforms) (ihElse _ elseConforms)
    · next found =>
        rw [found] at fromCondition
        exact fun known => alternatives_not_known _ fromCondition.1 known.1

variable (perl env) in
/-- The result stands for Perl's value: a scalar has its string form, number and truth, and among a
finite set one has. -/
def Sound (expr : Expr) (result : AbstractValue) : Prop :=
  (∀ v, result = .scalar v → ∃ p, perl.value env expr = some p ∧ perl.Alike p v.perl) ∧
    ∀ values, result = .finite values → ∀ p, perl.value env expr = some p →
      ∃ v ∈ values, perl.Alike p v.perl

theorem reads_alike {p : Scalar Outside} {value : ScalarValue} (reads : Reads p value) :
    perl.Alike p value.perl ↔ p ≠ .no := by
  cases reads with
  | same value fits =>
    refine iff_of_true (perl.alike_refl _) ?_
    cases value <;> exact nofun
  | no => exact iff_of_false (fun alike => nomatch alike.text) (fun other => other rfl)

theorem faithful_sound {expr : Expr} (faithful : Faithful perl env expr result)
    (shown : Known perl env expr ∨ Alternatives perl env expr → perl.value env expr ≠ some .no) :
    Sound perl env expr result := by
  constructor
  · rintro v rfl
    obtain ⟨known, p, is, reads⟩ := faithful
    exact ⟨p, is, (reads_alike reads).mpr fun no => shown (.inl known) (no ▸ is)⟩
  · rintro values rfl p is
    obtain ⟨v, among, reads⟩ := faithful.2 p is
    exact ⟨v, among, (reads_alike reads).mpr fun no => shown (.inr faithful.1) (no ▸ is)⟩

end Reference

/-- Where no false value is read as text and no sign or negation stands before an undecided
conditional, the evaluator is sound, but for a result that is itself such a false value; for a
scalar result that exception is exact. -/
theorem evaluate_sound (perl : Perl Outside) (env : String → Scalar Outside)
    (budget : EvaluationBudget) (expr : Expr) (tree : Node)
    (parsed : tree = node expr ∨ tree = .expressionStatement (node expr))
    (conforms : Conforms perl env expr) :
    ((Known perl env expr ∨ Alternatives perl env expr → perl.value env expr ≠ some .no) →
      Sound perl env expr (evaluateWithBudget budget tree)) ∧
    ∀ v, evaluateWithBudget budget tree = .scalar v →
      (Sound perl env expr (.scalar v) ↔ perl.value env expr ≠ some .no) := by
  have faithful : Faithful perl env expr (evaluateWithBudget budget tree) := by
    rcases parsed with rfl | rfl
    · exact eval_faithful budget expr 0 conforms
    simp only [evaluateWithBudget, eval]
    split
    · trivial
    · exact eval_faithful budget expr 1 conforms
  refine ⟨faithful_sound faithful, fun v result => ?_⟩
  rw [result] at faithful
  constructor
  · intro sound no
    obtain ⟨p, is, alike⟩ := sound.1 v rfl
    obtain ⟨-, q, again, reads⟩ := faithful
    obtain rfl : p = q := Option.some.inj (is.symm.trans again)
    exact (reads_alike reads).mp alike (Option.some.inj (is.symm.trans no))
  · exact fun other => faithful_sound faithful fun _ => other

/-- Nothing of the samples lies beyond integers and plain strings. -/
def samplePerl : Perl Unit where
  text _ := []
  number _ := .int 0
  truth _ := true
  numify _ := .int 0
  fraction _ _ := ()
  arithmetic _ _ _ := none
  equal _ _ := false
  minus value := value

def sampleLiteral (digit : Char) (valid : (toDigit 10 digit).isSome = true)
    (bare : digit ≠ '_') (nonzero : digit ≠ '0') : Expr :=
  .integer {
    style := .decimal
    digits := [digit]
    valid := fun _ among _ => List.mem_singleton.mp among ▸ valid
    someDigit := ⟨digit, List.mem_singleton_self digit, bare⟩
    decimalStart := fun _ => .inr ⟨digit, [], rfl, bare, nonzero⟩ }

/-- `$x ? 1 + 2 : 'b'` -/
def sampleChoice : Expr :=
  .ternary (.variable "x")
    (.binary (.arithmetic .add) (sampleLiteral '1' (by decide) (by decide) (by decide))
      (sampleLiteral '2' (by decide) (by decide) (by decide)))
    (.quoted [.plain 'b' (by decide)])

theorem evaluate_sound_choice :
    evaluate (node sampleChoice) = .finite [.integer 3, .string ['b']] ∧
    Sound samplePerl (fun _ => .undef) sampleChoice (evaluate (node sampleChoice)) := by
  have conforms : Conforms samplePerl (fun _ => .undef) sampleChoice :=
    ⟨trivial, fun _ => ⟨⟨trivial, trivial, nofun⟩, trivial⟩, fun _ known => known.elim⟩
  refine ⟨by decide, (evaluate_sound samplePerl (fun _ => .undef) {} sampleChoice _ (.inl rfl)
    conforms).1 fun _ no => ?_⟩
  cases no

/-- `(1 == 2) . 'x'`, and `-($x ? 1 : 2)` -/
def sampleText : Expr :=
  .binary .concat
    (.binary .numericEqual (sampleLiteral '1' (by decide) (by decide) (by decide))
      (sampleLiteral '2' (by decide) (by decide) (by decide)))
    (.quoted [.plain 'x' (by decide)])

def sampleSign : Expr :=
  .unary .minus (.ternary (.variable "x") (sampleLiteral '1' (by decide) (by decide) (by decide))
    (sampleLiteral '2' (by decide) (by decide) (by decide)))

theorem false_read_as_text :
    ¬ (∀ (perl : Perl Unit) env, Sound perl env sampleText (evaluate (node sampleText))) ∧
    ¬ (∀ (perl : Perl Unit) env, Sound perl env sampleSign (evaluate (node sampleSign))) := by
  constructor
  · intro every
    have folded : evaluate (node sampleText) = .scalar (.string ['0', 'x']) := by decide
    obtain ⟨p, is, alike⟩ := (every samplePerl fun _ => .undef).1 _ folded
    obtain rfl : Scalar.string ['x'] = p := Option.some.inj is
    exact absurd alike.text (by decide)
  · intro every
    have folded : evaluate (node sampleSign) = .finite [.integer 1, .integer 2] := by decide
    obtain ⟨v, among, alike⟩ := (every samplePerl fun _ => .undef).2 _ folded (.integer (-2)) rfl
    have text := alike.text
    rcases List.mem_pair.mp among with rfl | rfl
    · exact absurd text (by decide)
    · exact absurd text (by decide)

end PerlLsp.ValueAnalysis
