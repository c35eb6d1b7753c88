import PerlLsp.SafeEval

/-! Calls in printed expressions before the two admission checks. A called name is let pass where the
text before it looks like a quotation or like a sigil: behind an apostrophe of a double-quoted string,
and behind the operators `*` and `%`. -/
namespace PerlLsp.SafeEval.Calls
open Text List

section Expressions

inductive Operator where
  | add
  | subtract
  | multiply
  | divide
  | modulo
  | concat
  | comma

def Operator.char : Operator → Char
  | .add => '+'
  | .subtract => '-'
  | .multiply => '*'
  | .divide => '/'
  | .modulo => '%'
  | .concat => '.'
  | .comma => ','

def isClosed : Bool → List Char → Bool
  | escaped, [] => !escaped
  | true, _ :: rest => isClosed false rest
  | false, scalar :: rest =>
      if scalar = '\\' then isClosed true rest else scalar != '\'' && isClosed false rest

structure SingleBody where
  text : List Char
  closed : isClosed false text = true

structure DoubleBody where
  text : List Char
  plain : ∀ scalar ∈ text, scalar ∉ ['"', '\\', '$', '@']

inductive Expression where
  | scalar (name : Identifier)
  | literal (value : Literal)
  | single (body : SingleBody)
  | double (body : DoubleBody)
  | binary (left : Expression) (gap : Nat) (op : Operator) (space : Nat) (right : Expression)
  | group (gap : Nat) (inside : Expression) (space : Nat)
  | callEmpty (name : Identifier) (gap space : Nat)
  | call (name : Identifier) (gap space : Nat) (arguments : Expression) (trailing : Nat)

def Expression.print : Expression → List Char
  | .scalar name => '$' :: name.text
  | .literal value => value.text
  | .single body => '\'' :: body.text ++ ['\'']
  | .double body => '"' :: body.text ++ ['"']
  | .binary left gap op space right =>
      left.print ++ spaces gap ++ [op.char] ++ spaces space ++ right.print
  | .group gap inside space => ['('] ++ spaces gap ++ (inside.print ++ spaces space ++ [')'])
  | .callEmpty name gap space => name.text ++ spaces gap ++ ['('] ++ spaces space ++ [')']
  | .call name gap space arguments trailing =>
      name.text ++ spaces gap ++ ['('] ++ spaces space ++
        (arguments.print ++ spaces trailing ++ [')'])

def Expression.hasDouble : Expression → Bool
  | .double _ => true
  | .binary left _ _ _ right => left.hasDouble || right.hasDouble
  | .group _ inside _ => inside.hasDouble
  | .call _ _ _ arguments _ => arguments.hasDouble
  | _ => false

structure Call where
  before : List Char
  name : List Char
  deriving DecidableEq

def Expression.calls (before : List Char) : Expression → List Call
  | .binary left gap op space right =>
      left.calls before ++
        right.calls (before ++ (left.print ++ spaces gap ++ [op.char] ++ spaces space))
  | .group gap inside _ => inside.calls (before ++ (['('] ++ spaces gap))
  | .callEmpty name _ _ => [⟨before, name.text⟩]
  | .call name gap space arguments _ =>
      ⟨before, name.text⟩ ::
        arguments.calls (before ++ (name.text ++ spaces gap ++ ['('] ++ spaces space))
  | _ => []

def Call.isShielded (call : Call) : Bool :=
  isInSingleQuotes call.before || call.before.getLast?.any ['*', '%'].contains

end Expressions

open Expression

section Context

/-- A text behind which an operand may be printed. -/
structure Ready (before : List Char) : Prop where
  calm : Calm before
  inner : Calm before.dropLast
  mark : ∀ scalar, before.getLast? = some scalar → scalar ∈ " +-*/%.,(".toList

theorem ready_nil : Ready [] := ⟨calm_nil, calm_nil, by simp⟩

variable {before : List Char}

theorem ready_mark (calm : Calm before) {scalar : Char}
    (mark : scalar ∈ " +-*/%.,(".toList) : Ready (before ++ [scalar]) := by
  have plain : " +-*/%.,(".toList.all (fun mark => !(['&', '>', '\x7b'].contains mark)) = true := by
    decide
  refine ⟨calm_append calm fun other only => ?_, by simpa using calm, fun other last => ?_⟩
  · obtain rfl := mem_singleton.mp only
    simpa using all_eq_true.mp plain other mark
  · have same : scalar = other := by simpa using last
    exact same ▸ mark

theorem ready_spaces (ready : Ready before) (count : Nat) : Ready (before ++ spaces count) := by
  induction count with
  | zero => simpa [spaces] using ready
  | succ count ih =>
    rw [spaces, replicate_succ', ← append_assoc]
    exact ready_mark ih.calm (by decide)

theorem ready_behind {front : List Char} (calm : Calm (before ++ front)) {scalar : Char}
    (mark : scalar ∈ " +-*/%.,(".toList) (count : Nat) :
    Ready (before ++ (front ++ [scalar] ++ spaces count)) := by
  simpa using ready_spaces (ready_mark calm mark) count

theorem spaces_calm (calm : Calm before) (count : Nat) : Calm (before ++ spaces count) :=
  calm_append calm fun scalar member => by
    rw [(mem_replicate.mp member).2]
    decide

theorem segments_calm {text : List Char} (calm : Calm before)
    (all : ∀ scalar ∈ text, isSegment scalar = true) : Calm (before ++ text) :=
  calm_append calm fun scalar member strange => by
    simp only [mem_cons, not_mem_nil, or_false] at strange
    rcases strange with rfl | rfl | rfl <;> exact absurd (all _ member) (by decide)

theorem operator_mark (op : Operator) : op.char ∈ " +-*/%.,(".toList := by
  cases op <;> decide

theorem closed_calm (before front : List Char) {scalar : Char} (close : scalar ∈ ['\'', '"', ')']) :
    Calm (before ++ (front ++ [scalar])) := by
  rw [← append_assoc]
  simp only [mem_cons, not_mem_nil, or_false] at close
  rcases close with rfl | rfl | rfl <;> exact calm_last _ rfl (by decide)

theorem print_calm {expression : Expression} {before : List Char} (calm : Calm before) :
    Calm (before ++ expression.print) := by
  induction expression generalizing before with
  | scalar name =>
    rw [print, ← singleton_append, ← append_assoc]
    exact segments_calm (calm_last _ rfl (by decide)) name.segment
  | literal value => exact segments_calm calm (literal_segment value)
  | single body => exact closed_calm before ('\'' :: body.text) (by simp)
  | double body => exact closed_calm before ('"' :: body.text) (by simp)
  | binary left gap op space right leftIh rightIh =>
    have front := spaces_calm (leftIh calm) gap
    rw [append_assoc] at front
    have whole := rightIh (ready_behind front (operator_mark op) space).calm
    rwa [append_assoc] at whole
  | group gap inside space =>
    simpa [print] using closed_calm before (['('] ++ spaces gap ++ (inside.print ++ spaces space)) (by simp)
  | callEmpty name gap space =>
    exact closed_calm before (name.text ++ spaces gap ++ ['('] ++ spaces space) (by simp)
  | call name gap space arguments trailing =>
    simpa [print] using closed_calm before
      (name.text ++ spaces gap ++ ['('] ++ spaces space ++ (arguments.print ++ spaces trailing))
      (by simp)

theorem binary_ready {left : Expression} {before : List Char} (ready : Ready before) (gap : Nat)
    (op : Operator) (space : Nat) :
    Ready (before ++ (left.print ++ spaces gap ++ [op.char] ++ spaces space)) := by
  have front := spaces_calm (@print_calm left before ready.calm) gap
  rw [append_assoc] at front
  exact ready_behind front (operator_mark op) space

theorem group_ready {before : List Char} (ready : Ready before) (gap : Nat) :
    Ready (before ++ (['('] ++ spaces gap)) :=
  @ready_behind before [] (by simpa using ready.calm) '(' (by decide) gap

theorem call_ready {before : List Char} (ready : Ready before) (name : Identifier) (gap space : Nat) :
    Ready (before ++ (name.text ++ spaces gap ++ ['('] ++ spaces space)) := by
  have front := spaces_calm (segments_calm ready.calm name.segment) gap
  rw [append_assoc] at front
  exact ready_behind front (by decide) space

end Context

section Words
variable (words : WordClass)
variable {before : List Char}

theorem ready_outside (ready : Ready before) : before.getLast?.any words.isWord = false := by
  have marks : " +-*/%.,(".toList.all isMark = true := by decide
  cases last : before.getLast? with
  | none => rfl
  | some scalar =>
    exact words.mark (all_eq_true.mp marks scalar (ready.mark scalar last))

theorem runs_called (ready : Ready before) (name : Identifier) (gap : Nat) (after : List Char) :
    runs words.isWord before name.text (spaces gap ++ '(' :: after) =
      [⟨before, name.text, spaces gap ++ '(' :: after⟩] := by
  have apart : words.isWord '(' = false ∧ words.isWord ' ' = false :=
    ⟨words.mark rfl, words.mark rfl⟩
  have ends : (spaces gap ++ '(' :: after).takeWhile words.isWord = [] ∧
      (spaces gap ++ '(' :: after).dropWhile words.isWord = spaces gap ++ '(' :: after := by
    cases gap <;> simp [spaces, replicate_succ, apart]
  rw [runs_block before name.text _ name.filled (ready_outside words ready)
    fun scalar member => words.segment (name.segment scalar member), ends.1, ends.2, append_nil]

theorem runs_within {front text back after whole : List Char} {found : Occurrence}
    (split : whole = front ++ (text ++ back))
    (member : found ∈ runs words.isWord (before ++ front) text (back ++ after)) :
    found ∈ runs words.isWord before whole after := by
  rw [split, runs_append, runs_append]
  exact mem_append_right _ (mem_append_left _ member)

theorem called_within {whole : List Char} (ready : Ready before) (name : Identifier) (gap : Nat)
    (back after : List Char) (split : whole = name.text ++ (spaces gap ++ '(' :: back)) :
    ∃ rest, ⟨before, name.text, rest⟩ ∈ runs words.isWord before whole after := by
  rw [split, runs_append, append_assoc, cons_append, runs_called words ready]
  exact ⟨_, .head _⟩

/-- A called name is a word of the printed expression. -/
theorem call_found {expression : Expression} {before : List Char} (ready : Ready before)
    (after : List Char) {call : Call} (member : call ∈ expression.calls before) : Ready call.before ∧
      ∃ rest, ⟨call.before, call.name, rest⟩ ∈ runs words.isWord before expression.print after := by
  induction expression generalizing before after with
  | scalar | literal | single | double => cases member
  | binary left gap op space right leftIh rightIh =>
    rcases mem_append.mp member with inLeft | inRight
    · obtain ⟨stands, rest, found⟩ :=
        leftIh ready (spaces gap ++ [op.char] ++ spaces space ++ right.print ++ after) inLeft
      refine ⟨stands, rest, ?_⟩
      simp only [print, runs_append, append_assoc] at found ⊢
      simp only [mem_append, found, true_or]
    · obtain ⟨stands, rest, found⟩ := rightIh (binary_ready ready gap op space) after inRight
      refine ⟨stands, rest, ?_⟩
      rw [print, runs_append]
      exact mem_append_right _ found
  | group gap inside space ih =>
    obtain ⟨stands, rest, found⟩ :=
      ih (group_ready ready gap) (spaces space ++ [')'] ++ after) member
    exact ⟨stands, rest, runs_within words (by simp [print]) found⟩
  | callEmpty name gap space =>
    obtain rfl := mem_singleton.mp member
    exact ⟨ready, called_within words ready name gap (spaces space ++ [')']) after (by simp [print])⟩
  | call name gap space arguments trailing ih =>
    rcases mem_cons.mp member with rfl | inside
    · exact ⟨ready, called_within words ready name gap
        (spaces space ++ (arguments.print ++ spaces trailing ++ [')'])) after
        (by simp [print])⟩
    · obtain ⟨stands, rest, found⟩ :=
        ih (call_ready ready name gap space) (spaces trailing ++ [')'] ++ after) inside
      exact ⟨stands, rest, runs_within words (by simp [print]) found⟩

/-- Of the four exemptions the quotation and the sigil can cover a called name. -/
theorem call_exempt {call : Call} (ready : Ready call.before) (coreQualified : List Char → Bool)
    (rest : List Char) : isExempt coreQualified ⟨call.before, call.name, rest⟩ = call.isShielded := by
  have unbraced : isSimpleBracedScalarVar call.before rest = false := by
    rw [isSimpleBracedScalarVar]
    split
    · rename_i inside read
      exact (ready.calm '\x7b' (by simp [read]) (by simp)).elim
    · rfl
  have unqualified : isPackageQualifiedNotCore coreQualified call.before = false := by
    have bare : "::".toList.isSuffixOf call.before = false := by
      rw [← Bool.not_eq_true, isSuffixOf_iff_suffix]
      rintro ⟨front, ends⟩
      exact absurd (ready.mark ':' (by simp [← ends])) (by decide)
    simp only [isPackageQualifiedNotCore, bare, Bool.false_and]
  have sigil : isSigilPrefixedIdentifier call.before = call.before.getLast?.any ['*', '%'].contains := by
    have same : " +-*/%.,(".toList.all (fun mark => isSigil mark == ['*', '%'].contains mark) =
      true := by decide
    rcases eq_nil_or_concat call.before with empty | ⟨front, scalar, shape⟩
    · simp [empty, isSigilPrefixedIdentifier]
    have calm : Calm front := by simpa [shape] using ready.inner
    have mark := all_eq_true.mp same scalar (ready.mark scalar (by simp [shape]))
    rw [shape]
    by_cases isSigil : isSigil scalar = true
    · simpa [calm_sigil calm isSigil, isSigil] using mark
    · simpa [isSigilPrefixedIdentifier, isSigil] using mark
  simp only [isExempt, unbraced, unqualified, sigil, Bool.or_false, Call.isShielded]

end Words

section Quotations

theorem closed_inside {escaped : Bool} {gap rest : List Char}
    (closed : isClosed escaped (gap ++ rest) = true) :
    ∃ state, gap.foldl Quotes.step ⟨true, escaped⟩ = ⟨true, state⟩ ∧ isClosed state rest = true := by
  induction gap generalizing escaped with
  | nil => exact ⟨escaped, rfl, closed⟩
  | cons scalar gap ih =>
    cases escaped with
    | true => exact ih closed
    | false =>
      simp only [cons_append, isClosed] at closed
      split at closed
      · rename_i backslash
        simpa [Quotes.step, backslash] using ih closed
      rename_i plain
      obtain ⟨apart, closed⟩ := Bool.and_eq_true_iff.mp closed
      have apart : scalar ≠ '\'' := by simpa using apart
      simpa [Quotes.step, plain, apart] using ih closed

def Outside (before : List Char) : Prop := quotesAfter before = ⟨false, false⟩

theorem outside_append {before : List Char} (outside : Outside before) (text : List Char)
    (plain : '\'' ∉ text) : Outside (before ++ text) := by
  rw [Outside, quotesAfter, foldl_append]
  exact (congrArg (text.foldl Quotes.step) outside).trans (quotes_outside plain)

theorem segments_unquoted {text : List Char} (all : ∀ scalar ∈ text, isSegment scalar = true) :
    '\'' ∉ text := fun inside => absurd (all _ inside) (by decide)

theorem spaces_unquoted (count : Nat) : '\'' ∉ spaces count := by
  simp [spaces]

theorem operator_unquoted (op : Operator) : '\'' ≠ op.char := by
  cases op <;> decide

theorem single_outside {before : List Char} (outside : Outside before) (body : SingleBody) :
    Outside (before ++ (single body).print) := by
  obtain ⟨state, inside, closed⟩ :=
    @closed_inside false body.text [] (by simpa using body.closed)
  obtain rfl : state = false := by simpa [isClosed] using closed
  rw [Outside, quotesAfter]
  simp only [print, foldl_cons, foldl_append, foldl_nil]
  rw [show List.foldl Quotes.step ⟨false, false⟩ before = ⟨false, false⟩ from outside]
  simp [Quotes.step, inside]

theorem print_outside {expression : Expression} {before : List Char} (outside : Outside before)
    (undoubled : expression.hasDouble = false) : Outside (before ++ expression.print) := by
  induction expression generalizing before with
  | scalar name =>
    exact outside_append outside _ (by simp [print, segments_unquoted name.segment])
  | literal value => exact outside_append outside _ (segments_unquoted (literal_segment value))
  | single body => exact single_outside outside body
  | double body => cases undoubled
  | binary left gap op space right leftIh rightIh =>
    obtain ⟨inLeft, inRight⟩ := Bool.or_eq_false_iff.mp undoubled
    have front := outside_append (leftIh outside inLeft) (spaces gap ++ [op.char] ++ spaces space)
      (by simp [spaces_unquoted, operator_unquoted])
    simpa [print] using rightIh front inRight
  | group gap inside space ih =>
    have front := outside_append outside (['('] ++ spaces gap) (by simp [spaces_unquoted])
    have behind := outside_append (ih front undoubled) (spaces space ++ [')']) (by simp [spaces_unquoted])
    simpa [print] using behind
  | callEmpty name gap space =>
    exact outside_append outside _ (by simp [print, spaces_unquoted, segments_unquoted name.segment])
  | call name gap space arguments trailing ih =>
    have front := outside_append outside (name.text ++ spaces gap ++ ['('] ++ spaces space)
      (by simp [spaces_unquoted, segments_unquoted name.segment])
    have behind := outside_append (ih front undoubled) (spaces trailing ++ [')']) (by simp [spaces_unquoted])
    simpa [print] using behind

/-- A word in a single-quoted string is counted as quoted. -/
theorem single_words (words : WordClass) {before after : List Char} (outside : Outside before)
    {body : SingleBody} {found : Occurrence}
    (member : found ∈ runs words.isWord before (single body).print after) :
    isInSingleQuotes found.before = true := by
  obtain ⟨gap, rest, split, filled, stands, text, -, nonempty⟩ := mem_runs member
  cases gap with
  | nil =>
    have first : rest = '\'' :: (body.text ++ ['\'']) := by simpa [print] using split.symm
    have mark : words.isWord '\'' = false := words.mark rfl
    exact (nonempty (by simp [text, first, mark])).elim
  | cons scalar gap =>
    obtain ⟨rfl, tail⟩ := List.cons.inj split
    obtain ⟨inner, last, rfl⟩ : ∃ inner last, rest = inner ++ [last] :=
      ⟨_, _, (dropLast_append_getLast filled).symm⟩
    have ends : body.text ++ ['\''] = (gap ++ inner) ++ [last] := by simpa using tail
    obtain ⟨same, -⟩ := append_inj' ends rfl
    obtain ⟨state, inside, -⟩ := closed_inside (same ▸ body.closed)
    have opened : found.before.foldl Quotes.step ⟨false, false⟩ = ⟨true, state⟩ := by
      rw [stands, foldl_append,
        show before.foldl Quotes.step ⟨false, false⟩ = ⟨false, false⟩ from outside]
      simpa [Quotes.step] using inside
    rw [isInSingleQuotes, quotesAfter, opened]

/-- Without double-quoted strings every word is a called name, begins with a digit, or is exempt. -/
theorem words_exempt (words : WordClass) {expression : Expression} {before after : List Char}
    (ready : Ready before) (outside : Outside before) (undoubled : expression.hasDouble = false)
    {found : Occurrence} (member : found ∈ runs words.isWord before expression.print after) :
    ⟨found.before, found.text⟩ ∈ expression.calls before ∨ found.text.head?.any Char.isDigit = true ∨
      (isInSingleQuotes found.before || isSigilPrefixedIdentifier found.before) = true := by
  have opens : ∀ front back, runs words.isWord front ['('] back = [] := fun front back =>
    runs_marks words front back (all_eq_true.mp rfl)
  have closes : ∀ front back, runs words.isWord front [')'] back = [] := fun front back =>
    runs_marks words front back (all_eq_true.mp rfl)
  induction expression generalizing before after with
  | scalar name =>
    rw [print, runs_name words rfl, mem_singleton] at member
    have exempt := @calm_sigil before '$' ready.calm rfl
    exact .inr (.inr (by simp [member, exempt]))
  | literal value =>
    refine .inr (.inl ?_)
    simp [literal_words words member, value.digit]
  | single body => exact .inr (.inr (by simp [single_words words outside member]))
  | double body => cases undoubled
  | binary left gap op space right leftIh rightIh =>
    obtain ⟨inLeft, inRight⟩ := Bool.or_eq_false_iff.mp undoubled
    have mark : ∀ scalar ∈ [op.char], isMark scalar = true :=
      all_eq_true.mp (by cases op <;> rfl)
    have front := outside_append (print_outside outside inLeft)
      (spaces gap ++ [op.char] ++ spaces space) (by simp [spaces_unquoted, operator_unquoted])
    simp only [print, runs_append, runs_spaces, runs_marks words _ _ mark, append_nil, mem_append] at member
    rcases member with member | member
    · exact (leftIh ready outside inLeft member).imp_left (mem_append_left _)
    · exact (rightIh (binary_ready ready gap op space) (by simpa using front) inRight member).imp_left
        (mem_append_right _)
  | group gap inside space ih =>
    have front := outside_append outside (['('] ++ spaces gap) (by simp [spaces_unquoted])
    simp only [print, runs_append, runs_spaces, opens, closes, append_nil, nil_append] at member
    exact ih (group_ready ready gap) front undoubled member
  | callEmpty name gap space =>
    simp only [print, runs_append, runs_spaces, opens, closes, append_nil] at member
    change found ∈ runs words.isWord before name.text (spaces gap ++ '(' :: _) at member
    rw [runs_called words ready, mem_singleton] at member
    exact .inl (by simp [member, calls])
  | call name gap space arguments trailing ih =>
    have front := outside_append outside (name.text ++ spaces gap ++ ['('] ++ spaces space)
      (by simp [spaces_unquoted, segments_unquoted name.segment])
    simp only [print, runs_append, runs_spaces, opens, closes, append_nil, mem_append] at member
    rcases member with member | member
    · change found ∈ runs words.isWord before name.text (spaces gap ++ '(' :: _) at member
      rw [runs_called words ready, mem_singleton] at member
      exact .inl (by simp [member, calls])
    · exact (ih (call_ready ready name gap space) front undoubled member).imp_left (mem_cons_of_mem _)

end Quotations

section Admission
variable (words : WordClass) (expression : Expression)

def OnlyCalls (coreQualified : List Char → Bool) (names : List String) : Prop :=
  ∀ found ∈ wordsRe words names expression.print,
    ⟨found.before, found.text⟩ ∈ expression.calls [] ∨ isExempt coreQualified found = true

structure AdapterPasses : Prop where
  unassigned : ∀ found ∈ assignmentOpsRe expression.print,
    lists assignmentOperators found.text = true → isInSingleQuotes found.before = true
  plain : derefRe expression.print = false ∧ globRe expression.print = false ∧
    (trim expression.print).head? ≠ some '<'
  names : OnlyCalls words expression isCoreQualified dangerousOps
  mutation : (regexMutationRe words expression.print).head?.filter mutates = none
  still : ¬containsIncrement expression.print ∧ '`' ∉ expression.print

structure EvaluatorPasses : Prop where
  unbroken : ('\n' ∉ expression.print ∧ '\r' ∉ expression.print) ∧ '`' ∉ expression.print
  unassigned : ∀ found ∈ assignmentOpsRe expression.print,
    ¬lists assignmentOperators found.text = true
  still : ¬containsIncrement expression.print
  names : OnlyCalls words expression Evaluator.isCoreQualified dangerousOperations
  mutation : ∀ found ∈ regexMutationRe words expression.print, ¬mutates found = true

def Harmless (names : List String) : Prop :=
  ∀ call ∈ expression.calls [], lists names call.name = false

def Guarded (names : List String) (passes : Prop) : Prop :=
  Harmless expression names ∨
    (∃ call ∈ expression.calls [], lists names call.name = true ∧ call.isShielded = false) ∨ ¬passes

variable {expression}

theorem all_exempt_iff (coreQualified : List Char → Bool) (names : List String) :
    (∀ found ∈ wordsRe words names expression.print, isExempt coreQualified found = true) ↔
      OnlyCalls words expression coreQualified names ∧
        ∀ call ∈ expression.calls [], lists names call.name = true → call.isShielded = true := by
  constructor
  · intro all
    refine ⟨fun found member => .inr (all found member), fun call member listed => ?_⟩
    obtain ⟨ready, rest, found⟩ := call_found words ready_nil [] member
    rw [← call_exempt ready coreQualified rest]
    exact all _ (mem_filter.mpr ⟨found, listed⟩)
  · rintro ⟨only, shielded⟩ found member
    rcases only found member with called | exempt
    · obtain ⟨ready, -⟩ := call_found words ready_nil [] called
      have covered := shielded _ called (mem_filter.mp member).2
      exact (call_exempt ready coreQualified found.after).trans covered
    · exact exempt

theorem adapter_admits : validateSafeExpression words expression.print = none ↔
    AdapterPasses words expression ∧
      ∀ call ∈ expression.calls [], lists dangerousOps call.name = true → call.isShielded = true := by
  rw [validate_safe_none, all_exempt_iff]
  constructor
  · rintro ⟨unassigned, deref, glob, first, ⟨names, shielded⟩, mutation, still, ticks⟩
    exact ⟨⟨unassigned, ⟨deref, glob, first⟩, names, mutation, still, ticks⟩, shielded⟩
  · rintro ⟨passes, shielded⟩
    exact ⟨passes.unassigned, passes.plain.1, passes.plain.2.1, passes.plain.2.2,
      ⟨passes.names, shielded⟩, passes.mutation, passes.still.1, passes.still.2⟩

theorem evaluator_admits : SafeEvaluator.validate words expression.print = .ok () ↔
    EvaluatorPasses words expression ∧ ∀ call ∈ expression.calls [],
      lists dangerousOperations call.name = true → call.isShielded = true := by
  rw [validate_ok, all_exempt_iff]
  constructor
  · rintro ⟨unbroken, ticks, unassigned, still, ⟨names, shielded⟩, mutation⟩
    exact ⟨⟨⟨unbroken, ticks⟩, unassigned, still, names, mutation⟩, shielded⟩
  · rintro ⟨passes, shielded⟩
    exact ⟨passes.unbroken.1, passes.unbroken.2, passes.unassigned, passes.still,
      ⟨passes.names, shielded⟩, passes.mutation⟩

theorem guarded_iff {names : List String} {admitted passes : Prop} (admits : admitted ↔ passes ∧
      ∀ call ∈ expression.calls [], lists names call.name = true → call.isShielded = true) :
    (admitted → Harmless expression names) ↔ Guarded expression names passes := by
  rw [admits]
  constructor
  · intro sound
    by_cases exposed : ∃ call ∈ expression.calls [], lists names call.name = true ∧ call.isShielded = false
    · exact .inr (.inl exposed)
    by_cases passing : passes
    · refine .inl (sound ⟨passing, fun call member listed => ?_⟩)
      by_contra bare
      exact exposed ⟨call, member, listed, by simpa using bare⟩
    · exact .inr (.inr passing)
  · rintro (harmless | ⟨call, member, listed, bare⟩ | failing) ⟨passing, shielded⟩
    · exact harmless
    · simp [shielded call member listed] at bare
    · exact (failing passing).elim

/-- Without double-quoted strings only a called name is refused as an operation. -/
theorem operation_called {coreQualified : List Char → Bool} {names : List String}
    (letters : names.all (fun name => !name.toList.head?.any Char.isDigit) = true)
    (undoubled : expression.hasDouble = false) {found : Occurrence}
    (member : found ∈ wordsRe words names expression.print) (bare : isExempt coreQualified found = false) :
    ∃ call ∈ expression.calls [], call.name = found.text := by
  obtain ⟨isWord, listed⟩ := mem_filter.mp member
  obtain ⟨name, isName, spelled⟩ : ∃ name ∈ names, name.toList = found.text := by
    simpa [lists] using listed
  rcases words_exempt words ready_nil rfl undoubled isWord with called | digit | exempt
  · exact ⟨_, called, rfl⟩
  · have letter := all_eq_true.mp letters name isName
    simp [spelled, digit] at letter
  · simp_all [isExempt]

/-- Admission is sound for calls exactly where no call is shielded or something else is refused;
variables and single-quoted strings are never taken for calls. -/
theorem calls_guarded :
    ((validateSafeExpression words expression.print = none → Harmless expression dangerousOps) ∧
      (SafeEvaluator.validate words expression.print = .ok () →
        Harmless expression dangerousOperations) ∧
      (expression.hasDouble = false → ∀ op,
        validateSafeExpression words expression.print = some (.operation op) ∨
          SafeEvaluator.validate words expression.print = .error (.dangerousOperation op) →
        ∃ call ∈ expression.calls [], call.name = op)) ↔
    Guarded expression dangerousOps (AdapterPasses words expression) ∧
      Guarded expression dangerousOperations (EvaluatorPasses words expression) := by
  rw [guarded_iff (adapter_admits words), guarded_iff (evaluator_admits words)]
  refine ⟨fun sound => ⟨sound.1, sound.2.1⟩, fun guarded => ⟨guarded.1, guarded.2, ?_⟩⟩
  rintro undoubled op (refused | refused)
  · cases refused ▸ safe_refuses with
    | operation found member bare => exact operation_called words (by decide +kernel) undoubled member bare
    | other _ apart => exact ((apart op).2 rfl).elim
  · cases refused ▸ validate_reports with
    | operation found member bare => exact operation_called words (by decide +kernel) undoubled member bare

theorem one_digit : '1'.isDigit = true := rfl

theorem single_digit : ∀ scalar ∈ ([] : List Char), isSegment scalar = true := nofun

def systemCall : Expression :=
  .call ⟨"system".toList, by simp, all_eq_true.mp rfl⟩ 0 0
    (.literal ⟨'1', [], one_digit, single_digit⟩) 0

/-- `2*system(1)` and `"'" . system(1)` -/
theorem shielded_calls_admitted : Forall (fun expression =>
    validateSafeExpression asciiWords expression.print = none ∧
      SafeEvaluator.validate asciiWords expression.print = .ok () ∧
      ∃ call ∈ expression.calls [], lists dangerousOps call.name = true ∧
        lists dangerousOperations call.name = true)
    [binary (.literal ⟨'2', [], rfl, by simp⟩) 0 .multiply 0 systemCall,
      .binary (.double ⟨['\''], by simp⟩) 1 .concat 1 systemCall] := by
  constructor
  · decide +kernel
  · decide +kernel

end Admission

end PerlLsp.SafeEval.Calls
