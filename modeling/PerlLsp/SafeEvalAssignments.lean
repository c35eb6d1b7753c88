import PerlLsp.SafeEval

/-! Assignments to a scalar variable, as they are printed, before the two admission checks. The
pattern for operators takes whole runs of operator characters: an assignment operator is found only
where nothing that follows it directly lengthens the run. -/
namespace PerlLsp.SafeEval.Assignments
open Text List

section Expressions

inductive Sigil where
  | scalar
  | array
  | hash

def Sigil.char : Sigil → Char
  | .scalar => '$'
  | .array => '@'
  | .hash => '%'

inductive UnaryOperator where
  | minus
  | plus
  | not
  | complement

def UnaryOperator.char : UnaryOperator → Char
  | .minus => '-'
  | .plus => '+'
  | .not => '!'
  | .complement => '~'

inductive ArithmeticOperator where
  | add
  | subtract
  | multiply
  | divide
  | modulo
  | power

def ArithmeticOperator.text : ArithmeticOperator → List Char
  | .add => ['+']
  | .subtract => ['-']
  | .multiply => ['*']
  | .divide => ['/']
  | .modulo => ['%']
  | .power => ['*', '*']

/-- The right side of an assignment, with the spaces that stand between its tokens. -/
inductive Arithmetic where
  | named (sigil : Sigil) (name : Identifier)
  | literal (value : Literal)
  | unary (op : UnaryOperator) (gap : Nat) (operand : Arithmetic)
  | binary (left : Arithmetic) (before : Nat) (op : ArithmeticOperator) (after : Nat)
      (right : Arithmetic)
  | group (before : Nat) (inside : Arithmetic) (after : Nat)

def Arithmetic.print : Arithmetic → List Char
  | .named sigil name => sigil.char :: name.text
  | .literal value => value.text
  | .unary op gap operand => op.char :: spaces gap ++ operand.print
  | .binary left before op after right =>
    left.print ++ spaces before ++ op.text ++ spaces after ++ right.print
  | .group before inside after => '(' :: spaces before ++ inside.print ++ spaces after ++ [')']

/-- `$name op right`, printed with so many spaces around the operator. -/
structure Statement where
  name : Identifier
  before : Nat
  op : String
  after : Nat
  right : Arithmetic

variable (statement : Statement)

def Statement.target : List Char :=
  '$' :: statement.name.text ++ spaces statement.before

def Statement.source : List Char :=
  spaces statement.after ++ statement.right.print

def Statement.print : List Char :=
  statement.target ++ statement.op.toList ++ statement.source

def otherOperators : List String :=
  ["==", "!=", "<=", ">=", "<=>", "=~", "&&", "||", "&", "|", "<<", ">>"]

end Expressions

section Characters

def isPrinted (scalar : Char) : Bool := isSegment scalar || "$@%-+!~*/() ".toList.contains scalar

theorem spaces_printed (count : Nat) : ∀ scalar ∈ spaces count, isPrinted scalar = true := by
  intro scalar member
  rw [(mem_replicate.mp member).2]
  rfl

theorem print_printed (right : Arithmetic) : ∀ scalar ∈ right.print, isPrinted scalar = true := by
  have segment : ∀ {scalar}, isSegment scalar = true → isPrinted scalar = true := by
    intro scalar segment
    simp [isPrinted, segment]
  induction right with
  | named sigil name =>
    intro scalar member
    rcases mem_cons.mp member with rfl | later
    · cases sigil <;> rfl
    · exact segment (name.segment scalar later)
  | literal value => exact fun scalar member => segment (literal_segment value scalar member)
  | unary op gap operand ih =>
    intro scalar member
    simp only [Arithmetic.print, cons_append, mem_cons, mem_append] at member
    rcases member with rfl | space | inside
    · cases op <;> rfl
    · exact spaces_printed gap scalar space
    · exact ih scalar inside
  | binary left before op after right leftIh rightIh =>
    intro scalar member
    simp only [Arithmetic.print, mem_append] at member
    rcases member with (((inLeft | space) | sign) | space) | inRight
    · exact leftIh scalar inLeft
    · exact spaces_printed before scalar space
    · cases op <;> simp only [ArithmeticOperator.text, mem_cons, not_mem_nil, or_false,
        or_self] at sign <;> subst sign <;> rfl
    · exact spaces_printed after scalar space
    · exact rightIh scalar inRight
  | group before inside after ih =>
    intro scalar member
    simp only [Arithmetic.print, cons_append, mem_cons, mem_append, not_mem_nil, or_false] at member
    rcases member with rfl | ((space | within) | space) | rfl
    · rfl
    · exact spaces_printed before scalar space
    · exact ih scalar within
    · exact spaces_printed after scalar space
    · rfl

theorem printed_calm {scalar : Char} (printed : isPrinted scalar = true) : scalar ∉ ['&', '>', '\x7b'] := by
  intro member
  simp only [mem_cons, not_mem_nil, or_false] at member
  rcases member with rfl | rfl | rfl <;> exact absurd printed (by decide)

end Characters

section Words
variable (words : WordClass)

/-- The name of a variable behind its sigil, a literal, or the operator `x`: never a listed name. -/
def Passes (found : Occurrence) : Prop :=
  found.text.head?.any (fun scalar => scalar.isDigit || scalar == 'x') = true ∨
    isSigilPrefixedIdentifier found.before = true

theorem named_passes {before after : List Char} (calm : Calm before) {sigil : Sigil}
    {name : Identifier} {found : Occurrence}
    (member : found ∈ runs words.isWord before (sigil.char :: name.text) after) : Passes found := by
  have mark : isMark sigil.char = true := by cases sigil <;> rfl
  have isSigil : isSigil sigil.char = true := by cases sigil <;> rfl
  rw [runs_name words mark, mem_singleton] at member
  rw [member]
  exact .inr (calm_sigil calm isSigil)

theorem calm_within {right : Arithmetic} {before front rest : List Char} (calm : Calm before)
    (split : right.print = front ++ rest) : Calm (before ++ front) :=
  calm_append calm fun scalar inside => printed_calm
    (print_printed right scalar (split ▸ mem_append_left rest inside))

theorem right_words {right : Arithmetic} {before after : List Char} (calm : Calm before)
    {found : Occurrence} (member : found ∈ runs words.isWord before right.print after) : Passes found := by
  induction right generalizing before after with
  | named sigil name => exact named_passes words calm member
  | literal value =>
    refine .inl ?_
    simp [literal_words words member, value.digit]
  | unary op gap operand ih =>
    have mark : ∀ scalar ∈ [op.char], isMark scalar = true :=
      all_eq_true.mp (by cases op <;> rfl)
    have print : (Arithmetic.unary op gap operand).print = [op.char] ++ spaces gap ++ operand.print :=
      rfl
    rw [print, runs_append, runs_append, runs_marks words _ _ mark, runs_spaces] at member
    exact ih (calm_within calm print) member
  | binary left gap op space right leftIh rightIh =>
    have mark : ∀ scalar ∈ op.text, isMark scalar = true :=
      all_eq_true.mp (by cases op <;> rfl)
    have print : (Arithmetic.binary left gap op space right).print =
      left.print ++ spaces gap ++ op.text ++ spaces space ++ right.print := rfl
    simp only [print, runs_append, runs_spaces, runs_marks words _ _ mark, append_nil, mem_append] at member
    rcases member with inLeft | inRight
    · exact leftIh calm inLeft
    · exact rightIh (calm_within calm print) inRight
  | group gap inside space ih =>
    have print : (Arithmetic.group gap inside space).print =
      ['('] ++ spaces gap ++ (inside.print ++ spaces space ++ [')']) := by
      simp [Arithmetic.print]
    have opens : ∀ scalar ∈ ['('], isMark scalar = true := all_eq_true.mp rfl
    have closes : ∀ scalar ∈ [')'], isMark scalar = true := all_eq_true.mp rfl
    simp only [print, runs_append, runs_spaces, runs_marks words _ _ opens,
      runs_marks words _ _ closes, append_nil] at member
    exact ih (calm_within calm print) member

end Words

section Operators
variable (op : String)

/-- The dot of `.=` and the `x` of `x=` are no operator characters to the pattern. -/
def lead : List Char := op.toList.takeWhile fun scalar => !isOperator scalar

def sign : List Char := op.toList.dropWhile fun scalar => !isOperator scalar

theorem lead_sign : lead op ++ sign op = op.toList := takeWhile_append_dropWhile

def isSign : Bool := (lead op).all ['.', 'x'].contains && sign op ≠ [] &&
  (sign op).all isOperator

def isAssignment : Bool := isSign op && lists assignmentOperators (sign op) &&
  op.toList.getLast? == some '=' && !(op.toList.contains '<' && op.toList.contains '>')

def isOther : Bool := isSign op && !lists assignmentOperators (sign op)

theorem is_assignment {op : String} (member : op ∈ assignmentOperators) : isAssignment op = true :=
  all_eq_true.mp (show assignmentOperators.all isAssignment = true by decide) op member

theorem is_other {op : String} (member : op ∈ otherOperators) : isOther op = true :=
  all_eq_true.mp (show otherOperators.all isOther = true by decide) op member

theorem listed_last {text : List Char} (listed : lists assignmentOperators text = true) :
    text.getLast? = some '=' := by
  have ends : assignmentOperators.all (fun op => op.toList.getLast? == some '=') = true := by decide
  obtain ⟨op, member, rfl⟩ : ∃ op ∈ assignmentOperators, op.toList = text := by
    simpa [lists] using listed
  simpa using all_eq_true.mp ends op member

variable {front op back : List Char}

section
variable (plain : ∀ scalar ∈ front, isOperator scalar = false) (filled : op ≠ [])
    (all : ∀ scalar ∈ op, isOperator scalar = true)
include plain filled all

/-- The runs of operator characters in a text with one operator of interest. -/
theorem operator_runs : assignmentOpsRe (front ++ op ++ back) =
      ⟨front, op ++ back.takeWhile isOperator, back.dropWhile isOperator⟩ ::
        runs isOperator (front ++ op) back [] := by
  have outside : front.getLast?.any isOperator = false := by
    cases last : front.getLast? with
    | none => rfl
    | some scalar => exact plain scalar (mem_of_getLast? last)
  rw [assignmentOpsRe, runs_append, runs_append, runs_none [] front _ plain,
    runs_block _ op _ filled (by simpa using outside) all]
  simp

/-- Only a run of its own makes the operator one of the listed ones. -/
theorem listed_iff (unassigned : '=' ∉ back) {found : Occurrence} :
    found ∈ assignmentOpsRe (front ++ op ++ back) ∧ lists assignmentOperators found.text = true ↔
      found = ⟨front, op, back⟩ ∧ lists assignmentOperators op = true ∧
        back.head?.any isOperator = false := by
  have free : ∀ {text : List Char}, (∀ scalar ∈ text, scalar ∈ back) →
      ¬lists assignmentOperators text = true := fun within listed =>
    unassigned (within '=' (mem_of_getLast? (listed_last listed)))
  have later : found ∈ runs isOperator (front ++ op) back [] →
      ¬lists assignmentOperators found.text = true := by
    intro member
    obtain ⟨gap, rest, split, -, -, text, -⟩ := mem_runs member
    refine free fun scalar inside => ?_
    rw [text, append_nil] at inside
    simp [split, (List.takeWhile_prefix isOperator).subset inside]
  rw [operator_runs plain filled all, mem_cons]
  by_cases touching : back.head?.any isOperator = true
  · obtain ⟨scalar, rest, rfl, operator⟩ :
        ∃ scalar rest, back = scalar :: rest ∧ isOperator scalar = true := by
      cases back with
      | nil => simp at touching
      | cons scalar rest => exact ⟨scalar, rest, rfl, by simpa using touching⟩
    have filledRun : (scalar :: rest).takeWhile isOperator ≠ [] := by simp [operator]
    have merged : ¬lists assignmentOperators (op ++ (scalar :: rest).takeWhile isOperator) = true := by
      intro listed
      have last := listed_last listed
      rw [getLast?_append_of_ne_nil _ filledRun] at last
      exact unassigned ((List.takeWhile_prefix isOperator).subset (mem_of_getLast? last))
    constructor
    · rintro ⟨rfl | member, listed⟩
      · exact (merged listed).elim
      · exact (later member listed).elim
    · rintro ⟨-, -, apart⟩
      simp [operator] at apart
  · have apart : back.takeWhile isOperator = [] ∧ back.dropWhile isOperator = back := by
      cases back with
      | nil => exact ⟨rfl, rfl⟩
      | cons scalar rest => simp_all
    simp only [apart, append_nil]
    constructor
    · rintro ⟨rfl | member, listed⟩
      · exact ⟨rfl, listed, by simpa using touching⟩
      · exact (later member listed).elim
    · rintro ⟨rfl, listed, -⟩
      exact ⟨.inl rfl, listed⟩

end

end Operators

section Statements
variable (words : WordClass) {statement : Statement}

def Statement.front (statement : Statement) : List Char := statement.target ++ lead statement.op

theorem print_split (statement : Statement) :
    statement.print = statement.front ++ sign statement.op ++ statement.source := by
  simp [Statement.print, Statement.front, ← lead_sign]

theorem sign_parts {op : String} (isSign : isSign op = true) :
    (∀ scalar ∈ lead op, scalar = '.' ∨ scalar = 'x') ∧ sign op ≠ [] ∧
      ∀ scalar ∈ sign op, isOperator scalar = true := by
  simpa [Assignments.isSign, and_assoc] using isSign

theorem segment_plain {scalar : Char} (segment : isSegment scalar = true) : isOperator scalar = false := by
  have apart : "!~^&|+-*/%=<>".toList.all (fun mark => !isSegment mark) = true := by decide
  by_contra nonzero
  have operator : isOperator scalar = true := by simpa using nonzero
  have outside := all_eq_true.mp apart scalar (contains_iff_mem.mp operator)
  simp [segment] at outside

theorem front_printed (isSign : isSign statement.op = true) :
    ∀ scalar ∈ statement.front, isSegment scalar = true ∨ scalar ∈ ['$', ' ', '.'] := by
  intro scalar member
  simp only [Statement.front, Statement.target, mem_append, mem_cons] at member
  rcases member with ((rfl | named) | space) | led
  · simp
  · exact .inl (statement.name.segment scalar named)
  · simp [(mem_replicate.mp space).2]
  · rcases (sign_parts isSign).1 scalar led with rfl | rfl
    · simp
    · exact .inl rfl

theorem front_plain (isSign : isSign statement.op = true) :
    ∀ scalar ∈ statement.front, isOperator scalar = false := by
  intro scalar member
  rcases front_printed isSign scalar member with segment | other
  · exact segment_plain segment
  · simp only [mem_cons, not_mem_nil, or_false] at other
    rcases other with rfl | rfl | rfl <;> decide

theorem source_printed : ∀ scalar ∈ statement.source, isPrinted scalar = true := by
  intro scalar member
  rcases mem_append.mp member with space | inside
  · exact spaces_printed statement.after scalar space
  · exact print_printed statement.right scalar inside

section
variable (isSign : isSign statement.op = true)
include isSign

/-- The listed operators in a printed statement: its own, where nothing touches it. -/
theorem statement_listed {found : Occurrence} :
    found ∈ assignmentOpsRe statement.print ∧ lists assignmentOperators found.text = true ↔
      found = ⟨statement.front, sign statement.op, statement.source⟩ ∧
        lists assignmentOperators (sign statement.op) = true ∧
        statement.source.head?.any isOperator = false := by
  rw [print_split]
  exact listed_iff (front_plain isSign) (sign_parts isSign).2.1 (sign_parts isSign).2.2
    fun equals => absurd (source_printed '=' equals) (by decide)

theorem foreign_character {scalar : Char}
    (foreign : isPrinted scalar = false ∧ scalar ≠ '.') (member : scalar ∈ statement.print) :
    scalar ∈ sign statement.op := by
  rw [print_split, mem_append, mem_append] at member
  rcases member with (inFront | inSign) | inSource
  · have printed : isPrinted scalar = true := by
      rcases front_printed isSign scalar inFront with segment | other
      · simp [isPrinted, segment]
      simp only [mem_cons, not_mem_nil, or_false] at other
      rcases other with rfl | rfl | rfl
      · rfl
      · rfl
      · exact (foreign.2 rfl).elim
    simp [foreign.1] at printed
  · exact inSign
  · have printed := source_printed scalar inSource
    simp [foreign.1] at printed

theorem statement_printed {scalar : Char}
    (strange : scalar ∈ ['\x7b', '`', '\n', '\r', '\'']) : scalar ∉ statement.print := by
  have shape : (isPrinted scalar = false ∧ scalar ≠ '.') ∧ isOperator scalar = false := by
    simp only [mem_cons, not_mem_nil, or_false] at strange
    rcases strange with rfl | rfl | rfl | rfl | rfl <;> decide
  intro member
  have operator := (sign_parts isSign).2.2 scalar (foreign_character isSign shape.1 member)
  simp [shape.2] at operator

theorem statement_brackets {scalar : Char}
    (bracket : scalar ∈ ['<', '>']) (member : scalar ∈ statement.print) : scalar ∈ statement.op.toList := by
  have foreign : isPrinted scalar = false ∧ scalar ≠ '.' := by
    simp only [mem_cons, not_mem_nil, or_false] at bracket
    rcases bracket with rfl | rfl <;> decide
  rw [← lead_sign]
  exact mem_append_right _ (foreign_character isSign foreign member)

end

/-- A word that begins in an operator is the operator `x`. -/
theorem operator_words {op : String} (isSign : isSign op = true) {before after : List Char}
    {found : Occurrence} (member : found ∈ runs words.isWord before op.toList after) : Passes found := by
  obtain ⟨gap, rest, split, filled, -, text, -, nonempty⟩ := mem_runs member
  obtain ⟨scalar, others, rfl⟩ := exists_cons_of_ne_nil filled
  have word : words.isWord scalar = true := by
    by_contra outside
    exact nonempty (by simp [text, outside])
  have inside : scalar ∈ lead op ++ sign op := by simp [lead_sign, split]
  have isX : scalar = 'x' := by
    rcases mem_append.mp inside with led | signed
    · rcases (sign_parts isSign).1 scalar led with rfl | rfl
      · simp [words.mark (show isMark '.' = true from rfl)] at word
      · rfl
    have marks : "!~^&|+-*/%=<>".toList.all isMark = true := by decide
    have operator := (sign_parts isSign).2.2 scalar signed
    have mark := all_eq_true.mp marks scalar (contains_iff_mem.mp operator)
    simp [words.mark mark] at word
  subst isX
  refine .inl ?_
  simp [text, word]

theorem statement_words (listed : isAssignment statement.op = true) {found : Occurrence}
    (member : found ∈ runs words.isWord [] statement.print []) : Passes found := by
  obtain ⟨⟨⟨isSign, -⟩, last⟩, -⟩ : ((isSign statement.op = true ∧ _) ∧
      statement.op.toList.getLast? = some '=') ∧ _ := by
    simpa [isAssignment] using listed
  have target : statement.target = Sigil.scalar.char :: statement.name.text ++ spaces statement.before := rfl
  simp only [Statement.print, Statement.source, target, runs_append, runs_spaces, append_nil,
    nil_append, mem_append] at member
  rcases member with (named | signed) | inside
  · exact named_passes words calm_nil named
  · exact operator_words words isSign signed
  · obtain ⟨front, shape⟩ := getLast?_eq_some_iff.mp last
    refine right_words words (calm_append ?_ ?_) inside
    · rw [shape, ← append_assoc]
      exact calm_last _ rfl (by decide)
    · intro scalar space
      rw [(mem_replicate.mp space).2]
      decide

theorem passes_exempt {names : List String}
    (letters : names.all (fun name => name.toList.head?.any fun scalar =>
      !(scalar.isDigit || scalar == 'x')) = true) {expression : List Char} {found : Occurrence}
    (member : found ∈ wordsRe words names expression) (passes : Passes found) :
    isSigilPrefixedIdentifier found.before = true := by
  obtain ⟨-, listed⟩ := mem_filter.mp member
  obtain ⟨name, isName, spelled⟩ : ∃ name ∈ names, name.toList = found.text := by
    simpa [lists] using listed
  rcases passes with marked | exempt
  · have letter := all_eq_true.mp letters name isName
    cases first : found.text.head? with
    | none => simp [first] at marked
    | some scalar =>
      simp_all
  · exact exempt

/-- Where an operator touches the assignment, only an increment refuses it. -/
theorem touching_admitted (listed : isAssignment statement.op = true)
    (touching : statement.source.head?.any isOperator = true)
    (still : ¬containsIncrement statement.print) : validateSafeExpression words statement.print = none ∧
      SafeEvaluator.validate words statement.print = .ok () := by
  obtain ⟨⟨⟨isSign, -⟩, -⟩, brackets⟩ : ((isSign statement.op = true ∧ _) ∧ _) ∧
      ('<' ∉ statement.op.toList ∨ '>' ∉ statement.op.toList) := by
    simpa [isAssignment] using listed
  have unlisted : ∀ found ∈ assignmentOpsRe statement.print,
      ¬lists assignmentOperators found.text = true := fun found member isListed => by
    have apart := ((statement_listed isSign).mp ⟨member, isListed⟩).2.2
    simp [touching] at apart
  have named : ∀ names : List String, names.all (fun name => name.toList.head?.any fun scalar =>
      !(scalar.isDigit || scalar == 'x')) = true → ∀ found ∈ wordsRe words names statement.print,
      isSigilPrefixedIdentifier found.before = true := fun names letters found member =>
    passes_exempt words letters member (statement_words words listed (mem_filter.mp member).1)
  have mutation : ∀ found ∈ regexMutationRe words statement.print, ¬mutates found = true := by
    intro found member
    obtain ⟨word, isWord, same⟩ := mem_filterMap.mp member
    have exempt := named regexMutationOps (by decide) word isWord
    split at same
    · cases same
    split at same
    · cases same
    · cases same
      simp [mutates, exempt]
  have strange : ∀ scalar ∈ ['\x7b', '`', '\n', '\r', '\''], scalar ∉ statement.print :=
    fun scalar member => statement_printed isSign member
  have brace : derefRe statement.print = false := by
    by_contra found
    exact strange '\x7b' (by simp) (deref_brace (by simpa using found))
  have glob : globRe statement.print = false := by
    by_contra found
    obtain ⟨opening, closing⟩ := glob_brackets (by simpa using found)
    rcases brackets with none | none
    · exact none (statement_brackets isSign (by simp) opening)
    · exact none (statement_brackets isSign (by simp) closing)
  have first : (trim statement.print).head? ≠ some '<' := by
    rw [show statement.print = '$' :: _ from rfl, trim_head (by decide)]
    decide
  constructor
  · refine validate_safe_none.mpr ⟨fun found member isListed => (unlisted found member isListed).elim,
      brace, glob, first, fun found member => ?_, ?_, still, strange '`' (by simp)⟩
    · simp [isExempt, named dangerousOps (by decide) found member]
    · cases head : (regexMutationRe words statement.print).head? with
      | none => rfl
      | some found => simp [mutation found (mem_of_head? head)]
  · refine validate_ok.mpr ⟨⟨strange '\n' (by simp), strange '\r' (by simp)⟩, strange '`' (by simp),
      unlisted, still, fun found member => ?_, mutation⟩
    simp [isExempt, named dangerousOperations (by decide) found member]

theorem source_touches (statement : Statement) : statement.source.head?.any isOperator = false ↔
    0 < statement.after ∨ statement.right.print.head?.any isOperator = false := by
  cases spaced : statement.after with
  | zero => simp [Statement.source, spaced, spaces]
  | succ count =>
    have space : isOperator ' ' = false := by decide
    simp [Statement.source, spaced, spaces, replicate_succ, space]

/-- An assignment is refused by both checks unless its right side starts directly behind the
operator with an operator character; other operators are never taken for one. -/
theorem assignments_refused (statement : Statement) :
    (statement.op ∈ assignmentOperators → (validateSafeExpression words statement.print ≠ none ∧
          SafeEvaluator.validate words statement.print ≠ .ok () ↔
        0 < statement.after ∨ statement.right.print.head?.any isOperator = false ∨
          containsIncrement statement.print)) ∧
    (statement.op ∈ otherOperators → ∀ op,
      validateSafeExpression words statement.print ≠ some (.assignment op) ∧
        SafeEvaluator.validate words statement.print ≠ .error (.assignmentOperator op)) := by
  constructor
  · intro member
    have listed := is_assignment member
    obtain ⟨⟨⟨isSign, isListed⟩, -⟩, -⟩ : ((isSign statement.op = true ∧
        lists assignmentOperators (sign statement.op) = true) ∧ _) ∧ _ := by
      simpa [isAssignment] using listed
    rw [← or_assoc, ← source_touches]
    constructor
    · rintro ⟨refused, -⟩
      by_contra neither
      obtain ⟨touching, still⟩ := not_or.mp neither
      exact refused (touching_admitted words listed (by simpa using touching) still).1
    · rintro (apart | increment)
      · obtain ⟨found, isFound⟩ := (statement_listed isSign).mpr ⟨rfl, isListed, apart⟩
        have unquoted : isInSingleQuotes statement.front = false := by
          have plain : '\'' ∉ statement.front := by
            intro inside
            have whole : '\'' ∈ statement.print := by simp [print_split, inside]
            exact statement_printed isSign (by simp) whole
          rw [isInSingleQuotes, quotes_outside plain]
        constructor
        · intro admitted
          have quoted := (validate_safe_none.mp admitted).1 _ found isFound
          simp [unquoted] at quoted
        · exact fun admitted => (validate_ok.mp admitted).2.2.1 _ found isFound
      · exact ⟨fun admitted => (validate_safe_none.mp admitted).2.2.2.2.2.2.1 increment,
          fun admitted => (validate_ok.mp admitted).2.2.2.1 increment⟩
  · intro member op
    obtain ⟨isSign, unlisted⟩ : isSign statement.op = true ∧
        lists assignmentOperators (sign statement.op) = false := by
      simpa [isOther] using is_other member
    have none : ¬∃ found ∈ assignmentOpsRe statement.print,
        lists assignmentOperators found.text = true := by
      rintro ⟨found, inside, isListed⟩
      have ownListed := ((statement_listed isSign).mp ⟨inside, isListed⟩).2.1
      simp [unlisted] at ownListed
    constructor
    · intro refused
      cases refused ▸ safe_refuses with
      | assignment found inside isListed => exact none ⟨found, inside, isListed⟩
      | other _ apart => exact (apart op).1 rfl
    · intro refused
      cases refused ▸ validate_reports with
      | assignment found inside isListed => exact none ⟨found, inside, isListed⟩

def one : Arithmetic := .literal ⟨'1', [], rfl, by simp⟩

/-- `$x op right`, with one space before the right side or none. -/
def sample (op : String) (after : Nat) (right : Arithmetic) : Statement :=
  ⟨⟨['x'], by simp, by simp [isSegment]⟩, after, op, after, right⟩

theorem spaced_refused :
    (validateSafeExpression asciiWords (sample "=" 1 (.unary .minus 0 one)).print ≠ none ∧
        SafeEvaluator.validate asciiWords (sample "=" 1 (.unary .minus 0 one)).print ≠ .ok ()) ∧
      validateSafeExpression asciiWords (sample "==" 1 one).print ≠ some (.assignment ['=', '=']) :=
  ⟨((assignments_refused asciiWords (sample "=" 1 (.unary .minus 0 one))).1
      (by simp [sample, assignmentOperators])).mpr (.inl (by decide)),
    ((assignments_refused asciiWords (sample "==" 1 one)).2
      (by simp [sample, otherOperators]) ['=', '=']).1⟩

/-- `$x=-1` -/
theorem touching_assignment_admitted :
    (sample "=" 0 (.unary .minus 0 one)).print = "$x=-1".toList ∧ "=" ∈ assignmentOperators ∧
      validateSafeExpression asciiWords (sample "=" 0 (.unary .minus 0 one)).print = none ∧
      SafeEvaluator.validate asciiWords (sample "=" 0 (.unary .minus 0 one)).print = .ok () := by
  refine ⟨by decide, by simp [assignmentOperators], by decide, ?_⟩
  exact validate_ok.mpr (by decide)

end Statements

end PerlLsp.SafeEval.Assignments
