import Mathlib.Data.List.Infix
import PerlLsp.Text

/-! The two admission checks for expressions a debugger evaluates: `validate_safe_expression` of
`debug_adapter/safe_eval.rs` and `SafeEvaluator::validate` of `eval/validator.rs` in perl-dap. Both
look at matches of patterns in the raw text and exempt a match by what stands around it. -/
namespace PerlLsp.SafeEval
open Text List Bool

section Runs

/-- A match of a pattern, with what stands before and after it. -/
structure Occurrence where
  before : List Char
  text : List Char
  after : List Char
  deriving DecidableEq

/-- The maximal runs of `kept` characters which begin in the middle one of three texts. -/
def runs (kept : Char → Bool) : List Char → List Char → List Char → List Occurrence
  | _, [], _ => []
  | before, scalar :: rest, after =>
    (if kept scalar && !before.getLast?.any kept then
      [⟨before, (scalar :: rest ++ after).takeWhile kept,
        (scalar :: rest ++ after).dropWhile kept⟩]
    else []) ++ runs kept (before ++ [scalar]) rest after

variable {kept : Char → Bool}

theorem runs_append (before left right after : List Char) : runs kept before (left ++ right) after =
      runs kept before left (right ++ after) ++ runs kept (before ++ left) right after := by
  induction left generalizing before with
  | nil => simp [runs]
  | cons scalar rest ih => simp only [cons_append, runs, ih, append_assoc, nil_append]

theorem runs_none (before text after : List Char) (none : ∀ scalar ∈ text, kept scalar = false) :
    runs kept before text after = [] := by
  induction text generalizing before with
  | nil => rfl
  | cons scalar rest ih =>
    have later := ih (before ++ [scalar]) fun other member => none other (.tail _ member)
    simp [runs, none scalar (.head _), later]

theorem runs_inside (before text after : List Char) (inside : before.getLast?.any kept = true)
    (all : ∀ scalar ∈ text, kept scalar = true) : runs kept before text after = [] := by
  induction text generalizing before with
  | nil => rfl
  | cons scalar rest ih =>
    have later := ih (before ++ [scalar]) (by simpa using all scalar (.head _))
      fun other member => all other (.tail _ member)
    simp [runs, inside, later]

theorem runs_block (before text after : List Char) (filled : text ≠ [])
    (outside : before.getLast?.any kept = false) (all : ∀ scalar ∈ text, kept scalar = true) :
    runs kept before text after = [⟨before, text ++ after.takeWhile kept, after.dropWhile kept⟩] := by
  obtain ⟨scalar, rest, rfl⟩ := exists_cons_of_ne_nil filled
  have first := all scalar (.head _)
  have others := fun other member => all other (.tail scalar member)
  have later := runs_inside (before ++ [scalar]) rest after (by simpa using first) others
  simp only [runs, later, first, outside, Bool.not_false, Bool.and_self, if_true, append_nil]
  rw [takeWhile_append_of_pos all, dropWhile_append_of_pos all]

/-- Where a run that begins in a text stands. -/
theorem mem_runs {before text after : List Char} {found : Occurrence}
    (member : found ∈ runs kept before text after) :
    ∃ gap rest, text = gap ++ rest ∧ rest ≠ [] ∧ found.before = before ++ gap ∧
      found.text = (rest ++ after).takeWhile kept ∧ found.after = (rest ++ after).dropWhile kept ∧
      found.text ≠ [] := by
  induction text generalizing before with
  | nil => simp [runs] at member
  | cons scalar rest ih =>
    simp only [runs, mem_append] at member
    rcases member with here | later
    · by_cases starts : (kept scalar && !before.getLast?.any kept) = true
      · have first : kept scalar = true := (Bool.and_eq_true_iff.mp starts).1
        simp only [starts, if_true, mem_singleton] at here
        subst here
        exact ⟨[], scalar :: rest, rfl, by simp, by simp, rfl, rfl, by simp [first]⟩
      · simp [starts] at here
    · obtain ⟨gap, tail, split, filled, stands, word, behind, some⟩ := ih later
      exact ⟨scalar :: gap, tail, by simp [split], filled, by simp [stands], word, behind, some⟩

end Runs

section Patterns

/-- The class `\\w` of the regex crate. -/
structure WordClass where
  isWord : Char → Bool
  word_ascii : ∀ scalar : Char, scalar.toNat < 128 →
    isWord scalar = (scalar.isAlphanum || scalar == '_')

def asciiWords : WordClass := ⟨fun scalar => scalar.isAlphanum || scalar == '_', fun _ _ => rfl⟩

def dangerousOps : List String :=
  ["push", "pop", "shift", "unshift", "splice", "delete", "undef", "srand", "bless", "each",
   "reset", "system", "exec", "fork", "exit", "dump", "kill", "alarm", "sleep", "wait", "waitpid",
   "setpgrp", "setpriority", "umask", "lock", "qx", "readpipe", "syscall", "open", "close",
   "print", "say", "printf", "sysread", "syswrite", "glob", "readline", "eof", "ioctl", "fcntl",
   "flock", "select", "dbmopen", "dbmclose", "binmode", "opendir", "closedir", "readdir",
   "rewinddir", "seekdir", "telldir", "seek", "sysseek", "formline", "write", "pipe", "socketpair",
   "mkdir", "rmdir", "unlink", "rename", "chdir", "chmod", "chown", "chroot", "truncate", "utime",
   "symlink", "link", "eval", "require", "do", "tie", "untie", "socket", "connect", "bind",
   "listen", "accept", "send", "recv", "shutdown", "setsockopt", "msgget", "msgsnd", "msgrcv",
   "msgctl", "semget", "semop", "semctl", "shmget", "shmat", "shmdt", "shmctl"]

/-- `DANGEROUS_OPERATIONS` of `eval/patterns.rs`, which has no `eof` -/
def dangerousOperations : List String :=
  ["push", "pop", "shift", "unshift", "splice", "delete", "undef", "srand", "bless", "reset",
   "each", "system", "exec", "fork", "exit", "dump", "kill", "alarm", "sleep", "wait", "waitpid",
   "setpgrp", "setpriority", "umask", "lock", "qx", "readpipe", "syscall", "open", "close",
   "print", "say", "printf", "sysread", "syswrite", "glob", "readline", "ioctl", "fcntl", "flock",
   "select", "dbmopen", "dbmclose", "binmode", "opendir", "closedir", "readdir", "rewinddir",
   "seekdir", "telldir", "seek", "sysseek", "formline", "write", "pipe", "socketpair", "mkdir",
   "rmdir", "unlink", "rename", "chdir", "chmod", "chown", "chroot", "truncate", "utime",
   "symlink", "link", "eval", "require", "do", "tie", "untie", "socket", "connect", "bind",
   "listen", "accept", "send", "recv", "shutdown", "setsockopt", "msgget", "msgsnd", "msgrcv",
   "msgctl", "semget", "semop", "semctl", "shmget", "shmat", "shmdt", "shmctl"]

/-- `ASSIGNMENT_OPERATORS`, and the same operators in `validate_safe_expression` -/
def assignmentOperators : List String :=
  ["=", "+=", "-=", "*=", "/=", "%=", "**=", ".=", "&=", "|=", "^=", "<<=", ">>=", "&&=", "||=",
   "//=", "x="]

def regexMutationOps : List String := ["s", "tr", "y"]

def lists (names : List String) (text : List Char) : Bool := (names.map String.toList).contains text

def isOperator (scalar : Char) : Bool := "!~^&|+-*/%=<>".toList.contains scalar

/-- `([!~^&|+\\-*/%=<>]+)` -/
def assignmentOpsRe (expression : List Char) : List Occurrence := runs isOperator [] expression []

variable (words : WordClass)

/-- `\\b(?:push|pop|…)\\b`: both ends at a boundary, a match is a whole word. -/
def wordsRe (names : List String) (expression : List Char) : List Occurrence :=
  (runs words.isWord [] expression []).filter fun found => lists names found.text

/-- `\\b(?:s|tr|y)[^\\w\\s]` -/
def regexMutationRe (expression : List Char) : List Occurrence :=
  (wordsRe words regexMutationOps expression).filterMap fun found =>
    match found.after with
    | [] => none
    | delimiter :: rest =>
      if words.isWord delimiter || isWhitespace delimiter then none
      else some ⟨found.before, found.text ++ [delimiter], rest⟩

/-- `&[\\s]*\\{` -/
def derefRe : List Char → Bool
  | [] => false
  | scalar :: rest =>
    (scalar == '&' && (rest.dropWhile isWhitespace).head? == some '\x7b') || derefRe rest

/-- `<\\*[^>]*>` -/
def globRe : List Char → Bool
  | [] => false
  | scalar :: rest => (scalar == '<' && rest.head? == some '*' && rest.contains '>') || globRe rest

def containsIncrement (expression : List Char) : Prop :=
  "++".toList <:+: expression ∨ "--".toList <:+: expression

instance (expression : List Char) : Decidable (containsIncrement expression) :=
  inferInstanceAs (Decidable (_ ∨ _))

end Patterns

section Exemptions

structure Quotes where
  inSq : Bool
  escaped : Bool

def Quotes.step (quotes : Quotes) (scalar : Char) : Quotes :=
  if quotes.inSq then
    if quotes.escaped then { quotes with escaped := false }
    else if scalar = '\\' then { quotes with escaped := true }
    else if scalar = '\'' then { quotes with inSq := false }
    else quotes
  else if scalar = '\'' then { quotes with inSq := true }
  else quotes

def quotesAfter (before : List Char) : Quotes := before.foldl Quotes.step ⟨false, false⟩

/-- The functions of a match see of the text before it only what `before` holds. -/
def isInSingleQuotes (before : List Char) : Bool := (quotesAfter before).inSq

/-- `u8::is_ascii_whitespace` -/
def isAsciiWhitespace (scalar : Char) : Bool := [' ', '\t', '\n', '\x0c', '\r'].contains scalar

def backwards (before : List Char) : List Char := before.reverse.dropWhile isAsciiWhitespace

def isSigil (scalar : Char) : Bool := ['$', '@', '%', '*'].contains scalar

def isSigilPrefixedIdentifier (before : List Char) : Bool :=
  before.getLast?.any isSigil &&
    match backwards before.dropLast with
    | '&' :: _ => false
    | '>' :: '-' :: _ => false
    | '\x7b' :: inside => (inside.dropWhile isAsciiWhitespace).head? != some '&'
    | _ => true

def isSimpleBracedScalarVar (before after : List Char) : Bool :=
  match backwards before with
  | '\x7b' :: inside =>
    (inside.dropWhile isAsciiWhitespace).head? == some '$' &&
      (after.dropWhile isAsciiWhitespace).head? == some '\x7d'
  | _ => false

def isSegment (scalar : Char) : Bool := scalar.isAlphanum || scalar == '_'

/-- `is_core_qualified` of the debug adapter: the segments before the name, read backwards. -/
def isCoreQualified (before : List Char) : Bool :=
  match before.reverse with
  | ':' :: ':' :: rest =>
    if rest.takeWhile isSegment = "CORE".toList.reverse then true
    else if rest.takeWhile isSegment = "GLOBAL".toList.reverse then
      match rest.dropWhile isSegment with
      | ':' :: ':' :: outer => outer.takeWhile isSegment == "CORE".toList.reverse
      | _ => false
    else false
  | _ => false

/-- `is_core_qualified` of the evaluator: fixed numbers of bytes before the name. -/
def Evaluator.isCoreQualified (before : List Char) : Bool :=
  if "GLOBAL::".toList.isSuffixOf before then
    "CORE::".toList.isSuffixOf (before.take (before.length - 8))
  else "CORE::".toList.isSuffixOf before

def isPackageQualifiedNotCore (coreQualified : List Char → Bool) (before : List Char) : Bool :=
  "::".toList.isSuffixOf before && !coreQualified before

def isEscapeSequence (before : List Char) : Bool := before.getLast? == some '\\'

/-- The four reasons to let a listed name pass. -/
def isExempt (coreQualified : List Char → Bool) (found : Occurrence) : Bool :=
  isInSingleQuotes found.before || isSigilPrefixedIdentifier found.before ||
    isSimpleBracedScalarVar found.before found.after ||
    isPackageQualifiedNotCore coreQualified found.before

def mutates (found : Occurrence) : Bool :=
  !isSigilPrefixedIdentifier found.before && !isEscapeSequence found.before

theorem quotes_outside {before : List Char} (plain : '\'' ∉ before) :
    quotesAfter before = ⟨false, false⟩ := by
  rw [quotesAfter]
  induction before with
  | nil => rfl
  | cons scalar rest ih =>
    have apart : scalar ≠ '\'' := fun same => plain (same ▸ .head _)
    simpa [Quotes.step, apart] using ih fun inside => plain (.tail _ inside)

end Exemptions

section Validation

inductive Refusal where
  | assignment (op : List Char)
  | dynamicCall
  | glob
  | fileHandleRead
  | operation (op : List Char)
  | regexMutation (op : List Char)
  | increment
  | backticks
  deriving DecidableEq

inductive ValidationError where
  | dangerousOperation (op : List Char)
  | assignmentOperator (op : List Char)
  | incrementDecrement
  | backticks
  | regexMutation (op : List Char)
  | containsNewlines
  deriving DecidableEq

variable (words : WordClass)

def validateSafeExpression (expression : List Char) : Option Refusal :=
  match (assignmentOpsRe expression).find? fun found =>
      !isInSingleQuotes found.before && lists assignmentOperators found.text with
  | some found => some (.assignment found.text)
  | none =>
    if derefRe expression then some .dynamicCall
    else if globRe expression then some .glob
    else if (trim expression).head? = some '<' then some .fileHandleRead
    else match (wordsRe words dangerousOps expression).find? fun found =>
        !isExempt isCoreQualified found with
    | some found => some (.operation found.text)
    | none =>
      -- only the first match is looked at
      match (regexMutationRe words expression).head?.filter mutates with
      | some found => some (.regexMutation (trim found.text))
      | none =>
        if containsIncrement expression then some .increment
        else if expression.contains '`' then some .backticks
        else none

namespace SafeEvaluator
variable (expression : List Char)

def checkDangerousOperations : Except ValidationError Unit :=
  match (wordsRe words dangerousOperations expression).find? fun found =>
      !isExempt Evaluator.isCoreQualified found with
  | some found => .error (.dangerousOperation found.text)
  | none => .ok ()

def checkRegexMutation : Except ValidationError Unit :=
  match (regexMutationRe words expression).find? mutates with
  | some found => .error (.regexMutation (trim found.text))
  | none => .ok ()

def validate : Except ValidationError Unit :=
  if expression.contains '\n' || expression.contains '\r' then .error .containsNewlines
  else if expression.contains '`' then .error .backticks
  else match (assignmentOpsRe expression).find? fun found =>
      lists assignmentOperators found.text with
  | some found => .error (.assignmentOperator found.text)
  | none =>
    if containsIncrement expression then .error .incrementDecrement
    else match checkDangerousOperations words expression with
    | .error error => .error error
    | .ok () => checkRegexMutation words expression

end SafeEvaluator

variable {words : WordClass} {expression : List Char}

theorem find_unkept {check keep : Occurrence → Bool} {found : List Occurrence} :
    found.find? (fun each => !keep each && check each) = none ↔
      ∀ each ∈ found, check each = true → keep each = true := by
  simp only [find?_eq_none, and_eq_true, not_eq_true']
  grind

theorem find_unexempt {keep : Occurrence → Bool} {found : List Occurrence} :
    found.find? (fun each => !keep each) = none ↔ ∀ each ∈ found, keep each = true := by
  simp

/-- An expression is admitted when no check has found anything. -/
theorem validate_safe_none : validateSafeExpression words expression = none ↔
    (∀ found ∈ assignmentOpsRe expression, lists assignmentOperators found.text = true →
      isInSingleQuotes found.before = true) ∧
    derefRe expression = false ∧ globRe expression = false ∧ (trim expression).head? ≠ some '<' ∧
    (∀ found ∈ wordsRe words dangerousOps expression, isExempt isCoreQualified found = true) ∧
    (regexMutationRe words expression).head?.filter mutates = none ∧
    ¬containsIncrement expression ∧ '`' ∉ expression := by
  rw [← find_unkept, ← find_unexempt, validateSafeExpression]
  iterate 7
    split
    · simp [*]
  simp [*]

theorem check_operations_ok : SafeEvaluator.checkDangerousOperations words expression = .ok () ↔
    ∀ found ∈ wordsRe words dangerousOperations expression,
      isExempt Evaluator.isCoreQualified found = true := by
  rw [SafeEvaluator.checkDangerousOperations, ← find_unexempt]
  split <;> simp [*]

theorem check_mutation_ok : SafeEvaluator.checkRegexMutation words expression = .ok () ↔
    ∀ found ∈ regexMutationRe words expression, ¬mutates found = true := by
  rw [SafeEvaluator.checkRegexMutation, ← find?_eq_none]
  split <;> simp [*]

theorem validate_ok : SafeEvaluator.validate words expression = .ok () ↔
    ('\n' ∉ expression ∧ '\r' ∉ expression) ∧ '`' ∉ expression ∧
    (∀ found ∈ assignmentOpsRe expression, ¬lists assignmentOperators found.text = true) ∧
    ¬containsIncrement expression ∧ (∀ found ∈ wordsRe words dangerousOperations expression,
      isExempt Evaluator.isCoreQualified found = true) ∧
    ∀ found ∈ regexMutationRe words expression, ¬mutates found = true := by
  have broken : (expression.contains '\n' || expression.contains '\r') = true ↔
      ¬('\n' ∉ expression ∧ '\r' ∉ expression) := by
    simp
    tauto
  rw [← find?_eq_none, ← check_operations_ok, ← check_mutation_ok, SafeEvaluator.validate]
  split
  · simp [broken.mp ‹_›]
  iterate 3
    split
    · simp_all
  split
  · simp [*]
  · simp_all

/-- What an answer of `validate_safe_expression` has found, as far as names and assignments go. -/
inductive Refuses (words : WordClass) (expression : List Char) : Option Refusal → Prop where
  | assignment (found : Occurrence) (member : found ∈ assignmentOpsRe expression)
      (listed : lists assignmentOperators found.text = true) :
      Refuses words expression (some (.assignment found.text))
  | operation (found : Occurrence) (member : found ∈ wordsRe words dangerousOps expression)
      (bare : isExempt isCoreQualified found = false) :
      Refuses words expression (some (.operation found.text))
  | other (answer : Option Refusal)
      (apart : ∀ op, answer ≠ some (.assignment op) ∧ answer ≠ some (.operation op)) :
      Refuses words expression answer

theorem safe_refuses : Refuses words expression (validateSafeExpression words expression) := by
  rw [validateSafeExpression]
  split
  · rename_i found first
    have listed := find?_some first
    exact .assignment found (mem_of_find?_eq_some first) (Bool.and_eq_true_iff.mp listed).2
  iterate 3
    split
    · exact .other _ (by simp)
  split
  · rename_i found first
    have bare := find?_some first
    exact .operation found (mem_of_find?_eq_some first) (by simpa using bare)
  iterate 3
    split
    · exact .other _ (by simp)
  exact .other _ (by simp)

inductive Reports (words : WordClass) (expression : List Char) :
    Except ValidationError Unit → Prop where
  | admitted : Reports words expression (.ok ())
  | newlines (found : '\n' ∈ expression ∨ '\r' ∈ expression) :
      Reports words expression (.error .containsNewlines)
  | backticks (found : '`' ∈ expression) : Reports words expression (.error .backticks)
  | assignment (found : Occurrence) (member : found ∈ assignmentOpsRe expression)
      (listed : lists assignmentOperators found.text = true) :
      Reports words expression (.error (.assignmentOperator found.text))
  | increment (found : containsIncrement expression) :
      Reports words expression (.error .incrementDecrement)
  | operation (found : Occurrence) (member : found ∈ wordsRe words dangerousOperations expression)
      (bare : isExempt Evaluator.isCoreQualified found = false) :
      Reports words expression (.error (.dangerousOperation found.text))
  | mutation (found : Occurrence) (member : found ∈ regexMutationRe words expression)
      (bare : mutates found = true) (unbroken : '\n' ∉ expression ∧ '\r' ∉ expression)
      (unassigned : ∀ other ∈ assignmentOpsRe expression,
        ¬lists assignmentOperators other.text = true) :
      Reports words expression (.error (.regexMutation (trim found.text)))

theorem validate_reports : Reports words expression (SafeEvaluator.validate words expression) := by
  rw [SafeEvaluator.validate, SafeEvaluator.checkDangerousOperations, SafeEvaluator.checkRegexMutation]
  split
  · rename_i broken
    exact .newlines (by simpa using broken)
  have unbroken : '\n' ∉ expression ∧ '\r' ∉ expression := by
    rename_i unbroken
    simpa using unbroken
  split
  · exact .backticks (by simpa using ‹expression.contains '`' = true›)
  split
  · rename_i found first
    have listed := find?_some first
    exact .assignment found (mem_of_find?_eq_some first) listed
  have unassigned := find?_eq_none.mp ‹_›
  split
  · exact .increment ‹_›
  cases named : (wordsRe words dangerousOperations expression).find? fun found =>
    !isExempt Evaluator.isCoreQualified found with
  | some found =>
    have bare := find?_some named
    exact .operation found (mem_of_find?_eq_some named) (by simpa using bare)
  | none =>
    cases mutated : (regexMutationRe words expression).find? mutates with
    | some found =>
      have bare := find?_some mutated
      exact .mutation found (mem_of_find?_eq_some mutated) bare unbroken unassigned
    | none => exact .admitted

theorem deref_brace {text : List Char} (found : derefRe text = true) : '\x7b' ∈ text := by
  induction text with
  | nil => cases found
  | cons scalar rest ih =>
    simp only [derefRe, or_eq_true, and_eq_true, beq_iff_eq] at found
    rcases found with ⟨-, brace⟩ | later
    · exact .tail _ ((dropWhile_suffix _).subset (mem_of_head? brace))
    · exact .tail _ (ih later)

theorem glob_brackets {text : List Char} (found : globRe text = true) : '<' ∈ text ∧ '>' ∈ text := by
  induction text with
  | nil => cases found
  | cons scalar rest ih =>
    simp only [globRe, or_eq_true, and_eq_true, beq_iff_eq, contains_iff_mem] at found
    rcases found with ⟨⟨rfl, -⟩, closing⟩ | later
    · exact ⟨.head _, .tail _ closing⟩
    · exact ⟨.tail _ (ih later).1, .tail _ (ih later).2⟩

theorem trim_head {first : Char} (solid : isWhitespace first = false) (rest : List Char) :
    (trim (first :: rest)).head? = some first := by
  have start : trimStart (first :: rest) = first :: rest := by simp [trimStart, solid]
  rw [trim, start, trimEnd]
  have kept : (first :: rest).rdropWhile isWhitespace ≠ [] := fun empty => by
    have all := rdropWhile_eq_nil_iff.mp empty first (.head _)
    simp [solid] at all
  obtain ⟨tail, split⟩ := rdropWhile_prefix isWhitespace (l := first :: rest)
  obtain ⟨head, others, shape⟩ := exists_cons_of_ne_nil kept
  rw [shape] at split
  rw [shape, (List.cons.inj split).1, head?_cons]

end Validation

section Context

theorem segment_ascii {scalar : Char} (segment : isSegment scalar = true) : scalar.toNat < 128 := by
  unfold isSegment Char.isAlphanum Char.isAlpha Char.isUpper Char.isLower Char.isDigit at segment
  simp only [or_eq_true, and_eq_true, decide_eq_true_eq, beq_iff_eq] at segment
  rcases segment with ((upper | lower) | digit) | rfl
  · have := UInt32.le_iff_toNat_le.mp upper.2
    exact Nat.lt_of_le_of_lt this (by decide)
  · have := UInt32.le_iff_toNat_le.mp lower.2
    exact Nat.lt_of_le_of_lt this (by decide)
  · have := UInt32.le_iff_toNat_le.mp digit.2
    exact Nat.lt_of_le_of_lt this (by decide)
  · decide

theorem WordClass.segment (words : WordClass) {scalar : Char} (segment : isSegment scalar = true) :
    words.isWord scalar = true :=
  (words.word_ascii scalar (segment_ascii segment)).trans segment

/-- An ASCII character which is no letter, no digit and no underscore. -/
def isMark (scalar : Char) : Bool := scalar.toNat < 128 && !isSegment scalar

theorem WordClass.mark (words : WordClass) {scalar : Char} (mark : isMark scalar = true) :
    words.isWord scalar = false := by
  obtain ⟨ascii, outside⟩ : scalar.toNat < 128 ∧ isSegment scalar = false := by
    simpa [isMark] using mark
  exact (words.word_ascii scalar ascii).trans outside

/-- No dereference, no arrow and no brace ends the text. -/
def Calm (before : List Char) : Prop :=
  ∀ scalar, (backwards before).head? = some scalar → scalar ∉ ['&', '>', '\x7b']

theorem calm_nil : Calm [] := by
  intro scalar first
  simp [backwards] at first

theorem calm_last (before : List Char) {scalar : Char} (solid : isAsciiWhitespace scalar = false)
    (plain : scalar ∉ ['&', '>', '\x7b']) : Calm (before ++ [scalar]) := by
  intro first isFirst
  have : first = scalar := by simpa [backwards, solid, eq_comm] using isFirst
  exact this ▸ plain

theorem calm_append {before text : List Char} (calm : Calm before)
    (plain : ∀ scalar ∈ text, scalar ∉ ['&', '>', '\x7b']) : Calm (before ++ text) := by
  induction text generalizing before with
  | nil => simpa using calm
  | cons scalar rest ih =>
    have next : Calm (before ++ [scalar]) := by
      by_cases space : isAsciiWhitespace scalar = true
      · intro first isFirst
        exact calm first (by simpa [backwards, space] using isFirst)
      · exact calm_last before (by simpa using space) (plain scalar (.head _))
    simpa using ih next fun other member => plain other (.tail _ member)

theorem calm_sigil {before : List Char} {sigil : Char} (calm : Calm before)
    (isSigil : isSigil sigil = true) : isSigilPrefixedIdentifier (before ++ [sigil]) = true := by
  have behind : ∀ scalar rest, backwards before = scalar :: rest → scalar ∉ ['&', '>', '\x7b'] :=
    fun scalar rest read => calm scalar (by simp [read])
  simp only [isSigilPrefixedIdentifier, getLast?_append, getLast?_singleton,
    Option.some_or, Option.any_some, isSigil, dropLast_concat]
  split
  · exact (behind _ _ ‹_› (by decide)).elim
  · exact (behind _ _ ‹_› (by decide)).elim
  · exact (behind _ _ ‹_› (by decide)).elim
  · rfl

end Context

section Printed

/-- What the printed expressions of this development are made of besides operators. -/
structure Identifier where
  text : List Char
  filled : text ≠ []
  segment : ∀ scalar ∈ text, isSegment scalar = true

structure Literal where
  first : Char
  rest : List Char
  digit : first.isDigit = true
  segment : ∀ scalar ∈ rest, isSegment scalar = true

def Literal.text (literal : Literal) : List Char := literal.first :: literal.rest

def spaces (count : Nat) : List Char := List.replicate count ' '

end Printed

section Words
variable (words : WordClass)

theorem literal_segment (value : Literal) : ∀ scalar ∈ value.text, isSegment scalar = true := by
  intro scalar member
  rcases mem_cons.mp member with rfl | later
  · simp [isSegment, Char.isAlphanum, value.digit]
  · exact value.segment scalar later

theorem runs_marks (before after : List Char) {text : List Char}
    (marks : ∀ scalar ∈ text, isMark scalar = true) : runs words.isWord before text after = [] :=
  runs_none before text after fun scalar member => words.mark (marks scalar member)

theorem runs_spaces (before : List Char) (count : Nat) (after : List Char) :
    runs words.isWord before (spaces count) after = [] :=
  runs_marks words before after fun scalar member => by
    rw [(mem_replicate.mp member).2]
    rfl

theorem runs_name {before : List Char} {mark : Char} (isMark : isMark mark = true)
    (name : Identifier) (after : List Char) : runs words.isWord before (mark :: name.text) after =
      [⟨before ++ [mark], name.text ++ after.takeWhile words.isWord, after.dropWhile words.isWord⟩] := by
  have outside : (before ++ [mark]).getLast?.any words.isWord = false := by
    simpa using words.mark isMark
  have block := runs_block (before ++ [mark]) name.text after name.filled outside
    fun scalar member => words.segment (name.segment scalar member)
  rw [← block]
  simp [runs, words.mark isMark]

theorem literal_words {before after : List Char} {value : Literal} {found : Occurrence}
    (member : found ∈ runs words.isWord before value.text after) : found.text.head? = some value.first := by
  have all : ∀ scalar ∈ value.text, words.isWord scalar = true :=
    fun scalar member => words.segment (literal_segment value scalar member)
  by_cases inside : before.getLast?.any words.isWord = true
  · simp [runs_inside before value.text after inside all] at member
  · rw [runs_block before value.text after (by simp [Literal.text]) (by simpa using inside) all,
      mem_singleton] at member
    simp [member, Literal.text]

end Words

end PerlLsp.SafeEval
