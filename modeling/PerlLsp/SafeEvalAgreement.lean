import PerlLsp.SafeEval

/-! The two admission checks beside one another. The adapter looks at the first regex mutation
only: where that one is exempt, a later one passes which the evaluator refuses. -/
namespace PerlLsp.SafeEval.Agreement
open Text

def matters : ValidationError → Bool
  | .containsNewlines => false
  | .assignmentOperator _ => false
  | _ => true

structure Slips (words : WordClass) (expression : List Char) : Prop where
  mutation : ∃ found ∈ regexMutationRe words expression, mutates found = true
  first : (regexMutationRe words expression).head?.filter mutates = none
  unbroken : '\n' ∉ expression ∧ '\r' ∉ expression ∧ '`' ∉ expression
  unassigned : ∀ found ∈ assignmentOpsRe expression, ¬lists assignmentOperators found.text = true
  still : ¬containsIncrement expression
  named : ∀ found ∈ wordsRe words dangerousOps expression, isExempt isCoreQualified found = true
  plain : derefRe expression = false ∧ globRe expression = false ∧
    (trim expression).head? ≠ some '<'

variable (words : WordClass) {expression : List Char}

theorem listed_by_both {found : Occurrence} (member : found ∈ wordsRe words dangerousOperations expression) :
    found ∈ wordsRe words dangerousOps expression := by
  have subset : dangerousOperations.all dangerousOps.contains = true := by decide
  obtain ⟨isWord, listed⟩ := List.mem_filter.mp member
  obtain ⟨name, isName, spelled⟩ : ∃ name ∈ dangerousOperations, name.toList = found.text := by
    simpa [lists] using listed
  have inBoth := List.contains_iff_mem.mp (List.all_eq_true.mp subset name isName)
  refine List.mem_filter.mpr ⟨isWord, ?_⟩
  simpa [lists] using ⟨name, inBoth, spelled⟩

theorem exempt_alike (unqualified : ¬"::".toList <:+: expression) {found : Occurrence}
    (member : found ∈ runs words.isWord [] expression []) :
    isExempt Evaluator.isCoreQualified found = isExempt isCoreQualified found := by
  obtain ⟨gap, rest, split, -, before, -⟩ := mem_runs member
  have bare : ¬"::".toList <:+ found.before := by
    rintro ⟨front, ends⟩
    refine unqualified ⟨front, rest, ?_⟩
    rw [ends, before, List.nil_append, split]
  have unsuffixed : "::".toList.isSuffixOf found.before = false := by
    rw [← Bool.not_eq_true, List.isSuffixOf_iff_suffix]
    exact bare
  simp only [isExempt, isPackageQualifiedNotCore, unsuffixed, Bool.false_and]

/-- A refusal of the evaluator is one of the adapter too, unless a mutation slips through behind an
exempt one. -/
theorem refusals_agree (unqualified : ¬"::".toList <:+: expression) :
    (∀ error, SafeEvaluator.validate words expression = .error error → matters error = true →
      validateSafeExpression words expression ≠ none) ↔ ¬Slips words expression := by
  constructor
  · intro agree slips
    have admitted : validateSafeExpression words expression = none :=
      validate_safe_none.mpr ⟨fun found member listed => (slips.unassigned found member listed).elim,
        slips.plain.1, slips.plain.2.1, slips.plain.2.2, slips.named, slips.first, slips.still,
        slips.unbroken.2.2⟩
    obtain ⟨found, member, bare⟩ := slips.mutation
    generalize answer : SafeEvaluator.validate words expression = result at agree
    cases answer ▸ validate_reports with
    | admitted => exact (validate_ok.mp answer).2.2.2.2.2 found member bare
    | newlines broken => exact broken.elim slips.unbroken.1 slips.unbroken.2.1
    | backticks quoted => exact slips.unbroken.2.2 quoted
    | assignment other inside listed => exact slips.unassigned other inside listed
    | increment increment => exact slips.still increment
    | operation other inside exposed =>
      have exempt := slips.named other (listed_by_both words inside)
      rw [← exempt_alike words unqualified (List.mem_filter.mp inside).1, exposed] at exempt
      cases exempt
    | mutation other inside exposed => exact agree _ rfl rfl admitted
  · intro sound error answer kind admitted
    obtain ⟨-, deref, glob, first, named, mutation, still, unticked⟩ :=
      validate_safe_none.mp admitted
    cases answer ▸ validate_reports with
    | newlines => cases kind
    | backticks ticked => exact unticked ticked
    | assignment => cases kind
    | increment increment => exact still increment
    | operation found inside exposed =>
      have exempt := named found (listed_by_both words inside)
      rw [← exempt_alike words unqualified (List.mem_filter.mp inside).1, exposed] at exempt
      cases exempt
    | mutation found inside exposed unbroken unassigned =>
      exact sound ⟨⟨found, inside, exposed⟩, mutation, ⟨unbroken.1, unbroken.2, unticked⟩,
        unassigned, still, named, ⟨deref, glob, first⟩⟩

/-- `$s->[0] . s/a/b/r`: the dash behind `$s` makes the first match. -/
def lateMutation : List Char := "$s->[0] . s/a/b/r".toList

theorem late_mutation_admitted :
    SafeEvaluator.validate asciiWords lateMutation = .error (.regexMutation "s/".toList) ∧
      ¬"::".toList <:+: lateMutation ∧ matters (.regexMutation "s/".toList) = true ∧
      validateSafeExpression asciiWords lateMutation = none := by
  decide

theorem early_mutation_refused :
    SafeEvaluator.validate asciiWords "s/a/b/r . $s->[0]".toList = .error (.regexMutation "s/".toList) ∧
      validateSafeExpression asciiWords "s/a/b/r . $s->[0]".toList ≠ none := by
  refine ⟨by decide, (refusals_agree asciiWords (by decide)).mpr (fun slips => ?_)
    (.regexMutation "s/".toList) (by decide) rfl⟩
  have first := slips.first
  revert first
  decide

end PerlLsp.SafeEval.Agreement
