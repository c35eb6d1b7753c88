import Mathlib.Data.List.Basic

/-! Runs of a deterministic machine. A machine is a step function on states; a
run feeds it a finite list of operations. The predicates below speak about every
state a run passes through and about every step it takes, and the rules turn a
fact about one step into a fact about the whole run. Nothing here knows which
program the machine models. -/
namespace PerlLsp.Runs

universe u v
variable {State : Type u} {Op : Type v}

def run (step : State → Op → State) (start : State) (ops : List Op) : State :=
  ops.foldl step start

variable (step : State → Op → State)

@[simp] theorem run_cons (start : State) (op : Op) (rest : List Op) :
    run step start (op :: rest) = run step (step start op) rest := rfl

def Along (step : State → Op → State) (holds : State → Prop) : State → List Op → Prop
  | state, [] => holds state
  | state, op :: rest => holds state ∧ Along step holds (step state op) rest

def StepsMeet (step : State → Op → State) (condition : State → Op → Prop) : State → List Op → Prop
  | _, [] => True
  | state, op :: rest => condition state op ∧ StepsMeet step condition (step state op) rest

instance decidableStepsMeet (step : State → Op → State) (condition : State → Op → Prop)
    [∀ state op, Decidable (condition state op)] :
    (start : State) → (ops : List Op) → Decidable (StepsMeet step condition start ops)
  | _, [] => inferInstanceAs (Decidable True)
  | start, op :: rest =>
    have := decidableStepsMeet step condition (step start op) rest
    inferInstanceAs (Decidable (condition start op ∧ StepsMeet step condition (step start op) rest))

section

include step

theorem along_first (holds : State → Prop)
    (start : State) (ops : List Op) (along : Along step holds start ops) : holds start := by
  cases ops with
  | nil => exact along
  | cons op rest => exact along.1

/-- `Along` is the statement about every prefix of the run, written recursively. -/
theorem along_iff_prefixes (holds : State → Prop) (start : State) (ops : List Op) :
    Along step holds start ops ↔ ∀ before after, ops = before ++ after → holds (run step start before) := by
  induction ops generalizing start with
  | nil =>
    constructor
    · intro first before after split
      obtain ⟨rfl, rfl⟩ := List.append_eq_nil_iff.mp split.symm
      exact first
    · intro every
      exact every [] [] rfl
  | cons op rest ih =>
    constructor
    · rintro ⟨first, tail⟩ before after split
      cases before with
      | nil => exact first
      | cons head before =>
        obtain ⟨same, tailSplit⟩ := List.cons.inj split
        subst same
        exact (ih (step start op)).mp tail before after tailSplit
    · intro every
      refine ⟨every [] (op :: rest) rfl, (ih (step start op)).mpr ?_⟩
      intro before after split
      exact every (op :: before) after (by rw [split]; rfl)

/-- A property kept by every step that meets the condition holds along every
run whose steps all meet it. -/
theorem along_of_steps (holds : State → Prop) (condition : State → Op → Prop)
    (kept : ∀ state op, holds state → condition state op → holds (step state op))
    (start : State) (ops : List Op) (first : holds start)
    (meet : StepsMeet step condition start ops) : Along step holds start ops := by
  induction ops generalizing start with
  | nil => exact first
  | cons op rest ih => exact ⟨first, ih (step start op) (kept start op first meet.1) meet.2⟩

theorem along_mono {strong weak : State → Prop}
    (implies : ∀ state, strong state → weak state) (start : State) (ops : List Op)
    (along : Along step strong start ops) : Along step weak start ops := by
  induction ops generalizing start with
  | nil => exact implies start along
  | cons op rest ih => exact ⟨implies start along.1, ih (step start op) along.2⟩

theorem steps_meet_of_forall (condition : Op → Prop)
    (start : State) (ops : List Op) (every : ∀ op ∈ ops, condition op) :
    StepsMeet step (fun _ op => condition op) start ops := by
  induction ops generalizing start with
  | nil => trivial
  | cons op rest ih =>
    obtain ⟨first, others⟩ := List.forall_mem_cons.mp every
    exact ⟨first, ih (step start op) others⟩

theorem steps_meet_of_along (holds : State → Prop)
    (condition : State → Op → Prop) (meets : ∀ state op, holds state → condition state op)
    (start : State) (ops : List Op) (along : Along step holds start ops) :
    StepsMeet step condition start ops := by
  induction ops generalizing start with
  | nil => trivial
  | cons op rest ih => exact ⟨meets start op along.1, ih (step start op) along.2⟩

/-- A condition on the steps and a property of the states they start from. -/
theorem steps_meet_with (holds : State → Prop)
    (condition : State → Op → Prop) (start : State) (ops : List Op)
    (along : Along step holds start ops) (meet : StepsMeet step condition start ops) :
    StepsMeet step (fun state op => holds state ∧ condition state op) start ops := by
  induction ops generalizing start with
  | nil => trivial
  | cons op rest ih => exact ⟨⟨along.1, meet.1⟩, ih (step start op) along.2 meet.2⟩

theorem steps_meet_append (condition : State → Op → Prop) (start : State) (before after : List Op) :
    StepsMeet step condition start (before ++ after) ↔
      StepsMeet step condition start before ∧ StepsMeet step condition (run step start before) after := by
  induction before generalizing start with
  | nil => exact (and_iff_right trivial).symm
  | cons op rest ih => exact (and_congr_right fun _ => ih (step start op)).trans and_assoc.symm

theorem run_append (start : State) (before after : List Op) :
    run step start (before ++ after) = run step (run step start before) after :=
  List.foldl_append

end

section
variable (measure : State → Nat) (grows : ∀ state op, measure state ≤ measure (step state op))
include step measure grows

theorem measure_le_run (start : State) (ops : List Op) : measure start ≤ measure (run step start ops) := by
  induction ops generalizing start with
  | nil => exact Nat.le_refl _
  | cons op rest ih => exact Nat.le_trans (grows start op) (ih (step start op))

/-- A measure that never falls and ends below a bound stays below it at every step. -/
theorem steps_meet_below (bound : Nat) (condition : State → Op → Prop) (start : State) (ops : List Op)
    (meet : StepsMeet step condition start ops) (below : measure (run step start ops) < bound) :
    StepsMeet step (fun state op => condition state op ∧ measure (step state op) < bound) start ops := by
  induction ops generalizing start with
  | nil => trivial
  | cons op rest ih =>
    have next := measure_le_run step measure grows (step start op) rest
    exact ⟨⟨meet.1, Nat.lt_of_le_of_lt next below⟩, ih (step start op) meet.2 below⟩

end

/-- What the most recent operation with an outcome left, or the value at the start when none had
one. -/
def latest {Outcome : Type*} (step : State → Op → State) (outcome : State → Op → Option Outcome) :
    State → Outcome → List Op → Outcome
  | _, held, [] => held
  | state, held, op :: rest =>
    latest step outcome (step state op) ((outcome state op).getD held) rest

/-- A component that each step replaces by its outcome, if it has one, ends a run as the latest
outcome. -/
theorem run_latest {Outcome : Type*} (outcome : State → Op → Option Outcome) (holds : State → Outcome → Prop)
    (kept : ∀ state op held, holds state held → holds (step state op) ((outcome state op).getD held))
    (start : State) (held : Outcome) (ops : List Op) (first : holds start held) :
    holds (run step start ops) (latest step outcome start held ops) := by
  induction ops generalizing start held with
  | nil => exact first
  | cons op rest ih => exact ih (step start op) _ (kept start op held first)

/-- When one step keeps the property exactly if it meets the condition, a run keeps it throughout
exactly if all its steps do. -/
theorem along_iff_steps (holds : State → Prop) (condition : State → Op → Prop)
    (exactly : ∀ state op, holds state → (holds (step state op) ↔ condition state op))
    (start : State) (ops : List Op) (first : holds start) :
    Along step holds start ops ↔ StepsMeet step condition start ops := by
  constructor
  · intro along
    induction ops generalizing start with
    | nil => trivial
    | cons op rest ih =>
      have next := along_first step holds (step start op) rest along.2
      exact ⟨(exactly start op first).mp next, ih (step start op) next along.2⟩
  · exact along_of_steps step holds condition (fun s op hs => (exactly s op hs).mpr) start ops first

/-- Two properties that agree wherever an invariant holds agree along every run. -/
theorem along_iff_of_invariant (holds left right : State → Prop)
    (kept : ∀ state op, holds state → holds (step state op))
    (agree : ∀ state, holds state → (left state ↔ right state)) (start : State) (ops : List Op)
    (first : holds start) : Along step left start ops ↔ Along step right start ops := by
  induction ops generalizing start with
  | nil => exact agree start first
  | cons op rest ih => exact and_congr (agree start first) (ih (step start op) (kept start op first))

section
variable (holds : State → Prop) (kept : ∀ state op, holds state → holds (step state op))
  (start : State) (ops : List Op) (first : holds start)
include step holds kept start ops first

/-- An invariant kept by every step holds in every state of every run. -/
theorem along_of_invariant : Along step holds start ops := by
  induction ops generalizing start with
  | nil => exact first
  | cons op rest ih => exact ⟨first, ih (step start op) (kept start op first)⟩

/-- An invariant kept by every step holds at the end of every run. -/
theorem run_invariant : holds (run step start ops) := by
  induction ops generalizing start with
  | nil => exact first
  | cons op rest ih => exact ih (step start op) (kept start op first)

end

end PerlLsp.Runs
