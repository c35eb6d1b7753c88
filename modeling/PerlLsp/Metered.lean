import Mathlib.Control.Lawful

/-! Computations that pay for their work one unit at a time. A run is metered when it is the
same computation as paying a number of units and then answering: what it does is then known from
its answer and that number alone, whatever the monad does with a unit. -/
namespace PerlLsp.Metered
variable {M : Type → Type} [Monad M]

def charge (tick : M Unit) : Nat → M Unit
  | 0 => pure ()
  | units + 1 => do
      tick
      charge tick units

/-- The run pays `units` and answers `value`. -/
def Costs {α : Type} (tick : M Unit) (run : M α) (units : Nat) (value : α) : Prop :=
  run = charge tick units >>= fun _ => pure value

def Yields {α : Type} (tick : M Unit) (run : M α) (good : α → Prop) : Prop :=
  ∃ units value, Costs tick run units value ∧ good value

variable {tick : M Unit} {α β : Type}
variable {good : α → Prop}

theorem yields_mono {run : M α} {goal : α → Prop} (reached : Yields tick run good)
    (weaker : ∀ value, good value → goal value) : Yields tick run goal := by
  obtain ⟨units, value, paid, holds⟩ := reached
  exact ⟨units, value, paid, weaker value holds⟩

variable [LawfulMonad M]

theorem charge_add (first second : Nat) :
    charge tick (first + second) = charge tick first >>= fun _ => charge tick second := by
  induction first with
  | zero => simp [charge]
  | succ first ih =>
    rw [Nat.succ_add]
    simp only [charge, ih, bind_assoc]

theorem costs_pure (value : α) : Costs tick (pure value) 0 value := by
  simp [Costs, charge]

theorem costs_bind {run : M α} {next : α → M β} {first second : Nat} {value : α} {answer : β}
    (paid : Costs tick run first value) (rest : Costs tick (next value) second answer) :
    Costs tick (run >>= next) (first + second) answer := by
  unfold Costs at paid rest ⊢
  rw [paid, charge_add]
  simp only [bind_assoc, pure_bind, rest]

theorem yields_pure {value : α} (holds : good value) : Yields tick (pure value) good :=
  ⟨0, value, costs_pure value, holds⟩

/-- The rule of sequence: what follows may use what the first part is good for. -/
theorem yields_bind {run : M α} {next : α → M β} {goal : β → Prop} (first : Yields tick run good)
    (second : ∀ value, good value → Yields tick (next value) goal) : Yields tick (run >>= next) goal := by
  obtain ⟨units, value, paid, holds⟩ := first
  obtain ⟨more, answer, rest, reached⟩ := second value holds
  exact ⟨units + more, answer, costs_bind paid rest, reached⟩

theorem yields_tick {rest : M α} (after : Yields tick rest good) :
    Yields tick (tick >>= fun _ => rest) good := by
  obtain ⟨units, value, paid, holds⟩ := after
  refine ⟨units + 1, value, ?_, holds⟩
  unfold Costs at paid ⊢
  rw [paid]
  simp only [charge, bind_assoc]

end PerlLsp.Metered
