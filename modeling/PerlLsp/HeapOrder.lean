import Mathlib.Logic.Equiv.Basic
import Mathlib.Order.Lattice

/-! The order of a binary heap kept in positions `0, 1, 2, …`, the children of a position being
its double plus one and plus two. The heap is the function that gives the rank at each position,
so exchanging two positions is composition with a transposition. -/
namespace PerlLsp.HeapOrder

def IsChild (child parent : Nat) : Prop :=
  child = 2 * parent + 1 ∨ child = 2 * parent + 2

section Definitions
variable {Rank : Type} [LE Rank]

/-- No child below `last` outranks its parent, for the parents from `first` on. -/
def Heap (rank : Nat → Rank) (first last : Nat) : Prop :=
  ∀ parent child, first ≤ parent → IsChild child parent → child < last →
    rank child ≤ rank parent

structure HeapBut (rank : Nat → Rank) (first last hole : Nat) : Prop where
  others : ∀ parent child, first ≤ parent → parent ≠ hole → IsChild child parent →
    child < last → rank child ≤ rank parent
  around : ∀ parent child, first ≤ parent → IsChild hole parent → IsChild child hole →
    child < last → rank child ≤ rank parent

end Definitions

/-- The same ranks in another order, the positions from `last` on left alone. -/
def Shuffled {Rank : Type} (before after : Nat → Rank) (last : Nat) : Prop :=
  ∃ moves : Equiv.Perm Nat, after = before ∘ moves ∧ ∀ place, last ≤ place → moves place = place

section Order
variable {Rank : Type} [LinearOrder Rank] {rank : Nat → Rank} {first last hole : Nat}

theorem child_behind {child parent : Nat} (isChild : IsChild child parent) : parent < child := by
  unfold IsChild at isChild
  omega

theorem one_parent {child left right : Nat} (ofLeft : IsChild child left)
    (ofRight : IsChild child right) : left = right := by
  unfold IsChild at ofLeft ofRight
  omega

theorem child_has_parent {child : Nat} (inside : 0 < child) : IsChild child ((child - 1) / 2) := by
  unfold IsChild
  omega

theorem hole_filled (but : HeapBut rank first last hole)
    (above : ∀ child, IsChild child hole → child < last → rank child ≤ rank hole) :
    Heap rank first last := by
  intro parent child from_first isChild inside
  by_cases atHole : parent = hole
  · subst atHole
    exact above child isChild inside
  · exact but.others parent child from_first atHole isChild inside

/-- Exchanging the hole with a child that nothing beside it outranks moves the hole there. -/
theorem hole_moves {child : Nat} (but : HeapBut rank first last hole) (from_first : first ≤ hole)
    (isChild : IsChild child hole) (inside : child < last)
    (largest : ∀ other, IsChild other hole → other < last → rank other ≤ rank child)
    (outranks : rank hole ≤ rank child) : HeapBut (rank ∘ Equiv.swap hole child) first last child := by
  have behind := child_behind isChild
  have at_hole : (rank ∘ Equiv.swap hole child) hole = rank child := by simp
  have elsewhere : ∀ place, place ≠ hole → place ≠ child →
      (rank ∘ Equiv.swap hole child) place = rank place := by
    intro place notHole notChild
    simp [Equiv.swap_apply_of_ne_of_ne notHole notChild]
  have at_child : (rank ∘ Equiv.swap hole child) child = rank hole := by simp
  constructor
  · intro parent other parent_from notChild isOther other_inside
    by_cases atHole : parent = hole
    · subst atHole
      rw [at_hole]
      by_cases same : other = child
      · rw [same, at_child]
        exact outranks
      · rw [elsewhere other (by have := child_behind isOther; omega) same]
        exact largest other isOther other_inside
    · rw [elsewhere parent atHole notChild]
      by_cases holeAgain : other = hole
      · rw [holeAgain, at_hole]
        subst holeAgain
        exact but.around parent child parent_from isOther isChild inside
      have notSame : other ≠ child := by
        intro same
        subst same
        exact atHole (one_parent isOther isChild)
      rw [elsewhere other holeAgain notSame]
      exact but.others parent other parent_from atHole isOther other_inside
  · intro parent other _ childOf isOther other_inside
    have same := one_parent childOf isChild
    subst same
    have further := child_behind isOther
    rw [at_hole, elsewhere other (by omega) (by omega)]
    exact but.others child other (by omega) (by omega) isOther other_inside

theorem heap_but_first (heap : Heap rank (first + 1) last) : HeapBut rank first last first := by
  constructor
  · intro parent child from_first notFirst isChild inside
    exact heap parent child (by omega) isChild inside
  · intro parent child from_first isParent isChild inside
    have := child_behind isParent
    omega

/-- Positions in the back half have no children. -/
theorem heap_back_half (half : last ≤ 2 * first + 1) : Heap rank first last := by
  intro parent child from_first isChild inside
  unfold IsChild at isChild
  omega

theorem root_largest (heap : Heap rank 0 last) (place : Nat) (inside : place < last) :
    rank place ≤ rank 0 := by
  induction place using Nat.strongRecOn with
  | ind place ih =>
    by_cases atRoot : place = 0
    · rw [atRoot]
    have isChild := child_has_parent (by omega : 0 < place)
    have behind := child_behind isChild
    have step := heap _ place (Nat.zero_le _) isChild inside
    exact le_trans step (ih _ behind (by omega))

theorem heap_but_root {later : Nat → Rank} (heap : Heap rank 0 last) {shorter : Nat}
    (fewer : shorter ≤ last) (same : ∀ place, 0 < place → place < shorter → later place = rank place) :
    HeapBut later 0 shorter 0 := by
  constructor
  · intro parent child _ notRoot isChild inside
    have behind := child_behind isChild
    rw [same parent (by omega) (by omega), same child (by omega) inside]
    exact heap parent child (Nat.zero_le _) isChild (by omega)
  · intro parent child _ isParent _ _
    have := child_behind isParent
    omega

end Order

section Shuffling
variable {Rank : Type} {before middle after : Nat → Rank} {last : Nat}

theorem shuffled_refl : Shuffled before before last :=
  ⟨Equiv.refl Nat, rfl, fun _ _ => rfl⟩

theorem shuffled_trans (first : Shuffled before middle last) (second : Shuffled middle after last) :
    Shuffled before after last := by
  obtain ⟨moves, rfl, kept⟩ := first
  obtain ⟨further, rfl, keptToo⟩ := second
  refine ⟨further.trans moves, rfl, ?_⟩
  intro place beyond
  rw [Equiv.trans_apply, keptToo place beyond, kept place beyond]

theorem shuffled_swap {left right : Nat} (leftInside : left < last) (rightInside : right < last) :
    Shuffled before (before ∘ Equiv.swap left right) last := by
  refine ⟨Equiv.swap left right, rfl, ?_⟩
  intro place beyond
  exact Equiv.swap_apply_of_ne_of_ne (by omega) (by omega)

theorem shuffled_beyond (shuffled : Shuffled before after last) {place : Nat}
    (beyond : last ≤ place) : after place = before place := by
  obtain ⟨moves, rfl, kept⟩ := shuffled
  exact congrArg before (kept place beyond)

/-- What is bounded before is bounded after: a position below `last` got its rank from one. -/
theorem shuffled_bounded [LE Rank] (shuffled : Shuffled before after last) {bound : Rank}
    (bounded : ∀ place, place < last → before place ≤ bound) :
    ∀ place, place < last → after place ≤ bound := by
  obtain ⟨moves, rfl, kept⟩ := shuffled
  intro place inside
  apply bounded
  by_contra outside
  have fixed := kept (moves place) (by omega)
  have same := moves.injective fixed
  omega

end Shuffling

/-- What the extraction keeps: a heap in front, and behind it ranks in order that nothing in front
exceeds. -/
structure Draining {Rank : Type} [LE Rank] (rank : Nat → Rank) (last length : Nat) : Prop where
  heap : Heap rank 0 last
  sorted : ∀ place next, last ≤ place → place < next → next < length → rank place ≤ rank next
  bounded : ∀ place next, place < last → last ≤ next → next < length → rank place ≤ rank next

section Draining
variable {Rank : Type} [LinearOrder Rank] {rank later : Nat → Rank} {last length : Nat}

theorem draining_start (heap : Heap rank 0 length) : Draining rank length length := by
  constructor
  · exact heap
  · omega
  · omega

/-- One extraction: the root goes behind the heap, and what took its place is sifted down. -/
theorem draining_step (draining : Draining rank (last + 1) length)
    (shuffled : Shuffled (rank ∘ Equiv.swap 0 last) later last) (heap : Heap later 0 last) :
    Draining later last length := by
  have root : ∀ place, place < last + 1 → rank place ≤ rank 0 := root_largest draining.heap
  have at_last : later last = rank 0 := by
    rw [shuffled_beyond shuffled (Nat.le_refl last)]
    simp
  have behind : ∀ place, last < place → later place = rank place := by
    intro place beyond
    rw [shuffled_beyond shuffled (by omega)]
    simp [Equiv.swap_apply_of_ne_of_ne (by omega : place ≠ 0) (by omega : place ≠ last)]
  have front : ∀ place, place < last → later place ≤ rank 0 := by
    apply shuffled_bounded shuffled
    intro place below
    by_cases atRoot : place = 0
    · simpa [atRoot] using root last (by omega)
    · simpa [Equiv.swap_apply_of_ne_of_ne atRoot (by omega : place ≠ last)] using root place (by omega)
  have rootBelow : ∀ next, last < next → next < length → rank 0 ≤ rank next := by
    intro next beyond next_inside
    exact draining.bounded 0 next (by omega) (by omega) next_inside
  constructor
  · exact heap
  · intro place next from_last before next_inside
    rw [behind next (by omega)]
    by_cases atLast : place = last
    · rw [atLast, at_last]
      exact rootBelow next (by omega) next_inside
    · rw [behind place (by omega)]
      exact draining.sorted place next (by omega) before next_inside
  · intro place next below from_last next_inside
    apply le_trans (front place below)
    by_cases atLast : next = last
    · rw [atLast, at_last]
    · rw [behind next (by omega)]
      exact rootBelow next (by omega) next_inside

theorem draining_done (draining : Draining rank last length) (few : last ≤ 1) :
    ∀ place next, place < next → next < length → rank place ≤ rank next := by
  intro place next before inside
  by_cases inFront : place < last
  · exact draining.bounded place next inFront (by omega) inside
  · exact draining.sorted place next (by omega) before inside

end Draining

end PerlLsp.HeapOrder
