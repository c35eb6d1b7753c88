import Mathlib.Data.List.Perm.Basic

/-! Items under way, kept in a list: a step takes the item at one place and either puts
it back changed or takes it out. Nothing here knows what the items are. -/
namespace PerlLsp.UnderWay
open List

universe u v
variable {Item : Type u} {Mark : Type v}

section
variable {items : List Item} {place : Nat}
include items place

variable {taken : Item}

theorem taken_perm (stands : items[place]? = some taken) : (taken :: items.eraseIdx place).Perm items := by
  obtain ⟨within, rfl⟩ := List.getElem?_eq_some_iff.mp stands
  exact getElem_cons_eraseIdx_perm within

theorem set_perm (stands : items[place]? = some taken) (changed : Item) :
    (items.set place changed).Perm (changed :: items.eraseIdx place) :=
  set_perm_cons_eraseIdx (List.getElem?_eq_some_iff.mp stands).1 changed

theorem mem_or_taken {item : Item} (stands : items[place]? = some taken) (among : item ∈ items) :
    item = taken ∨ item ∈ items.eraseIdx place :=
  mem_cons.mp ((taken_perm stands).mem_iff.mpr among)

theorem mem_set {item changed : Item} (stands : items[place]? = some taken) :
    item ∈ items.set place changed ↔ item = changed ∨ item ∈ items.eraseIdx place :=
  (set_perm stands changed).mem_iff.trans mem_cons

end

theorem map_set_same (mark : Item → Mark) {items : List Item} {place : Nat} {taken changed : Item}
    (stands : items[place]? = some taken) (same : mark changed = mark taken) :
    (items.set place changed).map mark = items.map mark := by
  obtain ⟨within, is⟩ := List.getElem?_eq_some_iff.mp stands
  refine ext_getElem (by rw [length_map, length_map, length_set]) ?_
  intro i left right
  rw [getElem_map, getElem_map, getElem_set]
  split
  next here =>
    subst here
    rw [same, is]
  next => rfl

/-- What holds between any two items holds between the one taken and each other. -/
theorem pairwise_taken {related : Mark → Mark → Prop} (mark : Item → Mark)
    (symmetric : ∀ left right, related left right → related right left) {items : List Item}
    {place : Nat} {taken item : Item} (stands : items[place]? = some taken)
    (pairs : (items.map mark).Pairwise related) (among : item ∈ items.eraseIdx place) :
    related (mark taken) (mark item) := by
  have ordered := (((taken_perm stands).map mark).pairwise_iff
    fun {left right} => symmetric left right).mpr pairs
  rw [map_cons, pairwise_cons] at ordered
  exact ordered.1 (mark item) (mem_map_of_mem among)

end PerlLsp.UnderWay
