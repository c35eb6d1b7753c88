import Mathlib.Data.List.Sort
import Mathlib.Data.List.Perm.Basic

/-! Stable sorting by a comparison that may tie different rows, followed by the removal
of equal neighbours. A sorted list is determined by what it holds, in order, of each
class of tied rows; so is its canonical form, whatever the order of the classes was.
Keeping the first row of each key of a sorted list keeps a least one. -/
namespace PerlLsp.StableSort
open Std List

universe u v
variable {Row : Type u} {Group : Type v}

section Sorting
variable (cmp : Row → Row → Ordering)

abbrev Below (left right : Row) : Prop := (cmp left right).isLE = true

abbrev Sorted (rows : List Row) : Prop := rows.Pairwise (Below cmp)

def sortBy (rows : List Row) : List Row := rows.insertionSort (Below cmp)

def tie (row : Row) (rows : List Row) : List Row := rows.filter fun other => cmp row other == .eq

end Sorting

/-- Of equal neighbours one is kept. -/
def dedup [DecidableEq Row] : List Row → List Row
  | [] => []
  | row :: rest => if rest.head? = some row then dedup rest else row :: dedup rest

def canonical [DecidableEq Row] (cmp : Row → Row → Ordering) (rows : List Row) : List Row :=
  dedup (sortBy cmp rows)

section Ties
variable {cmp : Row → Row → Ordering}

theorem mem_tie (row other : Row) (rows : List Row) :
    other ∈ tie cmp row rows ↔ other ∈ rows ∧ cmp row other = .eq := by
  rw [tie, mem_filter, beq_iff_eq]

theorem tie_append (row : Row) (left right : List Row) :
    tie cmp row (left ++ right) = tie cmp row left ++ tie cmp row right :=
  filter_append _ _

theorem tie_cons (row head : Row) (rest : List Row) : tie cmp row (head :: rest) =
      if cmp row head = .eq then head :: tie cmp row rest else tie cmp row rest := by
  simp only [tie, filter_cons, beq_iff_eq]

theorem sortBy_perm (rows : List Row) : (sortBy cmp rows).Perm rows :=
  perm_insertionSort (Below cmp) rows

variable [TransCmp cmp]

theorem tied_self (row : Row) : cmp row row = .eq := ReflCmp.compare_self

theorem below_trans : ∀ left middle right : Row,
    Below cmp left middle → Below cmp middle right → Below cmp left right :=
  fun _ _ _ first second => TransCmp.isLE_trans first second

theorem below_total (left right : Row) : Below cmp left right ∨ Below cmp right left := by
  have swapped : cmp right left = (cmp left right).swap := OrientedCmp.eq_swap
  rw [Below, Below, swapped]
  cases cmp left right with
  | lt | eq => exact .inl rfl
  | gt => exact .inr rfl

theorem tied_of_below {left right : Row} (up : Below cmp left right) (down : Below cmp right left) :
    cmp left right = .eq := by
  have swapped : cmp right left = (cmp left right).swap := OrientedCmp.eq_swap
  rw [Below, swapped] at down
  cases same : cmp left right with
  | lt => rw [same] at down; cases down
  | eq => rfl
  | gt => rw [Below, same] at up; cases up

theorem tied_below {row left right : Row} (first : cmp row left = .eq) (second : cmp row right = .eq) :
    Below cmp left right := by
  rw [Below, ← TransCmp.congr_left first, second]
  rfl

instance : IsTrans Row (Below cmp) := ⟨below_trans⟩

instance : Std.Total (Below cmp) := ⟨below_total⟩

theorem sorted_sortBy (rows : List Row) : Sorted cmp (sortBy cmp rows) :=
  pairwise_insertionSort (Below cmp) rows

/-- Where ties are equal rows, the order of the rows does not matter. -/
theorem sortBy_congr {rows others : List Row} (perm : rows.Perm others)
    (apart : ∀ left ∈ rows, ∀ right ∈ rows, cmp left right = .eq → left = right) :
    sortBy cmp rows = sortBy cmp others := by
  have same : (sortBy cmp rows).Perm (sortBy cmp others) :=
    (sortBy_perm rows).trans (perm.trans (sortBy_perm others).symm)
  apply same.eq_of_pairwise ?_ (sorted_sortBy rows) (sorted_sortBy others)
  intro left right leftIn rightIn up down
  apply apart left ((sortBy_perm rows).mem_iff.mp leftIn) right
  · exact perm.mem_iff.mpr ((sortBy_perm others).mem_iff.mp rightIn)
  · exact tied_of_below up down

/-- The sort is stable. -/
theorem tie_sortBy (row : Row) (rows : List Row) : tie cmp row (sortBy cmp rows) = tie cmp row rows := by
  have tied : Sorted cmp (tie cmp row rows) := by
    refine pairwise_of_forall_mem_list fun left inLeft right inRight => ?_
    exact tied_below ((mem_tie row left rows).mp inLeft).2 ((mem_tie row right rows).mp inRight).2
  have kept : (tie cmp row rows).Sublist (sortBy cmp rows) :=
    sublist_insertionSort tied filter_sublist
  have inside : (tie cmp row rows).Sublist (tie cmp row (sortBy cmp rows)) := by
    have again := kept.filter fun other => cmp row other == .eq
    rw [tie, filter_filter] at again
    simp only [Bool.and_self] at again
    exact again
  refine (inside.eq_of_length ?_).symm
  exact (((sortBy_perm rows).filter _).length_eq).symm

theorem sorted_ext (left right : List Row) (leftSorted : Sorted cmp left)
    (rightSorted : Sorted cmp right) (same : ∀ row, tie cmp row left = tie cmp row right) :
    left = right := by
  induction left generalizing right with
  | nil =>
    cases right with
    | nil => rfl
    | cons head rest =>
      have found := same head
      rw [tie_cons head head rest, if_pos (tied_self head)] at found
      cases found
  | cons head rest ih =>
    have headHere : head ∈ right := by
      have found : head ∈ tie cmp head (head :: rest) :=
        (mem_tie _ _ _).mpr ⟨mem_cons_self, tied_self _⟩
      rw [same] at found
      exact ((mem_tie _ _ _).mp found).1
    cases right with
    | nil => cases headHere
    | cons first others =>
      obtain ⟨leftBelow, leftRest⟩ := pairwise_cons.mp leftSorted
      obtain ⟨rightBelow, rightRest⟩ := pairwise_cons.mp rightSorted
      have firstHere : first ∈ head :: rest := by
        have found : first ∈ tie cmp first (first :: others) :=
          (mem_tie _ _ _).mpr ⟨mem_cons_self, tied_self _⟩
        rw [← same] at found
        exact ((mem_tie _ _ _).mp found).1
      have up : Below cmp head first := by
        rcases mem_cons.mp firstHere with equal | later
        · exact equal ▸ refl _
        · exact leftBelow first later
      have down : Below cmp first head := by
        rcases mem_cons.mp headHere with equal | later
        · exact equal ▸ refl _
        · exact rightBelow head later
      have heads := same head
      rw [tie_cons, tie_cons, if_pos (tied_self head), if_pos (tied_of_below up down)] at heads
      obtain ⟨rfl, _⟩ := List.cons.inj heads
      refine congrArg (head :: ·) (ih others leftRest rightRest fun row => ?_)
      have both := same row
      rw [tie_cons, tie_cons] at both
      split at both
      · exact (List.cons.inj both).2
      · exact both

end Ties

section Canonical
variable [DecidableEq Row] {cmp : Row → Row → Ordering}

theorem dedup_cons (row : Row) (rest : List Row) :
    dedup (row :: rest) = if rest.head? = some row then dedup rest else row :: dedup rest := rfl

variable (rows : List Row)

theorem dedup_sublist : (dedup rows).Sublist rows := by
  induction rows with
  | nil => exact List.Sublist.refl _
  | cons row rest ih =>
    rw [dedup_cons]
    split
    · exact ih.cons row
    · exact ih.cons_cons row

theorem head_dedup : (dedup rows).head? = rows.head? := by
  induction rows with
  | nil => rfl
  | cons row rest ih =>
    rw [dedup_cons]
    split
    next same => rw [ih, same]; rfl
    next => rfl

theorem dedup_eq_nil : dedup rows = [] ↔ rows = [] := by
  rw [← head?_eq_none_iff, head_dedup, head?_eq_none_iff]

theorem dedup_append (left right : List Row) : dedup (dedup left ++ right) = dedup (left ++ right) := by
  induction left with
  | nil => rfl
  | cons row rest ih =>
    have heads : (dedup rest ++ right).head? = (rest ++ right).head? := by
      rw [head?_append, head?_append, head_dedup]
    rw [dedup_cons, cons_append, dedup_cons row (rest ++ right)]
    split
    next same =>
        have first : (rest ++ right).head? = some row := by rw [head?_append, same]; rfl
        rw [ih, if_pos first]
    next => rw [cons_append, dedup_cons, heads, ih]

variable [TransCmp cmp]

/-- In a sorted list tied rows are neighbours. -/
theorem tie_dedup (row : Row) (rows : List Row) (sorted : Sorted cmp rows) :
    tie cmp row (dedup rows) = dedup (tie cmp row rows) := by
  induction rows with
  | nil => rfl
  | cons head rest ih =>
    obtain ⟨below, restSorted⟩ := pairwise_cons.mp sorted
    have later := ih restSorted
    rw [dedup_cons, tie_cons row head rest]
    by_cases tied : cmp row head = .eq
    · rw [if_pos tied, dedup_cons]
      have heads : rest.head? = some head ↔ (tie cmp row rest).head? = some head := by
        cases rest with
        | nil => exact Iff.rfl
        | cons next others =>
          rw [tie_cons]
          split
          next => exact Iff.rfl
          next apart =>
              refine iff_of_false (fun same => ?_) (fun found => ?_)
              · exact apart (Option.some.inj same ▸ tied)
              · have among := mem_of_mem_head? found
                obtain ⟨inside, _⟩ := (mem_tie row head others).mp among
                have down := (pairwise_cons.mp restSorted).1 head inside
                have up := below next mem_cons_self
                exact apart ((TransCmp.congr_left tied).trans (tied_of_below up down))
      by_cases again : rest.head? = some head
      · rw [if_pos again, if_pos (heads.mp again), later]
      · rw [if_neg again, if_neg (mt heads.mpr again), tie_cons, if_pos tied, later]
    · split
      next => exact later
      next => rw [tie_cons, if_neg tied, later]

theorem sorted_canonical (rows : List Row) : Sorted cmp (canonical cmp rows) :=
  (sorted_sortBy rows).sublist (dedup_sublist _)

theorem tie_canonical (row : Row) (rows : List Row) :
    tie cmp row (canonical cmp rows) = dedup (tie cmp row rows) := by
  rw [canonical, tie_dedup row _ (sorted_sortBy rows), tie_sortBy]

omit [TransCmp cmp] in
theorem mem_dedup (row : Row) (rows : List Row) : row ∈ dedup rows ↔ row ∈ rows := by
  induction rows with
  | nil => exact Iff.rfl
  | cons head rest ih =>
    rw [dedup_cons, mem_cons]
    split
    next again =>
        rw [ih]
        refine ⟨.inr, fun either => either.elim (fun same => ?_) id⟩
        exact same ▸ mem_of_mem_head? (head_dedup rest ▸ again)
    next => rw [mem_cons, ih]

omit [TransCmp cmp] in
theorem mem_canonical (row : Row) (rows : List Row) : row ∈ canonical cmp rows ↔ row ∈ rows := by
  rw [canonical, mem_dedup]
  exact (sortBy_perm rows).mem_iff

/-- The canonical form depends only on each class of tied rows. -/
theorem canonical_congr (left right : List Row)
    (same : ∀ row, dedup (tie cmp row left) = dedup (tie cmp row right)) :
    canonical cmp left = canonical cmp right := by
  refine sorted_ext _ _ (sorted_canonical left) (sorted_canonical right) fun row => ?_
  rw [tie_canonical, tie_canonical]
  exact same row

theorem canonical_append (left right : List Row) :
    canonical cmp (canonical cmp left ++ right) = canonical cmp (left ++ right) := by
  refine canonical_congr _ _ fun row => ?_
  rw [tie_append, tie_append, tie_canonical, dedup_append]

omit [TransCmp cmp] in
theorem canonical_eq_nil (rows : List Row) : canonical cmp rows = [] ↔ rows = [] := by
  rw [canonical, dedup_eq_nil]
  constructor
  · intro empty
    exact List.Perm.eq_nil (empty ▸ (sortBy_perm rows).symm)
  · rintro rfl
    rfl

theorem canonical_canonical (rows : List Row) : canonical cmp (canonical cmp rows) = canonical cmp rows := by
  have both : canonical cmp (canonical cmp rows ++ []) = canonical cmp (rows ++ []) :=
    canonical_append rows []
  rwa [append_nil, append_nil] at both

theorem canonical_filter (keep : Row → Bool) (rows : List Row)
    (whole : ∀ left right, cmp left right = .eq → keep left = keep right) :
    canonical cmp (rows.filter keep) = (canonical cmp rows).filter keep := by
  have classes : ∀ row (among : List Row), tie cmp row (among.filter keep) =
      if keep row then tie cmp row among else [] := by
    intro row among
    rw [tie, filter_filter]
    split
    next kept =>
        refine filter_congr fun other _ => ?_
        cases tied : cmp row other == .eq with
        | false => rfl
        | true => rw [Bool.true_and, ← whole row other (beq_iff_eq.mp tied), kept]
    next gone =>
        refine filter_eq_nil_iff.mpr fun other _ both => ?_
        obtain ⟨tied, kept⟩ := (Bool.and_eq_true _ _).mp both
        exact gone ((whole row other (beq_iff_eq.mp tied)).trans kept)
  refine sorted_ext _ _ (sorted_canonical _) ((sorted_canonical rows).filter _) fun row => ?_
  rw [tie_canonical, classes, classes, tie_canonical]
  split
  · rfl
  · rfl

end Canonical

/-- Groups of which at most one contributes may come in any order. -/
theorem flatMap_perm_alone (contribute : Group → List Row) {groups others : List Group}
    (perm : groups.Perm others)
    (alone : groups.Pairwise fun left right => contribute left = [] ∨ contribute right = []) :
    groups.flatMap contribute = others.flatMap contribute := by
  induction perm with
  | nil => rfl
  | cons group rest ih =>
    rw [flatMap_cons, flatMap_cons, ih (pairwise_cons.mp alone).2]
  | swap first second rest =>
    simp only [flatMap_cons]
    obtain ⟨apart, _⟩ := pairwise_cons.mp alone
    rcases apart first mem_cons_self with empty | empty
    · rw [empty, nil_append, nil_append]
    · rw [empty, nil_append, nil_append]
  | trans first _ ihFirst ihSecond =>
    rw [ihFirst alone]
    exact ihSecond ((first.pairwise_iff fun either => either.symm).mp alone)

/-- Groups without ties between them may come in any order. -/
theorem canonical_groups [DecidableEq Row] {cmp : Row → Row → Ordering} [TransCmp cmp]
    (rowsOf : Group → List Row) {groups others : List Group} (perm : groups.Perm others)
    (untied : groups.Pairwise fun left right =>
      ∀ first ∈ rowsOf left, ∀ second ∈ rowsOf right, cmp first second ≠ .eq) :
    canonical cmp (groups.flatMap rowsOf) = canonical cmp (others.flatMap rowsOf) := by
  refine canonical_congr _ _ fun row => congrArg dedup ?_
  rw [tie, tie, filter_flatMap, filter_flatMap]
  refine flatMap_perm_alone _ perm (untied.imp fun {left right} apart => ?_)
  cases found : tie cmp row (rowsOf left) with
  | nil => exact .inl found
  | cons first rest =>
    obtain ⟨firstHere, firstTied⟩ := (mem_tie row first _).mp (found ▸ mem_cons_self)
    refine .inr (filter_eq_nil_iff.mpr fun second secondHere tied => ?_)
    exact apart first firstHere second secondHere
      ((TransCmp.congr_left firstTied).symm.trans (beq_iff_eq.mp tied))

section First
variable {Key : Type*} [DecidableEq Key] (key : Row → Key)

def firstPerKey (seen : List Key) : List Row → List Row
  | [] => []
  | row :: rest =>
    if key row ∈ seen then firstPerKey seen rest
    else row :: firstPerKey (key row :: seen) rest

section
variable (seen : List Key) (rows : List Row)
include seen rows

theorem first_per_key_sublist : (firstPerKey key seen rows).Sublist rows := by
  induction rows generalizing seen with
  | nil => exact List.Sublist.refl _
  | cons row rest ih =>
    rw [firstPerKey]
    split
    · exact (ih seen).cons row
    · exact (ih (key row :: seen)).cons_cons row

theorem first_per_key_unseen (row : Row) (kept : row ∈ firstPerKey key seen rows) : key row ∉ seen := by
  induction rows generalizing seen with
  | nil => cases kept
  | cons head rest ih =>
    rw [firstPerKey] at kept
    split at kept
    · exact ih seen kept
    rename_i new
    rcases mem_cons.mp kept with rfl | later
    · exact new
    · exact fun old => ih (key head :: seen) later (mem_cons_of_mem _ old)

theorem first_per_key_nodup : ((firstPerKey key seen rows).map key).Nodup := by
  induction rows generalizing seen with
  | nil => exact nodup_nil
  | cons row rest ih =>
    rw [firstPerKey]
    split
    · exact ih seen
    apply nodup_cons.mpr
    constructor
    · intro again
      obtain ⟨other, kept, same⟩ := mem_map.mp again
      exact first_per_key_unseen key _ rest other kept (same ▸ mem_cons_self)
    · exact ih (key row :: seen)

/-- Every new key is met. -/
theorem first_per_key_met (row : Row) (among : row ∈ rows)
    (new : key row ∉ seen) : key row ∈ (firstPerKey key seen rows).map key := by
  induction rows generalizing seen with
  | nil => cases among
  | cons head rest ih =>
    rw [firstPerKey]
    split
    · next old =>
        rcases mem_cons.mp among with rfl | later
        · exact absurd old new
        · exact ih seen later new
    rw [map_cons]
    rcases mem_cons.mp among with rfl | later
    · exact mem_cons_self
    by_cases same : key row = key head
    · exact same ▸ mem_cons_self
    apply mem_cons_of_mem
    apply ih (key head :: seen) later
    intro either
    rcases mem_cons.mp either with equal | old
    · exact same equal
    · exact new old

end

/-- What is kept stands before the other rows with its key. -/
theorem first_per_key_least {before : Row → Row → Prop} (refl : ∀ row, before row row)
    (seen : List Key) (rows : List Row) (sorted : rows.Pairwise before) (row other : Row)
    (kept : row ∈ firstPerKey key seen rows) (among : other ∈ rows) (same : key other = key row) :
    before row other := by
  induction rows generalizing seen with
  | nil => cases among
  | cons head rest ih =>
    obtain ⟨first, later⟩ := pairwise_cons.mp sorted
    rw [firstPerKey] at kept
    split at kept
    · next old =>
        rcases mem_cons.mp among with rfl | inside
        · exact absurd (same ▸ old) (first_per_key_unseen key seen rest row kept)
        · exact ih seen later kept inside
    · rcases mem_cons.mp kept with rfl | after
      · rcases mem_cons.mp among with rfl | inside
        · exact refl other
        · exact first other inside
      · rcases mem_cons.mp among with rfl | inside
        · exact absurd (same ▸ mem_cons_self) (first_per_key_unseen key _ rest row after)
        · exact ih (key head :: seen) later after inside

end First

end PerlLsp.StableSort
