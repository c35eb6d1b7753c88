import Mathlib.Algebra.BigOperators.Group.List.Basic
import Mathlib.Data.List.Infix
import Mathlib.Algebra.Ring.Int.Defs

/-! Replacing ranges of a list. A patch replaces one range by new items; several
patches in the coordinates of one list are read at once by `simultaneous`, which
walks over the positions of the list and looks neither at the order of the
patches nor at each other's effect. Patches that follow one another can be
applied one by one from the last to the first with the same result. -/
namespace PerlLsp.Splice
open List Nat

universe u
variable {α : Type u}

structure Patch (α : Type u) where
  start : Nat
  stop : Nat
  items : List α

def Patch.apply (patch : Patch α) (list : List α) : List α :=
  list.take patch.start ++ patch.items ++ list.drop patch.stop

def Patch.Covers (patch : Patch α) (position : Nat) : Prop :=
  patch.start ≤ position ∧ position < patch.stop

instance (patch : Patch α) (position : Nat) : Decidable (patch.Covers position) :=
  inferInstanceAs (Decidable (_ ∧ _))

def inserted (patches : List (Patch α)) (position : Nat) : List α :=
  (patches.filter fun patch => patch.start = position).flatMap Patch.items

def kept (list : List α) (patches : List (Patch α)) (position : Nat) : List α :=
  if ∃ patch ∈ patches, patch.Covers position then [] else list[position]?.toList

def simultaneous (list : List α) (patches : List (Patch α)) : List α :=
  (List.range (list.length + 1)).flatMap fun position =>
    inserted patches position ++ kept list patches position

def Before (earlier later : Patch α) : Prop :=
  earlier.stop ≤ later.start ∧ earlier.start < later.start

structure Ascending (length : Nat) (patches : List (Patch α)) : Prop where
  ordered : patches.Pairwise Before
  range : ∀ patch ∈ patches, patch.start ≤ patch.stop ∧ patch.stop ≤ length

/-- Patches in ascending order, each from the end of the one before it on. Several that replace
nothing may share a position. -/
structure Chained (length : Nat) (patches : List (Patch α)) : Prop where
  ordered : patches.Pairwise fun earlier later => earlier.stop ≤ later.start
  range : ∀ patch ∈ patches, patch.start ≤ patch.stop ∧ patch.stop ≤ length

theorem Ascending.chained {length : Nat} {patches : List (Patch α)}
    (ascending : Ascending length patches) : Chained length patches :=
  ⟨ascending.ordered.imp And.left, ascending.range⟩

theorem Chained.tail {length : Nat} {patch : Patch α} {patches : List (Patch α)}
    (chained : Chained length (patch :: patches)) : Chained length patches :=
  ⟨(pairwise_cons.mp chained.ordered).2, fun other among => chained.range other (mem_cons_of_mem _ among)⟩

def pieces (list : List α) : Nat → List (Patch α) → List α
  | position, [] => list.drop position
  | position, patch :: rest =>
    (list.drop position).take (patch.start - position) ++ patch.items ++
      pieces list patch.stop rest

theorem take_through (list : List α) {low high : Nat} (order : low ≤ high) :
    list.take low ++ (list.drop low).take (high - low) = list.take high := by
  rw [← take_add, add_sub_of_le order]

/-- Applied from the last to the first, the patches leave what precedes them alone. -/
theorem foldr_apply_pieces (list : List α) (patches : List (Patch α)) (position : Nat)
    (chained : Chained list.length patches) (ahead : ∀ patch ∈ patches, position ≤ patch.start) :
    patches.foldr Patch.apply list = list.take position ++ pieces list position patches := by
  induction patches generalizing position with
  | nil => exact (take_append_drop position list).symm
  | cons patch rest ih =>
    obtain ⟨ordered, inside⟩ := chained.range patch mem_cons_self
    have follow := (pairwise_cons.mp chained.ordered).1
    have tail := ih patch.stop chained.tail follow
    have reached : (list.take patch.stop).length = patch.stop := by
      rw [length_take]
      exact Nat.min_eq_left inside
    have front : (list.take patch.stop ++ pieces list patch.stop rest).take patch.start =
        list.take patch.start := by
      rw [take_append_of_le_length (by rw [reached]; exact ordered), take_take, Nat.min_eq_left ordered]
    have back : (list.take patch.stop ++ pieces list patch.stop rest).drop patch.stop =
        pieces list patch.stop rest := drop_left' reached
    rw [foldr_cons, tail, Patch.apply, front, back, pieces, ← take_through list (ahead patch mem_cons_self)]
    simp only [append_assoc]

theorem range_items (list : List α) (position count : Nat) :
    (List.range' position count).flatMap (fun place => list[place]?.toList) =
      (list.drop position).take count := by
  induction count generalizing position with
  | zero => simp
  | succ count ih =>
    rw [range'_succ, flatMap_cons, ih (position + 1)]
    by_cases inside : position < list.length
    · rw [getElem?_eq_getElem inside, drop_eq_getElem_cons inside]
      rfl
    have outside := Nat.le_of_not_lt inside
    rw [getElem?_eq_none outside, drop_eq_nil_of_le outside, drop_eq_nil_of_le (le_succ_of_le outside)]
    simp

theorem inserted_none (patches : List (Patch α)) (position : Nat)
    (apart : ∀ patch ∈ patches, patch.start ≠ position) : inserted patches position = [] := by
  unfold inserted
  rw [filter_eq_nil_iff.mpr (fun patch among => by simpa using apart patch among)]
  rfl

theorem kept_free (list : List α) (patches : List (Patch α)) (position : Nat)
    (free : ∀ patch ∈ patches, ¬patch.Covers position) :
    kept list patches position = list[position]?.toList :=
  if_neg fun ⟨patch, among, covers⟩ => free patch among covers

theorem kept_covered (list : List α) (patches : List (Patch α)) (position : Nat)
    (patch : Patch α) (among : patch ∈ patches) (covers : patch.Covers position) :
    kept list patches position = [] := if_pos ⟨patch, among, covers⟩

/-- Past its range a patch matters only where it is empty: there its items come first. -/
theorem position_after (list : List α) (patch : Patch α) (patches : List (Patch α))
    (position : Nat) (past : patch.stop ≤ position) :
    inserted (patch :: patches) position ++ kept list (patch :: patches) position =
      (if patch.start = position then patch.items else []) ++
        (inserted patches position ++ kept list patches position) := by
  have uncovered : ¬patch.Covers position := fun covers => Nat.not_lt.mpr past covers.2
  have sameKept : kept list (patch :: patches) position = kept list patches position := by
    unfold kept
    simp only [mem_cons, exists_eq_or_imp, uncovered, false_or]
  rw [sameKept]
  unfold inserted
  by_cases here : patch.start = position
  · simp [here]
  · simp [here]

/-- Inside its range a patch followed by the others puts its items at its start and nothing else. -/
theorem range_inside (list : List α) (patch : Patch α) (patches : List (Patch α))
    (nonempty : patch.start < patch.stop) (follow : ∀ other ∈ patches, patch.stop ≤ other.start) :
    (List.range' patch.start (patch.stop - patch.start)).flatMap (fun position =>
      inserted (patch :: patches) position ++ kept list (patch :: patches) position) =
      patch.items := by
  have length : patch.stop - patch.start = (patch.stop - patch.start - 1) + 1 := by omega
  have first : inserted (patch :: patches) patch.start = patch.items := by
    have others := inserted_none patches patch.start fun other among same =>
      Nat.ne_of_gt (Nat.lt_of_lt_of_le nonempty (follow other among)) same
    unfold inserted at others ⊢
    rw [filter_cons_of_pos (by simp), flatMap_cons, others, append_nil]
  have dropped := kept_covered list (patch :: patches) patch.start patch mem_cons_self
    ⟨Nat.le_refl _, nonempty⟩
  rw [length, range'_succ, flatMap_cons, first, dropped, append_nil]
  have rest : (List.range' (patch.start + 1) (patch.stop - patch.start - 1)).flatMap (fun position =>
        inserted (patch :: patches) position ++ kept list (patch :: patches) position) = [] := by
    apply flatMap_eq_nil_iff.mpr
    intro position member
    rw [mem_range'_1] at member
    have nothing := inserted_none (patch :: patches) position (by
      intro other among
      rcases mem_cons.mp among with rfl | among
      · omega
      · have later := follow other among
        omega)
    rw [nothing, kept_covered list (patch :: patches) position patch mem_cons_self ⟨by omega, by omega⟩]
    rfl
  rw [rest, append_nil]

theorem range_pieces (list : List α) (patches : List (Patch α)) (position : Nat)
    (chained : Chained list.length patches)
    (ahead : ∀ patch ∈ patches, position ≤ patch.start) (inside : position ≤ list.length) :
    (List.range' position (list.length + 1 - position)).flatMap (fun place =>
      inserted patches place ++ kept list patches place) = pieces list position patches := by
  induction patches generalizing position with
  | nil =>
    have plain : (fun place => inserted [] place ++ kept list [] place) =
        fun place => list[place]?.toList := by
      funext place
      simp [inserted, kept]
    rw [plain, range_items, pieces]
    exact take_of_length_le (by rw [length_drop]; omega)
  | cons patch rest ih =>
    obtain ⟨ordered, stopInside⟩ := chained.range patch mem_cons_self
    have follow := (pairwise_cons.mp chained.ordered).1
    have here := ahead patch mem_cons_self
    -- the positions before the patch, those it covers, and those from its end on
    have split : List.range' position (list.length + 1 - position) =
        List.range' position (patch.start - position) ++
          (List.range' patch.start (patch.stop - patch.start) ++
            List.range' patch.stop (list.length + 1 - patch.stop)) := by
      have one := @range'_append_1 position (patch.start - position) (list.length + 1 - patch.start)
      have two := @range'_append_1 patch.start (patch.stop - patch.start) (list.length + 1 - patch.stop)
      rw [add_sub_of_le here] at one
      rw [add_sub_of_le ordered] at two
      rw [two, show patch.stop - patch.start + (list.length + 1 - patch.stop) =
        list.length + 1 - patch.start by omega, one]
      congr 1
      omega
    have before : (List.range' position (patch.start - position)).flatMap (fun place =>
        inserted (patch :: rest) place ++ kept list (patch :: rest) place) =
        (list.drop position).take (patch.start - position) := by
      rw [← range_items]
      apply flatMap_congr
      intro place member
      rw [mem_range'_1] at member
      rw [inserted_none (patch :: rest) place (by
          intro other among
          rcases mem_cons.mp among with rfl | among
          · omega
          · have later := follow other among
            omega),
        kept_free list (patch :: rest) place (by
          rintro other among ⟨starts, -⟩
          rcases mem_cons.mp among with rfl | among
          · omega
          · have later := follow other among
            omega)]
      rfl
    have tail := ih patch.stop chained.tail follow stopInside
    rw [split, flatMap_append, flatMap_append, before, pieces, append_assoc, ← tail]
    congr 1
    by_cases empty : patch.start = patch.stop
    · have length : list.length + 1 - patch.stop = (list.length - patch.stop) + 1 := by omega
      rw [empty, Nat.sub_self, range'_zero, flatMap_nil, nil_append, length,
        range'_succ, flatMap_cons, flatMap_cons,
        position_after list patch rest patch.stop (Nat.le_refl _), if_pos empty,
        append_assoc]
      congr 2
      apply flatMap_congr
      intro place member
      rw [mem_range'_1] at member
      rw [position_after list patch rest place (by omega), if_neg (by omega), nil_append]
    · rw [range_inside list patch rest (Nat.lt_of_le_of_ne ordered empty) follow]
      congr 1
      apply flatMap_congr
      intro place member
      rw [mem_range'_1] at member
      rw [position_after list patch rest place (by omega), if_neg (by omega), nil_append]

theorem foldr_apply_simultaneous (list : List α) (patches : List (Patch α))
    (chained : Chained list.length patches) :
    patches.foldr Patch.apply list = simultaneous list patches := by
  rw [foldr_apply_pieces list patches 0 chained (fun _ _ => Nat.zero_le _),
    ← range_pieces list patches 0 chained (fun _ _ => Nat.zero_le _) (Nat.zero_le _), ← range_eq_range']
  rfl

/-- The patch neither removes nor adds anything. -/
def Patch.Idle (patch : Patch α) : Prop := patch.start = patch.stop ∧ patch.items = []

theorem Patch.Idle.apply {patch : Patch α} (idle : patch.Idle) (list : List α) :
    patch.apply list = list := by
  rw [Patch.apply, idle.1, idle.2, append_nil, take_append_drop]

section
variable (list : List α) (patches : List (Patch α)) (active : Patch α → Bool)
    (idle : ∀ patch ∈ patches, active patch = false → patch.Idle)
include list patches active idle

theorem foldr_apply_idle :
    (patches.filter active).foldr Patch.apply list = patches.foldr Patch.apply list := by
  induction patches with
  | nil => rfl
  | cons patch rest ih =>
    have tail := ih fun other among => idle other (mem_cons_of_mem _ among)
    cases act : active patch with
    | true => rw [filter_cons_of_pos act, foldr_cons, foldr_cons, tail]
    | false =>
      rw [filter_cons_of_neg (Bool.not_eq_true _ ▸ act), tail, foldr_cons,
        (idle patch mem_cons_self act).apply]

theorem simultaneous_idle : simultaneous list (patches.filter active) = simultaneous list patches := by
  apply flatMap_congr
  intro position _
  have sameKept : kept list (patches.filter active) position = kept list patches position := by
    unfold kept
    congr 1
    rw [eq_iff_iff]
    constructor
    · rintro ⟨patch, among, covers⟩
      exact ⟨patch, (mem_filter.mp among).1, covers⟩
    · rintro ⟨patch, among, covers⟩
      refine ⟨patch, mem_filter.mpr ⟨among, ?_⟩, covers⟩
      by_contra inactive
      have vacant := (idle patch among (Bool.of_not_eq_true inactive)).1
      obtain ⟨low, high⟩ := covers
      omega
  have sameInserted : inserted (patches.filter active) position = inserted patches position := by
    clear sameKept
    induction patches with
    | nil => rfl
    | cons patch rest ih =>
      have tail := ih fun other among => idle other (mem_cons_of_mem _ among)
      unfold inserted at tail ⊢
      cases act : active patch with
      | true =>
        rw [filter_cons_of_pos act, filter_cons, filter_cons]
        split
        · rw [flatMap_cons, flatMap_cons, tail]
        · exact tail
      | false =>
        have vacant := (idle patch mem_cons_self act).2
        rw [filter_cons_of_neg (Bool.not_eq_true _ ▸ act), filter_cons, tail]
        split
        · rw [flatMap_cons, vacant, nil_append]
        · rfl
  rw [sameKept, sameInserted]

end

/-- What a patch puts in is there afterwards. -/
theorem items_in_simultaneous (list : List α) {patches : List (Patch α)} {patch : Patch α}
    (among : patch ∈ patches) (inside : patch.start ≤ list.length) :
    patch.items ⊆ simultaneous list patches := by
  intro item held
  refine mem_flatMap.mpr ⟨patch.start, mem_range.mpr (lt_succ_of_le inside), ?_⟩
  refine mem_append_left _ (mem_flatMap.mpr ⟨patch, ?_, held⟩)
  exact mem_filter.mpr ⟨among, decide_eq_true rfl⟩

/-- The simultaneous reading does not depend on the patches' order, as long as no two start
together. -/
theorem simultaneous_perm (list : List α) {left right : List (Patch α)} (same : left.Perm right)
    (ascending : Ascending list.length left) : simultaneous list left = simultaneous list right := by
  apply flatMap_congr
  intro position _
  have sameKept : kept list left position = kept list right position := by
    unfold kept
    simp only [same.mem_iff]
  -- at most one patch starts at the position, so the filtered lists are equal
  have sameInserted : left.filter (fun patch => patch.start = position) =
      right.filter (fun patch => patch.start = position) := by
    have filtered := same.filter fun patch => decide (patch.start = position)
    have apart := ascending.ordered.filter fun patch => decide (patch.start = position)
    cases found : left.filter fun patch => decide (patch.start = position) with
    | nil =>
      rw [found] at filtered
      exact (nil_perm.mp filtered).symm
    | cons first others =>
      have single : others = [] := by
        cases others with
        | nil => rfl
        | cons second others =>
          have startsAt : ∀ patch ∈ first :: second :: others, patch.start = position := by
            intro patch among
            rw [← found] at among
            simpa using (mem_filter.mp among).2
          rw [found] at apart
          have strict := ((pairwise_cons.mp apart).1 second mem_cons_self).2
          rw [startsAt first mem_cons_self, startsAt second (mem_cons_of_mem _ mem_cons_self)] at strict
          exact absurd strict (Nat.lt_irrefl _)
      rw [found, single] at filtered
      rw [single]
      exact (perm_singleton.mp filtered.symm).symm
  rw [sameKept, inserted, inserted, sameInserted]

end PerlLsp.Splice
