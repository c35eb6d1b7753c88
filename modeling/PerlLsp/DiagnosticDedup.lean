import PerlLsp.StableSort
import Mathlib.Data.List.Destutter
import Mathlib.Data.List.Sort
import Mathlib.Data.String.Basic

/-! Deduplicated diagnostics (providers/diagnostics/dedup.rs): exact duplicates go, then
parse errors that follow another one closely. -/
namespace PerlLsp.DiagnosticDedup
open Std StableSort List

inductive DiagnosticSeverity where
  | error
  | warning
  | information
  | hint
  deriving DecidableEq

/-- The declared discriminant, by which severities are ordered. -/
def DiagnosticSeverity.value : DiagnosticSeverity → Nat
  | .error => 1
  | .warning => 2
  | .information => 3
  | .hint => 4

variable {Rest : Type}

/-- What is not compared is the rest. -/
structure Diagnostic (Rest : Type) where
  range : Nat × Nat
  severity : DiagnosticSeverity
  code : Option String
  message : String
  rest : Rest
  deriving DecidableEq

def Diagnostic.compared (diagnostic : Diagnostic Rest) : Diagnostic Unit :=
  { diagnostic with rest := () }

def cascadeThresholdBytes : Nat := 10

def parseErrorCodes : List String := ["PL001", "PL002", "PL003"]

def isParseErrorDiagnostic (d : Diagnostic Rest) : Bool :=
  d.severity = .error && d.code.any parseErrorCodes.contains

def compareDiagnostics : Diagnostic Rest → Diagnostic Rest → Ordering :=
  compareLex (compareOn fun d => d.range.1) <|
    compareLex (compareOn fun d => d.range.2) <|
      compareLex (compareOn fun d => d.severity.value) <|
        compareLex (compareOn fun d => d.code) (compareOn fun d => d.message)

def compareStarts : Diagnostic Rest → Diagnostic Rest → Ordering := compareOn fun d => d.range.1

/-- `kept.last()` is the head that the next one is measured against. -/
def clusterHeads (parseErrors : List (Diagnostic Rest)) : List (Diagnostic Rest) :=
  parseErrors.destutter fun head diag => cascadeThresholdBytes < diag.range.1 - head.range.1

def suppressCascades (diagnostics : List (Diagnostic Rest)) : List (Diagnostic Rest) :=
  if diagnostics.isEmpty then diagnostics
  else
    let (parseErrors, others) := diagnostics.partition isParseErrorDiagnostic
    if parseErrors.length ≤ 1 then parseErrors ++ others
    else clusterHeads (sortBy compareStarts parseErrors) ++ others

def withoutDuplicates (diagnostics : List (Diagnostic Rest)) : List (Diagnostic Rest) :=
  (sortBy compareDiagnostics diagnostics).destutter fun left right => left.compared ≠ right.compared

def deduplicateDiagnostics (diagnostics : List (Diagnostic Rest)) : List (Diagnostic Rest) :=
  suppressCascades (withoutDuplicates diagnostics)

instance : TransCmp (@compareDiagnostics Rest) := by
  unfold compareDiagnostics
  infer_instance

instance : TransCmp (@compareStarts Rest) := by
  unfold compareStarts
  infer_instance

theorem tied_iff (left right : Diagnostic Rest) :
    compareDiagnostics left right = .eq ↔ left.compared = right.compared := by
  have severity : left.severity.value = right.severity.value ↔ left.severity = right.severity := by
    cases left.severity <;> cases right.severity <;> simp [DiagnosticSeverity.value]
  simp [compareDiagnostics, compareLex_eq_eq, compareOn, Diagnostic.compared, severity, Prod.ext_iff, and_assoc]

section Destutter
variable {Row : Type} {sorted apart : Row → Row → Prop} [DecidableRel apart]

/-- What sets neighbours of a sorted list apart sets any two that are kept apart. -/
theorem pairwise_destutter {beyond : Row → Row → Prop}
    (next : ∀ left right, sorted left right → apart left right → beyond left right)
    (further : ∀ left middle right, beyond left middle → sorted middle right →
      beyond left right) {rows : List Row} (inOrder : rows.Pairwise sorted) :
    (rows.destutter apart).Pairwise beyond := by
  cases rows with
  | nil => exact .nil
  | cons head rows =>
    rw [destutter_cons']
    induction rows generalizing head with
    | nil => exact pairwise_singleton _ _
    | cons row rows ih =>
      obtain ⟨first, others⟩ := pairwise_cons.mp inOrder
      rw [destutter'_cons]
      split
      next gap =>
        refine pairwise_cons.mpr ⟨fun later member => ?_, ih row others⟩
        rcases mem_cons.mp ((destutter'_sublist rows apart row).subset member) with rfl | member
        · exact next _ _ (first _ mem_cons_self) gap
        · exact further _ _ _ (next _ _ (first _ mem_cons_self) gap) ((pairwise_cons.mp others).1 _ member)
      next => exact ih head (inOrder.sublist ((sublist_cons_self _ _).cons_cons _))

theorem mem_destutter {rows : List Row} (inOrder : rows.Pairwise sorted) {row : Row}
    (member : row ∈ rows) : ∃ kept ∈ rows.destutter apart,
      kept = row ∨ sorted kept row ∧ ¬ apart kept row := by
  cases rows with
  | nil => cases member
  | cons head rows =>
    rw [destutter_cons']
    induction rows generalizing head with
    | nil => exact ⟨row, member, .inl rfl⟩
    | cons next rows ih =>
      obtain ⟨first, others⟩ := pairwise_cons.mp inOrder
      rw [destutter'_cons]
      rcases mem_cons.mp member with rfl | later
      · refine ⟨row, ?_, .inl rfl⟩
        split
        · exact mem_cons_self
        · exact mem_destutter' rows apart row
      split
      next =>
        obtain ⟨kept, inside, covers⟩ := ih next others later
        exact ⟨kept, mem_cons_of_mem _ inside, covers⟩
      next near =>
        rcases mem_cons.mp later with rfl | later
        · exact ⟨head, mem_destutter' rows apart head, .inr ⟨first _ mem_cons_self, near⟩⟩
        · exact ih head (inOrder.sublist ((sublist_cons_self _ _).cons_cons _)) (.tail _ later)

end Destutter

variable (rows : List (Diagnostic Rest))

theorem suppress_eq : suppressCascades rows =
    clusterHeads (sortBy compareStarts (rows.filter isParseErrorDiagnostic)) ++
      rows.filter fun row => !isParseErrorDiagnostic row := by
  have others : (not ∘ isParseErrorDiagnostic : Diagnostic Rest → Bool) =
    fun row => !isParseErrorDiagnostic row := rfl
  unfold suppressCascades
  split
  next none => simp_all [clusterHeads, sortBy]
  next =>
    simp only [partition_eq_filter_filter, others]
    split
    next few =>
      match rows.filter isParseErrorDiagnostic, few with
      | [], _ => rfl
      | [_], _ => rfl
    next => rfl

theorem by_starts {left right : Diagnostic Rest} (below : Below compareDiagnostics left right) :
    Below compareStarts left right := by
  unfold Below compareDiagnostics compareLex at below
  unfold Below compareStarts
  revert below
  cases compareOn (fun d : Diagnostic Rest => d.range.1) left right <;> simp

theorem sorted_distinct : Sorted compareDiagnostics (withoutDuplicates rows) :=
  (sorted_sortBy rows).sublist (destutter_sublist _ _)

theorem dedup_eq : deduplicateDiagnostics rows =
    clusterHeads ((withoutDuplicates rows).filter isParseErrorDiagnostic) ++
      (withoutDuplicates rows).filter fun row => !isParseErrorDiagnostic row := by
  unfold deduplicateDiagnostics
  rw [suppress_eq, sortBy, Pairwise.insertionSort_eq (((sorted_distinct rows).filter _).imp by_starts)]

/-- Two rows that are kept differ in what is compared. -/
theorem distinct_nodup : ((withoutDuplicates rows).map Diagnostic.compared).Nodup := by
  have next (left right : Diagnostic Rest) (below : Below compareDiagnostics left right)
      (different : left.compared ≠ right.compared) : compareDiagnostics left right = .lt := by
    cases ordered : compareDiagnostics left right with
    | lt => rfl
    | eq => exact absurd ((tied_iff _ _).mp ordered) different
    | gt => rw [Below, ordered] at below; cases below
  have beyond := pairwise_destutter next (fun _ _ _ => TransCmp.lt_of_lt_of_isLE) (sorted_sortBy rows)
  refine pairwise_map.mpr (beyond.imp fun less same => ?_)
  rw [(tied_iff _ _).mpr same] at less
  cases less

/-- Sorted lists of the same rows, no two of which tie, are equal. -/
theorem sorted_unique {others : List (Diagnostic Rest)} (perm : rows.Perm others)
    (apart : (rows.map Diagnostic.compared).Nodup) (sorted : Sorted compareDiagnostics rows)
    (othersSorted : Sorted compareDiagnostics others) : rows = others := by
  refine perm.eq_of_pairwise (fun left right leftIn rightIn up down => ?_) sorted othersSorted
  exact inj_on_of_nodup_map apart leftIn (perm.mem_iff.mpr rightIn)
    ((tied_iff _ _).mp (tied_of_below up down))

/-- A part that stands in order is found again after the sort. -/
theorem filter_distinct (keep : Diagnostic Rest → Bool) (apart : (rows.map Diagnostic.compared).Nodup)
    (sorted : Sorted compareDiagnostics (rows.filter keep)) :
    (withoutDuplicates rows).filter keep = rows.filter keep := by
  have perm : (sortBy compareDiagnostics rows).Perm rows := sortBy_perm rows
  have chain : (sortBy compareDiagnostics rows).IsChain fun left right =>
      left.compared ≠ right.compared :=
    (pairwise_map.mp ((perm.map _).nodup_iff.mpr apart)).isChain
  rw [withoutDuplicates, destutter_of_isChain _ _ chain]
  refine (sorted_unique _ (perm.filter keep).symm ?_ sorted ((sorted_sortBy rows).filter _)).symm
  exact apart.sublist (filter_sublist.map _)

theorem heads_sublist : (clusterHeads rows).Sublist rows := destutter_sublist _ _

theorem dedup_idempotent :
    deduplicateDiagnostics (deduplicateDiagnostics rows) = deduplicateDiagnostics rows := by
  have sorted := sorted_distinct rows
  have apart := distinct_nodup rows
  rw [dedup_eq rows]
  generalize withoutDuplicates rows = distinct at sorted apart
  have inside : (clusterHeads (distinct.filter isParseErrorDiagnostic)).Sublist
    (distinct.filter isParseErrorDiagnostic) := heads_sublist _
  have again : clusterHeads (clusterHeads (distinct.filter isParseErrorDiagnostic)) =
    clusterHeads (distinct.filter isParseErrorDiagnostic) := destutter_idem _ _
  generalize clusterHeads (distinct.filter isParseErrorDiagnostic) = heads at inside again ⊢
  generalize others : (distinct.filter fun row => !isParseErrorDiagnostic row) = rest
  have whole : (heads ++ rest).Sublist (distinct.filter isParseErrorDiagnostic ++ rest) :=
    inside.append_right _
  have parse (row : Diagnostic Rest) (member : row ∈ heads) : isParseErrorDiagnostic row :=
    (mem_filter.mp (inside.subset member)).2
  have errors : (heads ++ rest).filter isParseErrorDiagnostic = heads := by
    rw [filter_append, filter_eq_self.mpr parse, ← others, filter_filter]
    simp
  have apartFrom : (heads ++ rest).filter (fun row => !isParseErrorDiagnostic row) = rest := by
    rw [filter_append, ← others, filter_filter, filter_eq_nil_iff.mpr, nil_append]
    · simp
    · exact fun row member => by simp [parse row member]
  have nodup : ((heads ++ rest).map Diagnostic.compared).Nodup := by
    refine Nodup.sublist (whole.map _) ?_
    rw [← others]
    exact ((filter_append_perm _ distinct).map _).nodup_iff.mpr apart
  rw [dedup_eq, filter_distinct _ _ nodup, filter_distinct _ _ nodup, errors, apartFrom, again]
  · rw [apartFrom, ← others]
    exact sorted.filter _
  · rw [errors]
    exact (sorted.filter _).sublist inside

theorem heads_compared : (clusterHeads rows).map Diagnostic.compared =
    clusterHeads (rows.map Diagnostic.compared) := map_destutter fun _ _ _ _ => Iff.rfl

theorem dedup_compared : (deduplicateDiagnostics rows).map Diagnostic.compared =
    deduplicateDiagnostics (rows.map Diagnostic.compared) := by
  have sorted : (sortBy compareDiagnostics rows).map Diagnostic.compared =
      sortBy compareDiagnostics (rows.map Diagnostic.compared) :=
    map_insertionSort _ _ _ _ fun _ _ _ _ => Iff.rfl
  have distinct : (withoutDuplicates rows).map Diagnostic.compared =
      withoutDuplicates (rows.map Diagnostic.compared) := by
    rw [withoutDuplicates, withoutDuplicates, ← sorted]
    exact map_destutter fun _ _ _ _ => Iff.rfl
  rw [dedup_eq, dedup_eq, map_append, ← distinct, filter_map, filter_map, heads_compared]
  rfl

theorem dedup_perm {others : List (Diagnostic Rest)} (perm : rows.Perm others) :
    (deduplicateDiagnostics rows).map Diagnostic.compared =
      (deduplicateDiagnostics others).map Diagnostic.compared := by
  have same : sortBy compareDiagnostics (rows.map Diagnostic.compared) =
      sortBy compareDiagnostics (others.map Diagnostic.compared) :=
    sortBy_congr (perm.map _) fun left _ right _ tied => (tied_iff left right).mp tied
  rw [dedup_compared, dedup_compared, deduplicateDiagnostics, deduplicateDiagnostics,
    withoutDuplicates, withoutDuplicates, same]

theorem mem_distinct {row : Diagnostic Rest} (member : row ∈ rows) :
    ∃ kept ∈ withoutDuplicates rows, kept.compared = row.compared := by
  have sorted : Sorted compareDiagnostics (sortBy compareDiagnostics rows) := sorted_sortBy rows
  obtain ⟨kept, inside, same | ⟨_, near⟩⟩ : ∃ kept ∈ withoutDuplicates rows, _ :=
    mem_destutter sorted ((sortBy_perm rows).mem_iff.mpr member)
  · exact ⟨kept, inside, congrArg _ same⟩
  · exact ⟨kept, inside, not_not.mp near⟩

theorem errors_by_start : ((withoutDuplicates rows).filter isParseErrorDiagnostic).Pairwise
    fun left right => left.range.1 ≤ right.range.1 :=
  ((sorted_distinct rows).filter _).imp fun below => by
    simpa [Below, compareStarts, compareOn, isLE_compare] using by_starts below

theorem filter_dedup : (deduplicateDiagnostics rows).filter isParseErrorDiagnostic =
    clusterHeads ((withoutDuplicates rows).filter isParseErrorDiagnostic) := by
  rw [dedup_eq, filter_append, filter_filter, filter_eq_self.mpr]
  · simp
  · exact fun row member => (mem_filter.mp ((heads_sublist _).subset member)).2

theorem dedup_subset {row : Diagnostic Rest} (member : row ∈ deduplicateDiagnostics rows) : row ∈ rows := by
  have distinct : row ∈ withoutDuplicates rows := by
    rw [dedup_eq] at member
    rcases mem_append.mp member with head | other
    · exact (mem_filter.mp ((heads_sublist _).subset head)).1
    · exact (mem_filter.mp other).1
  exact (sortBy_perm rows).mem_iff.mp ((destutter_sublist _ _).subset distinct)

theorem other_kept {row : Diagnostic Rest} (member : row ∈ rows)
    (other : isParseErrorDiagnostic row = false) :
    ∃ kept ∈ deduplicateDiagnostics rows, kept.compared = row.compared := by
  obtain ⟨kept, inside, same⟩ := mem_distinct rows member
  have alike : isParseErrorDiagnostic kept = isParseErrorDiagnostic row :=
    congrArg (@isParseErrorDiagnostic Unit) same
  refine ⟨kept, ?_, same⟩
  rw [dedup_eq]
  exact mem_append_right _ (mem_filter.mpr ⟨inside, by rw [alike, other]; rfl⟩)

theorem heads_apart : ((deduplicateDiagnostics rows).filter isParseErrorDiagnostic).Pairwise
    fun left right => left.range.1 + cascadeThresholdBytes < right.range.1 := by
  rw [filter_dedup]
  have sorted := errors_by_start rows
  refine pairwise_destutter (fun left right below gap => ?_) (fun _ _ _ less below => ?_) sorted
  · omega
  · omega

theorem error_covered {row : Diagnostic Rest} (member : row ∈ rows) (error : isParseErrorDiagnostic row) :
    ∃ kept ∈ deduplicateDiagnostics rows, isParseErrorDiagnostic kept ∧
      kept.range.1 ≤ row.range.1 ∧ row.range.1 ≤ kept.range.1 + cascadeThresholdBytes := by
  obtain ⟨found, inside, same⟩ := mem_distinct rows member
  have alike : isParseErrorDiagnostic found = isParseErrorDiagnostic row :=
    congrArg (@isParseErrorDiagnostic Unit) same
  have start : found.range = row.range := congrArg (@Diagnostic.range Unit) same
  obtain ⟨kept, head, covers⟩ : ∃ kept ∈ clusterHeads _, _ := mem_destutter
    (errors_by_start rows) (mem_filter.mpr ⟨inside, alike.trans error⟩)
  have among : kept ∈ (deduplicateDiagnostics rows).filter isParseErrorDiagnostic :=
    filter_dedup rows ▸ head
  refine ⟨kept, (mem_filter.mp among).1, (mem_filter.mp among).2, ?_⟩
  rw [← start]
  rcases covers with rfl | ⟨below, near⟩
  · omega
  · omega

/-- Same answer however often and in whatever order, nothing lost but what another stands for. -/
theorem deduplicated :
    deduplicateDiagnostics (deduplicateDiagnostics rows) = deduplicateDiagnostics rows ∧
      (∀ others, rows.Perm others → (deduplicateDiagnostics rows).map Diagnostic.compared =
        (deduplicateDiagnostics others).map Diagnostic.compared) ∧
      (∀ row ∈ deduplicateDiagnostics rows, row ∈ rows) ∧
      (∀ row ∈ rows, isParseErrorDiagnostic row = false →
        ∃ kept ∈ deduplicateDiagnostics rows, kept.compared = row.compared) ∧
      ((deduplicateDiagnostics rows).filter isParseErrorDiagnostic).Pairwise
        (fun left right => left.range.1 + cascadeThresholdBytes < right.range.1) ∧
      ∀ row ∈ rows, isParseErrorDiagnostic row →
        ∃ kept ∈ deduplicateDiagnostics rows, isParseErrorDiagnostic kept ∧
          kept.range.1 ≤ row.range.1 ∧ row.range.1 ≤ kept.range.1 + cascadeThresholdBytes :=
  ⟨dedup_idempotent rows, fun _ => dedup_perm rows, fun _ => dedup_subset rows,
    fun _ => other_kept rows, heads_apart rows, fun _ => error_covered rows⟩

/-- What is kept is kept once, and follows from the set of what is compared alone. -/
theorem dedup_by_set (others : List (Diagnostic Rest))
    (same : ∀ row, row ∈ rows.map Diagnostic.compared ↔ row ∈ others.map Diagnostic.compared) :
    let kept := (deduplicateDiagnostics rows).map Diagnostic.compared
    kept.Nodup ∧ kept = (deduplicateDiagnostics others).map Diagnostic.compared := by
  have members (left : List (Diagnostic Unit)) (row) : row ∈ withoutDuplicates left ↔ row ∈ left := by
    constructor
    · exact fun kept => (sortBy_perm left).mem_iff.mp ((destutter_sublist _ _).subset kept)
    · intro member
      obtain ⟨kept, inside, rfl⟩ : ∃ kept ∈ withoutDuplicates left, kept = row := mem_distinct _ member
      exact inside
  constructor
  · rw [dedup_eq]
    refine .sublist (((heads_sublist _).append_right _).map _) ?_
    exact ((filter_append_perm _ _).map _).nodup_iff.mpr (distinct_nodup rows)
  rw [dedup_compared, dedup_compared, deduplicateDiagnostics, deduplicateDiagnostics]
  congr 1
  refine sorted_unique _ ?_ (distinct_nodup _) (sorted_distinct _) (sorted_distinct _)
  rw [perm_ext_iff_of_nodup (distinct_nodup _).of_map (distinct_nodup _).of_map]
  exact fun row => by rw [members, members, same]

theorem dedup_by_set_twice : let row : Diagnostic Unit := ⟨(0, 1), .error, none, "", ()⟩
    let kept := (deduplicateDiagnostics [row]).map Diagnostic.compared
    kept.Nodup ∧ kept = (deduplicateDiagnostics [row, row]).map Diagnostic.compared :=
  dedup_by_set _ _ (by simp)

end PerlLsp.DiagnosticDedup
