import Mathlib.Data.List.Basic
import Mathlib.Data.Nat.Basic

/-! Ordered tables, the model of a `BTreeMap`: what an insertion leaves in the other
rows, and the rows in the order of their keys. -/
namespace PerlLsp.Tables
open Std List TreeMap

universe u v
variable {Key : Type u} {Value : Type v} [Ord Key] [TransOrd Key] [LawfulEqOrd Key]

def rows {Key : Type u} {Value : Type v} [Ord Key] (table : TreeMap Key Value) : List Value :=
  table.toList.map Prod.snd

theorem getElem?_insert [DecidableEq Key] (table : TreeMap Key Value) (key : Key)
    (value : Value) (other : Key) :
    (table.insert key value)[other]? = if key = other then some value else table[other]? := by
  simp only [TreeMap.getElem?_insert, Std.compare_eq_iff_eq]

variable (table : TreeMap Key Value) (keys : List Key) (key : Key) (value : Value) (other : Key)

theorem getElem?_erase [DecidableEq Key] :
    (table.erase key)[other]? = if key = other then none else table[other]? := by
  simp only [TreeMap.getElem?_erase, Std.compare_eq_iff_eq]

/-- What holds of every row of a table and of a new row holds of every row after
the insertion. -/
theorem forall_insert (holds : Key → Value → Prop) (key : Key) (value : Value)
    (every : ∀ other row, key ≠ other → table[other]? = some row → holds other row)
    (added : holds key value) :
    ∀ other row, (table.insert key value)[other]? = some row → holds other row := by
  intro other row found
  classical
  rw [getElem?_insert] at found
  by_cases same : key = other
  · rw [if_pos same] at found
    cases found
    exact same ▸ added
  · exact every other row same ((if_neg same).symm.trans found)

theorem mem_rows (found : table[key]? = some value) : value ∈ rows table :=
  mem_map.mpr ⟨(key, value), mem_toList_iff_getElem?_eq_some.mpr found, rfl⟩

omit [LawfulEqOrd Key] in
theorem size_insert_absent (table : TreeMap Key Value) (key : Key) (value : Value)
    (absent : key ∉ table) : (table.insert key value).size = table.size + 1 := by
  rw [size_insert, if_neg (mt contains_iff_mem.mp absent)]

omit [LawfulEqOrd Key] in
theorem size_insert_present (table : TreeMap Key Value) (key : Key) (value : Value)
    (present : key ∈ table) : (table.insert key value).size = table.size := by
  rw [size_insert, if_pos (contains_iff_mem.mpr present)]

omit [LawfulEqOrd Key] in
theorem size_erase_present (table : TreeMap Key Value) (key : Key) (present : key ∈ table) :
    (table.erase key).size + 1 = table.size := by
  have filled : table.size ≠ 0 := by
    intro zero
    have empty : table.isEmpty = true := by rw [isEmpty_eq_size_eq_zero, zero]; rfl
    exact not_mem_of_isEmpty empty present
  rw [size_erase, if_pos (contains_iff_mem.mpr present)]
  omega

omit [LawfulEqOrd Key] in
theorem toList_nodup (table : TreeMap Key Value) : table.toList.Nodup := by
  refine (distinct_keys_toList (t := table)).imp ?_
  rintro left right different rfl
  exact different ReflCmp.compare_self

theorem keys_nodup (table : TreeMap Key Value) : (table.toList.map Prod.fst).Nodup := by
  refine pairwise_map.mpr ((distinct_keys_toList (t := table)).imp ?_)
  intro left right different same
  exact different (Std.compare_eq_iff_eq.mpr same)

theorem insert_perm (absent : key ∉ table) :
    (table.insert key value).toList.Perm ((key, value) :: table.toList) := by
  classical
  have fresh : (key, value) ∉ table.toList := fun among =>
    absent (mem_iff_isSome_getElem?.mpr (by rw [mem_toList_iff_getElem?_eq_some.mp among]; rfl))
  refine (perm_ext_iff_of_nodup (toList_nodup _) (nodup_cons.mpr ⟨fresh, toList_nodup table⟩)).mpr ?_
  rintro ⟨other, row⟩
  rw [mem_toList_iff_getElem?_eq_some, mem_cons, mem_toList_iff_getElem?_eq_some, getElem?_insert]
  by_cases same : key = other
  · subst same
    simp only [if_true, Option.some.injEq, Prod.mk.injEq, true_and,
      TreeMap.getElem?_eq_none absent, reduceCtorEq, or_false]
    exact eq_comm
  · rw [if_neg same, Prod.mk.injEq]
    exact (or_iff_right fun both => same both.1.symm).symm

theorem erase_perm (present : table[key]? = some value) :
    table.toList.Perm ((key, value) :: (table.erase key).toList) := by
  classical
  have gone : (key, value) ∉ (table.erase key).toList := fun among => by
    have found := mem_toList_iff_getElem?_eq_some.mp among
    rw [getElem?_erase_self] at found
    cases found
  refine (perm_ext_iff_of_nodup (toList_nodup table) (nodup_cons.mpr ⟨gone, toList_nodup _⟩)).mpr ?_
  rintro ⟨other, row⟩
  rw [mem_toList_iff_getElem?_eq_some, mem_cons, mem_toList_iff_getElem?_eq_some, TreeMap.getElem?_erase]
  by_cases same : key = other
  · subst same
    simp only [present, Option.some.injEq, Prod.mk.injEq, true_and, ReflCmp.compare_self, if_true,
      reduceCtorEq, or_false]
    exact eq_comm
  · rw [if_neg fun equal => same (Std.compare_eq_iff_eq.mp equal), Prod.mk.injEq]
    exact (or_iff_right fun both => same both.1.symm).symm

/-- Tables with the same lookups list the same rows. -/
theorem toList_perm (left right : TreeMap Key Value)
    (same : ∀ key : Key, left[key]? = right[key]?) : left.toList.Perm right.toList := by
  refine (perm_ext_iff_of_nodup (toList_nodup left) (toList_nodup right)).mpr ?_
  rintro ⟨key, value⟩
  rw [mem_toList_iff_getElem?_eq_some, mem_toList_iff_getElem?_eq_some, same]

theorem rows_present (present : table[key]? = some value) :
    (rows table).Perm (value :: rows (table.erase key)) :=
  (erase_perm table key value present).map Prod.snd

theorem rows_absent (absent : table[key]? = none) : (rows table).Perm (rows (table.erase key)) := by
  refine (toList_perm table (table.erase key) fun other => ?_).map Prod.snd
  rw [TreeMap.getElem?_erase]
  split
  next same => rw [← Std.compare_eq_iff_eq.mp same, absent]
  next => rfl

/-- An insertion leaves every other row as it is. -/
theorem rows_insert : (rows (table.insert key value)).Perm (value :: rows (table.erase key)) := by
  refine (rows_present _ key value getElem?_insert_self).trans (List.Perm.cons value ?_)
  refine (toList_perm _ _ fun other => ?_).map Prod.snd
  rw [TreeMap.getElem?_erase, TreeMap.getElem?_erase, TreeMap.getElem?_insert]
  split
  · rfl
  · rfl

omit [TransOrd Key] [LawfulEqOrd Key] in
theorem length_rows (table : TreeMap Key Value) : (rows table).length = table.size := by
  rw [rows, length_map, length_toList]

omit [LawfulEqOrd Key] in
theorem mem_of_found (table : TreeMap Key Value) (key : Key) (value : Value)
    (found : table[key]? = some value) : key ∈ table :=
  mem_iff_isSome_getElem?.mpr (by rw [found]; rfl)

theorem keys_insert_perm (absent : key ∉ table) :
    (table.insert key value).keys.Perm (key :: table.keys) := by
  rw [← map_fst_toList_eq_keys, ← map_fst_toList_eq_keys]
  exact (insert_perm table key value absent).map Prod.fst

theorem keys_insert_present_perm (present : key ∈ table) :
    (table.insert key value).keys.Perm table.keys := by
  have nodup : ∀ other : TreeMap Key Value, other.keys.Nodup := fun other => by
    rw [← map_fst_toList_eq_keys]
    exact keys_nodup other
  refine (perm_ext_iff_of_nodup (nodup _) (nodup table)).mpr fun other => ?_
  rw [TreeMap.mem_keys, TreeMap.mem_keys, mem_insert]
  constructor
  · rintro (same | inside)
    · exact Std.compare_eq_iff_eq.mp same ▸ present
    · exact inside
  · exact .inr

theorem keys_erase_perm (present : key ∈ table) : table.keys.Perm (key :: (table.erase key).keys) := by
  obtain ⟨value, found⟩ := Option.isSome_iff_exists.mp (mem_iff_isSome_getElem?.mp present)
  rw [← map_fst_toList_eq_keys, ← map_fst_toList_eq_keys]
  exact (erase_perm table key value found).map Prod.fst

theorem getElem?_erase_all [DecidableEq Key] :
    (keys.foldl erase table)[key]? = if key ∈ keys then none else table[key]? := by
  induction keys generalizing table with
  | nil => rfl
  | cons first rest ih =>
    rw [foldl_cons, ih, TreeMap.getElem?_erase]
    by_cases among : key ∈ rest
    · rw [if_pos among, if_pos (mem_cons_of_mem first among)]
    by_cases same : first = key
    · rw [if_neg among, if_pos (Std.compare_eq_iff_eq.mpr same), if_pos (mem_cons.mpr (.inl same.symm))]
    · rw [if_neg among, if_neg fun equal => same (Std.compare_eq_iff_eq.mp equal),
        if_neg fun either => (mem_cons.mp either).elim (fun equal => same equal.symm) among]

theorem erase_all_perm (distinct : keys.Nodup) (present : ∀ key ∈ keys, key ∈ table) :
    table.keys.Perm (keys ++ (keys.foldl erase table).keys) := by
  induction keys generalizing table with
  | nil => exact List.Perm.refl _
  | cons first rest ih =>
    obtain ⟨fresh, others⟩ := nodup_cons.mp distinct
    have left : ∀ key ∈ rest, key ∈ table.erase first := by
      intro key among
      refine mem_erase.mpr ⟨fun equal => ?_, present key (mem_cons_of_mem _ among)⟩
      exact fresh (Std.compare_eq_iff_eq.mp equal ▸ among)
    have head := keys_erase_perm table first (present first mem_cons_self)
    exact head.trans ((ih (table.erase first) others left).cons first)

/-- A table filled by improving what stands under the key of each item. -/
theorem getElem?_gather [DecidableEq Key] {Item : Type*} (key : Item → Key)
    (improve : Item → Option Value → Value) (items : List Item) (table : TreeMap Key Value) (other : Key) :
    (items.foldl (fun table item => table.insert (key item) (improve item table[key item]?)) table)[other]? =
      (items.filter fun item => key item = other).foldl
        (fun found item => some (improve item found)) table[other]? := by
  induction items generalizing table with
  | nil => rfl
  | cons item rest ih =>
    rw [foldl_cons, ih, getElem?_insert]
    by_cases same : key item = other
    · rw [if_pos same, filter_cons_of_pos (by exact decide_eq_true same), foldl_cons, same]
    · rw [if_neg same, filter_cons_of_neg (by exact fun yes => same (of_decide_eq_true yes))]

theorem getElem?_ensured [DecidableEq Key] : (table.insertIfNew key value)[other]? =
      table[other]?.or (if key = other then some value else none) := by
  rw [getElem?_insertIfNew]
  by_cases same : key = other
  · subst same
    rw [if_pos rfl]
    cases found : table[key]? with
    | some known =>
      rw [if_neg fun both => both.2 (mem_of_found table key known found)]
      rfl
    | none =>
      have absent : key ∉ table := fun there => by
        rw [mem_iff_isSome_getElem?, found] at there
        cases there
      rw [if_pos ⟨ReflCmp.compare_self, absent⟩]
      rfl
  · have apart : ¬ (compare key other = .eq ∧ key ∉ table) :=
      fun both => same (Std.compare_eq_iff_eq.mp both.1)
    rw [if_neg same, if_neg apart, Option.or_none]

theorem getElem?_written_absent {Other : Type*} (write : Key → Value → Other)
    (entries : List (Key × Value)) (base : TreeMap Key Other) (other : Key)
    (absent : other ∉ entries.map Prod.fst) :
    (entries.foldl (fun base entry => base.insert entry.1 (write entry.1 entry.2)) base)[other]? =
      base[other]? := by
  classical
  induction entries generalizing base with
  | nil => rfl
  | cons entry rest ih =>
    obtain ⟨apart, later⟩ := not_or.mp (mt mem_cons.mpr absent)
    rw [foldl_cons, ih _ later, getElem?_insert, if_neg fun same => apart same.symm]

/-- One table written into another. -/
theorem getElem?_written {Other : Type*} (write : Key → Value → Other) (table : TreeMap Key Value)
    (base : TreeMap Key Other) (other : Key) :
    (table.toList.foldl (fun base entry => base.insert entry.1 (write entry.1 entry.2)) base)[other]? =
      (table[other]?.map (write other)).or base[other]? := by
  classical
  have present (entries : List (Key × Value)) (base : TreeMap Key Other) (value : Value)
      (distinct : (entries.map Prod.fst).Nodup) (among : (other, value) ∈ entries) :
      (entries.foldl (fun base entry => base.insert entry.1 (write entry.1 entry.2)) base)[other]? =
        some (write other value) := by
    induction entries generalizing base with
    | nil => cases among
    | cons entry rest ih =>
      obtain ⟨fresh, others⟩ := nodup_cons.mp distinct
      rw [foldl_cons]
      rcases mem_cons.mp among with same | later
      · cases same
        rw [getElem?_written_absent write rest _ other fresh, getElem?_insert, if_pos rfl]
      · exact ih _ others later
  cases found : table[other]? with
  | some value =>
    exact present table.toList base value (keys_nodup table) (mem_toList_iff_getElem?_eq_some.mpr found)
  | none =>
    apply getElem?_written_absent write
    intro among
    obtain ⟨⟨key, value⟩, there, rfl⟩ := mem_map.mp among
    rw [mem_toList_iff_getElem?_eq_some.mp there] at found
    cases found

end PerlLsp.Tables
