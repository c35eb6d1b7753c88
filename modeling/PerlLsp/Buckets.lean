import PerlLsp.Tables

/-! Tables of buckets: under each key the rows filed there, in order. Rows are removed by a
condition from one bucket, from the buckets of some keys, or from all; a bucket left empty is
dropped. Each operation is described by what it does to one bucket. -/
namespace PerlLsp.Buckets
open Std Tables

universe u v
variable {Key : Type u} {Row : Type v}

section Operations
variable [Ord Key]
variable (table : TreeMap Key (List Row))

def bucket (key : Key) : List Row := table[key]?.getD []

def extend (key : Key) (rows : List Row) : TreeMap Key (List Row) :=
  table.insert key (bucket table key ++ rows)

def push (key : Key) (row : Row) : TreeMap Key (List Row) :=
  extend table key [row]

def pushAll (entries : List (Key × Row)) : TreeMap Key (List Row) :=
  entries.foldl (fun table entry => push table entry.1 entry.2) table

def retainAt (key : Key) (keep : Row → Bool) : TreeMap Key (List Row) :=
  match table[key]? with
  | none => table
  | some rows => if (rows.filter keep).isEmpty then table.erase key else table.insert key (rows.filter keep)

def retainEach (keys : List Key) (keep : Row → Bool) : TreeMap Key (List Row) :=
  keys.foldl (fun table key => retainAt table key keep) table

def retainAll (keep : Row → Bool) : TreeMap Key (List Row) :=
  table.filterMap fun _ rows => if (rows.filter keep).isEmpty then none else some (rows.filter keep)

/-- No bucket is empty. -/
def Tidy : Prop := ∀ key : Key, table[key]? ≠ some []

end Operations

section Entries
variable [DecidableEq Key]

def filed (entries : List (Key × Row)) (key : Key) : List Row :=
  (entries.filter fun entry => entry.1 = key).map Prod.snd

theorem filed_cons (entry : Key × Row) (entries : List (Key × Row)) (key : Key) :
    filed (entry :: entries) key = (if entry.1 = key then [entry.2] else []) ++ filed entries key := by
  rw [filed, List.filter_cons]
  split
  next same => rw [if_pos (of_decide_eq_true same)]; rfl
  next apart => rw [if_neg fun same => apart (decide_eq_true same)]; rfl

theorem mem_filed (entries : List (Key × Row)) (key : Key) (row : Row) :
    row ∈ filed entries key ↔ (key, row) ∈ entries := by
  rw [filed, List.mem_map]
  constructor
  · rintro ⟨⟨_, _⟩, inside, rfl⟩
    obtain ⟨member, same⟩ := List.mem_filter.mp inside
    exact of_decide_eq_true same ▸ member
  · exact fun member => ⟨(key, row), List.mem_filter.mpr ⟨member, decide_eq_true rfl⟩, rfl⟩

theorem filed_append (left right : List (Key × Row)) (key : Key) :
    filed (left ++ right) key = filed left key ++ filed right key := by
  rw [filed, List.filter_append, List.map_append]
  rfl

theorem filed_flatMap {Group : Type*} (entriesOf : Group → List (Key × Row)) (groups : List Group)
    (key : Key) :
    filed (groups.flatMap entriesOf) key = groups.flatMap fun group => filed (entriesOf group) key := by
  induction groups with
  | nil => rfl
  | cons group rest ih => rw [List.flatMap_cons, filed_append, ih, List.flatMap_cons]

theorem filed_eq_nil (entries : List (Key × Row)) (key : Key)
    (absent : key ∉ entries.map Prod.fst) : filed entries key = [] := by
  refine List.eq_nil_iff_forall_not_mem.mpr fun row member => absent ?_
  exact List.mem_map.mpr ⟨(key, row), (mem_filed entries key row).mp member, rfl⟩

end Entries

section Buckets
variable [Ord Key] [TransOrd Key]

@[simp] theorem bucket_empty (key : Key) : bucket (∅ : TreeMap Key (List Row)) key = [] := by
  rw [bucket, TreeMap.getElem?_emptyc]
  rfl

theorem tidy_empty : Tidy (∅ : TreeMap Key (List Row)) := by
  intro key found
  rw [TreeMap.getElem?_emptyc] at found
  cases found

omit [TransOrd Key] in
theorem Tidy.getElem? {table : TreeMap Key (List Row)} (tidy : Tidy table) (key : Key) :
    table[key]? = if (bucket table key).isEmpty then none else some (bucket table key) := by
  rw [bucket]
  cases found : table[key]? with
  | none => rfl
  | some rows =>
    have filled : rows ≠ [] := fun empty => tidy key (empty ▸ found)
    rw [Option.getD_some, if_neg (mt List.isEmpty_iff.mp filled)]

variable [LawfulEqOrd Key]

section
variable (table : TreeMap Key (List Row)) (keep : Row → Bool)
include table keep

theorem getElem?_retainAll (key : Key) : (retainAll table keep)[key]? = table[key]?.bind fun rows =>
      if (rows.filter keep).isEmpty then none else some (rows.filter keep) := by
  rw [retainAll, TreeMap.getElem?_filterMap']

theorem bucket_retainAll (key : Key) :
    bucket (retainAll table keep) key = (bucket table key).filter keep := by
  rw [bucket, getElem?_retainAll, bucket]
  cases table[key]? with
  | none => rfl
  | some rows =>
    rw [Option.bind_some]
    split
    next empty => exact (List.isEmpty_iff.mp empty).symm
    next => rfl

theorem tidy_retainAll : Tidy (retainAll table keep) := by
  intro key found
  rw [getElem?_retainAll] at found
  obtain ⟨rows, _, kept⟩ := Option.bind_eq_some_iff.mp found
  split at kept
  · cases kept
  next filled => exact filled (List.isEmpty_iff.mpr (Option.some.inj kept))

end

variable [DecidableEq Key]

theorem bucket_insert (table : TreeMap Key (List Row)) (key : Key) (rows : List Row) (other : Key) :
    bucket (table.insert key rows) other = if key = other then rows else bucket table other := by
  rw [bucket, getElem?_insert]
  split
  · rfl
  · rfl

theorem bucket_extend (table : TreeMap Key (List Row)) (key : Key) (rows : List Row) (other : Key) :
    bucket (extend table key rows) other = bucket table other ++ if key = other then rows else [] := by
  rw [extend, bucket_insert]
  split
  next same => rw [same]
  next => rw [List.append_nil]

theorem bucket_pushAll (entries : List (Key × Row)) (table : TreeMap Key (List Row)) (key : Key) :
    bucket (pushAll table entries) key = bucket table key ++ filed entries key := by
  induction entries generalizing table with
  | nil => exact (List.append_nil _).symm
  | cons entry rest ih =>
    rw [pushAll, List.foldl_cons, ← pushAll, ih, push, bucket_extend, filed_cons, List.append_assoc]

theorem bucket_retainAt (table : TreeMap Key (List Row)) (key : Key) (keep : Row → Bool)
    (other : Key) : bucket (retainAt table key keep) other =
      if key = other then (bucket table other).filter keep else bucket table other := by
  unfold retainAt
  cases found : table[key]? with
  | none =>
    by_cases same : key = other
    · rw [if_pos same, ← same, bucket, found]
      rfl
    · exact (if_neg same).symm
  | some rows =>
    simp only
    split
    next empty =>
        rw [bucket, TreeMap.getElem?_erase]
        by_cases same : key = other
        · rw [if_pos (Std.compare_eq_iff_eq.mpr same), if_pos same, ← same, bucket, found]
          exact (List.isEmpty_iff.mp empty).symm
        · rw [if_neg (mt Std.compare_eq_iff_eq.mp same), if_neg same, bucket]
    next =>
        rw [bucket_insert]
        split
        next same => rw [← same, bucket, found]; rfl
        next => rfl

theorem bucket_retainEach (keys : List Key) (table : TreeMap Key (List Row)) (keep : Row → Bool)
    (key : Key) : bucket (retainEach table keys keep) key =
      if key ∈ keys then (bucket table key).filter keep else bucket table key := by
  induction keys generalizing table with
  | nil => rfl
  | cons first rest ih =>
    rw [retainEach, List.foldl_cons, ← retainEach, ih, bucket_retainAt]
    by_cases same : first = key
    · rw [if_pos same, if_pos (List.mem_cons.mpr (.inl same.symm))]
      split
      · rw [List.filter_filter]
        simp only [Bool.and_self]
      · rfl
    · have others : key ∈ first :: rest ↔ key ∈ rest :=
        List.mem_cons.trans (or_iff_right fun equal => same equal.symm)
      rw [if_neg same, if_congr others rfl rfl]

/-- Rewriting the buckets of some keys, each time to a form that stays the same after. -/
theorem bucket_modifyEach (rewrite : List Row → List Row)
    (settled : ∀ rows, rewrite (rewrite rows) = rewrite rows) (fixesNil : rewrite [] = [])
    (keys : List Key) (table : TreeMap Key (List Row)) (key : Key) :
    bucket (keys.foldl (fun table key => table.modify key rewrite) table) key =
      if key ∈ keys then rewrite (bucket table key) else bucket table key := by
  induction keys generalizing table with
  | nil => rfl
  | cons first rest ih =>
    have once : bucket (table.modify first rewrite) key =
        if first = key then rewrite (bucket table key) else bucket table key := by
      rw [bucket, TreeMap.getElem?_modify, bucket]
      by_cases same : first = key
      · subst same
        rw [if_pos ReflCmp.compare_self, if_pos rfl]
        cases table[first]? with
        | none => exact fixesNil.symm
        | some rows => rfl
      · rw [if_neg (mt Std.compare_eq_iff_eq.mp same), if_neg same]
    rw [List.foldl_cons, ih, once]
    by_cases same : first = key
    · rw [if_pos same, if_pos (List.mem_cons.mpr (.inl same.symm)), settled]
      exact ite_self _
    · have others : key ∈ first :: rest ↔ key ∈ rest :=
        List.mem_cons.trans (or_iff_right fun equal => same equal.symm)
      rw [if_neg same, if_congr others rfl rfl]

theorem tidy_insert {table : TreeMap Key (List Row)} (tidy : Tidy table) (key : Key)
    (rows : List Row) (filled : rows ≠ []) : Tidy (table.insert key rows) := by
  intro other found
  rw [getElem?_insert] at found
  split at found
  · exact filled (Option.some.inj found)
  · exact tidy other found

theorem tidy_pushAll (entries : List (Key × Row)) {table : TreeMap Key (List Row)}
    (tidy : Tidy table) : Tidy (pushAll table entries) := by
  induction entries generalizing table with
  | nil => exact tidy
  | cons entry rest ih =>
    exact ih (tidy_insert tidy entry.1 _ (List.append_ne_nil_of_right_ne_nil _ (List.cons_ne_nil _ _)))

theorem tidy_retainAt {table : TreeMap Key (List Row)} (tidy : Tidy table) (key : Key)
    (keep : Row → Bool) : Tidy (retainAt table key keep) := by
  unfold retainAt
  cases table[key]? with
  | none => exact tidy
  | some rows =>
    simp only
    split
    next =>
        intro other found
        rw [TreeMap.getElem?_erase] at found
        split at found
        · cases found
        · exact tidy other found
    next filled => exact tidy_insert tidy key _ (mt List.isEmpty_iff.mpr filled)

theorem tidy_retainEach (keys : List Key) (keep : Row → Bool) {table : TreeMap Key (List Row)}
    (tidy : Tidy table) : Tidy (retainEach table keys keep) := by
  induction keys generalizing table with
  | nil => exact tidy
  | cons key rest ih => exact ih (tidy_retainAt tidy key keep)

omit [LawfulEqOrd Key] [DecidableEq Key] in
theorem tidy_modifyEach (rewrite : List Row → List Row)
    (nonempty : ∀ rows, rows ≠ [] → rewrite rows ≠ []) (keys : List Key)
    {table : TreeMap Key (List Row)} (tidy : Tidy table) :
    Tidy (keys.foldl (fun table key => table.modify key rewrite) table) := by
  induction keys generalizing table with
  | nil => exact tidy
  | cons first rest ih =>
    refine ih fun key found => ?_
    rw [TreeMap.getElem?_modify] at found
    split at found
    · obtain ⟨rows, there, empty⟩ := Option.map_eq_some_iff.mp found
      exact nonempty rows (fun none => tidy first (none ▸ there)) empty
    · exact tidy key found

end Buckets

end PerlLsp.Buckets
