import PerlLsp.Runs
import PerlLsp.TokenCache
import PerlLsp.UnderWay

/-! The lookups of the checkpoint cache over whole runs: perl-lexer/src/checkpoint/cache.rs. Which
of several entries at one position `add` hits, and how `apply_edit` orders them, is left open: an
operation names the choice. -/
namespace PerlLsp.TokenCache.Lookups
open Checkpoint CheckpointCache Runs UnderWay List
variable {Identity : Type}

/-- The binary search answers `ok` with an entry's place or `error` with the place where one
belongs. -/
inductive Op (Identity : Type) where
  | add (checkpoint : LexerCheckpoint Identity) (found : Except Nat Nat)
  | applyEdit (start oldLen newLen : Nat) (sorted : List (Nat × LexerCheckpoint Identity))
  | clear

def put (entries : List (Nat × LexerCheckpoint Identity)) (checkpoint : LexerCheckpoint Identity) :
    Except Nat Nat → List (Nat × LexerCheckpoint Identity)
  | .ok idx => entries.set idx (checkpoint.position, checkpoint)
  | .error idx => entries.insertIdx idx (checkpoint.position, checkpoint)

def step (cache : CheckpointCache Identity) : Op Identity → CheckpointCache Identity
  | .add checkpoint found =>
    if cache.maxCheckpoints = 0 then cache
    else
      { cache with
        checkpoints := evict cache.maxCheckpoints (put cache.checkpoints checkpoint found) }
  | .applyEdit _ _ _ sorted => { cache with checkpoints := sorted }
  | .clear => cache.clear

def Ascending (entries : List (Nat × LexerCheckpoint Identity)) : Prop :=
  (entries.map Prod.fst).Pairwise (· ≤ ·)

variable (cache : CheckpointCache Identity)

/-- What the binary search and the sort promise. -/
def Proper : Op Identity → Prop
  | .add checkpoint (.ok idx) =>
    ∃ entry, cache.checkpoints[idx]? = some entry ∧ entry.1 = checkpoint.position
  | .add checkpoint (.error idx) =>
    ∃ before after, cache.checkpoints = before ++ after ∧ before.length = idx ∧
      (∀ entry ∈ before, entry.1 < checkpoint.position) ∧
      ∀ entry ∈ after, checkpoint.position < entry.1
  | .applyEdit start oldLen newLen sorted =>
    sorted.Perm (cache.checkpoints.map (moveEntry start oldLen newLen)) ∧ Ascending sorted
  | .clear => True

/-- An edit takes no two cached checkpoints to one position. -/
def KeepsApart : Op Identity → Prop
  | .applyEdit start oldLen newLen _ =>
    (cache.checkpoints.map fun entry => (entry.2.applyEdit start oldLen newLen).position).Nodup
  | _ => True

structure Sound (capacity : Nat) (cache : CheckpointCache Identity) : Prop where
  keyed : Keyed cache
  ascending : Ascending cache.checkpoints
  within : cache.checkpoints.length ≤ capacity
  capacity : cache.maxCheckpoints = capacity

/-- What an add leaves of the entries before it and its own: all but one at most, the least and the
greatest key among them. -/
structure Anchored (before : List (Nat × LexerCheckpoint Identity))
    (checkpoint : LexerCheckpoint Identity) (after : List (Nat × LexerCheckpoint Identity)) : Prop where
  dropped : ∃ dropped, dropped.length ≤ 1 ∧
    (after ++ dropped).Perm ((checkpoint.position, checkpoint) :: before)
  least : ∃ entry ∈ after, entry.1 ≤ checkpoint.position ∧ ∀ other ∈ before, entry.1 ≤ other.1
  greatest : ∃ entry ∈ after, checkpoint.position ≤ entry.1 ∧ ∀ other ∈ before, other.1 ≤ entry.1

variable {capacity : Nat} {entries : List (Nat × LexerCheckpoint Identity)}

theorem all_places {Entry : Type} (list : List Entry) (length : list.length = capacity) :
    (List.range capacity).filterMap (fun index => list[index]?) = list := by
  subst length
  induction list with
  | nil => rfl
  | cons entry rest ih =>
      simpa [range_succ_eq_map] using ih

theorem evict_erases (two : 2 ≤ capacity) (length : entries.length = capacity + 1) :
    evict capacity entries = entries.eraseIdx (capacity - 1) := by
  have places (index : Nat) (inside : index < capacity) :
      entries[index * (entries.length - 1) / (capacity - 1)]? =
        (entries.eraseIdx (capacity - 1))[index]? := by
    obtain ⟨gap, rfl⟩ : ∃ gap, capacity = gap + 1 := ⟨capacity - 1, by omega⟩
    rw [length, getElem?_eraseIdx, Nat.add_sub_cancel, Nat.add_sub_cancel]
    split
    next early =>
      congr 1
      rw [Nat.mul_succ]
      exact Nat.div_eq_of_lt_le (by omega) (by rw [Nat.succ_mul]; omega)
    next late =>
      obtain rfl : index = gap := by omega
      rw [Nat.mul_div_cancel_left _ (by omega)]
  rw [evict, if_neg (by omega), if_neg (by omega)]
  calc (List.range capacity).filterMap _
      = (List.range capacity).filterMap fun index => (entries.eraseIdx (capacity - 1))[index]? :=
        filterMap_congr fun index inside => places index (mem_range.mp inside)
    _ = entries.eraseIdx (capacity - 1) :=
        all_places _ (by rw [length_eraseIdx, if_pos (by omega)]; omega)

theorem evict_anchored (two : 2 ≤ capacity) (many : entries.length ≤ capacity + 1) :
    (evict capacity entries).Sublist entries ∧ (evict capacity entries).length ≤ capacity ∧
      (∃ dropped, dropped.length ≤ entries.length - capacity ∧
        (evict capacity entries ++ dropped).Perm entries) ∧
      ∀ entry, entries.head? = some entry ∨ entries.getLast? = some entry →
        entry ∈ evict capacity entries := by
  by_cases fits : entries.length ≤ capacity
  · rw [evict, if_pos fits]
    refine ⟨.refl _, fits, ⟨[], Nat.zero_le _, by simp⟩, ?_⟩
    rintro entry (first | last)
    · exact mem_of_head? first
    · exact mem_of_getLast? last
  have full : entries.length = capacity + 1 := by omega
  have inside : capacity - 1 < entries.length := by omega
  rw [evict_erases two full]
  refine ⟨eraseIdx_sublist .., ?_, ⟨[entries[capacity - 1]], ?_, ?_⟩, ?_⟩
  · rw [length_eraseIdx, if_pos inside]
    omega
  · simp [full]
  · exact (perm_append_singleton ..).trans (getElem_cons_eraseIdx_perm inside)
  · intro entry ends
    rw [mem_eraseIdx_iff_getElem?]
    rcases ends with first | last
    · exact ⟨0, by omega, by rwa [← head?_eq_getElem?]⟩
    · exact ⟨entries.length - 1, by omega, by rwa [← getLast?_eq_getElem?]⟩

theorem first_least (ascending : Ascending entries) {first : Nat × LexerCheckpoint Identity}
    (stands : entries.head? = some first) : ∀ entry ∈ entries, first.1 ≤ entry.1 := by
  obtain ⟨rest, rfl⟩ := head?_eq_some_iff.mp stands
  rw [Ascending, map_cons, pairwise_cons] at ascending
  exact forall_mem_cons.mpr ⟨Nat.le_refl _, fun entry among => ascending.1 entry.1 (mem_map_of_mem among)⟩

theorem last_greatest (ascending : Ascending entries) {last : Nat × LexerCheckpoint Identity}
    (stands : entries.getLast? = some last) : ∀ entry ∈ entries, entry.1 ≤ last.1 := by
  obtain ⟨front, rfl⟩ := getLast?_eq_some_iff.mp stands
  intro entry among
  rcases mem_append.mp among with early | same
  · simp only [Ascending, map_append, pairwise_append] at ascending
    exact ascending.2.2 entry.1 (mem_map_of_mem early) last.1 (by simp)
  · simp_all

variable {cache : CheckpointCache Identity} {checkpoint : LexerCheckpoint Identity}
  {found : Except Nat Nat}

/-- What is replaced has the key of the new entry. -/
theorem put_spec (proper : Proper cache (.add checkpoint found)) (ascending : Ascending cache.checkpoints) :
    Ascending (put cache.checkpoints checkpoint found) ∧ ((cache.checkpoints.map Prod.fst).Nodup →
        ((put cache.checkpoints checkpoint found).map Prod.fst).Nodup) ∧
      (checkpoint.position, checkpoint) ∈ put cache.checkpoints checkpoint found ∧
      ∃ replaced, replaced.length ≤ 1 ∧ (∀ old ∈ replaced, old.1 = checkpoint.position) ∧
        (put cache.checkpoints checkpoint found ++ replaced).Perm
          ((checkpoint.position, checkpoint) :: cache.checkpoints) := by
  cases found with
  | ok idx =>
    obtain ⟨old, stands, same⟩ := proper
    have keys : (cache.checkpoints.set idx (checkpoint.position, checkpoint)).map Prod.fst =
        cache.checkpoints.map Prod.fst := map_set_same Prod.fst stands same.symm
    have others := (set_perm stands (checkpoint.position, checkpoint)).cons old
    rw [put, Ascending, keys]
    refine ⟨ascending, id, (mem_set stands).mpr (.inl rfl), [old], Nat.le_refl _, by simp [same], ?_⟩
    exact ((perm_append_singleton ..).trans others).trans
      ((List.Perm.swap ..).trans ((taken_perm stands).cons _))
  | error idx =>
    obtain ⟨before, after, split, rfl, below, above⟩ := proper
    have placed : put cache.checkpoints checkpoint (.error before.length) =
        before ++ (checkpoint.position, checkpoint) :: after := by
      rw [put, split]
      clear split below
      induction before with
      | nil => rfl
      | cons entry rest ih => simp [ih]
    rw [Ascending, split, map_append, pairwise_append] at ascending
    rw [placed, split]
    refine ⟨?_, ?_, by simp, [], by simp, by simp, by simp⟩
    · simp only [Ascending, map_append, map_cons, pairwise_append, pairwise_cons]
      grind
    · simp only [map_append, map_cons, nodup_append, nodup_cons]
      grind

theorem add_anchored (two : 2 ≤ capacity) (sound : Sound capacity cache)
    (proper : Proper cache (.add checkpoint found)) :
    Anchored cache.checkpoints checkpoint (step cache (.add checkpoint found)).checkpoints := by
  obtain ⟨ascending, -, own, replaced, one, same, placed⟩ := put_spec proper sound.ascending
  have length := placed.length_eq
  have within := sound.within
  simp only [length_append, length_cons] at length
  obtain ⟨-, -, ⟨dropped, few, kept⟩, ends⟩ :=
    @evict_anchored _ _ (put cache.checkpoints checkpoint found) two (by omega)
  have met (entry : Nat × LexerCheckpoint Identity) (among : entry ∈ cache.checkpoints) :
      entry ∈ put cache.checkpoints checkpoint found ∨ entry.1 = checkpoint.position :=
    (mem_append.mp (placed.mem_iff.mpr (.tail _ among))).imp_right (same entry)
  have nonempty := ne_nil_of_mem own
  rw [step, sound.capacity, if_neg (by omega)]
  refine ⟨⟨dropped ++ replaced, ?_, ?_⟩, ⟨_, ends _ (.inl (head?_eq_some_head nonempty)), ?_⟩,
    ⟨_, ends _ (.inr (getLast?_eq_some_getLast nonempty)), ?_⟩⟩
  · rw [length_append]
    omega
  · rw [← append_assoc]
    exact (kept.append_right replaced).trans placed
  · have least := first_least ascending (head?_eq_some_head nonempty)
    refine ⟨least _ own, fun other among => ?_⟩
    rcases met other among with there | key
    · exact least other there
    · exact key ▸ least _ own
  · have greatest := last_greatest ascending (getLast?_eq_some_getLast nonempty)
    refine ⟨greatest _ own, fun other among => ?_⟩
    rcases met other among with there | key
    · exact greatest other there
    · exact key ▸ greatest _ own

theorem step_sound (two : 2 ≤ capacity) (op : Op Identity) (sound : Sound capacity cache)
    (proper : Proper cache op) : Sound capacity (step cache op) := by
  cases op with
  | clear => constructor <;> simp [step, clear, Keyed, Ascending, sound.capacity]
  | applyEdit start oldLen newLen sorted =>
    refine ⟨fun entry among => ?_, proper.2, ?_, sound.capacity⟩
    · obtain ⟨old, -, rfl⟩ := mem_map.mp (proper.1.mem_iff.mp among)
      rfl
    · exact (proper.1.length_eq.trans (length_map ..)).le.trans sound.within
  | add checkpoint found =>
    obtain ⟨ascending, -, -, replaced, -, -, placed⟩ := put_spec proper sound.ascending
    have length := placed.length_eq
    have within := sound.within
    simp only [length_append, length_cons] at length
    obtain ⟨sublist, fits, -⟩ :=
      @evict_anchored _ _ (put cache.checkpoints checkpoint found) two (by omega)
    rw [step, sound.capacity, if_neg (by omega)]
    refine ⟨fun entry among => ?_, ascending.sublist (sublist.map _), fits, rfl⟩
    have there := placed.mem_iff.mp (mem_append_left replaced (sublist.subset among))
    rcases mem_cons.mp there with rfl | old
    · rfl
    · exact sound.keyed entry old

theorem step_apart (two : 2 ≤ capacity) (op : Op Identity) (sound : Sound capacity cache)
    (apart : (cache.checkpoints.map Prod.fst).Nodup) (proper : Proper cache op)
    (keeps : KeepsApart cache op) : ((step cache op).checkpoints.map Prod.fst).Nodup := by
  cases op with
  | clear => exact .nil
  | applyEdit start oldLen newLen sorted =>
    rw [step, (proper.1.map Prod.fst).nodup_iff, map_map]
    exact keeps
  | add checkpoint found =>
    obtain ⟨-, still, -, replaced, -, -, placed⟩ := put_spec proper sound.ascending
    have length := placed.length_eq
    have within := sound.within
    simp only [length_append, length_cons] at length
    obtain ⟨sublist, -⟩ :=
      @evict_anchored _ _ (put cache.checkpoints checkpoint found) two (by omega)
    rw [step, sound.capacity, if_neg (by omega)]
    exact (still apart).sublist (sublist.map _)

theorem both_find (ascending : Ascending cache.checkpoints) (apart : (cache.checkpoints.map Prod.fst).Nodup)
    (kept : (checkpoint.position, checkpoint) ∈ cache.checkpoints) :
    cache.findBefore checkpoint.position = some checkpoint ∧
      cache.findAfter checkpoint.position = some checkpoint := by
  obtain ⟨before, after, split⟩ := append_of_mem kept
  have strict : (before.map Prod.fst ++ checkpoint.position :: after.map Prod.fst).Pairwise (· < ·) := by
    have both := ascending.and apart
    rw [split, map_append] at both
    exact both.imp fun pair => lt_of_le_of_ne pair.1 pair.2
  rw [pairwise_append, pairwise_cons] at strict
  have below (entry) (among : entry ∈ before) : entry.1 < checkpoint.position :=
    strict.2.2 _ (mem_map_of_mem among) _ (.head _)
  have above (entry) (among : entry ∈ after) : checkpoint.position < entry.1 :=
    strict.2.1.1 _ (mem_map_of_mem among)
  have upTo : cache.checkpoints.takeWhile (fun entry => entry.1 ≤ checkpoint.position) =
      before ++ [(checkpoint.position, checkpoint)] := by
    rw [split, takeWhile_append_of_pos fun entry among => by simpa using (below entry among).le]
    cases after with
    | nil => simp
    | cons next rest => simp [above next]
  have under : cache.checkpoints.takeWhile (fun entry => entry.1 < checkpoint.position) = before := by
    rw [split, takeWhile_append_of_pos fun entry among => by simpa using below entry among]
    simp
  rw [findBefore, findAfter, partitionPoint, partitionPoint, upTo, under, split]
  simp

theorem run_sound (two : 2 ≤ capacity) (ops : List (Op Identity)) (sound : Sound capacity cache)
    (proper : StepsMeet step Proper cache ops) : Sound capacity (run step cache ops) ∧
      ((cache.checkpoints.map Prod.fst).Nodup → StepsMeet step KeepsApart cache ops →
        ((run step cache ops).checkpoints.map Prod.fst).Nodup) := by
  induction ops generalizing cache with
  | nil => exact ⟨sound, fun apart _ => apart⟩
  | cons op rest ih =>
      have next := ih (step_sound two op sound proper.1) proper.2
      exact ⟨next.1, fun apart keeps =>
        next.2 (step_apart two op sound apart proper.1 keeps.1) keeps.2⟩

/-- In every run the keys are the positions, in order, and an add keeps the least and the greatest
key and drops one entry at most; while no edit takes two checkpoints to one position, both lookups
at a retained checkpoint's position find it. -/
theorem lookups_along (two : 2 ≤ capacity) (ops : List (Op Identity))
    (proper : StepsMeet step Proper (.new capacity) ops) :
    let cache := run step (.new capacity) ops
    Sound capacity cache ∧ ∀ checkpoint found, Proper cache (.add checkpoint found) →
      Anchored cache.checkpoints checkpoint (step cache (.add checkpoint found)).checkpoints ∧
      (StepsMeet step KeepsApart (.new capacity) ops →
        (checkpoint.position, checkpoint) ∈ (step cache (.add checkpoint found)).checkpoints →
        (step cache (.add checkpoint found)).findBefore checkpoint.position = some checkpoint ∧
        (step cache (.add checkpoint found)).findAfter checkpoint.position = some checkpoint) := by
  have new : Sound capacity (.new capacity : CheckpointCache Identity) := by
    constructor <;> simp [CheckpointCache.new, Keyed, Ascending]
  obtain ⟨sound, apart⟩ := run_sound two ops new proper
  refine ⟨sound, fun checkpoint found searched => ⟨add_anchored two sound searched, ?_⟩⟩
  intro keeps kept
  have after := step_sound two _ sound searched
  exact both_find after.ascending (step_apart two _ sound (apart .nil keeps) searched trivial) kept

def checkpointAt (position : Nat) : LexerCheckpoint Unit := ⟨(), plainReplay position, false, true⟩

def moved : LexerCheckpoint Unit := (checkpointAt 10).applyEdit 8 2 0

theorem apart_found :
    let cache := run step (.new 2) [.add (checkpointAt 8) (.error 0), .add (checkpointAt 10) (.error 1)]
    (step cache (.add (checkpointAt 8) (.ok 0))).findAfter 8 = some (checkpointAt 8) := by
  have proper : StepsMeet step Proper (.new 2)
      [.add (checkpointAt 8) (.error 0), .add (checkpointAt 10) (.error 1)] :=
    ⟨⟨[], [], rfl, rfl, by simp, by simp⟩,
      ⟨[(8, checkpointAt 8)], [], rfl, rfl, by decide, by simp⟩, trivial⟩
  exact (((lookups_along (Nat.le_refl 2) _ proper).2 (checkpointAt 8) (.ok 0) ⟨_, rfl, rfl⟩).2
    ⟨trivial, trivial, trivial⟩ (.head _)).2

/-- Checkpoints at 8 and 10 meet when the bytes between them are removed: one lookup finds the
invalidated one behind the new one. -/
theorem moved_found : ¬∀ (ops : List (Op Unit)) checkpoint found,
    StepsMeet step Proper (.new 2) (ops ++ [.add checkpoint found]) →
    let after := run step (.new 2) (ops ++ [.add checkpoint found])
    (checkpoint.position, checkpoint) ∈ after.checkpoints →
    after.findBefore checkpoint.position = some checkpoint ∧
      after.findAfter checkpoint.position = some checkpoint := by
  intro finds
  have both := finds [.add (checkpointAt 8) (.error 0), .add (checkpointAt 10) (.error 1),
    .applyEdit 8 2 0 [(8, checkpointAt 8), (8, moved)]] (checkpointAt 8) (.ok 0)
    ⟨⟨[], [], rfl, rfl, by simp, by simp⟩, ⟨[(8, checkpointAt 8)], [], rfl, rfl, by decide, by simp⟩,
      ⟨.refl _, by simp [Ascending]⟩, ⟨_, rfl, rfl⟩, trivial⟩ (.head _)
  cases both.1

end PerlLsp.TokenCache.Lookups
