import Mathlib.Data.List.AList
import Mathlib.Algebra.Order.BigOperators.Group.List
import Mathlib.Algebra.Ring.Nat
import PerlLsp.Runs

/-! `BoundedLruCache` of perl-workspace/src/workspace/cache.rs. The hash map is an association list
with unique keys, as no operation observes its order; the deque of access order is a list with the
oldest key first. Each operation receives the reading of the clock it would take. `usize` is 64 bits
wide and, as in the release profile, its additions and subtractions wrap. The floating-point
`hit_rate` is left out. -/
namespace PerlLsp.BoundedLruCache
open Runs List Nat

structure CacheConfig where
  maxItems : UInt64
  maxBytes : UInt64
  ttl : Option Nat

structure CacheStats where
  hits : UInt64 := 0
  misses : UInt64 := 0
  evictions : UInt64 := 0
  currentItems : Nat := 0
  currentBytes : UInt64 := 0

structure CacheEntry (Value : Type) where
  value : Value
  lastAccessed : Nat
  insertedAt : Nat
  sizeBytes : UInt64

variable {Key Value : Type} [DecidableEq Key]

abbrev Entries (Key Value : Type) := AList fun _ : Key => CacheEntry Value

structure Cache (Key Value : Type) where
  entries : Entries Key Value
  accessOrder : List Key
  config : CacheConfig
  stats : CacheStats

def CacheEntry.new (value : Value) (sizeBytes : UInt64) (now : Nat) : CacheEntry Value :=
  { value, lastAccessed := now, insertedAt := now, sizeBytes }

def CacheEntry.isExpired (entry : CacheEntry Value) (ttl now : Nat) : Bool :=
  decide (ttl < now - entry.lastAccessed)

def CacheEntry.touch (entry : CacheEntry Value) (now : Nat) : CacheEntry Value :=
  { entry with lastAccessed := now }

def new (config : CacheConfig) : Cache Key Value :=
  { entries := ∅, accessOrder := [], config, stats := {} }

def len (cache : Cache Key Value) : Nat := cache.entries.entries.length

-- The guard of the eviction loop and of the final refusal, with the wrapping sum.
def overLimit (config : CacheConfig) (sizeBytes : UInt64)
    (entries : Entries Key Value) (stats : CacheStats) : Bool :=
  decide (config.maxItems.toNat ≤ entries.entries.length) ||
    decide (config.maxBytes < stats.currentBytes + sizeBytes)

/-- The `while` loop of `insert_with_size`: a round pops the front of the access order, and an
exhausted deque breaks. -/
def evictWhile (config : CacheConfig) (sizeBytes : UInt64) :
    List Key → Entries Key Value → CacheStats → List Key × Entries Key Value × CacheStats
  | [], entries, stats => ([], entries, stats)
  | lruKey :: rest, entries, stats =>
    if !entries.entries.isEmpty && overLimit config sizeBytes entries stats then
      match entries.lookup lruKey with
      | some entry =>
        evictWhile config sizeBytes rest (entries.erase lruKey)
          { stats with
            currentBytes := stats.currentBytes - entry.sizeBytes
            evictions := stats.evictions + 1 }
      | none => evictWhile config sizeBytes rest entries stats
    else (lruKey :: rest, entries, stats)

def insertWithSize (cache : Cache Key Value) (key : Key) (value : Value)
    (sizeBytes : UInt64) (now : Nat) : Bool × Cache Key Value :=
  match cache.entries.lookup key with
  | some entry =>
    let entries := cache.entries.insert key
      { (entry.touch now) with value, sizeBytes }
    (true, { cache with
      entries
      accessOrder := cache.accessOrder.erase key ++ [key]
      stats := { cache.stats with
        currentBytes := cache.stats.currentBytes - entry.sizeBytes + sizeBytes
        currentItems := entries.entries.length } })
  | none =>
    let (accessOrder, entries, stats) :=
      evictWhile cache.config sizeBytes cache.accessOrder cache.entries cache.stats
    if overLimit cache.config sizeBytes entries stats then
      (false, { cache with entries, accessOrder, stats })
    else
      let entries := entries.insert key (CacheEntry.new value sizeBytes now)
      (true, { cache with
        entries
        accessOrder := accessOrder ++ [key]
        stats := { stats with
          currentBytes := stats.currentBytes + sizeBytes
          currentItems := entries.entries.length } })

/-- `insert`; the `EstimateSize` implementation of the value type is a parameter. -/
def insert (estimateSize : Value → UInt64) (cache : Cache Key Value) (key : Key)
    (value : Value) (now : Nat) : Cache Key Value :=
  (insertWithSize cache key value (estimateSize value) now).2

-- The removal shared by `remove` and the expiry branches of `get` and `peek`.
def drop (cache : Cache Key Value) (key : Key) : Cache Key Value :=
  match cache.entries.lookup key with
  | some entry =>
    { cache with
      entries := cache.entries.erase key
      accessOrder := cache.accessOrder.erase key
      stats := { cache.stats with
        currentBytes := cache.stats.currentBytes - entry.sizeBytes
        currentItems := (cache.entries.erase key).entries.length } }
  | none => cache

def expired (cache : Cache Key Value) (key : Key) (now : Nat) : Bool :=
  match cache.config.ttl, cache.entries.lookup key with
  | some ttl, some entry => entry.isExpired ttl now
  | _, _ => false

def countMiss (cache : Cache Key Value) : Cache Key Value :=
  { cache with stats := { cache.stats with misses := cache.stats.misses + 1 } }

def get (cache : Cache Key Value) (key : Key) (now : Nat) : Option Value × Cache Key Value :=
  if expired cache key now then (none, countMiss (drop cache key))
  else
    match cache.entries.lookup key with
    | some entry =>
      (some entry.value, { cache with
        entries := cache.entries.insert key (entry.touch now)
        accessOrder :=
          if key ∈ cache.accessOrder then cache.accessOrder.erase key ++ [key]
          else cache.accessOrder
        stats := { cache.stats with hits := cache.stats.hits + 1 } })
    | none => (none, countMiss cache)

def peek (cache : Cache Key Value) (key : Key) (now : Nat) : Option Value × Cache Key Value :=
  if expired cache key now then (none, drop cache key)
  else ((cache.entries.lookup key).map CacheEntry.value, cache)

def remove (cache : Cache Key Value) (key : Key) : Option Value × Cache Key Value :=
  ((cache.entries.lookup key).map CacheEntry.value, drop cache key)

def clear (cache : Cache Key Value) : Cache Key Value :=
  { cache with
    entries := ∅
    accessOrder := []
    stats := { cache.stats with currentBytes := 0, currentItems := 0 } }

inductive Operation (Key Value : Type) where
  | insertWithSize (key : Key) (value : Value) (sizeBytes : UInt64) (now : Nat)
  | insert (key : Key) (value : Value) (now : Nat)
  | get (key : Key) (now : Nat)
  | peek (key : Key) (now : Nat)
  | remove (key : Key)
  | clear

def step (estimateSize : Value → UInt64) (cache : Cache Key Value) :
    Operation Key Value → Cache Key Value
  | .insertWithSize key value sizeBytes now => (insertWithSize cache key value sizeBytes now).2
  | .insert key value now => insert estimateSize cache key value now
  | .get key now => (get cache key now).2
  | .peek key now => (peek cache key now).2
  | .remove key => (remove cache key).2
  | .clear => clear cache

def totalBytes (entries : Entries Key Value) : Nat :=
  (entries.entries.map fun entry => entry.2.sizeBytes.toNat).sum

/-- What the four linked pieces of state promise between operations. -/
structure Consistent (cache : Cache Key Value) : Prop where
  orderUnique : cache.accessOrder.Nodup
  orderKeys : cache.accessOrder.Perm cache.entries.keys
  bytesExact : cache.stats.currentBytes.toNat = totalBytes cache.entries
  itemsExact : cache.stats.currentItems = len cache
  itemsBounded : len cache ≤ cache.config.maxItems.toNat
  bytesBounded : cache.stats.currentBytes ≤ cache.config.maxBytes

section
variable (entries : Entries Key Value) (key : Key) (entry : CacheEntry Value)
include entries key entry

theorem lookup_entries_perm (found : entries.lookup key = some entry) :
    entries.entries.Perm (⟨key, entry⟩ :: (entries.erase key).entries) := by
  have member : (⟨key, entry⟩ : Sigma fun _ : Key => CacheEntry Value) ∈ entries.entries :=
    of_mem_dlookup found
  obtain ⟨stored, before, after, -, shape, erased⟩ :=
    exists_of_kerase (mem_keys_of_mem member)
  have storedMember : (⟨key, stored⟩ : Sigma fun _ : Key => CacheEntry Value) ∈ entries.entries := by
    rw [shape]
    simp
  have same : stored = entry := entries.nodupKeys.eq_of_mk_mem storedMember member
  subst same
  change entries.entries.Perm (_ :: List.kerase key entries.entries)
  rw [erased, shape]
  exact perm_middle

theorem total_bytes_erase (found : entries.lookup key = some entry) :
    totalBytes entries = entry.sizeBytes.toNat + totalBytes (entries.erase key) := by
  have perm := (lookup_entries_perm entries key entry found).map fun stored => stored.2.sizeBytes.toNat
  simpa [totalBytes] using perm.sum_eq

theorem length_erase (found : entries.lookup key = some entry) :
    entries.entries.length = (entries.erase key).entries.length + 1 := by
  simpa using (lookup_entries_perm entries key entry found).length_eq

theorem insert_entries :
    (entries.insert key entry).entries = ⟨key, entry⟩ :: (entries.erase key).entries := by
  rfl

theorem total_bytes_insert :
    totalBytes (entries.insert key entry) = entry.sizeBytes.toNat + totalBytes (entries.erase key) := by
  rw [totalBytes, insert_entries, map_cons, sum_cons, totalBytes]

theorem length_insert :
    (entries.insert key entry).entries.length = (entries.erase key).entries.length + 1 := by
  rw [insert_entries, length_cons]

end

theorem erase_absent (entries : Entries Key Value) (key : Key)
    (absent : entries.lookup key = none) : entries.erase key = entries := by
  apply AList.ext
  exact kerase_of_notMem_keys (AList.lookup_eq_none.mp absent)

omit [DecidableEq Key] in
theorem keys_length (entries : Entries Key Value) : entries.keys.length = entries.entries.length := by
  simp [AList.keys, List.keys]

theorem sub_exact (total part : UInt64) (rest : Nat) (split : total.toNat = part.toNat + rest) :
    (total - part).toNat = rest := by
  have bound : part ≤ total := UInt64.le_iff_toNat_le.mpr (by omega)
  rw [UInt64.toNat_sub_of_le _ _ bound]
  omega

/-- Dropping a key keeps everything in step: its entry, place in the access order, bytes and count
leave together. -/
theorem drop_consistent (cache : Cache Key Value) (key : Key) (valid : Consistent cache) :
    Consistent (drop cache key) := by
  unfold drop
  cases found : cache.entries.lookup key with
  | none => exact valid
  | some entry =>
    have split := total_bytes_erase cache.entries key entry found
    have count := length_erase cache.entries key entry found
    have bytes := sub_exact cache.stats.currentBytes entry.sizeBytes
      (totalBytes (cache.entries.erase key)) (valid.bytesExact.trans split)
    refine
      { orderUnique := valid.orderUnique.erase key
        orderKeys := ?_
        bytesExact := bytes
        itemsExact := rfl
        itemsBounded := ?_
        bytesBounded := ?_ }
    · simpa using valid.orderKeys.erase key
    · have before := valid.itemsBounded
      simp only [len] at before ⊢
      omega
    · have before := UInt64.le_iff_toNat_le.mp valid.bytesBounded
      have exact := valid.bytesExact
      apply UInt64.le_iff_toNat_le.mpr
      simp only [bytes]
      omega

omit [DecidableEq Key] in
theorem count_miss_consistent (cache : Cache Key Value) (valid : Consistent cache) :
    Consistent (countMiss cache) :=
  ⟨valid.orderUnique, valid.orderKeys, valid.bytesExact, valid.itemsExact,
    valid.itemsBounded, valid.bytesBounded⟩

omit [DecidableEq Key] in
theorem clear_consistent (cache : Cache Key Value) : Consistent (clear cache) where
  orderUnique := nodup_nil
  orderKeys := by simp [clear]
  bytesExact := by simp [clear, totalBytes]
  itemsExact := by simp [clear, len]
  itemsBounded := by simp [clear, len]
  bytesBounded := by simp [clear]

omit [DecidableEq Key] in
theorem new_consistent (config : CacheConfig) : Consistent (new config : Cache Key Value) where
  orderUnique := nodup_nil
  orderKeys := by simp [new]
  bytesExact := by simp [new, totalBytes]
  itemsExact := by simp [new, len]
  itemsBounded := by simp [new, len]
  bytesBounded := by simp [new]

section
variable (cache : Cache Key Value) (key : Key)
include cache key

/-- Moving a stored key to the back of the order permutes it. -/
theorem refreshed_order (entry : CacheEntry Value)
    (valid : Consistent cache) (present : key ∈ cache.entries.keys) :
    (cache.accessOrder.erase key ++ [key]).Nodup ∧
      (cache.accessOrder.erase key ++ [key]).Perm (cache.entries.insert key entry).keys := by
  have ordered : key ∈ cache.accessOrder := valid.orderKeys.mem_iff.mpr present
  have moved : (cache.accessOrder.erase key ++ [key]).Perm cache.accessOrder :=
    perm_append_comm.trans (perm_cons_erase ordered).symm
  refine ⟨moved.nodup_iff.mpr valid.orderUnique, moved.trans ?_⟩
  rw [AList.keys_insert]
  exact valid.orderKeys.trans (perm_cons_erase present)

theorem get_consistent (now : Nat) (valid : Consistent cache) : Consistent (get cache key now).2 := by
  unfold get
  split
  · exact count_miss_consistent _ (drop_consistent cache key valid)
  cases found : cache.entries.lookup key with
  | none => exact count_miss_consistent cache valid
  | some entry =>
    have present : key ∈ cache.entries.keys :=
      AList.lookup_isSome.mp (by rw [found]; rfl)
    have ordered : key ∈ cache.accessOrder := valid.orderKeys.mem_iff.mpr present
    obtain ⟨unique, keys⟩ := refreshed_order cache key (entry.touch now) valid present
    have split := total_bytes_erase cache.entries key entry found
    have count := length_erase cache.entries key entry found
    simp only [ordered]
    refine
      { orderUnique := unique
        orderKeys := keys
        bytesExact := ?_
        itemsExact := ?_
        itemsBounded := ?_
        bytesBounded := valid.bytesBounded }
    · exact valid.bytesExact.trans split
    · have items := valid.itemsExact
      simp only [len, length_insert] at items ⊢
      omega
    · have bound := valid.itemsBounded
      simp only [len, length_insert] at bound ⊢
      omega

theorem peek_consistent (now : Nat) (valid : Consistent cache) : Consistent (peek cache key now).2 := by
  unfold peek
  split
  · exact drop_consistent cache key valid
  · exact valid

end

/-- The part of `Consistent` inside the eviction loop: the item counter is refreshed after it, the
new entry not stored yet. -/
structure Tracked (order : List Key) (entries : Entries Key Value) (stats : CacheStats) : Prop where
  unique : order.Nodup
  keys : order.Perm entries.keys
  bytes : stats.currentBytes.toNat = totalBytes entries

theorem tracked_lookup (lruKey : Key) (rest : List Key) (entries : Entries Key Value)
    (stats : CacheStats) (tracked : Tracked (lruKey :: rest) entries stats) :
    ∃ entry, entries.lookup lruKey = some entry := by
  have present : lruKey ∈ entries.keys := tracked.keys.mem_iff.mp mem_cons_self
  exact Option.isSome_iff_exists.mp (AList.lookup_isSome.mpr present)

theorem tracked_pop (lruKey : Key) (rest : List Key) (entries : Entries Key Value)
    (stats : CacheStats) (entry : CacheEntry Value) (tracked : Tracked (lruKey :: rest) entries stats)
    (found : entries.lookup lruKey = some entry) : Tracked rest (entries.erase lruKey)
      { stats with
        currentBytes := stats.currentBytes - entry.sizeBytes
        evictions := stats.evictions + 1 } where
  unique := (nodup_cons.mp tracked.unique).2
  keys := by
    have erased := tracked.keys.erase lruKey
    simpa using erased
  bytes := sub_exact stats.currentBytes entry.sizeBytes _
    (tracked.bytes.trans (total_bytes_erase entries lruKey entry found))

structure Evicted (config : CacheConfig) (sizeBytes : UInt64) (entries : Entries Key Value)
    (stats : CacheStats) (result : List Key × Entries Key Value × CacheStats) : Prop where
  tracked : Tracked result.1 result.2.1 result.2.2
  itemsKept : result.2.2.currentItems = stats.currentItems
  shorter : result.2.1.entries.length ≤ entries.entries.length
  lighter : totalBytes result.2.1 ≤ totalBytes entries
  absentKept : ∀ key, entries.lookup key = none → result.2.1.lookup key = none
  settled : result.2.1.entries = [] ∨
    overLimit config sizeBytes result.2.1 result.2.2 = false
  untouched : result.2.1.entries.length = entries.entries.length → result.2 = (entries, stats)

theorem absent_erase (entries : Entries Key Value) (key other : Key)
    (absent : entries.lookup key = none) : (entries.erase other).lookup key = none := by
  by_cases same : key = other
  · subst other
    exact AList.lookup_erase key entries
  · rw [AList.lookup_erase_ne same]
    exact absent

theorem evict_spec (config : CacheConfig) (sizeBytes : UInt64) (order : List Key)
    (entries : Entries Key Value) (stats : CacheStats) (tracked : Tracked order entries stats) :
    Evicted config sizeBytes entries stats (evictWhile config sizeBytes order entries stats) := by
  induction order generalizing entries stats with
  | nil =>
    have none : entries.entries = [] := by
      have keys := tracked.keys.length_eq
      rw [keys_length] at keys
      exact length_eq_zero_iff.mp keys.symm
    exact ⟨tracked, rfl, le_rfl, le_rfl, fun _ absent => absent, Or.inl none, fun _ => rfl⟩
  | cons lruKey rest ih =>
    obtain ⟨entry, found⟩ := tracked_lookup lruKey rest entries stats tracked
    have popped := ih _ _ (tracked_pop lruKey rest entries stats entry tracked found)
    have count := length_erase entries lruKey entry found
    have bytes := total_bytes_erase entries lruKey entry found
    unfold evictWhile
    split
    · simp only [found]
      have shorter := popped.shorter
      have lighter := popped.lighter
      exact
        { tracked := popped.tracked
          itemsKept := popped.itemsKept
          shorter := by omega
          lighter := by omega
          absentKept := fun key absent =>
            popped.absentKept key (absent_erase entries key lruKey absent)
          settled := popped.settled
          untouched := fun same => by omega }
    · rename_i stopped
      refine ⟨tracked, rfl, le_rfl, le_rfl, fun _ absent => absent, ?_, fun _ => rfl⟩
      cases stored : entries.entries with
      | nil => exact Or.inl rfl
      | cons head tail =>
        simpa [stored] using stopped

/-- The bytes that stay when only the count limit evicts: all, or all but the least recently used
entry of a full cache. -/
def retainedBytes (cache : Cache Key Value) : Nat :=
  if cache.config.maxItems.toNat ≤ len cache then
    match cache.accessOrder with
    | [] => totalBytes cache.entries
    | lruKey :: _ => totalBytes (cache.entries.erase lruKey)
  else totalBytes cache.entries

/-- Inserting fits when an update in place keeps the total within `max_bytes`,
and when a new entry meets an empty cache or is itself within `max_bytes` and
does not carry the 64-bit byte counter around. -/
def InsertFits (cache : Cache Key Value) (key : Key) (sizeBytes : UInt64) : Prop :=
  match cache.entries.lookup key with
  | some _ => totalBytes (cache.entries.erase key) + sizeBytes.toNat ≤ cache.config.maxBytes.toNat
  | none => len cache = 0 ∨
      (sizeBytes ≤ cache.config.maxBytes ∧ retainedBytes cache + sizeBytes.toNat < 2 ^ 64)

theorem update_consistent_iff (cache : Cache Key Value) (key : Key) (value : Value)
    (sizeBytes : UInt64) (now : Nat) (entry : CacheEntry Value) (valid : Consistent cache)
    (found : cache.entries.lookup key = some entry) :
    Consistent (insertWithSize cache key value sizeBytes now).2 ↔
      totalBytes (cache.entries.erase key) + sizeBytes.toNat ≤ cache.config.maxBytes.toNat := by
  have present : key ∈ cache.entries.keys := AList.lookup_isSome.mp (by rw [found]; rfl)
  have rest := sub_exact cache.stats.currentBytes entry.sizeBytes (totalBytes (cache.entries.erase key))
    (valid.bytesExact.trans (total_bytes_erase cache.entries key entry found))
  have limit := cache.config.maxBytes.toNat_lt
  simp only [insertWithSize, found]
  constructor
  · intro after
    have exact := after.bytesExact
    have bound := UInt64.le_iff_toNat_le.mp after.bytesBounded
    simp only [total_bytes_insert] at exact bound
    omega
  · intro fits
    obtain ⟨unique, keys⟩ := refreshed_order cache key
      { (entry.touch now) with value, sizeBytes } valid present
    have total : (cache.stats.currentBytes - entry.sizeBytes + sizeBytes).toNat =
        totalBytes (cache.entries.erase key) + sizeBytes.toNat := by
      rw [UInt64.toNat_add, rest]
      exact mod_eq_of_lt (by omega)
    refine
      { orderUnique := unique
        orderKeys := keys
        bytesExact := ?_
        itemsExact := rfl
        itemsBounded := ?_
        bytesBounded := ?_ }
    · simp only [total_bytes_insert]
      omega
    · have bound := valid.itemsBounded
      have count := length_erase cache.entries key entry found
      simp only [len, length_insert] at bound ⊢
      omega
    · apply UInt64.le_iff_toNat_le.mpr
      simp only [total]
      exact fits

omit [DecidableEq Key] in
theorem over_limit_false (config : CacheConfig) (sizeBytes : UInt64)
    (entries : Entries Key Value) (stats : CacheStats) :
    overLimit config sizeBytes entries stats = false ↔ entries.entries.length < config.maxItems.toNat ∧
        (stats.currentBytes.toNat + sizeBytes.toNat) % 2 ^ 64 ≤ config.maxBytes.toNat := by
  simp [overLimit, UInt64.le_iff_toNat_le, UInt64.toNat_add]

section
variable (config : CacheConfig) (sizeBytes : UInt64) (order : List Key)
    (entries : Entries Key Value) (stats : CacheStats) (tracked : Tracked order entries stats)
    (room : entries.entries.length < config.maxItems.toNat)
include config sizeBytes order entries stats tracked room

/-- With room for one more item, the loop ends within both limits or has nothing left to evict. -/
theorem evict_fits (small : sizeBytes ≤ config.maxBytes) :
    overLimit config sizeBytes (evictWhile config sizeBytes order entries stats).2.1
      (evictWhile config sizeBytes order entries stats).2.2 = false := by
  have evicted := evict_spec config sizeBytes order entries stats tracked
  rcases evicted.settled with emptied | within
  · have bytes := evicted.tracked.bytes
    have nothing : totalBytes (evictWhile config sizeBytes order entries stats).2.1 = 0 := by
      simp [totalBytes, emptied]
    have shorter := evicted.shorter
    have bound := UInt64.le_iff_toNat_le.mp small
    have limit := sizeBytes.toNat_lt
    refine (over_limit_false _ _ _ _).mpr ⟨by omega, ?_⟩
    rw [bytes, nothing, Nat.zero_add, mod_eq_of_lt limit]
    exact bound
  · exact within

/-- A sum that wraps looks small, so the loop stops before evicting for bytes. -/
theorem evict_wraps (bounded : totalBytes entries ≤ config.maxBytes.toNat)
    (wraps : 2 ^ 64 ≤ totalBytes entries + sizeBytes.toNat) :
    evictWhile config sizeBytes order entries stats = (order, entries, stats) := by
  have limit := sizeBytes.toNat_lt
  have within : overLimit config sizeBytes entries stats = false := by
    refine (over_limit_false _ _ _ _).mpr ⟨room, ?_⟩
    rw [tracked.bytes]
    omega
  cases order with
  | nil => rfl
  | cons lruKey rest => simp [evictWhile, within]

end

/-- The count limit evicts at most one entry, and first: the loop runs as from a cache with room for
one more item. -/
theorem evict_trims (cache : Cache Key Value) (sizeBytes : UInt64)
    (valid : Consistent cache) (stored : len cache ≠ 0) : ∃ order entries stats,
      evictWhile cache.config sizeBytes cache.accessOrder cache.entries cache.stats =
        evictWhile cache.config sizeBytes order entries stats ∧
      Tracked order entries stats ∧
      totalBytes entries = retainedBytes cache ∧
      totalBytes entries ≤ cache.config.maxBytes.toNat ∧
      entries.entries.length < cache.config.maxItems.toNat := by
  have tracked : Tracked cache.accessOrder cache.entries cache.stats :=
    ⟨valid.orderUnique, valid.orderKeys, valid.bytesExact⟩
  have bytes := UInt64.le_iff_toNat_le.mp valid.bytesBounded
  rw [valid.bytesExact] at bytes
  have items := valid.itemsBounded
  by_cases full : cache.config.maxItems.toNat ≤ len cache
  · cases order : cache.accessOrder with
    | nil =>
      have keys := valid.orderKeys.length_eq
      rw [order, keys_length] at keys
      exact absurd keys.symm stored
    | cons lruKey rest =>
      rw [order] at tracked
      obtain ⟨entry, found⟩ := tracked_lookup lruKey rest cache.entries cache.stats tracked
      have popped := tracked_pop lruKey rest cache.entries cache.stats entry tracked found
      have count := length_erase cache.entries lruKey entry found
      have split := total_bytes_erase cache.entries lruKey entry found
      have occupied : cache.entries.entries.isEmpty = false := by
        simpa [len] using stored
      have exceeds : overLimit cache.config sizeBytes cache.entries cache.stats = true := by
        simp only [len] at full
        simp [overLimit, full]
      refine ⟨rest, cache.entries.erase lruKey, _, ?_, popped, ?_, by omega, ?_⟩
      · rw [evictWhile]
        simp [occupied, exceeds, found]
      · simp [retainedBytes, full, order]
      · simp only [len] at items
        omega
  · refine ⟨_, _, _, rfl, tracked, ?_, bytes, by simp only [len] at full; omega⟩
    simp [retainedBytes, full]

section
variable (cache : Cache Key Value) (key : Key) (value : Value) (sizeBytes : UInt64) (now : Nat)
    (valid : Consistent cache)
include cache key value sizeBytes now valid

theorem stored_consistent_iff (stored : len cache ≠ 0) (absent : cache.entries.lookup key = none) :
    Consistent (insertWithSize cache key value sizeBytes now).2 ↔
      sizeBytes ≤ cache.config.maxBytes ∧ retainedBytes cache + sizeBytes.toNat < 2 ^ 64 := by
  have start := evict_spec cache.config sizeBytes cache.accessOrder cache.entries cache.stats
    ⟨valid.orderUnique, valid.orderKeys, valid.bytesExact⟩
  obtain ⟨order, entries, stats, trimmed, tracked, retained, bounded, room⟩ :=
    evict_trims cache sizeBytes valid stored
  have evicted := evict_spec cache.config sizeBytes order entries stats tracked
  rw [← trimmed] at evicted
  have missing := start.absentKept key absent
  simp only [insertWithSize, absent]
  generalize final : evictWhile cache.config sizeBytes cache.accessOrder cache.entries cache.stats
    = result at start evicted missing ⊢
  obtain ⟨order', entries', stats'⟩ := result
  by_cases exceeds : overLimit cache.config sizeBytes entries' stats' = true
  · -- A refusal from a nonempty cache has evicted everything and left the item counter behind.
    simp only [exceeds, ↓reduceIte]
    constructor
    · intro after
      have items := after.itemsExact
      have before := valid.itemsExact
      have kept := start.itemsKept
      simp only [len] at items before kept
      have same := start.untouched (by simp only; omega)
      obtain ⟨rfl, rfl⟩ := Prod.mk.inj same
      rcases start.settled with emptied | within
      · exact absurd (by simpa [len] using emptied) stored
      · simp [exceeds] at within
    · rintro ⟨small, -⟩
      have within := evict_fits cache.config sizeBytes order entries stats tracked room small
      rw [← trimmed, final] at within
      simp [exceeds] at within
  · have within : overLimit cache.config sizeBytes entries' stats' = false := by simpa using exceeds
    obtain ⟨count, wrapped⟩ := (over_limit_false _ _ _ _).mp within
    have bytes := start.tracked.bytes
    simp only [within, Bool.false_eq_true, ↓reduceIte]
    constructor
    · intro after
      have exact := after.bytesExact
      simp only [total_bytes_insert, erase_absent entries' key missing, CacheEntry.new,
        UInt64.toNat_add] at exact bytes
      refine ⟨UInt64.le_iff_toNat_le.mpr (by omega), ?_⟩
      by_contra wraps
      have stopped := evict_wraps cache.config sizeBytes order entries stats tracked room bounded (by omega)
      rw [← trimmed, final] at stopped
      have same : entries' = entries := congrArg (fun result => result.2.1) stopped
      subst same
      have limit := (stats'.currentBytes + sizeBytes).toNat_lt
      rw [UInt64.toNat_add] at limit
      omega
    · rintro ⟨small, narrow⟩
      have lighter := evicted.lighter
      have sum : (stats'.currentBytes + sizeBytes).toNat = sizeBytes.toNat + totalBytes entries' := by
        simp only at bytes lighter
        rw [UInt64.toNat_add, bytes, mod_eq_of_lt (by omega), Nat.add_comm]
      have fresh : key ∉ order' := fun member =>
        AList.lookup_eq_none.mp missing (start.tracked.keys.mem_iff.mp member)
      refine
        { orderUnique := ?_
          orderKeys := ?_
          bytesExact := ?_
          itemsExact := rfl
          itemsBounded := ?_
          bytesBounded := ?_ }
      · exact nodup_append.mpr ⟨start.tracked.unique, nodup_singleton key,
          by simpa using fun other member => ne_of_mem_of_not_mem member fresh⟩
      · rw [AList.keys_insert, erase_of_not_mem
          (fun member => fresh (start.tracked.keys.mem_iff.mpr member))]
        exact perm_append_comm.trans (start.tracked.keys.cons key)
      · simp only [total_bytes_insert, erase_absent entries' key missing, CacheEntry.new]
        exact sum
      · simp only [len, length_insert, erase_absent entries' key missing]
        omega
      · apply UInt64.le_iff_toNat_le.mpr
        rw [UInt64.toNat_add]
        exact wrapped

/-- An empty cache has nothing to evict: a refusal changes nothing and an
admitted entry is the only one. -/
theorem empty_insert_consistent (vacant : len cache = 0) (absent : cache.entries.lookup key = none) :
    Consistent (insertWithSize cache key value sizeBytes now).2 := by
  have noEntries : cache.entries.entries = [] := length_eq_zero_iff.mp vacant
  have noOrder : cache.accessOrder = [] := by
    have keys := valid.orderKeys.length_eq
    rw [keys_length] at keys
    exact length_eq_zero_iff.mp (keys.trans vacant)
  have nothing : totalBytes cache.entries = 0 := by simp [totalBytes, noEntries]
  have bytes := valid.bytesExact
  have limit := sizeBytes.toNat_lt
  have sum : (cache.stats.currentBytes + sizeBytes).toNat = sizeBytes.toNat := by
    rw [UInt64.toNat_add, bytes, nothing, Nat.zero_add, mod_eq_of_lt limit]
  simp only [insertWithSize, absent, noOrder, evictWhile]
  by_cases exceeds : overLimit cache.config sizeBytes cache.entries cache.stats = true
  · simp only [exceeds]
    have unchanged := valid
    rw [show cache = { cache with accessOrder := [] } by rw [← noOrder]] at unchanged
    exact unchanged
  have within : overLimit cache.config sizeBytes cache.entries cache.stats = false := by
    simpa using exceeds
  obtain ⟨count, wrapped⟩ := (over_limit_false _ _ _ _).mp within
  simp only [within, Bool.false_eq_true, ↓reduceIte]
  refine
    { orderUnique := by simp
      orderKeys := ?_
      bytesExact := ?_
      itemsExact := rfl
      itemsBounded := ?_
      bytesBounded := ?_ }
  · simp [AList.keys, noEntries]
  · simp only [total_bytes_insert, erase_absent cache.entries key absent, CacheEntry.new]
    omega
  · simp only [len, length_insert, erase_absent cache.entries key absent]
    omega
  · exact wrapped

theorem insert_consistent_iff :
    Consistent (insertWithSize cache key value sizeBytes now).2 ↔ InsertFits cache key sizeBytes := by
  unfold InsertFits
  cases found : cache.entries.lookup key with
  | some entry => exact update_consistent_iff cache key value sizeBytes now entry valid found
  | none =>
    by_cases vacant : len cache = 0
    · have kept := empty_insert_consistent cache key value sizeBytes now valid vacant found
      simp [kept, vacant]
    · simp only [vacant, false_or]
      exact stored_consistent_iff cache key value sizeBytes now valid vacant found

end

def StepFits (estimateSize : Value → UInt64) (cache : Cache Key Value) : Operation Key Value → Prop
  | .insertWithSize key _ sizeBytes _ => InsertFits cache key sizeBytes
  | .insert key value _ => InsertFits cache key (estimateSize value)
  | _ => True

theorem step_consistent_iff (estimateSize : Value → UInt64) (cache : Cache Key Value)
    (operation : Operation Key Value) (valid : Consistent cache) :
    Consistent (step estimateSize cache operation) ↔ StepFits estimateSize cache operation := by
  cases operation with
  | insertWithSize key value sizeBytes now =>
    exact insert_consistent_iff cache key value sizeBytes now valid
  | insert key value now =>
    exact insert_consistent_iff cache key value (estimateSize value) now valid
  | get key now => simpa [step, StepFits] using get_consistent cache key now valid
  | peek key now => simpa [step, StepFits] using peek_consistent cache key now valid
  | remove key => simpa [step, StepFits, remove] using drop_consistent cache key valid
  | clear => simpa [step, StepFits] using clear_consistent cache

/-- A run from a new cache keeps the order, both counters and both limits throughout exactly when
each insert fits where it is made. -/
theorem cache_run_consistent_iff (estimateSize : Value → UInt64) (config : CacheConfig)
    (operations : List (Operation Key Value)) :
    Along (step estimateSize) Consistent (new config) operations ↔
      StepsMeet (step estimateSize) (StepFits estimateSize) (new config) operations :=
  along_iff_steps _ _ _ (step_consistent_iff estimateSize) _ operations (new_consistent config)

/-- Growing a stored entry past `max_bytes` leaves the byte counter at 20 of 10; refusing an
oversized one leaves the item counter at one over no entries. -/
theorem cache_limits_escape :
    ¬ Along (step fun _ : Nat => 0) Consistent (new ⟨4, 10, none⟩ : Cache Nat Nat)
        [.insertWithSize 0 0 5 0, .insertWithSize 0 1 20 1] ∧
      ¬ Along (step fun _ : Nat => 0) Consistent (new ⟨4, 10, none⟩ : Cache Nat Nat)
        [.insertWithSize 0 0 5 0, .insertWithSize 1 1 11 1] := by
  constructor
  · rintro ⟨-, -, after⟩
    have bounded := after.bytesBounded
    revert bounded
    decide
  · rintro ⟨-, -, after⟩
    have items := after.itemsExact
    revert items
    decide

end PerlLsp.BoundedLruCache
