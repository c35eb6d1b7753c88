import PerlLsp.Workspace
import PerlLsp.Utf8
import Mathlib.Data.List.Infix
import Mathlib.Order.Bounds.Basic

/-! Workspace-symbol search: the compiled query and the one match operation of
workspace_symbol_query.rs, and `search_source_symbols_from_buckets` of
workspace/workspace_index.rs over them. Texts that are matched are lists of scalar
values. `str::to_lowercase` is a parameter, so nothing depends on its table. A matched
position is a `u32`: a position that does not fit rejects the match, and the end of a
substring wraps. -/
namespace PerlLsp.SymbolSearch
open Std StableSort Workspace Text Utf8 List Nat Option

def workspaceSymbolQueryProfileVersion : Nat := 1

def workspaceSymbolQueryPolicyId : String :=
  "ws-symbol-query/exact-prefix-substring-subsequence.v1"

def minLooseMatchQueryChars : Nat := 2

inductive WorkspaceSymbolSearchKeyRole where
  | bareName
  | qualifiedName
  | compatibilityAlias
  | generatedFrameworkProjection
  | other
  deriving DecidableEq

structure WorkspaceSymbolQueryProfile where
  version : Nat
  policyId : String
  rawQuery : List Char
  trimmedQuery : List Char
  foldedQuery : List Char
  foldedCharCount : Nat
  browse : Bool
  looseTierEligible : Bool
  digest : UInt64

def fnvByte (hash : UInt64) (byte : UInt8) : UInt64 :=
  (hash ^^^ byte.toUInt64) * 0x100000001b3

def deriveDigest (policyId : String) (foldedQuery : List Char) : UInt64 :=
  let versionBytes : List UInt8 := [1, 0, 0, 0]
  let bytes := versionBytes ++ [0xff] ++ encode policyId.toList ++ [0xff] ++ encode foldedQuery
  bytes.foldl fnvByte 0xcbf29ce484222325

inductive WorkspaceSymbolMatchTier where
  | exact
  | prefix_
  | substring
  | subsequence
  deriving DecidableEq

def WorkspaceSymbolMatchTier.slot : WorkspaceSymbolMatchTier → Nat
  | exact => 0
  | prefix_ => 1
  | substring => 2
  | subsequence => 3

structure WorkspaceSymbolMatchEvidence where
  profileVersion : Nat
  profileDigest : UInt64
  searchableKey : String
  keyRole : WorkspaceSymbolSearchKeyRole
  tier : WorkspaceSymbolMatchTier
  matchedPositions : List Nat
  deriving DecidableEq

def WorkspaceSymbolMatchEvidence.compare :
    WorkspaceSymbolMatchEvidence → WorkspaceSymbolMatchEvidence → Ordering :=
  compareLex (compareOn fun evidence => evidence.tier.slot)
    (compareLex (compareOn fun evidence => evidence.searchableKey.utf8ByteSize)
      (compareOn fun evidence => evidence.searchableKey))

instance : TransCmp WorkspaceSymbolMatchEvidence.compare :=
  inferInstanceAs (TransCmp (compareLex _ (compareLex _ _)))

def u32Bound : Nat := 2 ^ 32

def u32TryFrom (value : Nat) : Option Nat := if value < u32Bound then some value else none

/-- The positions of a range of `u32`s. -/
def u32Range (start stop : Nat) : List Nat := List.range' start (stop - start)

def findSubstringPosition (keyChars queryChars : List Char) : Option Nat :=
  if queryChars.isEmpty || decide (keyChars.length < queryChars.length) then none
  else
    ((List.range (keyChars.length - queryChars.length + 1)).find? fun start =>
      decide ((keyChars.drop start).take queryChars.length = queryChars)).bind u32TryFrom

/-- The loop of `subsequence_positions` over the rest of the query. -/
def subsequenceFrom (keyChars : List Char) : Nat → List Char → Option (List Nat)
  | _, [] => some []
  | cursor, target :: rest =>
    match (keyChars.drop cursor).findIdx? (· == target) with
    | none => none
    | some found =>
      match u32TryFrom (cursor + found) with
      | none => none
      | some position =>
        (subsequenceFrom keyChars (cursor + found + 1) rest).map (position :: ·)

def subsequencePositions (keyChars queryChars : List Char) : Option (List Nat) :=
  subsequenceFrom keyChars 0 queryChars

section Folding
variable (toLowercase : List Char → List Char)

def compile (rawQuery : List Char) : WorkspaceSymbolQueryProfile :=
  let trimmedQuery := trim rawQuery
  let foldedQuery := toLowercase trimmedQuery
  { version := workspaceSymbolQueryProfileVersion
    policyId := workspaceSymbolQueryPolicyId
    rawQuery := rawQuery
    trimmedQuery := trimmedQuery
    foldedQuery := foldedQuery
    foldedCharCount := foldedQuery.length
    browse := trimmedQuery.isEmpty
    looseTierEligible := decide (minLooseMatchQueryChars ≤ foldedQuery.length)
    digest := deriveDigest workspaceSymbolQueryPolicyId foldedQuery }

def matchSearchableKey (profile : WorkspaceSymbolQueryProfile) (searchableKey : String)
    (keyRole : WorkspaceSymbolSearchKeyRole) : Option WorkspaceSymbolMatchEvidence :=
  let make := fun tier positions => (⟨profile.version, profile.digest, searchableKey, keyRole, tier,
    positions⟩ : WorkspaceSymbolMatchEvidence)
  let keyFolded := toLowercase searchableKey.toList
  if profile.browse then
    some (if keyFolded.isEmpty then make .exact [] else make .prefix_ [])
  else
    let queryChars := profile.foldedQuery
    let positions := u32Range 0 (min queryChars.length (u32Bound - 1))
    if keyFolded = profile.foldedQuery then some (make .exact positions)
    else if profile.foldedQuery <+: keyFolded then some (make .prefix_ positions)
    else if !profile.looseTierEligible then none
    else
      match findSubstringPosition keyFolded queryChars with
      | some start =>
        some (make .substring (u32Range start ((start + queryChars.length) % u32Bound)))
      | none => (subsequencePositions keyFolded queryChars).map (make .subsequence)

def legacyIndexMatchRank : WorkspaceSymbolMatchTier → Nat
  | .exact => 3
  | .prefix_ => 2
  | .substring => 2
  | .subsequence => 1

abbrev Bucket := String × List WorkspaceSymbol

structure AdmittedBucket where
  evidence : WorkspaceSymbolMatchEvidence
  nameKey : String
  symbols : List WorkspaceSymbol

def AdmittedBucket.compare : AdmittedBucket → AdmittedBucket → Ordering :=
  compareLex (fun left right => left.evidence.compare right.evidence)
    (compareOn AdmittedBucket.nameKey)

def keyRoleOf (nameKey : String) : WorkspaceSymbolSearchKeyRole :=
  if [':', ':'] <:+: nameKey.toList ∨ Char.ofNat 0x27 ∈ nameKey.toList then .qualifiedName
  else .bareName

def admitBucket (profile : WorkspaceSymbolQueryProfile) (bucket : Bucket) : Option AdmittedBucket :=
  (matchSearchableKey toLowercase profile bucket.1 (keyRoleOf bucket.1)).map fun evidence =>
    ⟨evidence, bucket.1, bucket.2⟩

abbrev Scored := Nat × WorkspaceSymbol

def dedupKey (row : Scored) : String × Nat := (row.2.uri, row.2.range.start.byte)

def scoredRows (admitted : AdmittedBucket) : List Scored :=
  admitted.symbols.map fun symbol => (legacyIndexMatchRank admitted.evidence.tier, symbol)

def compareScored : Scored → Scored → Ordering :=
  compareLex (fun left right => compareOn Prod.fst right left) (compareOn fun row => row.2.name)

instance : TransCmp compareScored :=
  inferInstanceAs (TransCmp (compareLex (fun left right => compareOn Prod.fst right left) _))

def scoredSymbols (profile : WorkspaceSymbolQueryProfile) (buckets : List Bucket) : List Scored :=
  let admitted := sortBy AdmittedBucket.compare (buckets.filterMap (admitBucket toLowercase profile))
  sortBy compareScored (firstPerKey dedupKey [] (admitted.flatMap scoredRows))

/-- `usize::MAX`, the cap of a search without one, is more than any list holds. -/
def searchSourceSymbolsFromBuckets (buckets : List Bucket) (profile : WorkspaceSymbolQueryProfile)
    (cap : Option Nat) : List WorkspaceSymbol :=
  let found := (scoredSymbols toLowercase profile buckets).map Prod.snd
  match cap with
  | none => found
  | some cap => found.take cap

end Folding

/-- The first place of the first scalar is the best one to go on from. -/
theorem cons_sublist_take (target : Char) (rest keyChars : List Char) (bound : Nat) :
    (target :: rest).Sublist (keyChars.take bound) ↔
      ∃ found, keyChars.findIdx? (· == target) = some found ∧ found < bound ∧
        rest.Sublist ((keyChars.drop (found + 1)).take (bound - (found + 1))) := by
  induction keyChars generalizing bound with
  | nil =>
    rw [take_nil]
    exact iff_of_false (fun sub => by cases sub) (fun ⟨_, absent, _⟩ => by cases absent)
  | cons head others ih =>
    cases bound with
    | zero =>
      exact iff_of_false (fun sub => by cases sub) (fun ⟨found, _, below, _⟩ => by omega)
    | succ bound =>
      rw [take_succ_cons, findIdx?_cons]
      by_cases same : head = target
      · subst same
        rw [if_pos (beq_self_eq_true head), cons_sublist_cons]
        constructor
        · exact fun sub => ⟨0, rfl, succ_pos bound, sub⟩
        · rintro ⟨found, here, -, sub⟩
          obtain rfl := some.inj here
          exact sub
      · rw [if_neg (by simpa using same)]
        have skipped : (target :: rest).Sublist (head :: others.take bound) ↔
            (target :: rest).Sublist (others.take bound) := by
          constructor
          · intro sub
            cases sub with
            | cons _ later => exact later
            | cons_cons _ _ => exact absurd rfl same
          · exact fun sub => sub.cons head
        rw [skipped, ih]
        constructor
        · rintro ⟨found, here, below, sub⟩
          refine ⟨found + 1, by rw [here]; rfl, succ_lt_succ below, ?_⟩
          rw [drop_succ_cons, succ_sub_succ]
          exact sub
        · rintro ⟨found, here, below, sub⟩
          obtain ⟨earlier, there, rfl⟩ := map_eq_some_iff.mp here
          rw [drop_succ_cons, succ_sub_succ] at sub
          exact ⟨earlier, there, lt_of_succ_lt_succ below, sub⟩

theorem u32_try_from_none {value : Nat} : u32TryFrom value = none ↔ u32Bound ≤ value := by
  rw [u32TryFrom]
  split
  · next fits => exact iff_of_false (some_ne_none value) (Nat.not_le_of_lt fits)
  · next large => exact iff_of_true rfl (Nat.le_of_not_lt large)

theorem u32_try_from_some {value position : Nat} :
    u32TryFrom value = some position ↔ value < u32Bound ∧ position = value := by
  rw [u32TryFrom]
  split
  · next fits =>
      constructor
      · exact fun same => ⟨fits, (some.inj same).symm⟩
      · rintro ⟨-, rfl⟩
        rfl
  · next large => exact iff_of_false (fun absent => by cases absent) (fun both => large both.1)

theorem subsequence_from_iff (keyChars query : List Char) (cursor : Nat) :
    (subsequenceFrom keyChars cursor query).isSome = true ↔
      query.Sublist ((keyChars.drop cursor).take (u32Bound - cursor)) := by
  induction query generalizing cursor with
  | nil => exact iff_of_true rfl (nil_sublist _)
  | cons target rest ih =>
    rw [cons_sublist_take, subsequenceFrom]
    cases here : (keyChars.drop cursor).findIdx? (· == target) with
    | none => exact iff_of_false Bool.false_ne_true (fun ⟨_, absent, _⟩ => by cases absent)
    | some found =>
      dsimp only
      have only (holds : Nat → Prop) :
          (∃ other, some found = some other ∧ holds other) ↔ holds found :=
        ⟨fun ⟨other, same, held⟩ => some.inj same ▸ held, fun held => ⟨found, rfl, held⟩⟩
      rw [only]
      cases fits : u32TryFrom (cursor + found) with
      | none =>
        have large := u32_try_from_none.mp fits
        exact iff_of_false Bool.false_ne_true (fun ⟨below, _⟩ => by omega)
      | some position =>
        obtain ⟨small, -⟩ := u32_try_from_some.mp fits
        dsimp only
        rw [isSome_map, ih, drop_drop, Nat.add_assoc, Nat.sub_sub]
        exact (and_iff_right (by omega)).symm

theorem subsequence_positions_iff (keyChars query : List Char) :
    (subsequencePositions keyChars query).isSome = true ↔ query.Sublist (keyChars.take u32Bound) :=
  subsequence_from_iff keyChars query 0

theorem find_substring_iff (keyChars query : List Char) (filled : query ≠ []) :
    (findSubstringPosition keyChars query).isSome = true ↔
      ∃ start, start < u32Bound ∧ query <+: keyChars.drop start := by
  have met (start : Nat) : decide ((keyChars.drop start).take query.length = query) = true ↔
      query <+: keyChars.drop start := by
    rw [decide_eq_true_iff, prefix_iff_eq_take]
    exact eq_comm
  have within {start : Nat} (here : query <+: keyChars.drop start) :
      start < keyChars.length - query.length + 1 := by
    have length := here.length_le
    have positive := length_pos_iff.mpr filled
    rw [length_drop] at length
    omega
  have nonempty : query.isEmpty = false := isEmpty_eq_false_iff.mpr filled
  rw [findSubstringPosition, nonempty, Bool.false_or]
  by_cases short : keyChars.length < query.length
  · rw [if_pos (decide_eq_true short)]
    refine iff_of_false Bool.false_ne_true (fun ⟨start, _, here⟩ => ?_)
    have length := here.length_le
    rw [length_drop] at length
    omega
  rw [if_neg (by simpa using short)]
  cases found : (List.range (keyChars.length - query.length + 1)).find? fun start =>
      decide ((keyChars.drop start).take query.length = query) with
  | none =>
    refine iff_of_false Bool.false_ne_true (fun ⟨start, _, here⟩ => ?_)
    have never := find?_eq_none.mp found start (mem_range.mpr (within here))
    exact never ((met start).mpr here)
  | some first =>
    obtain ⟨there, -, earliest⟩ := find?_range_eq_some.mp found
    rw [bind_some, isSome_iff_ne_none, Ne, u32_try_from_none, Nat.not_le]
    constructor
    · exact fun fits => ⟨first, fits, (met first).mp there⟩
    · rintro ⟨start, fits, here⟩
      apply Nat.lt_of_not_le
      intro large
      have before := earliest start (Nat.lt_of_lt_of_le fits large)
      rw [(met start).mpr here] at before
      cases before

theorem trim_blank (text : List Char) :
    (trim text).isEmpty = true ↔ ∀ scalar ∈ text, isWhitespace scalar = true := by
  rw [List.isEmpty_iff]
  constructor
  · intro empty scalar member
    rw [trim, trimEnd, rdropWhile_eq_nil_iff] at empty
    have whole : text.takeWhile isWhitespace ++ trimStart text = text := takeWhile_append_dropWhile
    rw [← whole] at member
    rcases mem_append.mp member with front | rest
    · exact mem_takeWhile_imp front
    · exact empty scalar rest
  · intro blank
    rw [trim, trimStart, dropWhile_eq_nil_iff.mpr blank]
    rfl

section Folding
variable (toLowercase : List Char → List Char)

/-- A folded key that the folded query meets within the positions of a `u32`. -/
def Meets (foldedQuery keyFolded : List Char) : Prop :=
  (∃ start, start < u32Bound ∧ foldedQuery <+: keyFolded.drop start) ∨
    foldedQuery.Sublist (keyFolded.take u32Bound)

theorem match_admits (query : List Char) (searchableKey : String)
    (keyRole : WorkspaceSymbolSearchKeyRole) :
    (matchSearchableKey toLowercase (compile toLowercase query) searchableKey keyRole).isSome = true ↔
      (∀ scalar ∈ query, isWhitespace scalar = true) ∨
        toLowercase searchableKey.toList = toLowercase (trim query) ∨
        toLowercase (trim query) <+: toLowercase searchableKey.toList ∨
        minLooseMatchQueryChars ≤ (toLowercase (trim query)).length ∧
          Meets (toLowercase (trim query)) (toLowercase searchableKey.toList) := by
  rw [← trim_blank, matchSearchableKey, compile]
  dsimp only
  cases blank : (trim query).isEmpty with
  | true => exact iff_of_true rfl (.inl rfl)
  | false =>
    rw [if_neg Bool.false_ne_true, or_iff_right Bool.false_ne_true]
    generalize toLowercase searchableKey.toList = keyFolded
    generalize toLowercase (trim query) = foldedQuery
    by_cases same : keyFolded = foldedQuery
    · rw [if_pos same]
      exact iff_of_true rfl (.inl same)
    rw [if_neg same, or_iff_right same]
    by_cases front : foldedQuery <+: keyFolded
    · rw [if_pos front]
      exact iff_of_true rfl (.inl front)
    rw [if_neg front, or_iff_right front]
    by_cases loose : minLooseMatchQueryChars ≤ foldedQuery.length
    · rw [if_neg (by simpa using loose), and_iff_right loose]
      have filled : foldedQuery ≠ [] := by
        rintro rfl
        exact front nil_prefix
      have inside := find_substring_iff keyFolded foldedQuery filled
      have scattered := subsequence_positions_iff keyFolded foldedQuery
      cases found : findSubstringPosition keyFolded foldedQuery with
      | some start => exact iff_of_true rfl (.inl (inside.mp (found ▸ rfl)))
      | none =>
        dsimp only
        rw [isSome_map, scattered]
        have nowhere : ¬ ∃ start, start < u32Bound ∧ foldedQuery <+: keyFolded.drop start := by
          intro there
          have met := inside.mpr there
          rw [found] at met
          cases met
        exact (or_iff_right nowhere).symm
    · rw [if_pos (by simpa using loose)]
      exact iff_of_false Bool.false_ne_true (fun both => loose both.1)

omit toLowercase in
theorem name_order {left right : String} (below : (compare left right).isLE = true) : left ≤ right := by
  have order : compare left right = compareOfLessAndEq left right := rfl
  rw [order, compareOfLessAndEq] at below
  split at below
  · next less => exact String.not_lt.mp (String.lt_asymm less)
  · split at below
    · next same => exact same ▸ String.le_refl left
    · cases below

omit toLowercase in
theorem rank_of_slot (left right : WorkspaceSymbolMatchTier) (better : left.slot ≤ right.slot) :
    legacyIndexMatchRank right ≤ legacyIndexMatchRank left := by
  cases left <;> cases right <;> revert better <;> decide

omit toLowercase in
theorem rank_of_below (left right : AdmittedBucket) (below : Below AdmittedBucket.compare left right) :
    legacyIndexMatchRank right.evidence.tier ≤ legacyIndexMatchRank left.evidence.tier := by
  have evidence : (left.evidence.compare right.evidence).isLE = true :=
    (Ordering.isLE_then_iff_and.mp below).1
  have slots := (Ordering.isLE_then_iff_and.mp evidence).1
  exact rank_of_slot _ _ (Nat.isLE_compare.mp slots)

omit toLowercase in
theorem scored_of_below (left right : Scored) (below : Below compareScored left right) :
    right.1 < left.1 ∨ left.1 = right.1 ∧ left.2.name ≤ right.2.name := by
  obtain ⟨ranks, names⟩ := Ordering.isLE_then_iff_and.mp below
  have order : right.1 ≤ left.1 := Nat.isLE_compare.mp ranks
  rcases names with less | later
  · exact .inl (Nat.compare_eq_lt.mp less)
  · rcases Nat.lt_or_eq_of_le order with less | same
    · exact .inl less
    · exact .inr ⟨same.symm, name_order later⟩

instance : TransCmp fun left right : AdmittedBucket => left.evidence.compare right.evidence where
  eq_swap := OrientedCmp.eq_swap
  isLE_trans := TransCmp.isLE_trans

instance : TransCmp AdmittedBucket.compare :=
  inferInstanceAs (TransCmp (compareLex
    (fun left right : AdmittedBucket => left.evidence.compare right.evidence) _))

def Offers (profile : WorkspaceSymbolQueryProfile) (buckets : List Bucket) (row : Scored) : Prop :=
  ∃ bucket ∈ buckets, ∃ evidence,
    matchSearchableKey toLowercase profile bucket.1 (keyRoleOf bucket.1) = some evidence ∧
      row.2 ∈ bucket.2 ∧ row.1 = legacyIndexMatchRank evidence.tier

structure Ranked (profile : WorkspaceSymbolQueryProfile) (buckets : List Bucket)
    (rows : List Scored) : Prop where
  once : (rows.map dedupKey).Nodup
  complete : ∀ place, place ∈ rows.map dedupKey ↔ ∃ bucket ∈ buckets,
    (matchSearchableKey toLowercase profile bucket.1 (keyRoleOf bucket.1)).isSome = true ∧
      ∃ symbol ∈ bucket.2, place = (symbol.uri, symbol.range.start.byte)
  offered : ∀ row ∈ rows, Offers toLowercase profile buckets row
  best : ∀ row ∈ rows, ∀ other, Offers toLowercase profile buckets other →
    dedupKey other = dedupKey row → other.1 ≤ row.1
  sorted : rows.Pairwise fun left right =>
    right.1 < left.1 ∨ left.1 = right.1 ∧ left.2.name ≤ right.2.name

section
variable (profile : WorkspaceSymbolQueryProfile)
include profile

theorem mem_scored_rows (buckets : List Bucket) (row : Scored) : row ∈ (sortBy AdmittedBucket.compare
        (buckets.filterMap (admitBucket toLowercase profile))).flatMap scoredRows ↔
      Offers toLowercase profile buckets row := by
  rw [mem_flatMap, Offers]
  constructor
  · rintro ⟨admitted, among, inside⟩
    obtain ⟨bucket, member, found⟩ := mem_filterMap.mp ((sortBy_perm _).mem_iff.mp among)
    obtain ⟨evidence, matched, rfl⟩ := map_eq_some_iff.mp found
    obtain ⟨symbol, here, rfl⟩ := mem_map.mp inside
    exact ⟨bucket, member, evidence, matched, here, rfl⟩
  · rintro ⟨bucket, member, evidence, matched, here, rank⟩
    refine ⟨⟨evidence, bucket.1, bucket.2⟩, (sortBy_perm _).mem_iff.mpr ?_, ?_⟩
    · exact mem_filterMap.mpr ⟨bucket, member, map_eq_some_iff.mpr ⟨evidence, matched, rfl⟩⟩
    · exact mem_map.mpr ⟨row.2, here, Prod.ext rank.symm rfl⟩

theorem scored_ranked (buckets : List Bucket) :
    Ranked toLowercase profile buckets (scoredSymbols toLowercase profile buckets) := by
  rw [scoredSymbols]
  have offers := mem_scored_rows toLowercase profile buckets
  have ordered : ((sortBy AdmittedBucket.compare
      (buckets.filterMap (admitBucket toLowercase profile))).flatMap scoredRows).Pairwise
        fun left right => right.1 ≤ left.1 := by
    apply pairwise_flatMap.mpr
    constructor
    · intro admitted _
      exact pairwise_map.mpr (pairwise_of_forall fun _ _ => Nat.le_refl _)
    · apply (sorted_sortBy _).imp
      intro left right below first firstIn second secondIn
      obtain ⟨_, _, rfl⟩ := mem_map.mp firstIn
      obtain ⟨_, _, rfl⟩ := mem_map.mp secondIn
      exact rank_of_below left right below
  generalize (sortBy AdmittedBucket.compare
    (buckets.filterMap (admitBucket toLowercase profile))).flatMap scoredRows = all at offers ordered
  have perm : (sortBy compareScored (firstPerKey dedupKey [] all)).Perm
      (firstPerKey dedupKey [] all) := sortBy_perm _
  have sub := first_per_key_sublist dedupKey [] all
  constructor
  · exact (perm.map dedupKey).nodup_iff.mpr (first_per_key_nodup dedupKey [] all)
  · intro place
    rw [(perm.map dedupKey).mem_iff]
    constructor
    · intro kept
      obtain ⟨row, member, rfl⟩ := mem_map.mp kept
      obtain ⟨bucket, among, evidence, matched, here, -⟩ := (offers row).mp (sub.subset member)
      exact ⟨bucket, among, matched ▸ rfl, row.2, here, rfl⟩
    · rintro ⟨bucket, among, admitted, symbol, here, rfl⟩
      obtain ⟨evidence, matched⟩ := isSome_iff_exists.mp admitted
      have met : (legacyIndexMatchRank evidence.tier, symbol) ∈ all :=
        (offers _).mpr ⟨bucket, among, evidence, matched, here, rfl⟩
      exact first_per_key_met dedupKey [] all _ met not_mem_nil
  · intro row member
    exact (offers row).mp (sub.subset (perm.mem_iff.mp member))
  · intro row member other offered same
    exact first_per_key_least dedupKey (fun _ => Nat.le_refl _) [] all ordered row other
      (perm.mem_iff.mp member) ((offers other).mpr offered) same
  · exact (sorted_sortBy _).imp fun {left right} below => scored_of_below left right below

theorem scored_congr {buckets others : List Bucket}
    (perm : others.Perm buckets) (distinct : (buckets.map Prod.fst).Nodup) :
    scoredSymbols toLowercase profile others = scoredSymbols toLowercase profile buckets := by
  have same : sortBy AdmittedBucket.compare (others.filterMap (admitBucket toLowercase profile)) =
      sortBy AdmittedBucket.compare (buckets.filterMap (admitBucket toLowercase profile)) := by
    apply sortBy_congr (perm.filterMap _)
    intro left leftIn right rightIn tied
    have keys : left.nameKey = right.nameKey :=
      Std.compare_eq_iff_eq.mp (Ordering.then_eq_eq.mp tied).2
    obtain ⟨first, firstIn, here⟩ := mem_filterMap.mp leftIn
    obtain ⟨second, secondIn, there⟩ := mem_filterMap.mp rightIn
    obtain ⟨firstEvidence, firstMatched, rfl⟩ := map_eq_some_iff.mp here
    obtain ⟨secondEvidence, secondMatched, rfl⟩ := map_eq_some_iff.mp there
    obtain rfl := inj_on_of_nodup_map distinct (perm.mem_iff.mp firstIn) (perm.mem_iff.mp secondIn) keys
    rw [firstMatched] at secondMatched
    obtain rfl := some.inj secondMatched
    rfl
  rw [scoredSymbols, scoredSymbols, same]

end

theorem search_ranked (query : List Char) (buckets : List Bucket)
    (distinct : (buckets.map Prod.fst).Nodup) :
    (∀ others : List Bucket, others.Perm buckets → ∀ cap,
      searchSourceSymbolsFromBuckets toLowercase others (compile toLowercase query) cap =
        searchSourceSymbolsFromBuckets toLowercase buckets (compile toLowercase query) cap) ∧
    (∃ rows, Ranked toLowercase (compile toLowercase query) buckets rows ∧
      searchSourceSymbolsFromBuckets toLowercase buckets (compile toLowercase query) none =
        rows.map Prod.snd) ∧
    (∀ cap, searchSourceSymbolsFromBuckets toLowercase buckets (compile toLowercase query) (some cap) =
      (searchSourceSymbolsFromBuckets toLowercase buckets (compile toLowercase query) none).take cap) ∧
    ∀ searchableKey keyRole,
      (matchSearchableKey toLowercase (compile toLowercase query) searchableKey keyRole).isSome = true ↔
        (∀ scalar ∈ query, isWhitespace scalar = true) ∨
          toLowercase searchableKey.toList = toLowercase (trim query) ∨
          toLowercase (trim query) <+: toLowercase searchableKey.toList ∨
          minLooseMatchQueryChars ≤ (toLowercase (trim query)).length ∧
            ((∃ start, start < u32Bound ∧
                toLowercase (trim query) <+: (toLowercase searchableKey.toList).drop start) ∨
              (toLowercase (trim query)).Sublist ((toLowercase searchableKey.toList).take u32Bound)) := by
  refine ⟨?_, ?_, fun _ => rfl, match_admits toLowercase query⟩
  · intro others perm cap
    unfold searchSourceSymbolsFromBuckets
    rw [scored_congr toLowercase _ perm distinct]
  · exact ⟨_, scored_ranked toLowercase (compile toLowercase query) buckets, rfl⟩

end Folding

def asciiLowercase (text : List Char) : List Char := text.map Char.toLower

def sampleSymbol (uri name : String) (byte : Nat) : WorkspaceSymbol :=
  ⟨⟨name, .subroutine, ⟨⟨byte, 1, 1⟩, ⟨byte + 3, 1, 4⟩⟩, some ("Demo::" ++ name)⟩, uri, none⟩

/-- A symbol filed under its two names, met in either order. -/
theorem search_ranked_alias :
    searchSourceSymbolsFromBuckets asciiLowercase
        [("Demo::run", [sampleSymbol "file:///a.pm" "run" 4]),
          ("run", [sampleSymbol "file:///a.pm" "run" 4])]
        (compile asciiLowercase ['r', 'u', 'n']) (some 1) =
      searchSourceSymbolsFromBuckets asciiLowercase
        [("run", [sampleSymbol "file:///a.pm" "run" 4]),
          ("Demo::run", [sampleSymbol "file:///a.pm" "run" 4])]
        (compile asciiLowercase ['r', 'u', 'n']) (some 1) :=
  (search_ranked asciiLowercase ['r', 'u', 'n'] _ (by decide)).1 _ (List.Perm.swap _ _ []) (some 1)

/-- No place before the bound meets a query that only stands behind it. -/
theorem behind_bound (bound : Nat) (text : List Char) : text = List.replicate bound 'x' ++ ['a', 'b'] →
      ¬ ((∃ start, start < bound ∧ ['a', 'b'] <+: text.drop start) ∨
        ['a', 'b'].Sublist (text.take bound)) := by
  rintro rfl (⟨start, below, front⟩ | sub)
  · obtain ⟨less, rfl⟩ := Nat.exists_eq_add_of_lt below
    have shape : (List.replicate (start + less + 1) 'x' ++ ['a', 'b']).drop start =
        'x' :: (List.replicate less 'x' ++ ['a', 'b']) := by
      rw [Nat.add_assoc, replicate_add, append_assoc, drop_left'
        length_replicate, replicate_succ, cons_append]
    rw [shape] at front
    exact absurd (cons_prefix_cons.mp front).1 (by decide)
  · rw [take_left' length_replicate] at sub
    have member := sub.subset mem_cons_self
    exact absurd (eq_of_mem_replicate member) (by decide)

def farKey : String := String.ofList (List.replicate u32Bound 'x' ++ ['a', 'b'])

/-- The query is a subsequence of the key, but from a position past the `u32`s. -/
theorem far_match_lost :
    ¬ ((matchSearchableKey asciiLowercase (compile asciiLowercase ['a', 'b']) farKey .bareName).isSome =
        true ↔
      (∀ scalar ∈ ['a', 'b'], isWhitespace scalar = true) ∨
        asciiLowercase farKey.toList = asciiLowercase (trim ['a', 'b']) ∨
        asciiLowercase (trim ['a', 'b']) <+: asciiLowercase farKey.toList ∨
        minLooseMatchQueryChars ≤ (asciiLowercase (trim ['a', 'b'])).length ∧
          (asciiLowercase (trim ['a', 'b'])).Sublist (asciiLowercase farKey.toList)) := by
  have query : asciiLowercase (trim ['a', 'b']) = ['a', 'b'] := by decide
  have key : asciiLowercase farKey.toList = List.replicate u32Bound 'x' ++ ['a', 'b'] := by
    rw [farKey, String.toList_ofList, asciiLowercase, map_append, map_replicate]
    rfl
  intro admits
  rw [match_admits, query] at admits
  have lost := behind_bound u32Bound _ key
  have front (here : ['a', 'b'] <+: asciiLowercase farKey.toList) : False :=
    lost (.inl ⟨0, by decide, here⟩)
  rcases admits.mpr (.inr (.inr (.inr ⟨Nat.le_refl 2, key ▸ sublist_append_right _ _⟩))) with
    blank | same | here | ⟨-, met⟩
  · exact absurd (blank 'a' mem_cons_self) (by decide)
  · exact front (same ▸ prefix_rfl)
  · exact front here
  · exact lost met

end PerlLsp.SymbolSearch
