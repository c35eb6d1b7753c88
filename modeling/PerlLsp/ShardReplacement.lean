import PerlLsp.Runs
import PerlLsp.Workspace
import Mathlib.Data.String.Basic
import Mathlib.Logic.Equiv.List

/-! Replacing the stored fact shards of files one by one, `replace_fact_shard_incremental` of
workspace/workspace_index.rs, against the reference index that `add_file` builds from the
stored shards. An index is described by the rows it holds: each reference with the name it
is filed under, if it has one. What a call does to the rows is an addition, a removal by
file, both, or nothing. -/
namespace PerlLsp.ShardReplacement
open List hiding getElem?_insert
open Std Runs Tables Buckets SemanticFacts Workspace Option Bool

abbrev Row := Option String × ReferenceEdge

def targetsOf (shard : FileFactShard) (occurrence : OccurrenceFact) : List Nat :=
  let targets := (shard.edges.filter fun edge =>
    edge.kind = .references ∧ edge.viaOccurrenceId = some occurrence.id).map (·.toEntityId)
  if targets.isEmpty then occurrence.entityId.toList else targets

def rowOf (shard : FileFactShard) (occurrence : OccurrenceFact) : Row :=
  let canonicalName := ReferenceIndex.deriveCanonicalName shard occurrence
  (canonicalName, ⟨occurrence.id, occurrence.anchorId, shard.fileId, canonicalName.getD "",
    targetsOf shard occurrence, occurrence.kind, occurrence.provenance, occurrence.confidence⟩)

def referencesIn (occurrences : List OccurrenceFact) : List OccurrenceFact :=
  occurrences.filter fun occurrence => occurrence.kind ≠ .definition

def rowsOf (shard : FileFactShard) : List Row :=
  (referencesIn shard.occurrences).map (rowOf shard)

def keyOf (edge : ReferenceEdge) : UnresolvedOccurrenceKey :=
  ⟨edge.fileId, edge.occurrenceId, edge.anchorId⟩

section Entries
variable {Key : Type*} (keys : Row → List Key)

def entriesBy (rows : List Row) : List (Key × ReferenceEdge) :=
  rows.flatMap fun row => (keys row).map fun key => (key, row.2)

theorem entries_append (left right : List Row) :
    entriesBy keys (left ++ right) = entriesBy keys left ++ entriesBy keys right :=
  flatMap_append

theorem entries_cons (row : Row) (rest : List Row) :
    entriesBy keys (row :: rest) = ((keys row).map fun key => (key, row.2)) ++ entriesBy keys rest :=
  flatMap_cons

theorem filed_entries_perm [DecidableEq Key] {left right : List Row} (perm : left.Perm right)
    (key : Key) : (filed (entriesBy keys left) key).Perm (filed (entriesBy keys right) key) :=
  ((perm.flatMap_right _).filter _).map _

theorem filed_filter [DecidableEq Key] (keep : ReferenceEdge → Bool) (rows : List Row) (key : Key) :
    filed (entriesBy keys (rows.filter fun row => keep row.2)) key =
      (filed (entriesBy keys rows) key).filter keep := by
  induction rows with
  | nil => rfl
  | cons row rest ih =>
    have own : ∀ edge ∈ filed ((keys row).map fun key => (key, row.2)) key, keep edge = keep row.2 := by
      intro edge member
      obtain ⟨_, _, made⟩ := mem_map.mp ((mem_filed _ _ _).mp member)
      exact congrArg keep (Prod.mk.inj made).2.symm
    rw [entries_cons, filed_append, filter_append, ← ih, filter_cons]
    cases kept : keep row.2 with
    | true =>
      rw [kept] at own
      rw [if_pos rfl, entries_cons, filed_append, filter_eq_self.mpr own]
    | false =>
      rw [kept] at own
      have none : (filed ((keys row).map fun key => (key, row.2)) key).filter keep = [] :=
        filter_eq_nil_iff.mpr fun edge member yes =>
          Bool.false_ne_true ((own edge member).symm.trans yes)
      rw [if_neg Bool.false_ne_true, none, nil_append]

end Entries

def nameKeys (row : Row) : List String := row.1.toList

def entityKeys (row : Row) : List Nat := row.2.targetCandidates

def unresolvedKeys (row : Row) : List UnresolvedOccurrenceKey :=
  if row.1 = none then [keyOf row.2] else []

structure Holds (index : ReferenceIndex) (rows : List Row) : Prop where
  named : ∀ name, (bucket index.referencesByName name).Perm (filed (entriesBy nameKeys rows) name)
  aimed : ∀ entity, (bucket index.referencesByEntity entity).Perm (filed (entriesBy entityKeys rows) entity)
  unresolved : ∀ key,
    (bucket index.unresolvedByOccurrence key).Perm (filed (entriesBy unresolvedKeys rows) key)

variable {index : ReferenceIndex}

theorem Holds.perm {rows others : List Row} (holds : Holds index rows) (perm : rows.Perm others) :
    Holds index others where
  named := fun name => (holds.named name).trans (filed_entries_perm _ perm name)
  aimed := fun entity => (holds.aimed entity).trans (filed_entries_perm _ perm entity)
  unresolved := fun key => (holds.unresolved key).trans (filed_entries_perm _ perm key)

theorem count_named (rows : List Row) (name : String) (edge : ReferenceEdge) :
    (filed (entriesBy nameKeys rows) name).count edge = rows.count (some name, edge) := by
  induction rows with
  | nil => rfl
  | cons row rest ih =>
    rw [entries_cons, filed_append, count_append, ih, count_cons, Nat.add_comm]
    obtain ⟨canonical, other⟩ := row
    cases canonical with
    | none => rfl
    | some first =>
      by_cases same : first = name
      · subst same
        simp [filed, nameKeys, count_singleton]
      · simp [filed, nameKeys, same]

theorem count_unresolved (rows : List Row) (edge : ReferenceEdge) :
    (filed (entriesBy unresolvedKeys rows) (keyOf edge)).count edge = rows.count (none, edge) := by
  induction rows with
  | nil => rfl
  | cons row rest ih =>
    rw [entries_cons, filed_append, count_append, ih, count_cons, Nat.add_comm]
    obtain ⟨canonical, other⟩ := row
    cases canonical with
    | some first => rfl
    | none =>
      by_cases same : keyOf other = keyOf edge
      · simp [filed, unresolvedKeys, same, count_singleton]
      · have apart : other ≠ edge := fun equal => same (congrArg keyOf equal)
        simp [filed, unresolvedKeys, same, apart]

theorem Holds.unique {rows others : List Row} (holds : Holds index rows) (also : Holds index others) :
    rows.Perm others := by
  apply perm_iff_count.mpr
  rintro ⟨canonical, edge⟩
  cases canonical with
  | some name =>
    rw [← count_named, ← count_named]
    exact ((holds.named name).symm.trans (also.named name)).count_eq edge
  | none =>
    rw [← count_unresolved, ← count_unresolved]
    exact ((holds.unresolved _).symm.trans (also.unresolved _)).count_eq edge

def targetEntries (edges : List EdgeFact) : List (Nat × Nat) :=
  edges.flatMap fun edge =>
    match edge.viaOccurrenceId with
    | some occurrence => if edge.kind = .references then [(occurrence, edge.toEntityId)] else []
    | none => []

theorem push_all_append {Key Item : Type*} [Ord Key] (table : TreeMap Key (List Item))
    (left right : List (Key × Item)) :
    pushAll table (left ++ right) = pushAll (pushAll table left) right := foldl_append

theorem target_entries_cons (edge : EdgeFact) (rest : List EdgeFact) :
    targetEntries (edge :: rest) = targetEntries [edge] ++ targetEntries rest := by
  rw [targetEntries, targetEntries, flatMap_singleton]
  rfl

theorem edge_targets_pushed (edges : List EdgeFact) :
    ReferenceIndex.edgeTargets edges = pushAll ∅ (targetEntries edges) := by
  have general (table : TreeMap Nat (List Nat)) :
      edges.foldl (fun targets edge =>
        match edge.viaOccurrenceId with
        | some occurrence =>
          if edge.kind = .references then push targets occurrence edge.toEntityId else targets
        | none => targets) table = pushAll table (targetEntries edges) := by
    induction edges generalizing table with
    | nil => rfl
    | cons edge rest ih =>
      rw [foldl_cons, ih, target_entries_cons, push_all_append]
      congr 1
      rw [targetEntries, flatMap_singleton]
      cases edge.viaOccurrenceId with
      | none => rfl
      | some occurrence =>
        dsimp only
        split
        · rfl
        · rfl
  exact general ∅

theorem filed_targets (edges : List EdgeFact) (occurrence : Nat) : filed (targetEntries edges) occurrence =
      (edges.filter fun edge => edge.kind = .references ∧ edge.viaOccurrenceId = some occurrence).map
        (·.toEntityId) := by
  induction edges with
  | nil => rfl
  | cons edge rest ih =>
    rw [target_entries_cons, filed_append, ih, filter_cons, targetEntries, flatMap_singleton]
    cases via : edge.viaOccurrenceId with
    | none => simp [filed]
    | some first =>
      by_cases kind : edge.kind = .references
      · by_cases same : first = occurrence
        · simp [filed, kind, same]
        · simp [filed, kind, same]
      · simp [filed, kind]

theorem candidates_eq (shard : FileFactShard) (occurrence : OccurrenceFact) :
    ((ReferenceIndex.edgeTargets shard.edges)[occurrence.id]?).getD occurrence.entityId.toList =
      targetsOf shard occurrence := by
  have tidy : Tidy (ReferenceIndex.edgeTargets shard.edges) := by
    rw [edge_targets_pushed]
    exact tidy_pushAll _ tidy_empty
  have found : bucket (ReferenceIndex.edgeTargets shard.edges) occurrence.id =
      (shard.edges.filter fun edge =>
        edge.kind = .references ∧ edge.viaOccurrenceId = some occurrence.id).map (·.toEntityId) := by
    rw [edge_targets_pushed, bucket_pushAll, bucket_empty, nil_append, filed_targets]
  rw [tidy.getElem?, found, targetsOf]
  split
  · rfl
  · rfl

def pushRows (index : ReferenceIndex) (rows : List Row) : ReferenceIndex :=
  { index with
    referencesByName := pushAll index.referencesByName (entriesBy nameKeys rows)
    referencesByEntity := pushAll index.referencesByEntity (entriesBy entityKeys rows)
    unresolvedByOccurrence := pushAll index.unresolvedByOccurrence (entriesBy unresolvedKeys rows) }

theorem push_rows_append (index : ReferenceIndex) (left right : List Row) :
    pushRows index (left ++ right) = pushRows (pushRows index left) right := by
  simp only [pushRows, entries_append, push_all_append]

theorem add_edge_pushed (index : ReferenceIndex) (shard : FileFactShard) (occurrence : OccurrenceFact) :
    index.addEdge shard occurrence (targetsOf shard occurrence) =
      pushRows index [rowOf shard occurrence] := by
  have aimed (targets : List Nat) (edge : ReferenceEdge) (table : TreeMap Nat (List ReferenceEdge)) :
      targets.foldl (fun table entity => push table entity edge) table =
        pushAll table (targets.map fun entity => (entity, edge)) := by
    rw [pushAll, foldl_map]
  rw [ReferenceIndex.addEdge, pushRows, rowOf]
  simp only [aimed, entriesBy, entityKeys, flatMap_cons, flatMap_nil, append_nil]
  cases ReferenceIndex.deriveCanonicalName shard occurrence with
  | none => rfl
  | some name => rfl

/-- Moving the targets out of the table takes nothing from a later occurrence. -/
theorem add_occurrences_pushed (shard : FileFactShard) (before occurrences : List OccurrenceFact)
    (index : ReferenceIndex) (targets : TreeMap Nat (List Nat))
    (kept : ∀ occurrence ∈ referencesIn occurrences,
      targets[occurrence.id]? = (ReferenceIndex.edgeTargets shard.edges)[occurrence.id]?) :
    ReferenceIndex.addOccurrences shard (referencesIn (before ++ occurrences)) occurrences index targets =
      pushRows index ((referencesIn occurrences).map (rowOf shard)) := by
  induction occurrences generalizing before index targets with
  | nil => rfl
  | cons occurrence rest ih =>
    have moved : before ++ occurrence :: rest = (before ++ [occurrence]) ++ rest := by
      rw [append_assoc]
      rfl
    rw [ReferenceIndex.addOccurrences]
    by_cases definition : occurrence.kind = .definition
    · have skipped : referencesIn (occurrence :: rest) = referencesIn rest := by
        rw [referencesIn, filter_cons_of_neg (by simp [definition])]
        rfl
      rw [if_pos definition, skipped, moved]
      exact ih (before ++ [occurrence]) index targets (skipped ▸ kept)
    have taken : referencesIn (occurrence :: rest) = occurrence :: referencesIn rest := by
      rw [referencesIn, filter_cons_of_pos (by simp [definition])]
      rfl
    have candidates : targets[occurrence.id]?.getD occurrence.entityId.toList =
        targetsOf shard occurrence := by
      rw [kept occurrence (taken ▸ mem_cons_self), candidates_eq]
    rw [if_neg definition]
    dsimp only
    rw [candidates, add_edge_pushed, taken, map_cons, moved]
    have split := push_rows_append index [rowOf shard occurrence] ((referencesIn rest).map (rowOf shard))
    rw [singleton_append] at split
    rw [split]
    apply ih (before ++ [occurrence])
    intro other member
    split
    · next once =>
        -- The identifier was met here, so no later occurrence has it.
        have apart : other.id ≠ occurrence.id := by
          intro same
          have whole : referencesIn (before ++ [occurrence] ++ rest) =
              referencesIn before ++ occurrence :: referencesIn rest := by
            rw [← moved, referencesIn, filter_append]
            exact congrArg (referencesIn before ++ ·) taken
          rw [whole, countP_append, countP_cons_of_pos (by simp)] at once
          have again : 0 < (referencesIn rest).countP fun other => other.id == occurrence.id :=
            countP_pos_iff.mpr ⟨other, member, beq_iff_eq.mpr same⟩
          omega
        rw [getElem?_erase, if_neg apart.symm]
        exact kept other (taken ▸ mem_cons_of_mem _ member)
    · exact kept other (taken ▸ mem_cons_of_mem _ member)

theorem add_file_pushed (index : ReferenceIndex) (shard : FileFactShard) : index.addFile shard =
      pushRows { index with indexedFiles := index.indexedFiles.insert shard.sourceUri shard.fileId }
        (rowsOf shard) :=
  add_occurrences_pushed shard [] shard.occurrences _ _ fun _ _ => rfl

theorem push_rows_holds {rows : List Row} (holds : Holds index rows) (more : List Row) :
    Holds (pushRows index more) (rows ++ more) where
  named := by
    intro name
    rw [pushRows, bucket_pushAll, entries_append, filed_append]
    exact (holds.named name).append_right _
  aimed := by
    intro entity
    rw [pushRows, bucket_pushAll, entries_append, filed_append]
    exact (holds.aimed entity).append_right _
  unresolved := by
    intro key
    rw [pushRows, bucket_pushAll, entries_append, filed_append]
    exact (holds.unresolved key).append_right _

theorem Holds.addFile {rows : List Row} (holds : Holds index rows) (shard : FileFactShard) :
    Holds (index.addFile shard) (rows ++ rowsOf shard) := by
  rw [add_file_pushed]
  apply push_rows_holds
  exact ⟨holds.named, holds.aimed, holds.unresolved⟩

theorem holds_new : Holds .new [] where
  named := fun name => by rw [ReferenceIndex.new, bucket_empty]; exact List.Perm.refl _
  aimed := fun entity => by rw [ReferenceIndex.new, bucket_empty]; exact List.Perm.refl _
  unresolved := fun key => by rw [ReferenceIndex.new, bucket_empty]; exact List.Perm.refl _

def builtFrom (shards : List FileFactShard) : ReferenceIndex :=
  shards.foldl ReferenceIndex.addFile .new

theorem built_holds (shards : List FileFactShard) : Holds (builtFrom shards) (shards.flatMap rowsOf) := by
  have general (index : ReferenceIndex) (rows : List Row) (holds : Holds index rows) :
      Holds (shards.foldl ReferenceIndex.addFile index) (rows ++ shards.flatMap rowsOf) := by
    induction shards generalizing index rows with
    | nil => exact (append_nil rows).symm ▸ holds
    | cons shard rest ih =>
      rw [flatMap_cons, ← append_assoc]
      exact ih _ _ (holds.addFile shard)
  exact general .new [] holds_new

theorem unresolved_file {rows : List Row} {key : UnresolvedOccurrenceKey} {edge : ReferenceEdge}
    (member : edge ∈ filed (entriesBy unresolvedKeys rows) key) : edge.fileId = key.fileId := by
  obtain ⟨row, _, made⟩ := mem_flatMap.mp ((mem_filed _ _ _).mp member)
  obtain ⟨own, inside, same⟩ := mem_map.mp made
  obtain ⟨rfl, rfl⟩ := Prod.mk.inj same
  rw [unresolvedKeys] at inside
  split at inside
  · rw [mem_singleton.mp inside]
    rfl
  · cases inside

theorem Holds.removeFile {rows : List Row} (holds : Holds index rows) (sourceUri : String) :
    Holds (index.removeFile sourceUri)
      (rows.filter fun row => some row.2.fileId != index.indexedFiles[sourceUri]?) := by
  rw [ReferenceIndex.removeFile]
  cases index.indexedFiles[sourceUri]? with
  | none =>
    have all : rows.filter (fun row => some row.2.fileId != none) = rows :=
      filter_eq_self.mpr fun _ _ => rfl
    rw [all]
    exact holds
  | some fileId =>
    have keep : (fun row : Row => some row.2.fileId != some fileId) =
        fun row : Row => row.2.fileId != fileId := by
      funext row
      rfl
    rw [keep]
    constructor
    · intro name
      rw [bucket_retainAll, filed_filter nameKeys (fun edge => edge.fileId != fileId)]
      exact (holds.named name).filter _
    · intro entity
      rw [bucket_retainAll, filed_filter entityKeys (fun edge => edge.fileId != fileId)]
      exact (holds.aimed entity).filter _
    · intro key
      -- An unresolved bucket belongs to one file.
      have left : bucket (index.unresolvedByOccurrence.filter fun key _ => key.fileId != fileId) key =
          if key.fileId != fileId then bucket index.unresolvedByOccurrence key else [] := by
        rw [bucket, TreeMap.getElem?_filter', bucket]
        cases index.unresolvedByOccurrence[key]? with
        | none => exact (ite_self _).symm
        | some edges =>
          rw [filter_some]
          split
          · rfl
          · rfl
      have own : ∀ edge ∈ filed (entriesBy unresolvedKeys rows) key,
          (edge.fileId != fileId) = (key.fileId != fileId) :=
        fun edge member => congrArg (· != fileId) (unresolved_file member)
      rw [left, filed_filter unresolvedKeys (fun edge => edge.fileId != fileId)]
      cases other : key.fileId != fileId with
      | true =>
        rw [other] at own
        rw [if_pos rfl, filter_eq_self.mpr own]
        exact holds.unresolved key
      | false =>
        rw [other] at own
        have none : (filed (entriesBy unresolvedKeys rows) key).filter
            (fun edge => edge.fileId != fileId) = [] :=
          filter_eq_nil_iff.mpr fun edge member yes =>
            Bool.false_ne_true ((own edge member).symm.trans yes)
        rw [if_neg Bool.false_ne_true, none]

/-- The category hashes are those `build_canonical_fact_shard` computes. -/
structure Carries (hashes : FactHashes) (shard : FileFactShard) : Prop where
  anchors : shard.anchorsHash = some (hashes.computeAnchorsHash shard.anchors)
  entities : shard.entitiesHash = some (hashes.computeEntitiesHash shard.entities)
  occurrences : shard.occurrencesHash = some (hashes.computeOccurrencesHash shard.occurrences)
  edges : shard.edgesHash = some (hashes.computeEdgesHash shard.edges)

structure Injective (hashes : FactHashes) : Prop where
  anchors : Function.Injective hashes.anchors
  entities : Function.Injective hashes.entities
  occurrences : Function.Injective hashes.occurrences
  edges : Function.Injective hashes.edges

structure Call (hashes : FactHashes) where
  key : String
  shard : FileFactShard
  carries : Carries hashes shard

def SameFed (old new : FileFactShard) : Prop :=
  old.entities.map (fun entity => (entity.id, entity.canonicalName)) =
      new.entities.map (fun entity => (entity.id, entity.canonicalName)) ∧
    old.occurrences.map (fun occurrence => (occurrence.id, occurrence.kind)) =
      new.occurrences.map (fun occurrence => (occurrence.id, occurrence.kind)) ∧
    old.edges.map (fun edge => (edge.id, edge.kind)) = new.edges.map (fun edge => (edge.id, edge.kind))

instance (old new : FileFactShard) : Decidable (SameFed old new) :=
  inferInstanceAs (Decidable (_ ∧ _ ∧ _))

def RemovesOwn (index : WorkspaceIndex) (key sourceUri : String) (old : FileFactShard) : Prop :=
  (rowsOf old = [] ∨ some old.fileId = index.semanticReferenceIndex.indexedFiles[sourceUri]?) ∧
    ∀ (other : String) (shard : FileFactShard), key ≠ other → index.factShards[other]? = some shard →
      rowsOf shard = [] ∨ some shard.fileId ≠ index.semanticReferenceIndex.indexedFiles[sourceUri]?

section Calls
variable {hashes : FactHashes}

def step (index : WorkspaceIndex) (call : Call hashes) : WorkspaceIndex :=
  (index.replaceFactShardIncremental call.key call.shard).2

/-- A new content over the same hashed fields brings the same references; over other ones its old
references are found by its URI. -/
def Covered (index : WorkspaceIndex) (call : Call hashes) : Prop :=
  ∀ old, index.factShards[call.key]? = some old → old.contentHash ≠ call.shard.contentHash →
    if SameFed old call.shard then (rowsOf old).Perm (rowsOf call.shard)
    else RemovesOwn index call.key call.shard.sourceUri old

structure SameBuckets (left right : ReferenceIndex) : Prop where
  named : ∀ name, (bucket left.referencesByName name).Perm (bucket right.referencesByName name)
  aimed : ∀ entity, (bucket left.referencesByEntity entity).Perm (bucket right.referencesByEntity entity)
  unresolved : ∀ key,
    (bucket left.unresolvedByOccurrence key).Perm (bucket right.unresolvedByOccurrence key)

def Rebuilt (index : WorkspaceIndex) : Prop :=
  SameBuckets index.semanticReferenceIndex (builtFrom (rows index.factShards))

def storedRows (index : WorkspaceIndex) : List Row := (rows index.factShards).flatMap rowsOf

theorem rebuilt_iff (index : WorkspaceIndex) :
    Rebuilt index ↔ Holds index.semanticReferenceIndex (storedRows index) := by
  have built := built_holds (rows index.factShards)
  constructor
  · intro same
    exact ⟨fun name => (same.named name).trans (built.named name),
      fun entity => (same.aimed entity).trans (built.aimed entity),
      fun key => (same.unresolved key).trans (built.unresolved key)⟩
  · intro holds
    exact ⟨fun name => (holds.named name).trans (built.named name).symm,
      fun entity => (holds.aimed entity).trans (built.aimed entity).symm,
      fun key => (holds.unresolved key).trans (built.unresolved key).symm⟩

variable {index : WorkspaceIndex} {old : FileFactShard} {call : Call hashes}

theorem rebuilt_of_holds {rows : List Row} (holds : Holds index.semanticReferenceIndex rows) :
    Rebuilt index ↔ rows.Perm (storedRows index) := by
  rw [rebuilt_iff]
  exact ⟨fun stored => holds.unique stored, fun perm => holds.perm perm⟩

def othersRows (index : WorkspaceIndex) (key : String) : List Row :=
  (rows (index.factShards.erase key)).flatMap rowsOf

theorem stored_split {key : String} (stored : index.factShards[key]? = some old) :
    (storedRows index).Perm (rowsOf old ++ othersRows index key) :=
  (rows_present index.factShards key old stored).flatMap_right rowsOf

theorem stored_absent {key : String} (absent : index.factShards[key]? = none) :
    (storedRows index).Perm (othersRows index key) :=
  (rows_absent index.factShards key absent).flatMap_right rowsOf

theorem stored_inserted {next : WorkspaceIndex} {key : String} {shard : FileFactShard}
    (inserted : next.factShards = index.factShards.insert key shard) :
    (storedRows next).Perm (rowsOf shard ++ othersRows index key) := by
  rw [storedRows, inserted]
  exact (rows_insert index.factShards key shard).flatMap_right rowsOf

theorem row_file {shard : FileFactShard} {row : Row} (member : row ∈ rowsOf shard) :
    row.2.fileId = shard.fileId := by
  obtain ⟨occurrence, _, rfl⟩ := mem_map.mp member
  rfl

def Carrying (hashes : FactHashes) (index : WorkspaceIndex) : Prop :=
  ∀ (key : String) (shard : FileFactShard), index.factShards[key]? = some shard → Carries hashes shard

theorem hash_changed_iff {Fed : Type*} {hash : Fed → Nat} (injective : Function.Injective hash)
    (old new : Fed) : categoryHashChanged (some (hash old)) (some (hash new)) = false ↔ old = new := by
  rw [categoryHashChanged, bne_eq_false_iff_eq]
  exact injective.eq_iff

/-- The index is left alone exactly over the same hashed fields. -/
theorem plan_skips_iff (injective : Injective hashes) {new : FileFactShard}
    (oldCarries : Carries hashes old) (newCarries : Carries hashes new)
    (changed : old.contentHash ≠ new.contentHash) :
    ((planShardReplacement (some old.categoryHashes) new.categoryHashes).occurrencesUpdated ||
      (planShardReplacement (some old.categoryHashes) new.categoryHashes).edgesUpdated ||
      (planShardReplacement (some old.categoryHashes) new.categoryHashes).entitiesUpdated) = false ↔
        SameFed old new := by
  have apart : ¬ (some old.categoryHashes).any (fun known => known.contentHash ==
      new.categoryHashes.contentHash) = true := by
    intro same
    exact changed (beq_iff_eq.mp same)
  rw [planShardReplacement, if_neg apart]
  dsimp only [FileFactShard.categoryHashes, bind_some]
  rw [oldCarries.occurrences, oldCarries.edges, oldCarries.entities, newCarries.occurrences,
    newCarries.edges, newCarries.entities, or_eq_false_iff, or_eq_false_iff,
    FactHashes.computeOccurrencesHash, FactHashes.computeOccurrencesHash,
    FactHashes.computeEdgesHash, FactHashes.computeEdgesHash, FactHashes.computeEntitiesHash,
    FactHashes.computeEntitiesHash, hash_changed_iff injective.occurrences,
    hash_changed_iff injective.edges, hash_changed_iff injective.entities, SameFed]
  constructor
  · rintro ⟨⟨occurrences, edges⟩, entities⟩
    exact ⟨entities, occurrences, edges⟩
  · rintro ⟨entities, occurrences, edges⟩
    exact ⟨⟨occurrences, edges⟩, entities⟩

theorem step_unchanged (stored : index.factShards[call.key]? = some old)
    (same : old.contentHash = call.shard.contentHash) : step index call = index := by
  have unchanged : (planShardReplacement (some old.categoryHashes)
      call.shard.categoryHashes).contentUnchanged = true := by
    rw [planShardReplacement, if_pos (by exact beq_iff_eq.mpr same)]
  rw [step, WorkspaceIndex.replaceFactShardIncremental, stored, map_some]
  rw [if_pos unchanged]

structure Stores (index : WorkspaceIndex) (call : Call hashes) (references : ReferenceIndex) :
    Prop where
  shards : (step index call).factShards = index.factShards.insert call.key call.shard
  references : (step index call).semanticReferenceIndex = references

theorem step_absent (absent : index.factShards[call.key]? = none) :
    Stores index call (index.semanticReferenceIndex.addFile call.shard) := by
  constructor
  · rw [step, WorkspaceIndex.replaceFactShardIncremental, absent]
    rfl
  · rw [step, WorkspaceIndex.replaceFactShardIncremental, absent]
    rfl

theorem plan_goes_on {new : FileFactShard} (changed : old.contentHash ≠ new.contentHash) :
    ¬ (planShardReplacement (some old.categoryHashes) new.categoryHashes).contentUnchanged = true := by
  have apart : ¬ (some old.categoryHashes).any (fun known => known.contentHash ==
      new.categoryHashes.contentHash) = true := fun same => changed (beq_iff_eq.mp same)
  rw [planShardReplacement, if_neg apart]
  exact Bool.false_ne_true

theorem step_shards (stored : index.factShards[call.key]? = some old)
    (changed : old.contentHash ≠ call.shard.contentHash) :
    (step index call).factShards = index.factShards.insert call.key call.shard := by
  rw [step, WorkspaceIndex.replaceFactShardIncremental, stored, map_some]
  rw [if_neg (plan_goes_on changed)]

theorem step_changed (injective : Injective hashes) (carrying : Carrying hashes index)
    (stored : index.factShards[call.key]? = some old) (changed : old.contentHash ≠ call.shard.contentHash) :
    Stores index call (if SameFed old call.shard then index.semanticReferenceIndex
      else (index.semanticReferenceIndex.removeFile call.shard.sourceUri).addFile call.shard) := by
  have skips := plan_skips_iff injective (carrying call.key old stored) call.carries changed
  refine ⟨step_shards stored changed, ?_⟩
  rw [step, WorkspaceIndex.replaceFactShardIncremental, stored, map_some]
  dsimp only
  rw [if_neg (plan_goes_on changed)]
  by_cases same : SameFed old call.shard
  · rw [if_pos same]
    exact if_neg (Bool.eq_false_iff.mp (skips.mpr same))
  · rw [if_neg same]
    exact if_pos (eq_true_of_not_eq_false fun skipped => same (skips.mp skipped))

theorem step_carrying (index : WorkspaceIndex) (call : Call hashes)
    (carrying : Carrying hashes index) : Carrying hashes (step index call) := by
  have inserted (shards : (step index call).factShards = index.factShards.insert call.key call.shard) :
      Carrying hashes (step index call) := by
    intro key shard found
    rw [shards, getElem?_insert] at found
    split at found
    · exact Option.some.inj found ▸ call.carries
    · exact carrying key shard found
  cases stored : index.factShards[call.key]? with
  | none => exact inserted (step_absent stored).shards
  | some old =>
    by_cases same : old.contentHash = call.shard.contentHash
    · rw [step_unchanged stored same]
      exact carrying
    · exact inserted (step_shards stored same)

theorem filter_exact (own others : List Row) (keep : Row → Bool) :
    ((own ++ others).filter keep).Perm others ↔
      (∀ row ∈ own, keep row = false) ∧ ∀ row ∈ others, keep row = true := by
  have halves : (others.filter keep ++ others.filter fun row => !keep row).Perm others :=
    filter_append_perm keep others
  rw [filter_append]
  constructor
  · intro perm
    have swapped : (own.filter keep).Perm (others.filter fun row => !keep row) := by
      apply (perm_append_left_iff (others.filter keep)).mp
      exact perm_append_comm.trans (perm.trans halves.symm)
    constructor
    · intro row member
      apply eq_false_of_not_eq_true
      intro kept
      have gone := swapped.subset (mem_filter.mpr ⟨member, kept⟩)
      have lost := (mem_filter.mp gone).2
      rw [kept] at lost
      cases lost
    · intro row member
      apply eq_true_of_not_eq_false
      intro lost
      have gone : row ∈ others.filter fun row => !keep row :=
        mem_filter.mpr ⟨member, by rw [lost]; rfl⟩
      have kept := (mem_filter.mp (swapped.symm.subset gone)).2
      rw [lost] at kept
      cases kept
  · rintro ⟨dropped, kept⟩
    have none : own.filter keep = [] :=
      filter_eq_nil_iff.mpr fun row member yes =>
        Bool.false_ne_true ((dropped row member).symm.trans yes)
    rw [none, nil_append, filter_eq_self.mpr kept]

theorem removal_exact (index : WorkspaceIndex) (key sourceUri : String) (old : FileFactShard) :
    ((rowsOf old ++ othersRows index key).filter (fun row =>
        some row.2.fileId != index.semanticReferenceIndex.indexedFiles[sourceUri]?)).Perm
      (othersRows index key) ↔ RemovesOwn index key sourceUri old := by
  rw [filter_exact, RemovesOwn]
  -- All rows of a shard carry its file.
  have whole (shard : FileFactShard) (holds : Nat → Prop) :
      (∀ row ∈ rowsOf shard, holds row.2.fileId) ↔ rowsOf shard = [] ∨ holds shard.fileId := by
    cases empty : rowsOf shard with
    | nil => exact iff_of_true (fun row member => by cases member) (.inl rfl)
    | cons first rest =>
      have same : ∀ row ∈ first :: rest, row.2.fileId = shard.fileId :=
        fun row member => row_file (empty ▸ member)
      constructor
      · exact fun every => .inr (same first mem_cons_self ▸ every first mem_cons_self)
      · rintro (none | held)
        · cases none
        · exact fun row member => (same row member).symm ▸ held
  apply and_congr
  · rw [← whole old fun fileId => some fileId = index.semanticReferenceIndex.indexedFiles[sourceUri]?]
    exact forall₂_congr fun row _ => bne_eq_false_iff_eq
  · constructor
    · intro every other shard apart stored
      apply (whole shard fun fileId =>
        some fileId ≠ index.semanticReferenceIndex.indexedFiles[sourceUri]?).mp
      intro row member
      have among : shard ∈ rows (index.factShards.erase key) := by
        apply mem_rows _ other
        rw [getElem?_erase, if_neg apart, stored]
      exact bne_iff_ne.mp (every row (mem_flatMap.mpr ⟨shard, among, member⟩))
    · intro every row member
      obtain ⟨shard, among, inside⟩ := mem_flatMap.mp member
      obtain ⟨⟨other, _⟩, there, rfl⟩ := mem_map.mp among
      have stored := TreeMap.mem_toList_iff_getElem?_eq_some.mp there
      rw [getElem?_erase] at stored
      split at stored
      · cases stored
      rename_i apart
      apply bne_iff_ne.mpr
      exact (whole _ fun fileId =>
        some fileId ≠ index.semanticReferenceIndex.indexedFiles[sourceUri]?).mpr
          (every other _ apart stored) row inside

/-- One call keeps the index rebuilt exactly when the call is covered. -/
theorem step_exact (injective : Injective hashes) (index : WorkspaceIndex) (call : Call hashes)
    (rebuilt : Rebuilt index) (carrying : Carrying hashes index) :
    Rebuilt (step index call) ↔ Covered index call := by
  have holds := (rebuilt_iff index).mp rebuilt
  cases stored : index.factShards[call.key]? with
  | none =>
    have after := step_absent stored
    apply iff_of_true
    · have added := holds.addFile call.shard
      rw [← after.references] at added
      apply (rebuilt_of_holds added).mpr
      have before := (stored_absent stored).append_right (rowsOf call.shard)
      exact before.trans (perm_append_comm.trans (stored_inserted after.shards).symm)
    · intro old found
      rw [stored] at found
      cases found
  | some old =>
    have only (holdsOf : FileFactShard → Prop) : (∀ other, index.factShards[call.key]? = some other →
        holdsOf other) ↔ holdsOf old := by
      rw [stored]
      exact ⟨fun every => every old rfl, fun held other same => Option.some.inj same ▸ held⟩
    rw [Covered, only]
    by_cases same : old.contentHash = call.shard.contentHash
    · rw [step_unchanged stored same]
      exact iff_of_true rebuilt fun changed => absurd same changed
    have after := step_changed injective carrying stored same
    have next := stored_inserted after.shards
    have split := stored_split stored
    rw [imp_iff_right (by exact same)]
    by_cases fed : SameFed old call.shard
    · rw [if_pos fed] at after ⊢
      have kept := holds
      rw [← after.references] at kept
      rw [rebuilt_of_holds kept]
      constructor
      · intro perm
        exact (perm_append_right_iff _).mp (split.symm.trans (perm.trans next))
      · intro perm
        exact split.trans ((perm.append_right _).trans next.symm)
    · rw [if_neg fed] at after ⊢
      have replaced := ((holds.perm split).removeFile call.shard.sourceUri).addFile call.shard
      rw [← after.references] at replaced
      rw [rebuilt_of_holds replaced, ← removal_exact]
      constructor
      · intro perm
        exact (perm_append_left_iff _).mp (perm_append_comm.trans (perm.trans next))
      · intro perm
        exact (perm.append_right _).trans (perm_append_comm.trans next.symm)

theorem carrying_new (limits : IndexResourceLimits) : Carrying hashes (.new limits) := by
  intro key shard found
  cases found

theorem rebuilt_new (limits : IndexResourceLimits) : Rebuilt (.new limits) :=
  (rebuilt_iff _).mpr holds_new

theorem rebuilt_along_iff (injective : Injective hashes) (limits : IndexResourceLimits)
    (calls : List (Call hashes)) :
    Along step Rebuilt (.new limits) calls ↔ StepsMeet step Covered (.new limits) calls := by
  have both : Along step Rebuilt (.new limits) calls ↔
      Along step (fun index => Rebuilt index ∧ Carrying hashes index) (.new limits) calls :=
    along_iff_of_invariant step (Carrying hashes) _ _ step_carrying
      (fun _ carrying => (and_iff_left carrying).symm) _ calls (carrying_new limits)
  rw [both]
  apply along_iff_steps
  · rintro index call ⟨rebuilt, carrying⟩
    rw [and_iff_left (step_carrying index call carrying)]
    exact step_exact injective index call rebuilt carrying
  · exact ⟨rebuilt_new limits, carrying_new limits⟩

end Calls

def encodingHashes : FactHashes where
  anchors := Encodable.encode
  entities := fun fed => Encodable.encode (fed.map fun pair => (pair.1, pair.2.toList.map Char.toNat))
  occurrences := fun fed => Encodable.encode (fed.map fun pair => (pair.1, pair.2.ctorIdx))
  edges := fun fed => Encodable.encode (fed.map fun pair => (pair.1, pair.2.ctorIdx))

theorem encoding_injective : Injective encodingHashes := by
  have keyed {Other : Type} (index : Other → Nat) (apart : Function.Injective index) :
      Function.Injective fun fed : List (Nat × Other) =>
        Encodable.encode (fed.map fun pair => (pair.1, index pair.2)) := by
    apply Encodable.encode_injective.comp
    exact map_injective_iff.mpr fun left right same =>
      Prod.ext (Prod.mk.inj same).1 (apart (Prod.mk.inj same).2)
  constructor
  · exact Encodable.encode_injective
  · apply Encodable.encode_injective.comp
    apply map_injective_iff.mpr
    intro left right same
    have scalars : Function.Injective Char.toNat :=
      fun _ _ equal => Char.ext (UInt32.toNat_inj.mp equal)
    have chars := map_injective_iff.mpr scalars (Prod.mk.inj same).2
    exact Prod.ext (Prod.mk.inj same).1 (String.toList_injective chars)
  · exact keyed _ (Function.LeftInverse.injective OccurrenceKind.ofNat_ctorIdx)
  · exact keyed _ (Function.LeftInverse.injective EdgeKind.ofNat_ctorIdx)

def callingFacts (occurrence target : Nat) : CanonicalFacts where
  declarationAnchors := []
  referenceAnchors := []
  syntheticAnchors := []
  declarationEntities := [⟨1, .subroutine, "Demo::run", none, none, .exactAst, .high⟩,
    ⟨2, .subroutine, "Demo::stop", none, none, .exactAst, .high⟩]
  syntheticEntities := []
  referenceOccurrences := [⟨occurrence, .call, some target, 70, none, .exactAst, .high⟩]
  dynamicBoundaries := []
  definesEdges := []
  referenceEdges := []

def callingShard (contentHash occurrence target : Nat) : Call encodingHashes where
  key := "file:///demo.pl"
  shard := buildCanonicalFactShard encodingHashes (fun _ => 5) "file:///demo.pl" contentHash
    (callingFacts occurrence target)
  carries := ⟨rfl, rfl, rfl, rfl⟩

def sampleLimits : IndexResourceLimits := ⟨10, 10, 10⟩

theorem first_stores (call : Call encodingHashes) : Stores (.new sampleLimits) call
    ((WorkspaceIndex.new sampleLimits).semanticReferenceIndex.addFile call.shard) := step_absent rfl

theorem first_stored (call : Call encodingHashes) :
    (step (.new sampleLimits) call).factShards[call.key]? = some call.shard := by
  exact TreeMap.getElem?_insert_self

/-- A call that gets another occurrence is indexed again. -/
theorem rebuilt_along_edit : Along step Rebuilt (.new sampleLimits)
    [callingShard 100 7 1, callingShard 101 8 2] := by
  apply (rebuilt_along_iff encoding_injective sampleLimits _).mpr
  refine ⟨(fun old found => by cases found), fun old found _ => ?_, trivial⟩
  have first := first_stores (callingShard 100 7 1)
  have stored := first_stored (callingShard 100 7 1)
  obtain rfl := Option.some.inj (stored.symm.trans found)
  constructor
  · right
    exact TreeMap.getElem?_insert_self.symm
  · intro other shard apart there
    rw [first.shards, getElem?_insert, if_neg (by exact apart)] at there
    cases there

/-- The target of the call changes, its occurrence does not: the old reference stays. -/
theorem retargeted_call_stale : Injective encodingHashes ∧
    (callingShard 100 7 1).shard.contentHash ≠ (callingShard 101 7 2).shard.contentHash ∧
    ¬ Along step Rebuilt (.new sampleLimits) [callingShard 100 7 1, callingShard 101 7 2] := by
  refine ⟨encoding_injective, by decide, fun along => ?_⟩
  obtain ⟨-, second, -⟩ := (rebuilt_along_iff encoding_injective sampleLimits _).mp along
  have covered := second _ (first_stored (callingShard 100 7 1)) (by decide)
  rw [if_pos (by decide)] at covered
  exact absurd covered (by decide)

end PerlLsp.ShardReplacement
