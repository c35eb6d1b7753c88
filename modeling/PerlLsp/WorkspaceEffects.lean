import PerlLsp.Workspace
import PerlLsp.Runs
import Mathlib.Algebra.BigOperators.Group.List.Basic

/-! What each operation of workspace/workspace_index.rs does to the index, said once: the
ways in which indexing a file can end with the index it leaves, and the fields that each
part of a commit writes. -/
namespace PerlLsp.WorkspaceEffects
open Std Tables Workspace WorkspaceIndex Option

theorem symbolCount_perm {files others : TreeMap String FileIndex}
    (perm : (rows files).Perm (rows others)) : symbolCount files = symbolCount others :=
  (perm.map _).sum_eq

theorem symbolCount_insert (files : TreeMap String FileIndex) (key : String) (file : FileIndex) :
    symbolCount (files.insert key file) = symbolCount (files.erase key) + file.symbols.length := by
  have counted := ((rows_insert files key file).map fun file => file.symbols.length).sum_eq
  rw [symbolCount, counted, Nat.add_comm]
  rfl

theorem symbolCount_split (files : TreeMap String FileIndex) (key : String) :
    symbolCount files = symbolCount (files.erase key) +
      files[key]?.elim 0 fun file => file.symbols.length := by
  cases found : files[key]? with
  | none => exact symbolCount_perm (rows_absent files key found)
  | some file =>
    have counted := ((rows_present files key file found).map fun file => file.symbols.length).sum_eq
    rw [List.map_cons, List.sum_cons] at counted
    rw [symbolCount, counted, Nat.add_comm]
    rfl

section
variable (limits : IndexResourceLimits) (files : TreeMap String FileIndex) (key : String)
include limits files key

/-- The limits speak about the other files and the candidate. -/
theorem admissionLimitFor_eq (candidate : FileIndex) : admissionLimitFor limits files key candidate =
      if key ∉ files ∧ limits.maxFiles ≤ files.size then some .maxFiles
      else if limits.maxTotalSymbols <
          symbolCount (files.erase key) + candidate.symbols.length then some .maxSymbols
      else none := by
  rw [admissionLimitFor, symbolCount_split files key]
  simp only [Nat.add_sub_cancel]

theorem admitted_iff (candidate : FileIndex) :
    admissionLimitFor limits files key candidate = none ↔ (key ∈ files ∨ files.size < limits.maxFiles) ∧
        symbolCount (files.erase key) + candidate.symbols.length ≤ limits.maxTotalSymbols := by
  rw [admissionLimitFor_eq]
  by_cases full : key ∉ files ∧ limits.maxFiles ≤ files.size
  · rw [if_pos full]
    refine ⟨nofun, fun room => ?_⟩
    exact absurd room.1 (not_or.mpr ⟨full.1, Nat.not_lt.mpr full.2⟩)
  have room : key ∈ files ∨ files.size < limits.maxFiles := by
    by_contra neither
    obtain ⟨absent, above⟩ := not_or.mp neither
    exact full ⟨absent, Nat.not_lt.mp above⟩
  rw [if_neg full]
  by_cases many : limits.maxTotalSymbols < symbolCount (files.erase key) + candidate.symbols.length
  · rw [if_pos many]
    exact ⟨nofun, fun within => absurd within.2 (Nat.not_le.mpr many)⟩
  · rw [if_neg many]
    exact ⟨fun _ => ⟨room, Nat.not_lt.mp many⟩, fun _ => rfl⟩

theorem admissionLimitFor_reserved
    (existing reserved candidate : FileIndex) (found : files[key]? = some existing) :
    admissionLimitFor limits (files.insert key reserved) key candidate =
      admissionLimitFor limits files key candidate := by
  have present : key ∈ files := TreeMap.mem_iff_isSome_getElem?.mpr (by rw [found]; rfl)
  have same : symbolCount ((files.insert key reserved).erase key) = symbolCount (files.erase key) := by
    refine symbolCount_perm ((toList_perm _ _ fun other => ?_).map Prod.snd)
    rw [TreeMap.getElem?_erase, TreeMap.getElem?_erase, TreeMap.getElem?_insert]
    split
    · rfl
    · rfl
  rw [admissionLimitFor_eq, admissionLimitFor_eq, same, size_insert_present files key reserved present]
  simp only [TreeMap.mem_insert_self, present, not_true_eq_false, false_and, if_false]

end

section Inserted
variable {files after : TreeMap String FileIndex} {key : String} {file : FileIndex}

section
variable (inserted : ∀ other, after[other]? = if key = other then some file else files[other]?)
include inserted

/-- The rows after one file was put in, whichever file was there. -/
theorem rows_inserted : (rows after).Perm (file :: rows (files.erase key)) := by
  refine List.Perm.trans ?_ (rows_insert files key file)
  refine (toList_perm after _ fun other => ?_).map Prod.snd
  rw [inserted, getElem?_insert]

theorem symbolCount_inserted : symbolCount after = symbolCount (files.erase key) + file.symbols.length := by
  rw [← symbolCount_insert]
  exact symbolCount_perm ((rows_inserted inserted).trans (rows_insert files key file).symm)

theorem size_inserted : after.size = if key ∈ files then files.size else files.size + 1 := by
  have counted := (rows_inserted inserted).length_eq
  rw [List.length_cons, length_rows, length_rows] at counted
  split
  next present => rw [counted, size_erase_present files key present]
  next absent =>
      have others := (rows_absent files key (TreeMap.getElem?_eq_none absent)).length_eq
      rw [length_rows, length_rows] at others
      rw [counted, others]

end

end Inserted

theorem replaceFactShardIncremental_frame (index : WorkspaceIndex) (key : String)
    (shard : SemanticFacts.FileFactShard) : ∃ references importExport factShards,
      (index.replaceFactShardIncremental key shard).2 = { index with
          semanticReferenceIndex := references
          semanticImportExportIndex := importExport
          factShards := factShards } := by
  unfold replaceFactShardIncremental
  simp only
  split
  · exact ⟨_, _, _, rfl⟩
  · exact ⟨_, _, _, rfl⟩

/-- The shard, the imports and the package edges leave the files and their stores alone. -/
theorem publishSemantics_frame (index : WorkspaceIndex) (key uri : String) (fileId : Nat)
    (candidate : Candidate) : ∃ references importExport graph factShards,
      ((index.replaceFactShardIncremental key candidate.factShard).2.publishImports uri fileId
          candidate).publishPackageEdges uri fileId candidate.packageEdges =
        { index with
          semanticReferenceIndex := references
          semanticImportExportIndex := importExport
          semanticPackageGraphIndex := graph
          factShards := factShards } := by
  obtain ⟨references, importExport, factShards, same⟩ :=
    replaceFactShardIncremental_frame index key candidate.factShard
  rw [same]
  exact ⟨_, _, _, _, rfl⟩

section Publish
variable (index : WorkspaceIndex) (key uri : String) (fileId : Nat) (candidate : Candidate)

theorem replaceStores_eq (file : FileIndex) :
    ((((index.dropOldReferences key uri).dropOldSymbols key).setFile key file).addNewSymbols
        file).addNewReferences file =
      { index with
        files := index.files.insert key file
        symbols := incrementalAddSymbols (index.dropOldSymbols key).symbols file
        searchIndex := incrementalAddSearch (index.dropOldSymbols key).searchIndex file
        globalReferences :=
          addFileGlobalRefs (index.dropOldReferences key uri).globalReferences file } := by
  unfold addNewReferences addNewSymbols setFile dropOldSymbols dropOldReferences
  cases found : index.files[key]? with
  | none | some old => simp only [found]

/-- What a commit writes, store by store; the semantic indexes are left open. -/
theorem publish_frame : ∃ references importExport graph factShards,
    index.publish key uri fileId candidate = { index with
        files := index.files.insert key candidate.fileIndex
        symbols := incrementalAddSymbols (index.dropOldSymbols key).symbols candidate.fileIndex
        searchIndex :=
          incrementalAddSearch (index.dropOldSymbols key).searchIndex candidate.fileIndex
        globalReferences :=
          addFileGlobalRefs (index.dropOldReferences key uri).globalReferences candidate.fileIndex
        semanticReferenceIndex := references
        semanticImportExportIndex := importExport
        semanticPackageGraphIndex := graph
        factShards := factShards } := by
  rw [publish, replaceStores_eq]
  exact publishSemantics_frame _ key uri fileId candidate

end Publish

section Indexing
variable {Ast : Type} (env : Env Ast)

/-- The document store turns a tracked version down when it holds a later one. -/
theorem acceptCandidate_cases (documents : TreeMap String Document) (uri : String) (version : Int)
    (text : String) (enforce : Bool) :
    (∃ document, documents[env.uriKey uri]? = some document ∧ enforce = true ∧ version < document.version ∧
        acceptCandidate env documents uri version text enforce = (false, documents)) ∨
      (∀ document, documents[env.uriKey uri]? = some document → enforce = true →
          document.version ≤ version) ∧
        ∃ stored : Document, stored.version = version ∧ stored.text = text ∧
          acceptCandidate env documents uri version text enforce =
            (true, documents.insert (env.uriKey uri) stored) := by
  simp only [acceptCandidate]
  cases found : documents[env.uriKey uri]? with
  | none => exact .inr ⟨nofun, ⟨uri, version, text⟩, rfl, rfl, rfl⟩
  | some document =>
    simp only
    by_cases old : enforce = true ∧ version < document.version
    · rw [if_pos (by rw [old.1, decide_eq_true old.2]; rfl)]
      exact .inl ⟨document, rfl, old.1, old.2, rfl⟩
    have kept : ¬ (enforce && decide (version < document.version)) = true := by
      rw [Bool.and_eq_true, decide_eq_true_iff]
      exact old
    rw [if_neg kept]
    refine .inr ⟨?_, ⟨document.uri, version, text⟩, rfl, rfl, rfl⟩
    intro _ same enforced
    cases same
    exact Int.not_lt.mp fun below => old ⟨enforced, below⟩

inductive Refusal (index : WorkspaceIndex) (uri text : String) (generation : Nat) : Prop
  | full (absent : index.files[env.uriKey uri]? = none)
      (above : index.limits.maxFiles ≤ index.files.size)
  | unparsed (message : String) (failed : env.parse text = .error message)
  | limited (ast : Ast) (parsed : env.parse text = .ok ast) (kind : ResourceKind)
      (limit : admissionLimitFor index.limits index.files (env.uriKey uri)
        (index.extract env uri text (env.contentHash text) generation ast).fileIndex = some kind)
  | version (document : Document)
      (there : index.documentStore[env.uriKey uri]? = some document) (tracked : 0 < generation)
      (old : docVersion generation < document.version)

def Fresh (index : WorkspaceIndex) (uri text : String) (generation : Nat) : Prop :=
  ∀ existing, index.files[env.uriKey uri]? = some existing →
    existing.contentHash ≠ env.contentHash text ∧ (0 < generation → existing.highWater ≤ generation)

def HasRoom (index : WorkspaceIndex) (uri : String) : Prop :=
  index.files[env.uriKey uri]? = none → index.files.size < index.limits.maxFiles

structure Admitted (index : WorkspaceIndex) (uri text : String) (generation : Nat) (ast : Ast) :
    Prop where
  room : index.files[env.uriKey uri]? = none → index.files.size < index.limits.maxFiles
  parsed : env.parse text = .ok ast
  within : admissionLimitFor index.limits index.files (env.uriKey uri)
    (index.extract env uri text (env.contentHash text) generation ast).fileIndex = none
  version : ∀ document, index.documentStore[env.uriKey uri]? = some document → 0 < generation →
    document.version ≤ docVersion generation

def committed (index : WorkspaceIndex) (uri text : String) (generation : Nat) (ast : Ast)
    (stored : Document) : WorkspaceIndex :=
  { index with documentStore := index.documentStore.insert (env.uriKey uri) stored }.publish
    (env.uriKey uri) uri (env.hashUriToFileId uri)
    (index.extract env uri text (env.contentHash text) generation ast)

def withRejection (index : WorkspaceIndex) (rejection : Option ResourceKind) : WorkspaceIndex :=
  { index with resourceLimitRejection := rejection }

theorem parseAndCommit_cases (index : WorkspaceIndex) (uri text : String) (generation : Nat)
    (reserved : Option Nat) (fresh : index.staleAgainst (env.uriKey uri) generation = false)
    (room : HasRoom env index uri) :
    let result := index.parseAndCommit env (env.uriKey uri) uri text (env.contentHash text)
      generation reserved
    (∃ ast stored, Admitted env index uri text generation ast ∧
        stored.version = docVersion generation ∧ stored.text = text ∧
        result = (.ok .accepted, committed env index uri text generation ast stored)) ∨
      ∃ message rejection, Refusal env index uri text generation ∧ result = (.error message,
          (withRejection index rejection).releaseReservation (env.uriKey uri) reserved) := by
  intro result
  cases parsed : env.parse text with
  | error message =>
    refine .inr ⟨"Parse error: " ++ message, index.resourceLimitRejection, .unparsed message parsed, ?_⟩
    simp only [result, parseAndCommit, parsed]
    rfl
  | ok ast =>
    cases limit : admissionLimitFor index.limits index.files (env.uriKey uri)
        (index.extract env uri text (env.contentHash text) generation ast).fileIndex with
    | some kind =>
      refine .inr ⟨resourceLimitError kind index.limits, some kind, .limited ast parsed kind limit, ?_⟩
      simp only [result, parseAndCommit, parsed, commitCandidate, fresh, limit, recordResourceLimitRejection]
      rfl
    | none =>
      rcases acceptCandidate_cases env index.documentStore uri (docVersion generation) text
          (decide (0 < generation)) with
        ⟨document, there, tracked, old, refused⟩ | ⟨kept, stored, version, same, accepted⟩
      · refine .inr ⟨"Document store rejected candidate version", index.resourceLimitRejection,
          .version document there (of_decide_eq_true tracked) old, ?_⟩
        simp only [result, parseAndCommit, parsed, commitCandidate, fresh, limit, refused]
        rfl
      · refine .inl ⟨ast, stored, ⟨room, parsed, limit, ?_⟩, version, same, ?_⟩
        · exact fun document there tracked => kept document there (decide_eq_true tracked)
        · simp only [result, parseAndCommit, parsed, commitCandidate, fresh, limit, accepted]
          rfl

def reserve (index : WorkspaceIndex) (key : String) (generation : Nat) : WorkspaceIndex :=
  match index.files[key]? with
  | none => index
  | some existing =>
    if 0 < generation ∧ existing.highWater < generation then
      index.setFile key { existing with pendingGeneration := generation }
    else index

def reservation (index : WorkspaceIndex) (key : String) (generation : Nat) : Option Nat :=
  index.files[key]?.bind fun existing =>
    if 0 < generation ∧ existing.highWater < generation then some generation else none

def rollBack (generation : Nat) (existing : FileIndex) : FileIndex :=
  if 0 < generation ∧ existing.highWater < generation then
    { existing with pendingGeneration := existing.generation }
  else existing

/-- The generation counters apart, nothing happened to the files. -/
structure FilesAfter (before after : WorkspaceIndex) (key : String)
    (change : FileIndex → FileIndex) : Prop where
  frame : after = { before with
    files := after.files
    writeVersion := after.writeVersion
    resourceLimitRejection := after.resourceLimitRejection }
  files : ∀ other, after.files[other]? =
    if key = other then before.files[other]?.map change else before.files[other]?

section
variable (index : WorkspaceIndex) (key : String)
include index key

theorem filesAfter_setFile (existing : FileIndex)
    (change : FileIndex → FileIndex) (found : index.files[key]? = some existing) :
    FilesAfter index (index.setFile key (change existing)) key change where
  frame := rfl
  files other := by
    rw [setFile, getElem?_insert]
    by_cases same : key = other
    · subst same
      rw [if_pos rfl, if_pos rfl, found]
      rfl
    · rw [if_neg same, if_neg same]

theorem filesAfter_none (change : FileIndex → FileIndex)
    (same : ∀ existing, index.files[key]? = some existing → change existing = existing) :
    FilesAfter index index key change where
  frame := rfl
  files other := by
    by_cases here : key = other
    · subst here
      rw [if_pos rfl]
      cases found : index.files[key]? with
      | none => rfl
      | some existing => exact congrArg some (same existing found).symm
    · rw [if_neg here]

theorem getElem?_reserve (generation : Nat)
    (existing : FileIndex) (found : index.files[key]? = some existing)
    (claims : 0 < generation ∧ existing.highWater < generation) :
    (reserve index key generation).files[key]? = some { existing with pendingGeneration := generation } := by
  rw [reserve, found]
  simp only
  rw [if_pos claims, setFile, getElem?_insert, if_pos rfl]

theorem releaseReservation_none : index.releaseReservation key none = index := rfl

theorem releaseReservation_held (generation : Nat)
    (existing : FileIndex) (found : index.files[key]? = some existing)
    (held : existing.pendingGeneration = generation) : index.releaseReservation key (some generation) =
      index.setFile key { existing with pendingGeneration := existing.generation } := by
  simp only [releaseReservation, found, if_pos held]

theorem filesAfter_released (generation : Nat) (rejection : Option ResourceKind) :
    FilesAfter index ((withRejection (reserve index key generation) rejection).releaseReservation key
        (reservation index key generation)) key (rollBack generation) := by
  cases found : index.files[key]? with
  | none =>
    have nothing := filesAfter_none (withRejection index rejection) key
      (rollBack generation) fun existing there => by cases found.symm.trans there
    rw [reserve, reservation, found]
    exact ⟨rfl, nothing.files⟩
  | some existing =>
    by_cases claims : 0 < generation ∧ existing.highWater < generation
    · have reserved := getElem?_reserve index key generation existing found claims
      have released : reservation index key generation = some generation := by
        rw [reservation, found, bind_some, if_pos claims]
      have kept : reserve index key generation =
          index.setFile key { existing with pendingGeneration := generation } := by
        rw [reserve, found]
        exact if_pos claims
      rw [released, releaseReservation_held (withRejection _ rejection) key generation _ reserved rfl, kept]
      refine ⟨rfl, fun other => ?_⟩
      rw [setFile, withRejection, setFile, getElem?_insert, getElem?_insert]
      by_cases same : key = other
      · subst same
        rw [if_pos rfl, if_pos rfl, found, map_some, rollBack, if_pos claims]
      · rw [if_neg same, if_neg same, if_neg same]
    · have nothing := filesAfter_none (withRejection index rejection) key
        (rollBack generation) fun other there => by
          cases there.symm.trans found
          exact if_neg claims
      have kept : reserve index key generation = index := by
        rw [reserve, found]
        exact if_neg claims
      have free : reservation index key generation = none := by
        rw [reservation, found, bind_some, if_neg claims]
      rw [free, kept, releaseReservation_none]
      exact ⟨rfl, nothing.files⟩

end

/-- The ways indexing can end. A new text that is not stale is refused or admitted; a refusal
changes at most a generation counter. -/
inductive IndexEffect (index : WorkspaceIndex) (uri text : String) (generation : Nat) :
    Except String IndexFileWithGenerationOutcome → WorkspaceIndex → Prop
  | noOp (existing : FileIndex) (found : index.files[env.uriKey uri]? = some existing)
      (unchanged : existing.contentHash = env.contentHash text) :
      IndexEffect index uri text generation (.ok .noOp)
        (index.setFile (env.uriKey uri)
          { existing with
            generation := max existing.generation generation
            pendingGeneration := max existing.pendingGeneration generation })
  | stale (existing : FileIndex) (found : index.files[env.uriKey uri]? = some existing)
      (changed : existing.contentHash ≠ env.contentHash text) (tracked : 0 < generation)
      (old : generation < existing.highWater) :
      IndexEffect index uri text generation (.ok .rejectedStale) index
  | refused (after : WorkspaceIndex) (message : String)
      (fresh : Fresh env index uri text generation)
      (refusal : Refusal env index uri text generation)
      (files : FilesAfter index after (env.uriKey uri) (rollBack generation)) :
      IndexEffect index uri text generation (.error message) after
  | accepted (ast : Ast) (stored : Document)
      (fresh : Fresh env index uri text generation)
      (admitted : Admitted env index uri text generation ast)
      (version : stored.version = docVersion generation) (same : stored.text = text) :
      IndexEffect index uri text generation (.ok .accepted)
        (committed env (reserve index (env.uriKey uri) generation) uri text generation ast stored)

section
variable (index : WorkspaceIndex) (key : String) (generation : Nat)
include index key generation

theorem reserve_none (absent : index.files[key]? = none) : reserve index key generation = index := by
  rw [reserve, absent]

theorem reserve_some (existing : FileIndex) (found : index.files[key]? = some existing) :
    reserve index key generation = index ∨ existing.highWater < generation ∧ reserve index key generation =
          index.setFile key { existing with pendingGeneration := generation } := by
  rw [reserve, found]
  by_cases claims : 0 < generation ∧ existing.highWater < generation
  · exact .inr ⟨claims.2, if_pos claims⟩
  · exact .inl (if_neg claims)

theorem limit_reserve (candidate : FileIndex) :
    admissionLimitFor index.limits (reserve index key generation).files key candidate =
      admissionLimitFor index.limits index.files key candidate := by
  cases found : index.files[key]? with
  | none => rw [reserve_none index key generation found]
  | some existing =>
    rcases reserve_some index key generation existing found with same | ⟨_, same⟩
    · rw [same]
    · rw [same]
      exact admissionLimitFor_reserved _ _ key existing _ candidate found

theorem reserve_frame :
    reserve index key generation = { index with files := (reserve index key generation).files } := by
  cases found : index.files[key]? with
  | none => rw [reserve_none index key generation found]
  | some existing =>
    rcases reserve_some index key generation existing found with same | ⟨_, same⟩
    · rw [same]
    · rw [same]
      rfl

theorem absent_reserve
    (absent : (reserve index key generation).files[key]? = none) : index.files[key]? = none := by
  cases found : index.files[key]? with
  | none => rfl
  | some existing =>
    rcases reserve_some index key generation existing found with same | ⟨_, same⟩
    · rw [same, found] at absent
      cases absent
    · rw [same, setFile, getElem?_insert, if_pos rfl] at absent
      cases absent

end

section
variable (index : WorkspaceIndex)
include index

theorem refusal_reserve (uri text : String) (generation : Nat)
    (refusal : Refusal env (reserve index (env.uriKey uri) generation) uri text generation) :
    Refusal env index uri text generation := by
  have frame := reserve_frame index (env.uriKey uri) generation
  cases refusal with
  | full absent above =>
    have gone := absent_reserve index _ generation absent
    rw [reserve_none index _ generation gone] at above
    exact .full gone above
  | unparsed message failed => exact .unparsed message failed
  | limited ast parsed kind limit =>
    refine .limited ast parsed kind ?_
    rw [← limit_reserve index _ generation]
    rw [frame] at limit
    exact limit
  | version document there tracked old =>
    rw [frame] at there
    exact .version document there tracked old

theorem admitted_reserve (uri text : String) (generation : Nat) (ast : Ast) (room : HasRoom env index uri)
    (admitted : Admitted env (reserve index (env.uriKey uri) generation) uri text generation ast) :
    Admitted env index uri text generation ast := by
  have frame := reserve_frame index (env.uriKey uri) generation
  refine ⟨room, admitted.parsed, ?_, ?_⟩
  · have within := admitted.within
    rw [frame] at within
    rw [← limit_reserve index _ generation]
    exact within
  · intro document there
    refine admitted.version document ?_
    rw [frame]
    exact there

variable (key : String)

theorem fresh_reserve (generation : Nat) (fresh : ∀ existing, index.files[key]? = some existing →
      0 < generation → existing.highWater ≤ generation) :
    (reserve index key generation).staleAgainst key generation = false := by
  cases found : index.files[key]? with
  | none =>
    rw [reserve_none index key generation found, staleAgainst, found]
    exact Bool.and_false _
  | some existing =>
    rw [staleAgainst, Bool.and_eq_false_imp]
    intro tracked
    have below := fresh existing found (of_decide_eq_true tracked)
    rw [FileIndex.highWater] at below
    rcases reserve_some index key generation existing found with same | ⟨above, same⟩
    · rw [same, found, any_some, FileIndex.highWater, decide_eq_false (Nat.not_lt.mpr below), Bool.and_false]
    have settled : ¬ generation < max existing.generation generation := by
      omega
    rw [same, setFile, getElem?_insert, if_pos rfl, any_some, FileIndex.highWater,
      decide_eq_false settled, Bool.and_false]

theorem earlyGuard_full (contentHash generation : Nat)
    (absent : index.files[key]? = none) (above : index.limits.maxFiles ≤ index.files.size) :
    index.earlyGuard key contentHash generation = .limited .maxFiles := by
  rw [earlyGuard, absent]
  exact if_pos above

theorem earlyGuard_unchanged (contentHash generation : Nat)
    (existing : FileIndex) (found : index.files[key]? = some existing)
    (unchanged : existing.contentHash = contentHash) :
    index.earlyGuard key contentHash generation = .noOp (index.setFile key { existing with
          generation := max existing.generation generation
          pendingGeneration := max existing.pendingGeneration generation }) := by
  rw [earlyGuard, found]
  exact if_pos unchanged

theorem earlyGuard_stale (contentHash generation : Nat)
    (existing : FileIndex) (found : index.files[key]? = some existing)
    (changed : existing.contentHash ≠ contentHash) (tracked : 0 < generation)
    (old : generation < existing.highWater) :
    index.earlyGuard key contentHash generation = .rejectedStale := by
  rw [earlyGuard, found]
  simp only
  rw [if_neg changed, if_pos ⟨tracked, Nat.lt_of_le_of_lt (Nat.zero_le _) old, old⟩]

theorem earlyGuard_fresh (contentHash generation : Nat)
    (fresh : ∀ existing, index.files[key]? = some existing →
      existing.contentHash ≠ contentHash ∧ (0 < generation → existing.highWater ≤ generation))
    (room : index.files[key]? = none → index.files.size < index.limits.maxFiles) :
    index.earlyGuard key contentHash generation =
      .proceed (reserve index key generation) (reservation index key generation) := by
  cases found : index.files[key]? with
  | none =>
    rw [reserve_none index key generation found, earlyGuard, reservation, found]
    exact if_neg (Nat.not_le.mpr (room found))
  | some existing =>
    obtain ⟨changed, above⟩ := fresh existing found
    rw [earlyGuard, reserve, reservation, found]
    simp only [bind_some]
    rw [if_neg changed, if_neg fun old => Nat.not_lt.mpr (above old.1) old.2.2]
    by_cases claims : 0 < generation ∧ existing.highWater < generation
    · rw [if_pos claims, if_pos claims, if_pos claims]
    · rw [if_neg claims, if_neg claims, if_neg claims]

/-- Indexing a text that passes the first critical section. -/
theorem indexFile_fresh (uri text : String) (generation : Nat)
    (fresh : Fresh env index uri text generation) (room : HasRoom env index uri) :
    let result := (reserve index (env.uriKey uri) generation).parseAndCommit env (env.uriKey uri)
      uri text (env.contentHash text) generation (reservation index (env.uriKey uri) generation)
    IndexEffect env index uri text generation result.1 result.2 := by
  intro result
  have roomLater : (reserve index (env.uriKey uri) generation).files[env.uriKey uri]? = none →
      (reserve index (env.uriKey uri) generation).files.size <
        (reserve index (env.uriKey uri) generation).limits.maxFiles := by
    intro absent
    have gone := absent_reserve index _ generation absent
    rw [reserve_none index _ generation gone]
    exact room gone
  have notStale := fresh_reserve index (env.uriKey uri) generation
    fun existing found => (fresh existing found).2
  rcases parseAndCommit_cases env (reserve index (env.uriKey uri) generation) uri text generation
      (reservation index (env.uriKey uri) generation) notStale roomLater with
    ⟨ast, stored, admitted, version, same, ended⟩ | ⟨message, rejection, refusal, ended⟩
  · rw [show result = _ from ended]
    exact .accepted ast stored fresh (admitted_reserve env index uri text generation ast room
      admitted) version same
  · rw [show result = _ from ended]
    exact .refused _ message fresh (refusal_reserve env index uri text generation refusal)
      (filesAfter_released index (env.uriKey uri) generation rejection)

/-- The inversion rule of indexing: every proof about it goes by these cases. -/
theorem indexFile_effect (uri text : String) (generation : Nat) :
    let result := index.indexFileWithGenerationOutcome env uri text generation
    ∃ after, result.2 = after.bumpWriteVersion ∧
      IndexEffect env index.bumpWriteVersion uri text generation result.1 after := by
  intro result
  have limited (kind : ResourceKind) (guard : index.bumpWriteVersion.earlyGuard (env.uriKey uri)
      (env.contentHash text) generation = .limited kind) :
      result = (.error (resourceLimitError kind index.limits),
        (index.bumpWriteVersion.recordResourceLimitRejection kind).bumpWriteVersion) := by
    simp only [result, indexFileWithGenerationOutcome, guard]
    rfl
  have noOp (after : WorkspaceIndex) (guard : index.bumpWriteVersion.earlyGuard (env.uriKey uri)
      (env.contentHash text) generation = .noOp after) :
      result = (.ok .noOp, after.bumpWriteVersion) := by
    simp only [result, indexFileWithGenerationOutcome, guard]
  have rejected (guard : index.bumpWriteVersion.earlyGuard (env.uriKey uri)
      (env.contentHash text) generation = .rejectedStale) :
      result = (.ok .rejectedStale, index.bumpWriteVersion.bumpWriteVersion) := by
    simp only [result, indexFileWithGenerationOutcome, guard]
  have goesOn (after : WorkspaceIndex) (reserved : Option Nat)
      (guard : index.bumpWriteVersion.earlyGuard (env.uriKey uri) (env.contentHash text)
        generation = .proceed after reserved) :
      result = ((after.parseAndCommit env (env.uriKey uri) uri text (env.contentHash text)
          generation reserved).1,
        (after.parseAndCommit env (env.uriKey uri) uri text (env.contentHash text) generation
          reserved).2.bumpWriteVersion) := by
    simp only [result, indexFileWithGenerationOutcome, guard]
  have proceeds : Fresh env index uri text generation → HasRoom env index uri →
      ∃ after, result.2 = after.bumpWriteVersion ∧
        IndexEffect env index.bumpWriteVersion uri text generation result.1 after := by
    intro fresh room
    rw [goesOn _ _ (earlyGuard_fresh index.bumpWriteVersion _ _ _ fresh room)]
    exact ⟨_, rfl, indexFile_fresh env index.bumpWriteVersion uri text generation fresh room⟩
  cases found : index.files[env.uriKey uri]? with
  | none =>
    have never : ∀ existing, index.files[env.uriKey uri]? ≠ some existing := by
      intro existing there
      cases found.symm.trans there
    by_cases above : index.limits.maxFiles ≤ index.files.size
    · rw [limited _ (earlyGuard_full index.bumpWriteVersion _ _ _ found above)]
      have still := filesAfter_none index.bumpWriteVersion (env.uriKey uri) (rollBack generation)
        fun existing there => absurd there (never existing)
      exact ⟨_, rfl, .refused _ _ (fun existing there => absurd there (never existing))
        (.full found above) ⟨rfl, still.files⟩⟩
    · exact proceeds (fun existing there => absurd there (never existing)) fun _ => Nat.not_le.mp above
  | some existing =>
    have only : ∀ other, index.files[env.uriKey uri]? = some other → other = existing :=
      fun other there => Option.some.inj (there.symm.trans found)
    by_cases unchanged : existing.contentHash = env.contentHash text
    · rw [noOp _ (earlyGuard_unchanged index.bumpWriteVersion _ _ _ existing found unchanged)]
      exact ⟨_, rfl, .noOp existing found unchanged⟩
    by_cases stale : 0 < generation ∧ generation < existing.highWater
    · rw [rejected (earlyGuard_stale index.bumpWriteVersion _ _ _ existing found unchanged stale.1 stale.2)]
      exact ⟨_, rfl, .stale existing found unchanged stale.1 stale.2⟩
    · refine proceeds (fun other there => ?_) fun absent => by cases found.symm.trans absent
      rw [only other there]
      exact ⟨unchanged, fun tracked => Nat.not_lt.mp fun below => stale ⟨tracked, below⟩⟩

end

structure CommittedAs (index after : WorkspaceIndex) (uri : String) (file : FileIndex)
    (stored : Document) : Prop where
  files : ∀ other, after.files[other]? =
    if env.uriKey uri = other then some file else index.files[other]?
  symbols : after.symbols =
    incrementalAddSymbols (index.dropOldSymbols (env.uriKey uri)).symbols file
  searchIndex : after.searchIndex =
    incrementalAddSearch (index.dropOldSymbols (env.uriKey uri)).searchIndex file
  globalReferences : after.globalReferences =
    addFileGlobalRefs (index.dropOldReferences (env.uriKey uri) uri).globalReferences file
  documentStore : after.documentStore = index.documentStore.insert (env.uriKey uri) stored
  limits : after.limits = index.limits
  workspaceFolders : after.workspaceFolders = index.workspaceFolders

section
variable (index : WorkspaceIndex)
include index

theorem committed_stores (uri text : String) (generation : Nat) (ast : Ast) (stored : Document) :
    CommittedAs env index
      (committed env (reserve index (env.uriKey uri) generation) uri text generation ast stored) uri
      (index.extract env uri text (env.contentHash text) generation ast).fileIndex stored := by
  have same : (reserve index (env.uriKey uri) generation).extract env uri text
      (env.contentHash text) generation ast =
        index.extract env uri text (env.contentHash text) generation ast := by
    rw [reserve_frame]
    rfl
  obtain ⟨references, importExport, graph, factShards, published⟩ := publish_frame
    { reserve index (env.uriKey uri) generation with
      documentStore :=
        (reserve index (env.uriKey uri) generation).documentStore.insert (env.uriKey uri) stored }
    (env.uriKey uri) uri (env.hashUriToFileId uri)
    (index.extract env uri text (env.contentHash text) generation ast)
  rw [committed, same, published]
  have inserted (files : TreeMap String FileIndex) (file : FileIndex) (other : String)
      (others : env.uriKey uri ≠ other → files[other]? = index.files[other]?) :
      (files.insert (env.uriKey uri) file)[other]? =
        if env.uriKey uri = other then some file else index.files[other]? := by
    rw [getElem?_insert]
    by_cases here : env.uriKey uri = other
    · rw [if_pos here, if_pos here]
    · rw [if_neg here, if_neg here, others here]
  cases found : index.files[env.uriKey uri]? with
  | none =>
    rw [reserve_none index _ generation found]
    refine ⟨fun other => inserted _ _ other fun _ => rfl, ?_, ?_, ?_, rfl, rfl, rfl⟩
    · simp only [dropOldSymbols, found]
    · simp only [dropOldSymbols, found]
    · simp only [dropOldReferences, found]
  | some existing =>
    rcases reserve_some index _ generation existing found with unreserved | ⟨_, reserved⟩
    · rw [unreserved]
      refine ⟨fun other => inserted _ _ other fun _ => rfl, ?_, ?_, ?_, rfl, rfl, rfl⟩
      · simp only [dropOldSymbols, found]
      · simp only [dropOldSymbols, found]
      · simp only [dropOldReferences, found]
    have held := getElem?_insert index.files (env.uriKey uri)
      { existing with pendingGeneration := generation } (env.uriKey uri)
    rw [if_pos rfl] at held
    rw [reserved]
    refine ⟨fun other => inserted _ _ other fun apart => ?_, ?_, ?_, ?_, rfl, rfl, rfl⟩
    · exact (getElem?_insert _ _ _ _).trans (if_neg apart)
    · simp only [dropOldSymbols, setFile, held, found]
      rfl
    · simp only [dropOldSymbols, setFile, held, found]
      rfl
    · simp only [dropOldReferences, setFile, held, found]
      rfl

/-- Whichever branch is taken, the shard that is left has the content hash of the new one. -/
theorem replaced_shard (key : String) (shard : SemanticFacts.FileFactShard) : ∃ left,
      (index.replaceFactShardIncremental key shard).2.factShards[key]? = some left ∧
        left.contentHash = shard.contentHash := by
  unfold replaceFactShardIncremental
  simp only
  split
  next unchanged =>
      cases found : index.factShards[key]? with
      | none =>
        rw [found] at unchanged
        cases unchanged
      | some old =>
        refine ⟨old, rfl, ?_⟩
        rw [found, SemanticFacts.planShardReplacement, map_some, any_some] at unchanged
        split at unchanged
        next same => exact beq_iff_eq.mp same
        next => cases unchanged
  next => exact ⟨shard, (getElem?_insert _ _ _ _).trans (if_pos rfl), rfl⟩

theorem extracted_shard (uri text : String) (contentHash generation : Nat) (ast : Ast) :
    (index.extract env uri text contentHash generation ast).factShard.contentHash = contentHash := by
  unfold extract
  simp only
  split
  · rfl
  · rfl

theorem committed_shard (uri text : String) (generation : Nat) (ast : Ast) (stored : Document) : ∃ shard,
      (committed env index uri text generation ast stored).factShards[env.uriKey uri]? =
        some shard ∧ shard.contentHash = env.contentHash text := by
  have left := replaced_shard
    (((({ index with documentStore := index.documentStore.insert (env.uriKey uri) stored
      }.dropOldReferences (env.uriKey uri) uri).dropOldSymbols (env.uriKey uri)).setFile (env.uriKey uri)
        (index.extract env uri text (env.contentHash text) generation ast).fileIndex).addNewSymbols
        (index.extract env uri text (env.contentHash text) generation ast).fileIndex |>.addNewReferences
        (index.extract env uri text (env.contentHash text) generation ast).fileIndex)
    (env.uriKey uri) (index.extract env uri text (env.contentHash text) generation ast).factShard
  rw [extracted_shard] at left
  exact left

end

def liveOutcome : Except String IndexFileWithGenerationOutcome → SourceCommitOutcome
  | .ok .accepted => .accepted
  | .ok .noOp => .noOp
  | .ok .rejectedStale => .rejectedStale
  | .error message => .failed message

theorem commitLive_eq (index : WorkspaceIndex) (uri text : String) (commit : SourceCommit) :
    index.commitLive env uri text commit =
      let result := index.indexFileWithGenerationOutcome env uri text commit.generation
      (liveOutcome result.1, result.2) := by
  rw [commitLive]
  rcases index.indexFileWithGenerationOutcome env uri text commit.generation with ⟨_ | outcome, after⟩
  · rfl
  cases outcome with
  | accepted => rfl
  | noOp => rfl
  | rejectedStale => rfl

/-- How the first critical section of a live call ends. -/
inductive CheckEffect (index : WorkspaceIndex) (uri text : String) (generation : Nat) :
    Option SourceCommitOutcome × WorkspaceIndex → Prop
  | stale (existing : FileIndex) (found : index.files[env.uriKey uri]? = some existing)
      (old : generation < existing.highWater) :
      CheckEffect index uri text generation (some .rejectedStale, index)
  | noOp (existing : FileIndex) (found : index.files[env.uriKey uri]? = some existing)
      (above : existing.highWater ≤ generation)
      (unchanged : existing.contentHash = env.contentHash text) :
      CheckEffect index uri text generation
        (some .noOp, index.setFile (env.uriKey uri)
          { existing with
            generation := generation
            pendingGeneration := max existing.pendingGeneration generation })
  | proceed (fresh : ∀ existing, index.files[env.uriKey uri]? = some existing →
        existing.contentHash ≠ env.contentHash text ∧ existing.highWater ≤ generation) :
      CheckEffect index uri text generation (none, index)

variable (index : WorkspaceIndex)

theorem checkLive_effect (uri text : String) (commit : SourceCommit) :
    CheckEffect env index uri text commit.generation (index.checkLive env uri text commit) := by
  simp only [checkLive]
  cases found : index.files[env.uriKey uri]? with
  | none => exact .proceed fun existing there => by cases found.symm.trans there
  | some existing =>
    simp only
    by_cases old : commit.generation < existing.highWater
    · rw [if_pos old]
      exact .stale existing found old
    have above := Nat.not_lt.mp old
    rw [if_neg old]
    by_cases unchanged : existing.contentHash = env.contentHash text
    · rw [if_pos unchanged]
      exact .noOp existing found above unchanged
    rw [if_neg unchanged]
    refine .proceed fun other there => ?_
    cases found.symm.trans there
    exact ⟨unchanged, above⟩

variable (item : ParsedItem)

def filedItem (stored : Document) : WorkspaceIndex :=
  (({ index with documentStore := index.documentStore.insert (env.uriKey item.uri) stored
      }.dropOldReferences item.key item.uri).setFile item.key item.fileIndex |>.addNewReferences
        item.fileIndex).publishPackageEdges item.uri (env.hashUriToFileId item.uri) item.packageEdges

theorem commitItem_cases :
    (∃ kind, admissionLimitFor index.limits index.files item.key item.fileIndex = some kind ∧
        commitItem env index item =
          (some (resourceLimitError kind index.limits), index.recordResourceLimitRejection kind)) ∨
      ∃ stored : Document, stored.version = 1 ∧ stored.text = item.text ∧
        admissionLimitFor index.limits index.files item.key item.fileIndex = none ∧
        commitItem env index item = (none, filedItem env index item stored) := by
  cases limit : admissionLimitFor index.limits index.files item.key item.fileIndex with
  | some kind => exact .inl ⟨kind, rfl, by simp only [commitItem, limit]⟩
  | none =>
    rcases acceptCandidate_cases env index.documentStore item.uri 1 item.text false with
      ⟨_, _, enforced, _⟩ | ⟨_, stored, version, same, accepted⟩
    · cases enforced
    · exact .inr ⟨stored, version, same, rfl, by simp only [commitItem, limit, accepted]; rfl⟩

/-- A parsed item is named after its file and carries no generation. -/
theorem parsed_item {items : List (String × String)}
    (member : item ∈ parsedItems (items.filterMap (parseItem env index))) :
    item.key = env.uriKey item.uri ∧ item.fileIndex.sourceUri = item.uri ∧
      item.fileIndex.contentHash = env.contentHash item.text ∧
      item.fileIndex.pendingGeneration = 0 := by
  obtain ⟨result, inside, parsed⟩ := List.mem_filterMap.mp member
  obtain ⟨⟨uri, text⟩, _, made⟩ := List.mem_filterMap.mp inside
  simp only [parseItem] at made
  split at made
  · cases made
  split at made
  · cases made
    cases parsed
  · cases made
    cases parsed
    exact ⟨rfl, rfl, rfl, rfl⟩

theorem commitItems_cons (rest : List ParsedItem) (index : WorkspaceIndex) :
    (commitItems env (item :: rest) index).2 = (commitItems env rest (commitItem env index item).2).2 := rfl

theorem filedItem_frame (index : WorkspaceIndex) (item : ParsedItem) (stored : Document) :
    ∃ graph, filedItem env index item stored = { index with
        files := index.files.insert item.key item.fileIndex
        globalReferences :=
          addFileGlobalRefs (index.dropOldReferences item.key item.uri).globalReferences item.fileIndex
        semanticPackageGraphIndex := graph
        documentStore := index.documentStore.insert (env.uriKey item.uri) stored } := by
  unfold filedItem publishPackageEdges addNewReferences setFile dropOldReferences
  cases found : index.files[item.key]? with
  | none | some old => exact ⟨_, rfl⟩

/-- The counters of the file may have moved, and the rest of it has not. -/
structure Recounted (file later : FileIndex) : Prop where
  sourceUri : later.sourceUri = file.sourceUri
  contentHash : later.contentHash = file.contentHash
  symbols : later.symbols = file.symbols
  references : later.references = file.references
  dependencies : later.dependencies = file.dependencies
  settled : file.pendingGeneration ≤ file.generation →
    later.pendingGeneration ≤ later.generation

theorem recounted_rollBack (generation : Nat) (file : FileIndex) :
    Recounted file (rollBack generation file) := by
  rw [rollBack]
  split
  · exact ⟨rfl, rfl, rfl, rfl, rfl, fun _ => Nat.le_refl _⟩
  · exact ⟨rfl, rfl, rfl, rfl, rfl, id⟩

structure Counted (before after : WorkspaceIndex) (key : String) (change : FileIndex → FileIndex) :
    Prop where
  changed : FilesAfter before after key change
  recounted : ∀ file, before.files[key]? = some file → Recounted file (change file)

def Stable (Kept : WorkspaceIndex → Prop) : Prop :=
  ∀ {before after key change}, Counted before after key change → Kept before → Kept after

section
variable {env} {Kept : WorkspaceIndex → Prop} {index : WorkspaceIndex} (stable : Stable Kept)
    (kept : Kept index)
include kept

theorem removeFolder_keeps
    (removed : ∀ {index}, Kept index → ∀ uri, Kept (index.removeFile env uri)) (folderUri : String) :
    Kept (index.removeFolder env folderUri) := by
  unfold removeFolder
  generalize (rows index.files).filterMap (fun file =>
    if file.folderUri = some folderUri then some file.sourceUri else none) = uris
  induction uris generalizing index with
  | nil => exact kept
  | cons uri rest ih => exact ih (removed kept uri)

include stable

theorem Stable.bump : Kept index.bumpWriteVersion :=
  stable ⟨⟨rfl, (filesAfter_none index "" id fun _ _ => rfl).files⟩,
    fun _ _ => ⟨rfl, rfl, rfl, rfl, rfl, id⟩⟩ kept

theorem Stable.setFile {key : String} (change : FileIndex → FileIndex) {existing : FileIndex}
    (found : index.files[key]? = some existing) (recounted : Recounted existing (change existing)) :
    Kept (index.setFile key (change existing)) :=
  stable ⟨filesAfter_setFile index key existing change found,
    fun _ there => Option.some.inj (found.symm.trans there) ▸ recounted⟩ kept

/-- A stable property outlives indexing where it outlives the commit. -/
theorem Stable.indexFile (uri text : String) (generation : Nat)
    (accepted : ∀ ast stored, Fresh env index uri text generation →
      Admitted env index.bumpWriteVersion uri text generation ast → stored.text = text →
      Kept (committed env (reserve index.bumpWriteVersion (env.uriKey uri) generation) uri text
        generation ast stored)) : Kept (index.indexFileWithGenerationOutcome env uri text generation).2 := by
  obtain ⟨after, ended, effect⟩ := indexFile_effect env index uri text generation
  rw [ended]
  refine stable.bump ?_
  have before := stable.bump kept
  generalize (index.indexFileWithGenerationOutcome env uri text generation).1 = outcome at effect
  cases effect with
  | noOp existing found unchanged =>
    exact stable.setFile before (fun file => { file with
      generation := max file.generation generation
      pendingGeneration := max file.pendingGeneration generation }) found
      ⟨rfl, rfl, rfl, rfl, rfl, fun low =>
        Nat.max_le.mpr ⟨Nat.le_trans low (Nat.le_max_left _ _), Nat.le_max_right _ _⟩⟩
  | stale existing found changed tracked old => exact before
  | refused after message fresh refusal files =>
    exact stable ⟨files, fun file _ => recounted_rollBack generation file⟩ before
  | accepted ast stored fresh admitted version same => exact accepted ast stored fresh admitted same

theorem Stable.live (uri text : String) (commit : SourceCommit)
    (indexed : Kept (index.indexFileWithGenerationOutcome env uri text commit.generation).2) :
    Kept (index.indexLiveFile env uri text commit).2 := by
  have checked := checkLive_effect env index uri text commit
  rw [indexLiveFile]
  cases result : index.checkLive env uri text commit with
  | mk outcome after =>
    rw [result] at checked
    cases checked with
    | stale existing found old => exact kept
    | noOp existing found above unchanged =>
      exact stable.setFile kept (fun file => { file with
        generation := commit.generation
        pendingGeneration := max file.pendingGeneration commit.generation }) found
        ⟨rfl, rfl, rfl, rfl, rfl, fun _ =>
          Nat.max_le.mpr ⟨Nat.le_trans (Nat.le_max_right _ _) above, Nat.le_refl _⟩⟩
    | proceed fresh =>
      simp only
      rw [commitLive_eq]
      exact indexed

theorem Stable.reset (uri : String) : Kept (index.resetGenerationForClose env uri) := by
  unfold resetGenerationForClose
  simp only
  split
  · exact kept
  next existing found =>
      exact stable.bump (stable.setFile kept
        (fun file => { file with generation := 0, pendingGeneration := 0 }) found
        ⟨rfl, rfl, rfl, rfl, rfl, fun _ => Nat.le_refl _⟩)

theorem Stable.call (indexed : ∀ uri text generation,
      Kept (index.indexFileWithGenerationOutcome env uri text generation).2)
    (batch : ∀ filesToIndex, Kept (index.indexFilesBatch env filesToIndex).2)
    (removed : ∀ {index}, Kept index → ∀ uri, Kept (index.removeFile env uri))
    (cleared : Kept index.clear) (folders : ∀ folders, Kept (index.setWorkspaceFolders folders))
    (call : Call) : Kept (apply env index call) := by
  cases call with
  | indexInitialFile uri text => exact indexed uri text 0
  | indexFileWithGeneration uri text generation => exact indexed uri text generation
  | indexLiveFile uri text commit =>
    exact stable.live kept uri text commit (indexed uri text commit.generation)
  | indexFilesBatch filesToIndex => exact batch filesToIndex
  | removeFile uri => exact removed kept uri
  | removeFolder folderUri => exact removeFolder_keeps kept removed folderUri
  | resetGenerationForClose uri => exact stable.reset kept uri
  | clear => exact cleared
  | setWorkspaceFolders names => exact folders names

end

end Indexing

end PerlLsp.WorkspaceEffects
