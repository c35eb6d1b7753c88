import PerlLsp.WorkspaceStores

/-! The batch of an initial scan against indexing its files one after the other
(`index_files_batch` and `index_initial_file` of workspace/workspace_index.rs). A batch
has its own commit: it patches the references, the package graph and the documents as
indexing a file does, rebuilds the symbol stores at its end, and leaves the fact shards,
the semantic references and the import/export index as they are. -/
namespace PerlLsp.WorkspaceBatch
open Std Tables Buckets StableSort ImportExport Workspace WorkspaceIndex WorkspaceEffects List TreeMap Bool
open WorkspaceStores Runs

section Symbols
variable {Ast : Type} (env : Env Ast)

structure Searchable (index : WorkspaceIndex) : Prop where
  keyed : Keyed env index.files
  derived : ∃ globalRefs,
    Derived (rows index.files) index.symbols index.searchIndex globalRefs

def withReferences (index : WorkspaceIndex)
    (globalRefs : TreeMap String (List SymbolReference)) : WorkspaceIndex :=
  { index with globalReferences := globalRefs }

variable {env} {index : WorkspaceIndex}

theorem consistent_with (searchable : Searchable env index) :
    ∃ globalRefs, Consistent env (withReferences index globalRefs) := by
  obtain ⟨globalRefs, derived⟩ := searchable.derived
  exact ⟨globalRefs, searchable.keyed, derived⟩

theorem searchable_with (globalRefs : TreeMap String (List SymbolReference))
    (consistent : Consistent env (withReferences index globalRefs)) : Searchable env index :=
  ⟨consistent.keyed, globalRefs, consistent.derived⟩

theorem searchable_stable : Stable (Searchable env) := by
  intro index after key change ⟨changed, recounted⟩ searchable
  obtain ⟨globalRefs, consistent⟩ := consistent_with searchable
  have frame : withReferences after globalRefs = { withReferences index globalRefs with
      files := after.files
      writeVersion := after.writeVersion
      resourceLimitRejection := after.resourceLimitRejection } := by
    rw [changed.frame]
    rfl
  have kept : FilesAfter (withReferences index globalRefs) (withReferences after globalRefs) key
      change := ⟨frame, changed.files⟩
  exact searchable_with globalRefs (consistent_stable ⟨kept, recounted⟩ consistent)

/-- The file that is replaced is taken out under its own spelling. -/
theorem searchable_others (consistent : Consistent env index) (key uri : String)
    (own : key = env.uriKey uri) :
    ∃ globalRefs, Derived (rows (index.files.erase key)) (index.dropOldSymbols key).symbols
      (index.dropOldSymbols key).searchIndex globalRefs := by
  cases found : index.files[key]? with
  | none =>
    refine ⟨_, derived_others consistent key uri own fun old there => ?_⟩
    cases found.symm.trans there
  | some file =>
    refine ⟨_, derived_others consistent key file.sourceUri (consistent.keyed key file found)
      fun old there => ?_⟩
    cases found.symm.trans there
    exact .inl rfl

theorem dropped_with (globalRefs : TreeMap String (List SymbolReference)) (key : String) :
    (withReferences index globalRefs).dropOldSymbols key =
      withReferences (index.dropOldSymbols key) globalRefs := by
  unfold dropOldSymbols withReferences
  cases found : index.files[key]? with
  | none => simp only
  | some old => simp only

section
variable (searchable : Searchable env index)
include searchable

theorem searchable_committed {after : WorkspaceIndex}
    {uri : String} {file : FileIndex} {stored : Document} (named : file.sourceUri = uri)
    (stores : CommittedAs env index after uri file stored) : Searchable env after where
  keyed := keyed_inserted searchable.keyed (by rw [named]) stores.files
  derived := by
    obtain ⟨globalRefs, consistent⟩ := consistent_with searchable
    have apart := apart_inserted consistent _ uri rfl file named
    obtain ⟨others, derived⟩ := searchable_others consistent _ uri rfl
    rw [dropped_with] at derived
    have added := derived_perm (rows_inserted stores.files).symm apart (derived_add file derived apart)
    rw [stores.symbols, stores.searchIndex]
    exact ⟨_, added⟩

theorem searchable_removeFile (uri : String) : Searchable env (index.removeFile env uri) := by
  obtain ⟨globalRefs, consistent⟩ := consistent_with searchable
  have removed := consistent_removeFile consistent uri
  have same : (withReferences index globalRefs).removeFile env uri =
      withReferences (index.removeFile env uri)
        ((withReferences index globalRefs).removeFile env uri).globalReferences := by
    simp only [WorkspaceIndex.removeFile, removeIndexed, withReferences, bumpWriteVersion]
    cases index.files[env.uriKey (env.normalizeUri uri)]? with
    | none => rfl
    | some file => rfl
  rw [same] at removed
  exact searchable_with _ removed

theorem searchable_indexFile (uri text : String) (generation : Nat) :
    Searchable env (index.indexFileWithGenerationOutcome env uri text generation).2 := by
  refine searchable_stable.indexFile searchable uri text generation fun ast stored _ _ _ => ?_
  refine searchable_committed (searchable_stable.bump searchable) ?_
    (committed_stores env index.bumpWriteVersion uri text generation ast stored)
  rfl

end

theorem keyed_commitItems (items : List ParsedItem) (keyed : Keyed env index.files)
    (own : ∀ item ∈ items, OwnItem env item) : Keyed env (commitItems env items index).2.files := by
  induction items generalizing index with
  | nil => exact keyed
  | cons item rest ih =>
    obtain ⟨first, others⟩ := List.forall_mem_cons.mp own
    rw [commitItems_cons]
    refine ih ?_ others
    rcases commitItem_cases env index item with ⟨kind, _, ended⟩ | ⟨stored, _, _, _, ended⟩
    · rw [ended]
      exact keyed
    obtain ⟨graph, frame⟩ := filedItem_frame env index item stored
    rw [ended, frame]
    exact keyed_inserted keyed (first.1.trans (by rw [first.2]))
      (getElem?_insert index.files item.key item.fileIndex)

theorem bucket_collected (files : List FileIndex)
    (globalRefs : TreeMap String (List SymbolReference)) (name : String) :
    bucket (files.foldl addFileGlobalRefs globalRefs) name =
      bucket globalRefs name ++ referencesAt files name := by
  induction files generalizing globalRefs with
  | nil => exact (append_nil _).symm
  | cons file rest ih =>
    rw [foldl_cons, ih, bucket_added_references, referencesAt, referencesAt, flatMap_cons, append_assoc]

theorem searchable_rebuilt (keyed : Keyed env index.files) : Searchable env index.rebuildCaches := by
  have references (name : String) :
      (bucket ((rows index.files).foldl addFileGlobalRefs ∅) name).Perm
        (referencesAt (rows index.files) name) := by
    rw [bucket_collected, bucket_empty, nil_append]
  have kept : ReferencesKept env
      (withReferences index ((rows index.files).foldl addFileGlobalRefs ∅)) := ⟨keyed, references⟩
  have rebuilt : Consistent env (withReferences index.rebuildCaches
      ((rows index.files).foldl addFileGlobalRefs ∅)) := consistent_rebuilt kept
  exact searchable_with _ rebuilt

theorem searchable_call (searchable : Searchable env index) (call : Call) :
    Searchable env (apply env index call) := by
  refine searchable_stable.call searchable (searchable_indexFile searchable)
    (fun filesToIndex => ?_) searchable_removeFile ⟨keyed_nothing, ∅, derived_nothing⟩
    (fun _ => ⟨searchable.keyed, searchable.derived⟩) call
  have keyed := keyed_commitItems _ (searchable_stable.bump searchable).keyed
    (ownItems index.bumpWriteVersion (deduplicate env filesToIndex))
  exact searchable_stable.bump (searchable_rebuilt keyed)

end Symbols

section Commit
variable {Ast : Type} (env : Env Ast)

def lands (index : WorkspaceIndex) (item : String × String) : Bool :=
  !index.files[env.uriKey item.1]?.any fun existing =>
    existing.contentHash == env.contentHash item.2

def storedDocument (documents : TreeMap String Document) (uri text : String) : Document :=
  match documents[env.uriKey uri]? with
  | some document => { document with version := 1, text := text }
  | none => ⟨uri, 1, text⟩

def withDocument (index : WorkspaceIndex) (uri text : String) : WorkspaceIndex :=
  { index with
    documentStore := index.documentStore.insert (env.uriKey uri)
      (storedDocument env index.documentStore uri text) }

def fileOf (index : WorkspaceIndex) (uri text : String) (ast : Ast) : FileIndex :=
  FileIndex.ofRows uri (env.contentHash text) (determineFolderUri index.workspaceFolders uri)
    (env.visitUnified ast uri text)

def publishedImports (importExport : ImportExportIndex) (uri text : String) (ast : Ast) :
    ImportExportIndex :=
  let fileId := env.hashUriToFileId uri
  let imports :=
    (importExport.removeFileImports uri).addFileImports uri fileId (env.importSpecs ast fileId text)
  let useLib := (imports.removeFileUseLib uri).addFileUseLib uri fileId (env.useLibFacts ast fileId)
  addExportSets (useLib.removeModuleExports uri) uri (env.lower ast).exportSets

def beforeFacts (index : WorkspaceIndex) (key uri : String) (file : FileIndex) : WorkspaceIndex :=
  ((((index.dropOldReferences key uri).dropOldSymbols key).setFile key file).addNewSymbols
    file).addNewReferences file

def withShard (index : WorkspaceIndex) (uri text : String) (ast : Ast) : WorkspaceIndex :=
  let candidate := index.extract env uri text (env.contentHash text) 0 ast
  ((beforeFacts (withDocument env index uri text) (env.uriKey uri) uri
    candidate.fileIndex).replaceFactShardIncremental (env.uriKey uri) candidate.factShard).2

structure Landed (index after : WorkspaceIndex) (uri text : String) (ast : Ast) : Prop where
  files : ∀ other, after.files[other]? =
    if env.uriKey uri = other then some (fileOf env index uri text ast) else index.files[other]?
  globalReferences : after.globalReferences = addFileGlobalRefs
    (index.dropOldReferences (env.uriKey uri) uri).globalReferences (fileOf env index uri text ast)
  packageGraph : after.semanticPackageGraphIndex =
    (index.semanticPackageGraphIndex.removeEdgesForFile uri).addEdges uri (env.hashUriToFileId uri)
      (env.lower ast).packageEdges
  documentStore : after.documentStore =
    index.documentStore.insert (env.uriKey uri) (storedDocument env index.documentStore uri text)
  limits : after.limits = index.limits
  workspaceFolders : after.workspaceFolders = index.workspaceFolders

/-- What only `index_initial_file` writes. -/
structure FactsLanded (index after : WorkspaceIndex) (uri text : String) (ast : Ast) : Prop where
  shard : ∃ shard, after.factShards[env.uriKey uri]? = some shard ∧
    shard.contentHash = env.contentHash text
  otherShards : ∀ other, env.uriKey uri ≠ other → after.factShards[other]? = index.factShards[other]?
  known : (∃ shard, index.factShards[env.uriKey uri]? = some shard ∧
      shard.contentHash = env.contentHash text) →
    after.factShards = index.factShards ∧
      after.semanticReferenceIndex = index.semanticReferenceIndex ∧
      after.semanticImportExportIndex =
        publishedImports env index.semanticImportExportIndex uri text ast

variable {env}

theorem lands_iff (index : WorkspaceIndex) (item : String × String) :
    lands env index item = true ↔ ∀ existing, index.files[env.uriKey item.1]? = some existing →
      existing.contentHash ≠ env.contentHash item.2 := by
  rw [lands, not_eq_true']
  cases index.files[env.uriKey item.1]? with
  | none => simp
  | some existing => simp

theorem accepted_untracked (documents : TreeMap String Document) (uri text : String) :
    acceptCandidate env documents uri 1 text false =
      (true, documents.insert (env.uriKey uri) (storedDocument env documents uri text)) := by
  simp only [acceptCandidate, storedDocument]
  cases documents[env.uriKey uri]? with
  | none => rfl
  | some document => rfl

section
variable (index : WorkspaceIndex)
include index

theorem reserve_untracked (key : String) : reserve index key 0 = index ∧ reservation index key 0 = none := by
  constructor
  · rw [reserve]
    split
    · rfl
    · exact if_neg fun claims => Nat.lt_irrefl 0 claims.1
  · rw [reservation, Option.bind_eq_none_iff]
    intro existing found
    exact if_neg fun claims => Nat.lt_irrefl 0 claims.1

theorem initial_committed (uri text : String) (ast : Ast)
    (fresh : lands env index (uri, text) = true) (admitted : Admitted env index uri text 0 ast) :
    (index.indexInitialFile env uri text).2 = (committed env index.bumpWriteVersion uri text 0 ast
        (storedDocument env index.documentStore uri text)).bumpWriteVersion := by
  obtain ⟨unreserved, free⟩ := reserve_untracked index.bumpWriteVersion (env.uriKey uri)
  have early := earlyGuard_fresh index.bumpWriteVersion (env.uriKey uri) (env.contentHash text) 0
    (fun existing found => ⟨(lands_iff index (uri, text)).mp fresh existing found, nofun⟩)
    admitted.room
  have within : admissionLimitFor index.bumpWriteVersion.limits index.bumpWriteVersion.files
      (env.uriKey uri) (index.bumpWriteVersion.extract env uri text (env.contentHash text) 0
        ast).fileIndex = none := admitted.within
  have accepted : acceptCandidate env index.bumpWriteVersion.documentStore uri (docVersion 0) text
      (decide (0 < 0)) = _ := accepted_untracked index.documentStore uri text
  rw [unreserved, free] at early
  simp only [indexInitialFile, indexFileWithGeneration, indexFileWithGenerationOutcome, early,
    parseAndCommit, admitted.parsed, commitCandidate, staleAgainst, within, accepted]
  rfl

theorem initial_known (uri text : String) (existing : FileIndex)
    (found : index.files[env.uriKey uri]? = some existing)
    (unchanged : existing.contentHash = env.contentHash text) : (index.indexInitialFile env uri text).2 =
      (index.bumpWriteVersion.setFile (env.uriKey uri) existing).bumpWriteVersion := by
  have early := earlyGuard_unchanged index.bumpWriteVersion (env.uriKey uri) (env.contentHash text)
    0 existing found unchanged
  simp only [indexInitialFile, indexFileWithGeneration, indexFileWithGenerationOutcome, early, Nat.max_zero]

theorem replaced_known (key : String)
    (shard old : SemanticFacts.FileFactShard) (found : index.factShards[key]? = some old)
    (same : old.contentHash = shard.contentHash) :
    (index.replaceFactShardIncremental key shard).2 = index := by
  have known : (index.factShards[key]?.map (·.categoryHashes)).any (fun hashes =>
      hashes.contentHash == shard.categoryHashes.contentHash) = true := by
    rw [found, Option.map_some]
    exact beq_iff_eq.mpr same
  unfold replaceFactShardIncremental
  simp only [SemanticFacts.planShardReplacement, if_pos known, ↓reduceIte]

theorem replaced_elsewhere (key : String)
    (shard : SemanticFacts.FileFactShard) (other : String) (apart : key ≠ other) :
    (index.replaceFactShardIncremental key shard).2.factShards[other]? = index.factShards[other]? := by
  unfold replaceFactShardIncremental
  simp only
  split
  · rfl
  · exact (getElem?_insert _ _ _ _).trans (if_neg apart)

theorem beforeFacts_frame (key uri : String) (file : FileIndex) :
    (beforeFacts index key uri file).factShards = index.factShards ∧
      (beforeFacts index key uri file).semanticReferenceIndex = index.semanticReferenceIndex ∧
      (beforeFacts index key uri file).semanticImportExportIndex = index.semanticImportExportIndex ∧
      (beforeFacts index key uri file).semanticPackageGraphIndex = index.semanticPackageGraphIndex := by
  rw [beforeFacts, replaceStores_eq]
  exact ⟨rfl, rfl, rfl, rfl⟩

end

section
variable (index : WorkspaceIndex) (uri text : String) (ast : Ast)
include index uri text ast

theorem committed_eq :
    let candidate := index.extract env uri text (env.contentHash text) 0 ast
    committed env index uri text 0 ast (storedDocument env index.documentStore uri text) =
      ((withShard env index uri text ast).publishImports uri (env.hashUriToFileId uri)
        candidate).publishPackageEdges uri (env.hashUriToFileId uri) candidate.packageEdges := rfl

theorem withShard_packageGraph :
    (withShard env index uri text ast).semanticPackageGraphIndex = index.semanticPackageGraphIndex := by
  obtain ⟨references, importExport, factShards, replaced⟩ := replaceFactShardIncremental_frame
    (beforeFacts (withDocument env index uri text) (env.uriKey uri) uri
      (index.extract env uri text (env.contentHash text) 0 ast).fileIndex) (env.uriKey uri)
    (index.extract env uri text (env.contentHash text) 0 ast).factShard
  rw [withShard, replaced, (beforeFacts_frame _ _ _ _).2.2.2]
  rfl

theorem withShard_elsewhere (other : String) (apart : env.uriKey uri ≠ other) :
    (withShard env index uri text ast).factShards[other]? = index.factShards[other]? := by
  rw [withShard, replaced_elsewhere _ _ _ other apart, (beforeFacts_frame _ _ _ _).1]
  rfl

theorem withShard_known
    (old : SemanticFacts.FileFactShard) (found : index.factShards[env.uriKey uri]? = some old)
    (same : old.contentHash = env.contentHash text) : withShard env index uri text ast =
      beforeFacts (withDocument env index uri text) (env.uriKey uri) uri
        (index.extract env uri text (env.contentHash text) 0 ast).fileIndex := by
  apply replaced_known _ _ _ old
  · rw [(beforeFacts_frame _ _ _ _).1]
    exact found
  · rw [extracted_shard]
    exact same

theorem committed_landed : Landed env index (committed env index uri text 0 ast
      (storedDocument env index.documentStore uri text)) uri text ast := by
  have stores := committed_stores env index uri text 0 ast (storedDocument env index.documentStore uri text)
  rw [(reserve_untracked index (env.uriKey uri)).1] at stores
  refine ⟨stores.files, stores.globalReferences, ?_, stores.documentStore, stores.limits,
    stores.workspaceFolders⟩
  rw [committed_eq, publishPackageEdges, publishImports, withShard_packageGraph]
  rfl

theorem committed_facts : FactsLanded env index (committed env index uri text 0 ast
      (storedDocument env index.documentStore uri text)) uri text ast := by
  refine ⟨committed_shard env index uri text 0 ast _, ?_, ?_⟩
  · rw [committed_eq, publishPackageEdges, publishImports]
    exact withShard_elsewhere index uri text ast
  · rintro ⟨old, found, same⟩
    have frame := beforeFacts_frame (withDocument env index uri text) (env.uriKey uri) uri
      (index.extract env uri text (env.contentHash text) 0 ast).fileIndex
    rw [committed_eq, publishPackageEdges, publishImports, withShard_known index uri text ast old found same]
    refine ⟨frame.1, frame.2.1, ?_⟩
    rw [publishedImports]
    simp only [frame.2.2.1]
    rfl

theorem filedItem_landed : Landed env index (filedItem env index
      ⟨env.uriKey uri, uri, text, fileOf env index uri text ast, (env.lower ast).packageEdges⟩
      (storedDocument env index.documentStore uri text)) uri text ast := by
  obtain ⟨graph, frame⟩ := filedItem_frame env index
    ⟨env.uriKey uri, uri, text, fileOf env index uri text ast, (env.lower ast).packageEdges⟩
    (storedDocument env index.documentStore uri text)
  refine ⟨fun other => ?_, ?_, ?_, ?_, ?_, ?_⟩
  · rw [frame]
    exact getElem?_insert _ _ _ _
  · rw [frame]
  · simp only [filedItem, publishPackageEdges, addNewReferences, setFile, dropOldReferences]
    cases index.files[env.uriKey uri]? with
    | none => rfl
    | some old => rfl
  · rw [frame]
  · rw [frame]
  · rw [frame]

end

/-- One item of a batch, once no limit is in its way. -/
theorem commitItem_within (index : WorkspaceIndex) (item : ParsedItem)
    (within : admissionLimitFor index.limits index.files item.key item.fileIndex = none) :
    (commitItem env index item).2 =
      filedItem env index item (storedDocument env index.documentStore item.uri item.text) := by
  simp only [commitItem, within, accepted_untracked]
  rfl

end Commit

section Items
variable {Ast : Type} (env : Env Ast)

def indexNext (index : WorkspaceIndex) (item : String × String) : WorkspaceIndex :=
  (index.indexInitialFile env item.1 item.2).2

def WithinLimits (index : WorkspaceIndex) (item : String × String) : Prop :=
  lands env index item = true → ∀ ast, env.parse item.2 = .ok ast →
    Admitted env index item.1 item.2 0 ast

/-- What the two ways have in common before the symbols are rebuilt. -/
structure SameBase (left right : WorkspaceIndex) : Prop where
  files : ∀ key : String, left.files[key]? = right.files[key]?
  globalReferences : left.globalReferences = right.globalReferences
  packageGraph : left.semanticPackageGraphIndex = right.semanticPackageGraphIndex
  documentStore : left.documentStore = right.documentStore
  limits : left.limits = right.limits
  workspaceFolders : left.workspaceFolders = right.workspaceFolders

variable {env}

theorem sameBase_landed {left right leftAfter rightAfter : WorkspaceIndex} {uri text : String}
    {ast : Ast} (same : SameBase left right) (leftLanded : Landed env left leftAfter uri text ast)
    (rightLanded : Landed env right rightAfter uri text ast) : SameBase leftAfter rightAfter := by
  have file : fileOf env left uri text ast = fileOf env right uri text ast := by
    rw [fileOf, fileOf, same.workspaceFolders]
  have references : (left.dropOldReferences (env.uriKey uri) uri).globalReferences =
      (right.dropOldReferences (env.uriKey uri) uri).globalReferences := by
    simp only [dropOldReferences, same.files (env.uriKey uri)]
    cases right.files[env.uriKey uri]? with
    | none => exact same.globalReferences
    | some old =>
      exact congrArg (fun globalRefs => removeFileGlobalRefs globalRefs old uri) same.globalReferences
  exact
    { files := fun key => by
        rw [leftLanded.files, rightLanded.files, file, same.files]
      globalReferences := by
        rw [leftLanded.globalReferences, rightLanded.globalReferences, file, references]
      packageGraph := by
        rw [leftLanded.packageGraph, rightLanded.packageGraph, same.packageGraph]
      documentStore := by
        rw [leftLanded.documentStore, rightLanded.documentStore, same.documentStore]
      limits := by rw [leftLanded.limits, rightLanded.limits, same.limits]
      workspaceFolders := by
        rw [leftLanded.workspaceFolders, rightLanded.workspaceFolders, same.workspaceFolders] }

theorem admission_congr {left right : WorkspaceIndex} (same : SameBase left right) (key : String)
    (file : FileIndex) : admissionLimitFor left.limits left.files key file =
      admissionLimitFor right.limits right.files key file := by
  have perm := toList_perm left.files right.files same.files
  have size : left.files.size = right.files.size := by
    rw [← length_toList, ← length_toList, perm.length_eq]
  have count : symbolCount left.files = symbolCount right.files :=
    symbolCount_perm (perm.map Prod.snd)
  have present : key ∈ left.files ↔ key ∈ right.files := by
    rw [mem_iff_isSome_getElem?, mem_iff_isSome_getElem?, same.files]
  simp only [admissionLimitFor, size, count, present, same.limits, same.files key]

theorem dropped_bump (index : WorkspaceIndex) (key uri : String) :
    (index.bumpWriteVersion.dropOldReferences key uri).globalReferences =
      (index.dropOldReferences key uri).globalReferences := by
  simp only [dropOldReferences, bumpWriteVersion]
  cases index.files[key]? with
  | none => rfl
  | some old => rfl

theorem landed_bump {index after : WorkspaceIndex} {uri text : String} {ast : Ast}
    (landed : Landed env index.bumpWriteVersion after uri text ast) :
    Landed env index after.bumpWriteVersion uri text ast := by
  have references := landed.globalReferences
  rw [dropped_bump] at references
  exact ⟨landed.files, references, landed.packageGraph, landed.documentStore, landed.limits,
    landed.workspaceFolders⟩

theorem facts_bump {index after : WorkspaceIndex} {uri text : String} {ast : Ast}
    (facts : FactsLanded env index.bumpWriteVersion after uri text ast) :
    FactsLanded env index after.bumpWriteVersion uri text ast :=
  ⟨facts.shard, facts.otherShards, facts.known⟩

section
variable (index : WorkspaceIndex) (item : String × String) (ast : Ast)
    (parsed : env.parse item.2 = .ok ast) (within : WithinLimits env index item)
include index item ast parsed within

/-- What indexing one file in the sequence does: it puts the text in, or nothing changes. -/
theorem next_cases :
    (lands env index item = true ∧ Landed env index (indexNext env index item) item.1 item.2 ast ∧
        FactsLanded env index (indexNext env index item) item.1 item.2 ast) ∨
      lands env index item = false ∧ SameBase (indexNext env index item) index ∧
        (indexNext env index item).factShards = index.factShards ∧
        (indexNext env index item).semanticReferenceIndex = index.semanticReferenceIndex ∧
        (indexNext env index item).semanticImportExportIndex = index.semanticImportExportIndex := by
  obtain ⟨uri, text⟩ := item
  cases landing : lands env index (uri, text) with
  | true =>
    left
    rw [indexNext, initial_committed index uri text ast landing (within landing ast parsed)]
    exact ⟨rfl, landed_bump (committed_landed index.bumpWriteVersion uri text ast),
      facts_bump (committed_facts index.bumpWriteVersion uri text ast)⟩
  | false =>
    right
    rw [lands, not_eq_false'] at landing
    cases found : index.files[env.uriKey uri]? with
    | none =>
      rw [found] at landing
      cases landing
    | some existing =>
      rw [found, Option.any_some, beq_iff_eq] at landing
      rw [indexNext, initial_known index uri text existing found landing]
      refine ⟨rfl, ⟨fun key => ?_, rfl, rfl, rfl, rfl, rfl⟩, rfl, rfl, rfl⟩
      refine (getElem?_insert _ _ _ _).trans ?_
      split
      · rename_i here
        rw [← here, found]
      · rfl

/-- Other keys see nothing of an item. -/
theorem next_elsewhere (key : String) (apart : env.uriKey item.1 ≠ key) :
    (indexNext env index item).files[key]? = index.files[key]? ∧
      (indexNext env index item).factShards[key]? = index.factShards[key]? := by
  obtain ⟨_, landed, facts⟩ | ⟨_, same, shards, _⟩ := next_cases index item ast parsed within
  · exact ⟨by rw [landed.files, if_neg apart], facts.otherShards key apart⟩
  · exact ⟨same.files key, by rw [shards]⟩

end

theorem lands_elsewhere (index : WorkspaceIndex) (item other : String × String) (ast : Ast)
    (parsed : env.parse item.2 = .ok ast) (within : WithinLimits env index item)
    (apart : env.uriKey item.1 ≠ env.uriKey other.1) :
    lands env (indexNext env index item) other = lands env index other := by
  rw [lands, lands, (next_elsewhere index item ast parsed within _ apart).1]

end Items

section Lists
variable {Ast : Type} (env : Env Ast)

def publishedText (importExport : ImportExportIndex) (item : String × String) : ImportExportIndex :=
  match env.parse item.2 with
  | .ok ast => publishedImports env importExport item.1 item.2 ast
  | .error _ => importExport

def SameVisitors : Prop := ∀ ast uri text, env.visit ast uri text = env.visitUnified ast uri text

structure Fit (index : WorkspaceIndex) (items : List (String × String)) : Prop where
  distinct : (items.map fun item => env.uriKey item.1).Nodup
  parsed : ∀ item ∈ items, ∃ ast, env.parse item.2 = .ok ast
  within : StepsMeet (indexNext env) (WithinLimits env) index items

variable {env} {index : WorkspaceIndex}

section
variable {item : String × String} {rest : List (String × String)} (fit : Fit env index (item :: rest))
include item rest fit

theorem fit_rest : Fit env (indexNext env index item) rest where
  distinct := (List.nodup_cons.mp fit.distinct).2
  parsed other member := fit.parsed other (mem_cons_of_mem _ member)
  within := fit.within.2

theorem fit_apart (other : String × String) (member : other ∈ rest) :
    env.uriKey item.1 ≠ env.uriKey other.1 := by
  intro same
  exact (List.nodup_cons.mp fit.distinct).1 (List.mem_map.mpr ⟨other, member, same.symm⟩)

/-- The rest of the list lands as it would have at first. -/
theorem lands_rest (other : String × String) (member : other ∈ rest) :
    lands env (indexNext env index item) other = lands env index other := by
  obtain ⟨ast, parsed⟩ := fit.parsed item mem_cons_self
  exact lands_elsewhere index item other ast parsed fit.within.1 (fit_apart fit other member)

end

theorem run_elsewhere (items : List (String × String)) (fit : Fit env index items) (key : String)
    (apart : ∀ item ∈ items, env.uriKey item.1 ≠ key) :
    (items.foldl (indexNext env) index).factShards[key]? = index.factShards[key]? := by
  induction items generalizing index with
  | nil => rfl
  | cons item rest ih =>
    obtain ⟨ast, parsed⟩ := fit.parsed item mem_cons_self
    have here := next_elsewhere index item ast parsed fit.within.1 key (apart item mem_cons_self)
    rw [foldl_cons, ih (fit_rest fit) fun other member =>
      apart other (mem_cons_of_mem _ member)]
    exact here.2

theorem run_shards (items : List (String × String)) (fit : Fit env index items)
    (item : String × String) (member : item ∈ items) (landing : lands env index item = true) :
    ∃ shard, (items.foldl (indexNext env) index).factShards[env.uriKey item.1]? = some shard ∧
      shard.contentHash = env.contentHash item.2 := by
  induction items generalizing index with
  | nil => cases member
  | cons head rest ih =>
    rw [foldl_cons]
    rw [mem_cons] at member
    obtain rfl | later := member
    · obtain ⟨ast, parsed⟩ := fit.parsed item mem_cons_self
      rw [run_elsewhere rest (fit_rest fit) (env.uriKey item.1) fun other among =>
        (fit_apart fit other among).symm]
      obtain ⟨_, _, facts⟩ | ⟨stays, _⟩ := next_cases index item ast parsed fit.within.1
      · exact facts.shard
      · rw [landing] at stays
        cases stays
    · apply ih (fit_rest fit) later
      rw [lands_rest fit item later]
      exact landing

/-- Where the facts of every text that lands are known, the sequence publishes its imports only. -/
theorem run_known (items : List (String × String)) (fit : Fit env index items)
    (known : ∀ item ∈ items, lands env index item = true → ∃ shard,
      index.factShards[env.uriKey item.1]? = some shard ∧ shard.contentHash = env.contentHash item.2) :
    (items.foldl (indexNext env) index).factShards = index.factShards ∧
      (items.foldl (indexNext env) index).semanticReferenceIndex = index.semanticReferenceIndex ∧
      (items.foldl (indexNext env) index).semanticImportExportIndex =
        (items.filter (lands env index)).foldl (publishedText env) index.semanticImportExportIndex := by
  induction items generalizing index with
  | nil => exact ⟨rfl, rfl, rfl⟩
  | cons item rest ih =>
    obtain ⟨ast, parsed⟩ := fit.parsed item mem_cons_self
    have later : rest.filter (lands env (indexNext env index item)) = rest.filter (lands env index) :=
      filter_congr fun other member => lands_rest fit other member
    have others : ∀ other ∈ rest, lands env (indexNext env index item) other = true → ∃ shard,
        (indexNext env index item).factShards[env.uriKey other.1]? = some shard ∧
          shard.contentHash = env.contentHash other.2 := by
      intro other member landing
      rw [lands_rest fit other member] at landing
      rw [(next_elsewhere index item ast parsed fit.within.1 _ (fit_apart fit other member)).2]
      exact known other (mem_cons_of_mem _ member) landing
    obtain ⟨shards, references, imports⟩ := ih (fit_rest fit) others
    rw [foldl_cons, shards, references, imports, later]
    obtain ⟨landing, _, facts⟩ | ⟨stays, _, sameShards, sameReferences, sameImports⟩ :=
      next_cases index item ast parsed fit.within.1
    · obtain ⟨firstShards, firstReferences, firstImports⟩ :=
        facts.known (known item mem_cons_self landing)
      rw [filter_cons_of_pos landing, foldl_cons, publishedText, parsed]
      exact ⟨firstShards, firstReferences, by rw [firstImports]⟩
    · rw [filter_cons_of_neg (not_eq_true _ ▸ stays), sameImports]
      exact ⟨sameShards, sameReferences, rfl⟩

theorem parseItem_known (item : String × String) (stays : lands env index item = false) :
    parseItem env index item = none := by
  rw [lands, not_eq_false'] at stays
  simp only [parseItem, stays, ↓reduceIte]

theorem parseItem_lands (item : String × String) (ast : Ast) (parsed : env.parse item.2 = .ok ast)
    (visitors : SameVisitors env) (landing : lands env index item = true) :
    parseItem env index item = some (.ok ⟨env.uriKey item.1, item.1, item.2,
      fileOf env index item.1 item.2 ast, (env.lower ast).packageEdges⟩) := by
  rw [lands, not_eq_true'] at landing
  simp only [parseItem, landing, false_eq_true, ↓reduceIte, parsed, fileOf, visitors ast]

theorem parsedItems_cons (item : ParsedItem) (rest : List (Except String ParsedItem)) :
    parsedItems (.ok item :: rest) = item :: parsedItems rest := rfl

/-- The batch keeps step with the sequence, item by item. -/
theorem batch_along (visitors : SameVisitors env) (items : List (String × String))
    (fit : Fit env index items) (first batch : WorkspaceIndex) (same : SameBase index batch)
    (files : ∀ item ∈ items, first.files[env.uriKey item.1]? = index.files[env.uriKey item.1]?)
    (folders : first.workspaceFolders = index.workspaceFolders) :
    SameBase (items.foldl (indexNext env) index)
      (commitItems env (parsedItems (items.filterMap (parseItem env first))) batch).2 := by
  induction items generalizing index batch with
  | nil => exact same
  | cons item rest ih =>
    obtain ⟨ast, parsed⟩ := fit.parsed item mem_cons_self
    have later : ∀ other ∈ rest, first.files[env.uriKey other.1]? =
        (indexNext env index item).files[env.uriKey other.1]? := by
      intro other member
      rw [(next_elsewhere index item ast parsed fit.within.1 _ (fit_apart fit other member)).1]
      exact files other (mem_cons_of_mem _ member)
    have landsFirst : lands env first item = lands env index item := by
      rw [lands, lands, files item mem_cons_self]
    obtain ⟨landing, landed, _⟩ | ⟨stays, unchanged, _⟩ :=
      next_cases index item ast parsed fit.within.1
    · have file : fileOf env first item.1 item.2 ast = fileOf env batch item.1 item.2 ast := by
        rw [fileOf, fileOf, folders, same.workspaceFolders]
      have within : admissionLimitFor batch.limits batch.files (env.uriKey item.1)
          (fileOf env batch item.1 item.2 ast) = none := by
        rw [← admission_congr same, ← file, fileOf, folders]
        exact (fit.within.1 landing ast parsed).within
      rw [filterMap_cons_some
        (parseItem_lands item ast parsed visitors (landsFirst.trans landing)), parsedItems_cons,
        commitItems_cons, file, commitItem_within batch _ within]
      refine ih (fit_rest fit) _ (sameBase_landed same landed
        (filedItem_landed batch item.1 item.2 ast)) later ?_
      rw [landed.workspaceFolders, folders]
    · rw [filterMap_cons_none (parseItem_known item (landsFirst.trans stays))]
      refine ih (fit_rest fit) batch ?_ later (folders.trans unchanged.workspaceFolders.symm)
      exact
        { files := fun key => (unchanged.files key).trans (same.files key)
          globalReferences := unchanged.globalReferences.trans same.globalReferences
          packageGraph := unchanged.packageGraph.trans same.packageGraph
          documentStore := unchanged.documentStore.trans same.documentStore
          limits := unchanged.limits.trans same.limits
          workspaceFolders := unchanged.workspaceFolders.trans same.workspaceFolders }

end Lists

structure SameImports (left right : ImportExportIndex) : Prop where
  importsByFile : ∀ fileId : Nat, left.importsByFile[fileId]? = right.importsByFile[fileId]?
  exportsByModule : ∀ moduleName : String,
    left.exportsByModule[moduleName]? = right.exportsByModule[moduleName]?
  fileUriToId : ∀ uri : String, left.fileUriToId[uri]? = right.fileUriToId[uri]?
  moduleToSourceUri : ∀ moduleName : String,
    left.moduleToSourceUri[moduleName]? = right.moduleToSourceUri[moduleName]?
  useLibByFile : ∀ fileId : Nat, left.useLibByFile[fileId]? = right.useLibByFile[fileId]?
  useLibUriToId : ∀ uri : String, left.useLibUriToId[uri]? = right.useLibUriToId[uri]?

structure SameStores (left right : WorkspaceIndex) : Prop where
  files : ∀ key : String, left.files[key]? = right.files[key]?
  symbols : ∀ name : String, left.symbols[name]? = right.symbols[name]?
  searchIndex : ∀ name : String, (name ∈ left.searchIndex ↔ name ∈ right.searchIndex) ∧
    (bucket left.searchIndex name).Perm (bucket right.searchIndex name)
  globalReferences : left.globalReferences = right.globalReferences
  factShards : ∀ key : String, left.factShards[key]? = right.factShards[key]?
  semanticReferenceIndex : left.semanticReferenceIndex = right.semanticReferenceIndex
  importExport : SameImports left.semanticImportExportIndex right.semanticImportExportIndex
  packageGraph : left.semanticPackageGraphIndex = right.semanticPackageGraphIndex
  documentStore : left.documentStore = right.documentStore

section Agreement
variable {Ast : Type} (env : Env Ast)

/-- The facts of the new texts are known: each has a shard with its content hash, and publishing its
imports, use-lib facts and export sets changes nothing. -/
structure FactsKnown (index : WorkspaceIndex) (items : List (String × String)) : Prop where
  shards : ∀ item ∈ items, lands env index item = true → ∃ shard,
    index.factShards[env.uriKey item.1]? = some shard ∧
      shard.contentHash = env.contentHash item.2
  imports : SameImports index.semanticImportExportIndex
    ((items.filter (lands env index)).foldl (publishedText env) index.semanticImportExportIndex)

variable {env} {index : WorkspaceIndex}

theorem deduplicate_distinct (items kept : List (String × String))
    (distinct : ((kept ++ items).map fun item => env.uriKey item.1).Nodup) : items.foldl (fun kept item =>
      if kept.any fun other => env.uriKey other.1 == env.uriKey item.1 then
        kept.map fun other => if env.uriKey other.1 = env.uriKey item.1 then item else other
      else kept ++ [item]) kept = kept ++ items := by
  induction items generalizing kept with
  | nil => exact (append_nil kept).symm
  | cons item rest ih =>
    have fresh : (kept.any fun other => env.uriKey other.1 == env.uriKey item.1) = false := by
      rw [any_eq_false]
      intro other member same
      rw [map_append, nodup_append] at distinct
      exact distinct.2.2 _ (mem_map_of_mem member) _ (mem_map_of_mem mem_cons_self) (beq_iff_eq.mp same)
    rw [foldl_cons, fresh, if_neg Bool.false_ne_true, ih, append_assoc]
    · rfl
    · rwa [append_assoc]

variable (env) in
theorem commitItems_facts (items : List ParsedItem) (batch : WorkspaceIndex) :
    (commitItems env items batch).2.factShards = batch.factShards ∧
      (commitItems env items batch).2.semanticReferenceIndex = batch.semanticReferenceIndex ∧
      (commitItems env items batch).2.semanticImportExportIndex = batch.semanticImportExportIndex := by
  induction items generalizing batch with
  | nil => exact ⟨rfl, rfl, rfl⟩
  | cons item rest ih =>
    obtain ⟨shards, references, imports⟩ := ih (commitItem env batch item).2
    rw [commitItems_cons, shards, references, imports]
    obtain ⟨kind, _, ended⟩ | ⟨stored, _, _, _, ended⟩ := commitItem_cases env batch item
    · rw [ended]
      exact ⟨rfl, rfl, rfl⟩
    · obtain ⟨graph, frame⟩ := filedItem_frame env batch item stored
      rw [ended, frame]
      exact ⟨rfl, rfl, rfl⟩

theorem searchable_items (items : List (String × String)) (searchable : Searchable env index) :
    Searchable env (items.foldl (indexNext env) index) := by
  induction items generalizing index with
  | nil => exact searchable
  | cons item rest ih =>
    exact ih (searchable_call searchable (.indexInitialFile item.1 item.2))

/-- Patched or rebuilt, the symbol stores of the same files hold the same. -/
theorem sameSymbols {patched base : WorkspaceIndex} (searchable : Searchable env patched)
    (same : SameBase patched base) :
    (∀ name : String, base.rebuildCaches.symbols[name]? = patched.symbols[name]?) ∧ ∀ name : String,
        (name ∈ base.rebuildCaches.searchIndex ↔ name ∈ patched.searchIndex) ∧
          (bucket base.rebuildCaches.searchIndex name).Perm (bucket patched.searchIndex name) := by
  obtain ⟨globalRefs, derived⟩ := searchable.derived
  have perm := (toList_perm patched.files base.files same.files).map Prod.snd
  have apart := apart_rows searchable.keyed
  have consistent : Consistent env
      { base with
        symbols := patched.symbols
        searchIndex := patched.searchIndex
        globalReferences := globalRefs } :=
    ⟨fun key file found => searchable.keyed key file ((same.files key).trans found),
      derived_perm perm apart derived⟩
  have stores := derived_stores consistent
  exact ⟨fun name => (stores.symbols name).symm,
    fun name => ⟨(stores.searchIndex name).1.symm, (stores.searchIndex name).2.symm⟩⟩

theorem batch_ended (items : List (String × String))
    (distinct : (items.map fun item => env.uriKey item.1).Nodup) : (index.indexFilesBatch env items).2 =
      (commitItems env (parsedItems (items.filterMap (parseItem env index.bumpWriteVersion)))
        index.bumpWriteVersion).2.rebuildCaches.bumpWriteVersion := by
  have kept : deduplicate env items = items := deduplicate_distinct items [] distinct
  simp only [indexFilesBatch, kept]

theorem batch_iff_searchable (visitors : SameVisitors env) (items : List (String × String))
    (fit : Fit env index items) (searchable : Searchable env index) :
    SameStores (index.indexFilesBatch env items).2 (items.foldl (indexNext env) index) ↔
      FactsKnown env index items := by
  have base := batch_along visitors items fit index.bumpWriteVersion index.bumpWriteVersion
    ⟨fun _ => rfl, rfl, rfl, rfl, rfl, rfl⟩ (fun _ _ => rfl) rfl
  obtain ⟨shards, references, imports⟩ := commitItems_facts env
    (parsedItems (items.filterMap (parseItem env index.bumpWriteVersion))) index.bumpWriteVersion
  rw [batch_ended items fit.distinct]
  generalize (commitItems env (parsedItems (items.filterMap
    (parseItem env index.bumpWriteVersion))) index.bumpWriteVersion).2 = batch at *
  constructor
  · intro same
    have known : ∀ item ∈ items, lands env index item = true → ∃ shard,
        index.factShards[env.uriKey item.1]? = some shard ∧ shard.contentHash = env.contentHash item.2 := by
      intro item member landing
      obtain ⟨shard, found, hashed⟩ := run_shards items fit item member landing
      refine ⟨shard, ?_, hashed⟩
      rw [← found, ← same.factShards]
      exact (congrArg (fun table : TreeMap String SemanticFacts.FileFactShard =>
        table[env.uriKey item.1]?) shards).symm
    refine ⟨known, ?_⟩
    have published := same.importExport
    rw [(run_known items fit known).2.2] at published
    rwa [show batch.rebuildCaches.bumpWriteVersion.semanticImportExportIndex =
      index.semanticImportExportIndex from imports] at published
  · rintro ⟨known, published⟩
    obtain ⟨sameShards, sameReferences, sameImports⟩ := run_known items fit known
    obtain ⟨symbols, search⟩ := sameSymbols (searchable_items items searchable) base
    exact
      { files := fun key => (base.files key).symm
        symbols := symbols
        searchIndex := search
        globalReferences := base.globalReferences.symm
        factShards := fun key => by
          rw [sameShards]
          exact congrArg (fun table : TreeMap String SemanticFacts.FileFactShard => table[key]?) shards
        semanticReferenceIndex := references.trans sameReferences.symm
        importExport := by
          rw [sameImports]
          rwa [show batch.rebuildCaches.bumpWriteVersion.semanticImportExportIndex =
            index.semanticImportExportIndex from imports]
        packageGraph := base.packageGraph.symm
        documentStore := base.documentStore.symm }

end Agreement

/-- A batch leaves what indexing its files in turn leaves exactly when the facts of the new texts
are known, whatever the index has been through. -/
theorem batch_iff {Ast : Type} (env : Env Ast) (limits : IndexResourceLimits) (calls : List Call)
    (items : List (String × String)) (visitors : SameVisitors env)
    (fit : Fit env (run (apply env) (new limits) calls) items) :
    SameStores ((run (apply env) (new limits) calls).indexFilesBatch env items).2
        (items.foldl (indexNext env) (run (apply env) (new limits) calls)) ↔
      FactsKnown env (run (apply env) (new limits) calls) items := by
  apply batch_iff_searchable visitors items fit
  exact run_invariant (apply env) (Searchable env)
    (fun _ call searchable => searchable_call searchable call) (new limits) calls
    ⟨keyed_nothing, ∅, derived_nothing⟩

theorem sample_visitors : SameVisitors sampleEnv := fun _ _ _ => rfl

theorem sample_fit (index : WorkspaceIndex) (uri text : String) (whole : text ≠ "sub foo \x7b")
    (room : index.files[sampleEnv.uriKey uri]? = none → index.files.size < index.limits.maxFiles)
    (within : admissionLimitFor index.limits index.files (sampleEnv.uriKey uri)
      (fileOf sampleEnv index uri text text) = none) : Fit sampleEnv index [(uri, text)] where
  distinct := nodup_singleton _
  parsed _ member := by
    obtain rfl := List.mem_singleton.mp member
    exact ⟨text, sample_parse text whole⟩
  within := by
    refine ⟨fun _ ast parsed => ?_, trivial⟩
    exact ⟨room, parsed, within, fun _ _ => nofun⟩

/-- A rescan of a file that has not changed. -/
theorem batch_iff_unchanged :
    let index := run (apply sampleEnv) (new sampleLimits) [.indexInitialFile "file:///a.pl" "foo();"]
    SameStores (index.indexFilesBatch sampleEnv [("file:///a.pl", "foo();")]).2
      ([("file:///a.pl", "foo();")].foldl (indexNext sampleEnv) index) := by
  refine (batch_iff sampleEnv sampleLimits [.indexInitialFile "file:///a.pl" "foo();"]
    [("file:///a.pl", "foo();")] sample_visitors ?_).mpr ?_
  · exact sample_fit _ _ _ (by decide) (by decide) (by decide)
  · have known : lands sampleEnv (run (apply sampleEnv) (new sampleLimits)
        [.indexInitialFile "file:///a.pl" "foo();"]) ("file:///a.pl", "foo();") = false := by decide
    refine ⟨fun item member landing => ?_, ?_⟩
    · obtain rfl := List.mem_singleton.mp member
      rw [known] at landing
      cases landing
    · rw [filter_cons_of_neg (not_eq_true _ ▸ known)]
      exact ⟨fun _ => rfl, fun _ => rfl, fun _ => rfl, fun _ => rfl, fun _ => rfl, fun _ => rfl⟩

/-- A file of an initial scan has no fact shard, and keeps none when it is indexed again. -/
theorem batch_leaves_facts_out :
    let items := [("file:///a.pl", "foo();")]
    let batch := ((new sampleLimits).indexFilesBatch sampleEnv items).2
    SameVisitors sampleEnv ∧ Fit sampleEnv (new sampleLimits) items ∧
      ¬ SameStores batch (items.foldl (indexNext sampleEnv) (new sampleLimits)) ∧
      (indexNext sampleEnv batch ("file:///a.pl", "foo();")).factShards[
        sampleEnv.uriKey "file:///a.pl"]?.isNone := by
  refine ⟨sample_visitors, ?_, ?_, by decide⟩
  · exact sample_fit _ _ _ (by decide) (by decide) (by decide)
  · intro same
    have shards := congrArg Option.isSome (same.factShards (sampleEnv.uriKey "file:///a.pl"))
    exact absurd shards (by decide)

end PerlLsp.WorkspaceBatch
