import PerlLsp.ImportExport
import PerlLsp.PackageGraph
import PerlLsp.StableSort
import PerlLsp.UriKey
import Mathlib.Algebra.Ring.Int.Defs

/-! The workspace index of workspace/workspace_index.rs and the document store it publishes to
(workspace/document_store.rs). A hash map that the code walks is walked in the order of its keys.
The parser, the visitors, the fact extractors, the hashes and the normalization of URIs are
parameters. The visitor stamps what it collects with the URI of its file. Generations, counters and
sizes are counted without end; the one cast of a generation to a signed version is kept. -/
namespace PerlLsp.Workspace
open Std Tables Buckets StableSort SemanticFacts ImportExport PackageGraph

structure Position where
  byte : Nat
  line : Nat
  column : Nat
  deriving DecidableEq

structure Range where
  start : Position
  finish : Position
  deriving DecidableEq

inductive VarKind where
  | scalar | array | hash
  deriving DecidableEq

inductive SymbolKind where
  | package | class_ | role | subroutine | method
  | variable (kind : VarKind)
  | constant | import_ | export_ | label | format
  deriving DecidableEq

inductive ReferenceKind where
  | definition | usage | coderef | methodCall | import_ | read | write
  deriving DecidableEq

structure Location where
  uri : String
  range : Range
  deriving DecidableEq

/-- What the visitor reads off one declaration. -/
structure SymbolRow where
  name : String
  kind : SymbolKind
  range : Range
  qualifiedName : Option String
  deriving DecidableEq

structure WorkspaceSymbol extends SymbolRow where
  uri : String
  workspaceFolderUri : Option String
  deriving DecidableEq

structure ReferenceRow where
  range : Range
  kind : ReferenceKind
  package : Option String
  deriving DecidableEq

structure SymbolReference extends ReferenceRow where
  uri : String
  deriving DecidableEq

structure VisitRows where
  symbols : List SymbolRow
  references : TreeMap String (List ReferenceRow)
  dependencies : List String

structure LoweredFile where
  packageEdges : List PackageEdge
  exportSets : List ExportSet

/-- What the index asks of code that is not modelled. -/
structure Env (Ast : Type) where
  uriKey : String → String
  normalizeUri : String → String
  contentHash : String → Nat
  hashUriToFileId : String → Nat
  factHashes : FactHashes
  parse : String → Except String Ast
  lower : Ast → LoweredFile
  visit : Ast → (uri text : String) → VisitRows
  visitUnified : Ast → (uri text : String) → VisitRows
  canonicalFacts : Ast → (uri text : String) → (inheritedMethodAliases : TreeMap String Nat) →
    CanonicalFacts
  importSpecs : Ast → (fileId : Nat) → (text : String) → List ImportSpec
  useLibFacts : Ast → (fileId : Nat) → List UseLibFact

structure FileIndex where
  sourceUri : String
  symbols : List WorkspaceSymbol
  references : TreeMap String (List SymbolReference)
  dependencies : List String
  contentHash : Nat
  generation : Nat
  pendingGeneration : Nat
  folderUri : Option String
  ownSymbols : ∀ symbol ∈ symbols, symbol.uri = sourceUri
  ownReferences : ∀ name, ∀ reference ∈ bucket references name, reference.uri = sourceUri

def stampReferences (uri : String) (references : TreeMap String (List ReferenceRow)) :
    TreeMap String (List SymbolReference) :=
  references.map fun _ rows => rows.map fun row => ⟨row, uri⟩

theorem stamped_references (uri : String) (references : TreeMap String (List ReferenceRow))
    (name : String) : bucket (stampReferences uri references) name =
      (bucket references name).map fun row => ⟨row, uri⟩ := by
  rw [bucket, stampReferences, TreeMap.getElem?_map, bucket]
  cases references[name]? with
  | none => rfl
  | some rows => rfl

def FileIndex.ofRows (sourceUri : String) (contentHash : Nat) (folderUri : Option String)
    (rows : VisitRows) : FileIndex where
  sourceUri := sourceUri
  symbols := rows.symbols.map fun row => ⟨row, sourceUri, folderUri⟩
  references := stampReferences sourceUri rows.references
  dependencies := rows.dependencies
  contentHash := contentHash
  generation := 0
  pendingGeneration := 0
  folderUri := folderUri
  ownSymbols := by
    intro symbol member
    obtain ⟨row, _, rfl⟩ := List.mem_map.mp member
    rfl
  ownReferences := by
    intro name reference member
    rw [stamped_references] at member
    obtain ⟨row, _, rfl⟩ := List.mem_map.mp member
    rfl

structure DefinitionCandidate where
  location : Location
  kind : SymbolKind
  deriving DecidableEq

structure Document where
  uri : String
  version : Int
  text : String
  deriving DecidableEq

inductive ResourceKind where
  | maxFiles | maxSymbols | maxCacheBytes
  deriving DecidableEq

structure IndexResourceLimits where
  maxFiles : Nat
  maxTotalSymbols : Nat
  maxAstCacheBytes : Nat

structure WorkspaceIndex where
  files : TreeMap String FileIndex
  symbols : TreeMap String (List DefinitionCandidate)
  searchIndex : TreeMap String (List WorkspaceSymbol)
  globalReferences : TreeMap String (List SymbolReference)
  factShards : TreeMap String FileFactShard
  semanticReferenceIndex : ReferenceIndex
  semanticImportExportIndex : ImportExportIndex
  semanticPackageGraphIndex : PackageGraphIndex
  documentStore : TreeMap String Document
  workspaceFolders : List String
  limits : IndexResourceLimits
  resourceLimitRejection : Option ResourceKind
  writeVersion : Nat

def DefinitionCandidate.rank (candidate : DefinitionCandidate) : Nat :=
  match candidate.kind with
  | .subroutine => 0
  | .method => 0
  | .constant => 1
  | _ => 2

/-- The comparison of `definition_candidate_sort_key`. -/
def compareCandidates : DefinitionCandidate → DefinitionCandidate → Ordering :=
  compareLex (compareOn DefinitionCandidate.rank)
    (compareLex (compareOn (·.location.uri))
      (compareOn fun candidate =>
        [candidate.location.range.start.line, candidate.location.range.start.column,
          candidate.location.range.finish.line, candidate.location.range.finish.column]))

def sortAndDedupDefinitionCandidates (entries : List DefinitionCandidate) :
    List DefinitionCandidate := canonical compareCandidates entries

def WorkspaceSymbol.candidate (symbol : WorkspaceSymbol) : DefinitionCandidate :=
  ⟨⟨symbol.uri, symbol.range⟩, symbol.kind⟩

def WorkspaceSymbol.names (symbol : WorkspaceSymbol) : List String :=
  symbol.qualifiedName.toList ++ [symbol.name]

def symbolEntries (file : FileIndex) : List (String × DefinitionCandidate) :=
  file.symbols.flatMap fun symbol => symbol.names.map fun name => (name, symbol.candidate)

def rebuildSymbolCache (files : List FileIndex) : TreeMap String (List DefinitionCandidate) :=
  (pushAll ∅ (files.flatMap symbolEntries)).map fun _ entries =>
    sortAndDedupDefinitionCandidates entries

def incrementalRemoveSymbols (symbols : TreeMap String (List DefinitionCandidate))
    (oldFileIndex : FileIndex) : TreeMap String (List DefinitionCandidate) :=
  oldFileIndex.symbols.foldl (fun symbols symbol =>
    retainEach symbols symbol.names fun candidate => candidate.location.uri != symbol.uri) symbols

def incrementalAddSymbols (symbols : TreeMap String (List DefinitionCandidate))
    (fileIndex : FileIndex) : TreeMap String (List DefinitionCandidate) :=
  let touched := ((symbolEntries fileIndex).map Prod.fst).eraseDups
  touched.foldl (fun symbols key => symbols.modify key sortAndDedupDefinitionCandidates)
    (pushAll symbols (symbolEntries fileIndex))

def searchEntries (file : FileIndex) : List (String × WorkspaceSymbol) :=
  file.symbols.flatMap fun symbol =>
    (symbol.name, symbol) :: symbol.qualifiedName.toList.map fun name => (name, symbol)

def rebuildSearchIndex (files : List FileIndex) : TreeMap String (List WorkspaceSymbol) :=
  pushAll ∅ (files.flatMap searchEntries)

def incrementalAddSearch (searchIndex : TreeMap String (List WorkspaceSymbol))
    (fileIndex : FileIndex) : TreeMap String (List WorkspaceSymbol) :=
  pushAll searchIndex (searchEntries fileIndex)

def incrementalRemoveSearch (searchIndex : TreeMap String (List WorkspaceSymbol))
    (oldFileIndex : FileIndex) : TreeMap String (List WorkspaceSymbol) :=
  oldFileIndex.symbols.foldl (fun searchIndex symbol =>
    retainEach searchIndex symbol.names fun other => other.uri != symbol.uri) searchIndex

def removeFileGlobalRefs (globalRefs : TreeMap String (List SymbolReference))
    (fileIndex : FileIndex) (fileUri : String) : TreeMap String (List SymbolReference) :=
  retainEach globalRefs fileIndex.references.keys fun reference => reference.uri != fileUri

def addFileGlobalRefs (globalRefs : TreeMap String (List SymbolReference))
    (fileIndex : FileIndex) : TreeMap String (List SymbolReference) :=
  fileIndex.references.toList.foldl (fun globalRefs entry => extend globalRefs entry.1 entry.2)
    globalRefs

section Store
variable {Ast : Type} (env : Env Ast)

def acceptCandidate (documents : TreeMap String Document) (uri : String) (version : Int)
    (text : String) (enforceVersion : Bool) : Bool × TreeMap String Document :=
  let key := env.uriKey uri
  match documents[key]? with
  | some document =>
    if enforceVersion && decide (version < document.version) then (false, documents)
    else (true, documents.insert key { document with version := version, text := text })
  | none => (true, documents.insert key ⟨uri, version, text⟩)

def closeDocument (documents : TreeMap String Document) (uri : String) : TreeMap String Document :=
  documents.erase (env.uriKey uri)

end Store

def determineFolderUri (folders : List String) (fileUri : String) : Option String :=
  folders.foldl (fun best folder =>
    let withSlash := if folder.toList.getLast? = some '/' then folder else folder ++ "/"
    if withSlash.toList.isPrefixOf fileUri.toList || fileUri == folder then
      match best with
      | some existing =>
        if folder.utf8ByteSize ≤ existing.utf8ByteSize then best else some folder
      | none => some folder
    else best) none

def resourceLimitError (kind : ResourceKind) (limits : IndexResourceLimits) : String :=
  "workspace index resource limit exceeded: " ++
    match kind with
    | .maxFiles => "max_files=" ++ toString limits.maxFiles
    | .maxSymbols => "max_total_symbols=" ++ toString limits.maxTotalSymbols
    | .maxCacheBytes => "max_ast_cache_bytes=" ++ toString limits.maxAstCacheBytes

def symbolCount (files : TreeMap String FileIndex) : Nat :=
  ((rows files).map fun file => file.symbols.length).sum

def admissionLimitFor (limits : IndexResourceLimits) (files : TreeMap String FileIndex)
    (key : String) (candidate : FileIndex) : Option ResourceKind :=
  if key ∉ files ∧ limits.maxFiles ≤ files.size then some .maxFiles
  else
    let replaced := files[key]?.elim 0 fun file => file.symbols.length
    if limits.maxTotalSymbols < symbolCount files - replaced + candidate.symbols.length then
      some .maxSymbols
    else none

def staleFileCount (files : TreeMap String FileIndex) : Nat :=
  (rows files).countP fun file => file.generation < file.pendingGeneration

/-- `build_fact_shard`: one anchor and one entity for each symbol, numbered from one. -/
def buildFactShard (hashes : FactHashes) (hashUriToFileId : String → Nat) (uri : String)
    (contentHash : Nat) (fileIndex : FileIndex) : FileFactShard :=
  let fileId := hashUriToFileId uri
  let anchors := fileIndex.symbols.zipIdx.map fun numbered =>
    (⟨numbered.2 + 1, fileId, 0, 0, none, .searchFallback, .low⟩ : AnchorFact)
  let entities := fileIndex.symbols.zipIdx.map fun numbered =>
    (⟨numbered.2 + 1, .unknown, numbered.1.qualifiedName.getD numbered.1.name,
      some (numbered.2 + 1), none, .searchFallback, .low⟩ : EntityFact)
  { sourceUri := uri
    fileId := fileId
    contentHash := contentHash
    producerSchemaVersion := producerSchemaVersion
    anchorsHash := some (hashes.computeAnchorsHash anchors)
    entitiesHash := some (hashes.computeEntitiesHash entities)
    occurrencesHash := some 0
    edgesHash := some 0
    anchors := anchors
    entities := entities
    occurrences := []
    edges := [] }

def hasDoubleColon : List Char → Bool
  | ':' :: ':' :: _ => true
  | _ :: rest => hasDoubleColon rest
  | [] => false

def methodOfPackage (package : String) (entity : EntityFact) : Option String :=
  let marker := (package ++ "::").toList
  let name := entity.canonicalName.toList
  let method := name.drop marker.length
  let callable := entity.kind ∈ [.method, .subroutine, .generatedMember]
  if marker.isPrefixOf name && !hasDoubleColon method && callable then some (String.ofList method)
  else none

/-- The method names inherited along the edges, each with every entity that declares it. -/
def aliasCandidates (shards : TreeMap String FileFactShard) (graph : PackageGraphIndex)
    (packageEdges : List PackageEdge) : List (String × Nat) :=
  (packageEdges.filter fun edge => edge.kind = .inherits).flatMap fun edge =>
    let ancestors := edge.toPackage :: (graph.ancestors edge.toPackage).ancestors
    (canonical compare ancestors).flatMap fun ancestor =>
      (rows shards).flatMap fun shard =>
        shard.entities.filterMap fun entity =>
          (methodOfPackage ancestor entity).map fun method =>
            (edge.fromPackage ++ "::" ++ method, entity.id)

/-- Only a name with one declaring entity is admitted. -/
def inheritedMethodAliases (shards : TreeMap String FileFactShard) (graph : PackageGraphIndex)
    (packageEdges : List PackageEdge) : TreeMap String Nat :=
  (pushAll ∅ (aliasCandidates shards graph packageEdges)).filterMap fun _ ids =>
    match ids.eraseDups with
    | [id] => some id
    | _ => none

namespace WorkspaceIndex

/-- `replace_fact_shard_incremental`. -/
def replaceFactShardIncremental (index : WorkspaceIndex) (key : String)
    (newShard : FileFactShard) : ShardReplaceResult × WorkspaceIndex :=
  let oldShard := index.factShards[key]?
  let replacement :=
    planShardReplacement (oldShard.map (·.categoryHashes)) newShard.categoryHashes
  if replacement.contentUnchanged then (replacement, index)
  else
    let referenceIndex :=
      if replacement.occurrencesUpdated || replacement.edgesUpdated ||
          replacement.entitiesUpdated then
        let cleared :=
          if oldShard.isSome then index.semanticReferenceIndex.removeFile newShard.sourceUri
          else index.semanticReferenceIndex
        cleared.addFile newShard
      else index.semanticReferenceIndex
    let importExport :=
      if replacement.entitiesUpdated then
        (index.semanticImportExportIndex.removeFileImports newShard.sourceUri).removeModuleExports
          newShard.sourceUri
      else index.semanticImportExportIndex
    (replacement,
      { index with
        semanticReferenceIndex := referenceIndex
        semanticImportExportIndex := importExport
        factShards := index.factShards.insert key newShard })

def new (limits : IndexResourceLimits) : WorkspaceIndex :=
  ⟨∅, ∅, ∅, ∅, ∅, .new, .new, .new, ∅, [], limits, none, 0⟩

def bumpWriteVersion (index : WorkspaceIndex) : WorkspaceIndex :=
  { index with writeVersion := index.writeVersion + 1 }

def recordResourceLimitRejection (index : WorkspaceIndex) (kind : ResourceKind) : WorkspaceIndex :=
  { index with resourceLimitRejection := some kind }

def setFile (index : WorkspaceIndex) (key : String) (file : FileIndex) : WorkspaceIndex :=
  { index with files := index.files.insert key file }

end WorkspaceIndex

def FileIndex.highWater (file : FileIndex) : Nat := max file.generation file.pendingGeneration

/-- How the first critical section on `files` ends; going on, it may have reserved the
generation. -/
inductive EarlyGuard where
  | limited (kind : ResourceKind)
  | noOp (index : WorkspaceIndex)
  | rejectedStale
  | proceed (index : WorkspaceIndex) (reserved : Option Nat)

inductive IndexFileWithGenerationOutcome where
  | accepted | noOp | rejectedStale
  deriving DecidableEq

/-- What parsing and extraction made of a text. -/
structure Candidate where
  fileIndex : FileIndex
  factShard : FileFactShard
  importSpecs : List ImportSpec
  useLibFacts : List UseLibFact
  moduleExportSets : List ExportSet
  packageEdges : List PackageEdge

/-- `(generation as i32).max(1)`. -/
def docVersion (generation : Nat) : Int :=
  let wrapped : Nat := generation % 2 ^ 32
  max 1 (if wrapped < 2 ^ 31 then (wrapped : Int) else (wrapped : Int) - 2 ^ 32)

namespace WorkspaceIndex

def earlyGuard (index : WorkspaceIndex) (key : String) (contentHash generation : Nat) : EarlyGuard :=
  match index.files[key]? with
  | none =>
    if index.limits.maxFiles ≤ index.files.size then .limited .maxFiles else .proceed index none
  | some existing =>
    if existing.contentHash = contentHash then
      .noOp (index.setFile key
        { existing with
          generation := max existing.generation generation
          pendingGeneration := max existing.pendingGeneration generation })
    else if 0 < generation ∧ 0 < existing.highWater ∧ generation < existing.highWater then
      .rejectedStale
    else if 0 < generation ∧ existing.highWater < generation then
      .proceed (index.setFile key { existing with pendingGeneration := generation })
        (some generation)
    else .proceed index none

/-- `ReservationGuard::drop`; a commit disarms the guard before. -/
def releaseReservation (index : WorkspaceIndex) (key : String) (reserved : Option Nat) :
    WorkspaceIndex :=
  match reserved, index.files[key]? with
  | some generation, some existing =>
    if existing.pendingGeneration = generation then
      index.setFile key { existing with pendingGeneration := existing.generation }
    else index
  | _, _ => index

section Extraction
variable {Ast : Type} (env : Env Ast)

def extract (index : WorkspaceIndex) (uri text : String) (contentHash generation : Nat)
    (ast : Ast) : Candidate :=
  let folderUri := determineFolderUri index.workspaceFolders uri
  let lowered := env.lower ast
  let aliases :=
    inheritedMethodAliases index.factShards index.semanticPackageGraphIndex lowered.packageEdges
  let fileIndex :=
    { FileIndex.ofRows uri contentHash folderUri (env.visitUnified ast uri text) with
      generation := generation }
  let shard := buildCanonicalFactShard env.factHashes env.hashUriToFileId uri contentHash
    (env.canonicalFacts ast uri text aliases)
  let factShard :=
    if shard.anchors.isEmpty && shard.entities.isEmpty && shard.occurrences.isEmpty &&
        shard.edges.isEmpty then
      buildFactShard env.factHashes env.hashUriToFileId uri contentHash fileIndex
    else shard
  let fileId := env.hashUriToFileId uri
  { fileIndex := fileIndex
    factShard := factShard
    importSpecs := env.importSpecs ast fileId text
    useLibFacts := env.useLibFacts ast fileId
    moduleExportSets := lowered.exportSets
    packageEdges := lowered.packageEdges }

end Extraction

def dropOldReferences (index : WorkspaceIndex) (key uri : String) : WorkspaceIndex :=
  match index.files[key]? with
  | none => index
  | some old =>
    { index with globalReferences := removeFileGlobalRefs index.globalReferences old uri }

def dropOldSymbols (index : WorkspaceIndex) (key : String) : WorkspaceIndex :=
  match index.files[key]? with
  | none => index
  | some old =>
    { index with
      symbols := incrementalRemoveSymbols index.symbols old
      searchIndex := incrementalRemoveSearch index.searchIndex old }

def addNewSymbols (index : WorkspaceIndex) (file : FileIndex) : WorkspaceIndex :=
  { index with
    symbols := incrementalAddSymbols index.symbols file
    searchIndex := incrementalAddSearch index.searchIndex file }

def addNewReferences (index : WorkspaceIndex) (file : FileIndex) : WorkspaceIndex :=
  { index with globalReferences := addFileGlobalRefs index.globalReferences file }

def addExportSets (importExport : ImportExportIndex) (uri : String) (exportSets : List ExportSet) :
    ImportExportIndex :=
  exportSets.foldl (fun importExport exports =>
    match exports.moduleName with
    | some moduleName => importExport.addModuleExports uri moduleName exports
    | none => importExport) importExport

def publishImports (index : WorkspaceIndex) (uri : String) (fileId : Nat) (candidate : Candidate) :
    WorkspaceIndex :=
  let imports :=
    (index.semanticImportExportIndex.removeFileImports uri).addFileImports uri fileId
      candidate.importSpecs
  let useLib := (imports.removeFileUseLib uri).addFileUseLib uri fileId candidate.useLibFacts
  { index with
    semanticImportExportIndex :=
      addExportSets (useLib.removeModuleExports uri) uri candidate.moduleExportSets }

def publishPackageEdges (index : WorkspaceIndex) (uri : String) (fileId : Nat)
    (packageEdges : List PackageEdge) : WorkspaceIndex :=
  { index with
    semanticPackageGraphIndex :=
      (index.semanticPackageGraphIndex.removeEdgesForFile uri).addEdges uri fileId packageEdges }

/-- What the second critical section on `files` does once the document was accepted. -/
def publish (index : WorkspaceIndex) (key uri : String) (fileId : Nat) (candidate : Candidate) :
    WorkspaceIndex :=
  let index := (index.dropOldReferences key uri).dropOldSymbols key
  let index := index.setFile key candidate.fileIndex
  let index := (index.addNewSymbols candidate.fileIndex).addNewReferences candidate.fileIndex
  let index := (index.replaceFactShardIncremental key candidate.factShard).2
  (index.publishImports uri fileId candidate).publishPackageEdges uri fileId candidate.packageEdges

def staleAgainst (index : WorkspaceIndex) (key : String) (generation : Nat) : Bool :=
  decide (0 < generation) &&
    index.files[key]?.any fun existing =>
      decide (0 < existing.highWater) && decide (generation < existing.highWater)

section Indexing
variable {Ast : Type} (env : Env Ast)

/-- The second critical section on `files`. -/
def commitCandidate (index : WorkspaceIndex) (key uri text : String) (generation : Nat)
    (candidate : Candidate) : Except String IndexFileWithGenerationOutcome × WorkspaceIndex :=
  if index.staleAgainst key generation then (.ok .rejectedStale, index)
  else
    match admissionLimitFor index.limits index.files key candidate.fileIndex with
    | some kind =>
      (.error (resourceLimitError kind index.limits), index.recordResourceLimitRejection kind)
    | none =>
      match acceptCandidate env index.documentStore uri (docVersion generation) text
          (decide (0 < generation)) with
      | (false, _) => (.error "Document store rejected candidate version", index)
      | (true, documents) =>
        (.ok .accepted,
          { index with documentStore := documents }.publish key uri (env.hashUriToFileId uri)
            candidate)

/-- What follows the first critical section: parsing, extraction and the second one. Every way out
but the commit releases the reservation. -/
def parseAndCommit (index : WorkspaceIndex) (key uri text : String) (contentHash generation : Nat)
    (reserved : Option Nat) : Except String IndexFileWithGenerationOutcome × WorkspaceIndex :=
  match env.parse text with
  | .error message => (.error ("Parse error: " ++ message), index.releaseReservation key reserved)
  | .ok ast =>
    let candidate := index.extract env uri text contentHash generation ast
    match index.commitCandidate env key uri text generation candidate with
    | (.ok .accepted, index) => (.ok .accepted, index)
    | (result, index) => (result, index.releaseReservation key reserved)

def indexFileWithGenerationOutcome (index : WorkspaceIndex) (uri text : String)
    (generation : Nat) : Except String IndexFileWithGenerationOutcome × WorkspaceIndex :=
  let index := index.bumpWriteVersion
  let contentHash := env.contentHash text
  let key := env.uriKey uri
  match index.earlyGuard key contentHash generation with
  | .limited kind =>
    (.error (resourceLimitError kind index.limits),
      (index.recordResourceLimitRejection kind).bumpWriteVersion)
  | .noOp index => (.ok .noOp, index.bumpWriteVersion)
  | .rejectedStale => (.ok .rejectedStale, index.bumpWriteVersion)
  | .proceed index reserved =>
    let (result, index) :=
      index.parseAndCommit env key uri text contentHash generation reserved
    (result, index.bumpWriteVersion)

def indexFileWithGeneration (index : WorkspaceIndex) (uri text : String) (generation : Nat) :
    Except String Unit × WorkspaceIndex :=
  let (result, index) := index.indexFileWithGenerationOutcome env uri text generation
  (result.map fun _ => (), index)

def indexInitialFile (index : WorkspaceIndex) (uri text : String) :
    Except String Unit × WorkspaceIndex :=
  index.indexFileWithGeneration env uri text 0

end Indexing

end WorkspaceIndex

structure SourceCommit where
  generation : Nat
  nonZero : 0 < generation

inductive SourceCommitOutcome where
  | accepted | noOp | rejectedStale
  | failed (message : String)
  deriving DecidableEq

namespace WorkspaceIndex

section Live
variable {Ast : Type} (env : Env Ast)

/-- The first critical section of `index_live_file`: its outcome, or nothing when it goes on. -/
def checkLive (index : WorkspaceIndex) (uri text : String) (commit : SourceCommit) :
    Option SourceCommitOutcome × WorkspaceIndex :=
  let key := env.uriKey uri
  match index.files[key]? with
  | none => (none, index)
  | some file =>
    if commit.generation < file.highWater then (some .rejectedStale, index)
    else if file.contentHash = env.contentHash text then
      (some .noOp, index.setFile key
        { file with
          generation := commit.generation
          pendingGeneration := max file.pendingGeneration commit.generation })
    else (none, index)

/-- The second one. -/
def commitLive (index : WorkspaceIndex) (uri text : String) (commit : SourceCommit) :
    SourceCommitOutcome × WorkspaceIndex :=
  match index.indexFileWithGenerationOutcome env uri text commit.generation with
  | (.ok .accepted, index) => (.accepted, index)
  | (.ok .noOp, index) => (.noOp, index)
  | (.ok .rejectedStale, index) => (.rejectedStale, index)
  | (.error message, index) => (.failed message, index)

def indexLiveFile (index : WorkspaceIndex) (uri text : String) (commit : SourceCommit) :
    SourceCommitOutcome × WorkspaceIndex :=
  match index.checkLive env uri text commit with
  | (some outcome, index) => (outcome, index)
  | (none, index) => index.commitLive env uri text commit

def resetGenerationForClose (index : WorkspaceIndex) (uri : String) : WorkspaceIndex :=
  let key := env.uriKey (env.normalizeUri uri)
  match index.files[key]? with
  | none => index
  | some file =>
    (index.setFile key { file with generation := 0, pendingGeneration := 0 }).bumpWriteVersion

def removedUris (uri : String) (file : FileIndex) : List String :=
  uri :: (file.symbols.map (·.uri) ++ (rows file.references).flatten.map (·.uri))

/-- The critical section of `remove_file` on `files`. -/
def removeIndexed (index : WorkspaceIndex) (key uri : String) : WorkspaceIndex :=
  match index.files[key]? with
  | none => index
  | some file =>
    let gone := removedUris uri file
    { index with
      files := index.files.erase key
      factShards := index.factShards.erase key
      semanticReferenceIndex := index.semanticReferenceIndex.removeFile uri
      semanticImportExportIndex :=
        ((index.semanticImportExportIndex.removeFileImports uri).removeModuleExports uri
          ).removeFileUseLib uri
      semanticPackageGraphIndex := index.semanticPackageGraphIndex.removeEdgesForFile uri
      symbols := retainAll (incrementalRemoveSymbols index.symbols file)
        fun candidate => candidate.location.uri ∉ gone
      searchIndex := retainAll (incrementalRemoveSearch index.searchIndex file)
        fun symbol => symbol.uri ∉ gone
      globalReferences := retainAll (removeFileGlobalRefs index.globalReferences file uri)
        fun reference => reference.uri ∉ gone }

def removeFile (index : WorkspaceIndex) (uri : String) : WorkspaceIndex :=
  let uri := env.normalizeUri uri
  let index := index.bumpWriteVersion.removeIndexed (env.uriKey uri) uri
  { index with documentStore := closeDocument env index.documentStore uri }.bumpWriteVersion

def removeFolder (index : WorkspaceIndex) (folderUri : String) : WorkspaceIndex :=
  let uris := (rows index.files).filterMap fun file =>
    if file.folderUri = some folderUri then some file.sourceUri else none
  uris.foldl (removeFile env) index

/-- The document store is left as it is. -/
def clear (index : WorkspaceIndex) : WorkspaceIndex :=
  { index.bumpWriteVersion with
    files := ∅
    symbols := ∅
    searchIndex := ∅
    globalReferences := ∅
    factShards := ∅
    semanticReferenceIndex := .new
    semanticImportExportIndex := .new
    semanticPackageGraphIndex := .new }.bumpWriteVersion

def deduplicate (items : List (String × String)) : List (String × String) :=
  items.foldl (fun kept item =>
    let key := env.uriKey item.1
    if kept.any fun other => env.uriKey other.1 == key then
      kept.map fun other => if env.uriKey other.1 = key then item else other
    else kept ++ [item]) []

structure ParsedItem where
  key : String
  uri : String
  text : String
  fileIndex : FileIndex
  packageEdges : List PackageEdge

def parseItem (index : WorkspaceIndex) (item : String × String) : Option (Except String ParsedItem) :=
  let (uri, text) := item
  let contentHash := env.contentHash text
  let key := env.uriKey uri
  if index.files[key]?.any fun existing => existing.contentHash == contentHash then none
  else
    match env.parse text with
    | .error message => some (.error ("Parse error in " ++ uri ++ ": " ++ message))
    | .ok ast =>
      let folderUri := determineFolderUri index.workspaceFolders uri
      let fileIndex := FileIndex.ofRows uri contentHash folderUri (env.visit ast uri text)
      some (.ok ⟨key, uri, text, fileIndex, (env.lower ast).packageEdges⟩)

def commitItem (index : WorkspaceIndex) (item : ParsedItem) : Option String × WorkspaceIndex :=
  match admissionLimitFor index.limits index.files item.key item.fileIndex with
  | some kind =>
    (some (resourceLimitError kind index.limits), index.recordResourceLimitRejection kind)
  | none =>
    match acceptCandidate env index.documentStore item.uri 1 item.text false with
    | (false, _) => (some ("Document store rejected candidate version for " ++ item.uri), index)
    | (true, documents) =>
      let index := { index with documentStore := documents }.dropOldReferences item.key item.uri
      let index := (index.setFile item.key item.fileIndex).addNewReferences item.fileIndex
      (none, index.publishPackageEdges item.uri (env.hashUriToFileId item.uri)
        item.packageEdges)

def commitItems : List ParsedItem → WorkspaceIndex → List String × WorkspaceIndex
  | [], index => ([], index)
  | item :: rest, index =>
    let (error, index) := commitItem env index item
    let (errors, index) := commitItems rest index
    (error.toList ++ errors, index)

def rebuildCaches (index : WorkspaceIndex) : WorkspaceIndex :=
  { index with
    symbols := rebuildSymbolCache (rows index.files)
    searchIndex := rebuildSearchIndex (rows index.files) }

def parseErrors (results : List (Except String ParsedItem)) : List String :=
  results.filterMap fun
    | .error message => some message
    | .ok _ => none

def parsedItems (results : List (Except String ParsedItem)) : List ParsedItem :=
  results.filterMap fun
    | .error _ => none
    | .ok item => some item

def indexFilesBatch (index : WorkspaceIndex) (filesToIndex : List (String × String)) :
    List String × WorkspaceIndex :=
  let index := index.bumpWriteVersion
  let results := (deduplicate env filesToIndex).filterMap (parseItem env index)
  let (errors, index) := commitItems env (parsedItems results) index
  (parseErrors results ++ errors, index.rebuildCaches.bumpWriteVersion)

def setWorkspaceFolders (index : WorkspaceIndex) (folders : List String) : WorkspaceIndex :=
  { index with workspaceFolders := folders }

end Live

end WorkspaceIndex

inductive Call where
  | indexInitialFile (uri text : String)
  | indexLiveFile (uri text : String) (commit : SourceCommit)
  | indexFileWithGeneration (uri text : String) (generation : Nat)
  | indexFilesBatch (filesToIndex : List (String × String))
  | removeFile (uri : String)
  | removeFolder (folderUri : String)
  | resetGenerationForClose (uri : String)
  | clear
  | setWorkspaceFolders (folders : List String)

/-- One operation that nothing else overlaps. -/
def apply {Ast : Type} (env : Env Ast) (index : WorkspaceIndex) : Call → WorkspaceIndex
  | .indexInitialFile uri text => (index.indexInitialFile env uri text).2
  | .indexLiveFile uri text commit => (index.indexLiveFile env uri text commit).2
  | .indexFileWithGeneration uri text generation =>
    (index.indexFileWithGeneration env uri text generation).2
  | .indexFilesBatch filesToIndex => (index.indexFilesBatch env filesToIndex).2
  | .removeFile uri => index.removeFile env uri
  | .removeFolder folderUri => index.removeFolder env folderUri
  | .resetGenerationForClose uri => index.resetGenerationForClose env uri
  | .clear => index.clear
  | .setWorkspaceFolders folders => index.setWorkspaceFolders folders

def fileUrl (uri : List Char) : Option UriKey.Url :=
  if "file:///".toList.isPrefixOf uri then
    some ⟨uri, "file".toList, none, uri.drop 7, none, none⟩
  else none

def sampleHash (text : String) : Nat :=
  text.toList.foldl (fun hash scalar => (hash * 31 + scalar.toNat) % 2 ^ 64) 7

/-- A call of `foo` is one usage, an unclosed block does not parse. -/
def sampleEnv : Env String where
  uriKey uri := String.ofList (UriKey.uriKey fileUrl uri.toList)
  normalizeUri uri := String.ofList
    (UriKey.normalizeUri fileUrl ⟨fun _ => false, fun _ => none, fun _ => none⟩ uri.toList)
  contentHash := sampleHash
  hashUriToFileId := sampleHash
  factHashes := ⟨fun _ => 0, fun _ => 0, fun _ => 0, fun _ => 0⟩
  parse text := if text = "sub foo \x7b" then .error "unexpected end of input" else .ok text
  lower _ := ⟨[], []⟩
  visit ast _ _ := ⟨[], if ast = "foo();" then
    (∅ : TreeMap String (List ReferenceRow)).insert "foo" [⟨⟨⟨0, 0, 0⟩, ⟨3, 0, 3⟩⟩, .usage, none⟩]
    else ∅, []⟩
  visitUnified ast _ _ := ⟨[], if ast = "foo();" then
    (∅ : TreeMap String (List ReferenceRow)).insert "foo" [⟨⟨⟨0, 0, 0⟩, ⟨3, 0, 3⟩⟩, .usage, none⟩]
    else ∅, []⟩
  canonicalFacts _ _ _ _ := ⟨[], [], [], [], [], [], [], [], []⟩
  importSpecs _ _ _ := []
  useLibFacts _ _ := []

theorem sample_parse (text : String) (whole : text ≠ "sub foo \x7b") :
    sampleEnv.parse text = .ok text := if_neg whole

def sampleLimits : IndexResourceLimits := ⟨10000, 500000, 268435456⟩

end PerlLsp.Workspace
