import PerlLsp.Buckets

/-! The semantic facts of one file and the index of references across files:
semantic/facts.rs, semantic/invalidation.rs and semantic/references.rs with the fact
types of perl-semantic-facts. Identifiers are numbers; what the hasher makes of a
sequence of facts is a parameter. -/
namespace PerlLsp.SemanticFacts
open Std Buckets

inductive EntityKind where
  | package | class_ | role | subroutine | method | variable | constant | field | label
  | format | module_ | generatedMember | externalSymbol | unknown
  deriving DecidableEq

inductive OccurrenceKind where
  | definition | reference | read | write | call | methodCall | staticMethodCall
  | coderefReference | typeglobReference | import_ | export_ | inheritance | roleComposition
  | generatedUse | dynamicBoundary
  deriving DecidableEq

inductive EdgeKind where
  | defines | references | reads | writes | calls | importsModule | importsSymbol
  | exportsSymbol | exportsGroup | inherits | composesRole | memberOf | generatedFrom
  | aliasOf | dependsOn | dynamicBoundary
  deriving DecidableEq

inductive Provenance where
  | exactAst | desugaredAst | semanticAnalyzer | frameworkSynthesis | importExportInference
  | pragmaInference | nameHeuristic | searchFallback | dynamicBoundary | literalRequireImport
  deriving DecidableEq

inductive Confidence where
  | high | medium | low
  deriving DecidableEq

structure AnchorFact where
  id : Nat
  fileId : Nat
  spanStartByte : Nat
  spanEndByte : Nat
  scopeId : Option Nat
  provenance : Provenance
  confidence : Confidence
  deriving DecidableEq

structure EntityFact where
  id : Nat
  kind : EntityKind
  canonicalName : String
  anchorId : Option Nat
  scopeId : Option Nat
  provenance : Provenance
  confidence : Confidence
  deriving DecidableEq

structure OccurrenceFact where
  id : Nat
  kind : OccurrenceKind
  entityId : Option Nat
  anchorId : Nat
  scopeId : Option Nat
  provenance : Provenance
  confidence : Confidence
  deriving DecidableEq

structure EdgeFact where
  id : Nat
  kind : EdgeKind
  fromEntityId : Nat
  toEntityId : Nat
  viaOccurrenceId : Option Nat
  provenance : Provenance
  confidence : Confidence
  deriving DecidableEq

/-- What the hasher makes of the fields fed to it, one sequence for each category. -/
structure FactHashes where
  anchors : List (Nat × Nat × Nat) → Nat
  entities : List (Nat × String) → Nat
  occurrences : List (Nat × OccurrenceKind) → Nat
  edges : List (Nat × EdgeKind) → Nat

structure FileFactShard where
  sourceUri : String
  fileId : Nat
  contentHash : Nat
  producerSchemaVersion : Nat
  anchorsHash : Option Nat
  entitiesHash : Option Nat
  occurrencesHash : Option Nat
  edgesHash : Option Nat
  anchors : List AnchorFact
  entities : List EntityFact
  occurrences : List OccurrenceFact
  edges : List EdgeFact
  deriving DecidableEq

def producerSchemaVersion : Nat := 1

namespace FactHashes
variable (hashes : FactHashes)

def computeAnchorsHash (anchors : List AnchorFact) : Nat :=
  hashes.anchors (anchors.map fun anchor => (anchor.id, anchor.spanStartByte, anchor.spanEndByte))

def computeEntitiesHash (entities : List EntityFact) : Nat :=
  hashes.entities (entities.map fun entity => (entity.id, entity.canonicalName))

def computeOccurrencesHash (occurrences : List OccurrenceFact) : Nat :=
  hashes.occurrences (occurrences.map fun occurrence => (occurrence.id, occurrence.kind))

def computeEdgesHash (edges : List EdgeFact) : Nat :=
  hashes.edges (edges.map fun edge => (edge.id, edge.kind))

end FactHashes

structure CanonicalFacts where
  declarationAnchors : List AnchorFact
  referenceAnchors : List AnchorFact
  syntheticAnchors : List AnchorFact
  declarationEntities : List EntityFact
  syntheticEntities : List EntityFact
  referenceOccurrences : List OccurrenceFact
  dynamicBoundaries : List OccurrenceFact
  definesEdges : List EdgeFact
  referenceEdges : List EdgeFact

def buildCanonicalFactShard (hashes : FactHashes) (fileId : String → Nat) (uri : String)
    (contentHash : Nat) (facts : CanonicalFacts) : FileFactShard :=
  let anchors := facts.declarationAnchors ++ facts.referenceAnchors ++ facts.syntheticAnchors
  let entities := facts.declarationEntities ++ facts.syntheticEntities
  let occurrences := facts.referenceOccurrences ++ facts.dynamicBoundaries
  let edges := facts.definesEdges ++ facts.referenceEdges
  { sourceUri := uri
    fileId := fileId uri
    contentHash := contentHash
    producerSchemaVersion := producerSchemaVersion
    anchorsHash := some (hashes.computeAnchorsHash anchors)
    entitiesHash := some (hashes.computeEntitiesHash entities)
    occurrencesHash := some (hashes.computeOccurrencesHash occurrences)
    edgesHash := some (hashes.computeEdgesHash edges)
    anchors := anchors
    entities := entities
    occurrences := occurrences
    edges := edges }

structure ShardCategoryHashes where
  contentHash : Nat
  anchorsHash : Option Nat
  entitiesHash : Option Nat
  occurrencesHash : Option Nat
  edgesHash : Option Nat

structure ShardReplaceResult where
  contentUnchanged : Bool
  anchorsUpdated : Bool
  entitiesUpdated : Bool
  occurrencesUpdated : Bool
  edgesUpdated : Bool
  deriving DecidableEq

def categoryHashChanged (old new : Option Nat) : Bool :=
  match old, new with
  | some old, some new => old != new
  | _, _ => true

def planShardReplacement (old : Option ShardCategoryHashes) (new : ShardCategoryHashes) :
    ShardReplaceResult :=
  if old.any fun hashes => hashes.contentHash == new.contentHash then
    ⟨true, false, false, false, false⟩
  else
    ⟨false,
      categoryHashChanged (old.bind (·.anchorsHash)) new.anchorsHash,
      categoryHashChanged (old.bind (·.entitiesHash)) new.entitiesHash,
      categoryHashChanged (old.bind (·.occurrencesHash)) new.occurrencesHash,
      categoryHashChanged (old.bind (·.edgesHash)) new.edgesHash⟩

def FileFactShard.categoryHashes (shard : FileFactShard) : ShardCategoryHashes :=
  ⟨shard.contentHash, shard.anchorsHash, shard.entitiesHash, shard.occurrencesHash,
    shard.edgesHash⟩

structure ReferenceEdge where
  occurrenceId : Nat
  anchorId : Nat
  fileId : Nat
  symbolKey : String
  targetCandidates : List Nat
  kind : OccurrenceKind
  provenance : Provenance
  confidence : Confidence
  deriving DecidableEq

structure UnresolvedOccurrenceKey where
  fileId : Nat
  occurrenceId : Nat
  anchorId : Nat
  deriving DecidableEq

namespace UnresolvedOccurrenceKey

def fields (key : UnresolvedOccurrenceKey) : List Nat := [key.fileId, key.occurrenceId, key.anchorId]

instance : Ord UnresolvedOccurrenceKey := ⟨compareOn fields⟩

instance : TransOrd UnresolvedOccurrenceKey := inferInstanceAs (TransCmp (compareOn fields))

instance : LawfulEqOrd UnresolvedOccurrenceKey where
  eq_of_compare {left right} same := by
    have fields : left.fields = right.fields := LawfulEqOrd.eq_of_compare same
    cases left
    cases right
    simpa only [UnresolvedOccurrenceKey.fields, List.cons.injEq, and_true, mk.injEq] using fields

end UnresolvedOccurrenceKey

structure ReferenceIndex where
  referencesByName : TreeMap String (List ReferenceEdge)
  referencesByEntity : TreeMap Nat (List ReferenceEdge)
  unresolvedByOccurrence : TreeMap UnresolvedOccurrenceKey (List ReferenceEdge)
  indexedFiles : TreeMap String Nat

namespace ReferenceIndex

def new : ReferenceIndex := ⟨∅, ∅, ∅, ∅⟩

def deriveCanonicalName (shard : FileFactShard) (occurrence : OccurrenceFact) : Option String :=
  occurrence.entityId.bind fun entityId =>
    (shard.entities.find? fun entity => entity.id == entityId).map (·.canonicalName)

def edgeTargets (edges : List EdgeFact) : TreeMap Nat (List Nat) :=
  edges.foldl (fun targets edge =>
    match edge.viaOccurrenceId with
    | some occurrence =>
      if edge.kind = .references then push targets occurrence edge.toEntityId else targets
    | none => targets) ∅

def addEdge (index : ReferenceIndex) (shard : FileFactShard) (occurrence : OccurrenceFact)
    (targets : List Nat) : ReferenceIndex :=
  let canonicalName := deriveCanonicalName shard occurrence
  let edge : ReferenceEdge :=
    ⟨occurrence.id, occurrence.anchorId, shard.fileId, canonicalName.getD "", targets,
      occurrence.kind, occurrence.provenance, occurrence.confidence⟩
  let index :=
    { index with
      referencesByEntity :=
        targets.foldl (fun table entity => push table entity edge) index.referencesByEntity }
  match canonicalName with
  | some name => { index with referencesByName := push index.referencesByName name edge }
  | none =>
    let key := ⟨shard.fileId, occurrence.id, occurrence.anchorId⟩
    { index with unresolvedByOccurrence := push index.unresolvedByOccurrence key edge }

/-- The loop over the occurrences; an identifier that occurs once has its targets moved out of the
table. -/
def addOccurrences (shard : FileFactShard) (references : List OccurrenceFact) :
    List OccurrenceFact → ReferenceIndex → TreeMap Nat (List Nat) → ReferenceIndex
  | [], index, _ => index
  | occurrence :: rest, index, targets =>
    if occurrence.kind = .definition then addOccurrences shard references rest index targets
    else
      let candidates := targets[occurrence.id]?.getD occurrence.entityId.toList
      let once := references.countP (fun other => other.id == occurrence.id) = 1
      let targets := if once then targets.erase occurrence.id else targets
      addOccurrences shard references rest (index.addEdge shard occurrence candidates) targets

def addFile (index : ReferenceIndex) (shard : FileFactShard) : ReferenceIndex :=
  let index := { index with indexedFiles := index.indexedFiles.insert shard.sourceUri shard.fileId }
  let references := shard.occurrences.filter fun occurrence => occurrence.kind ≠ .definition
  addOccurrences shard references shard.occurrences index (edgeTargets shard.edges)

def removeFile (index : ReferenceIndex) (sourceUri : String) : ReferenceIndex :=
  match index.indexedFiles[sourceUri]? with
  | none => index
  | some fileId =>
    { referencesByName := retainAll index.referencesByName fun edge => edge.fileId != fileId
      referencesByEntity := retainAll index.referencesByEntity fun edge => edge.fileId != fileId
      unresolvedByOccurrence :=
        index.unresolvedByOccurrence.filter fun key _ => key.fileId != fileId
      indexedFiles := index.indexedFiles.erase sourceUri }

end ReferenceIndex

end PerlLsp.SemanticFacts
