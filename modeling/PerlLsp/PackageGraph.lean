import PerlLsp.SemanticFacts

/-! The graph of packages across files: semantic/package_graph.rs. Edges are filed under
the package they leave, with the URI of the file that contributed each beside them. The
hash maps are walked in the order of their keys. -/
namespace PerlLsp.PackageGraph
open Std Tables Buckets SemanticFacts

inductive PackageKind where
  | package | class_ | role | external_
  deriving DecidableEq

inductive PackageEdgeKind where
  | inherits | composesRole | dependsOn
  deriving DecidableEq

structure PackageNode where
  entityId : Nat
  name : String
  kind : PackageKind
  anchorId : Option Nat
  fileId : Option Nat
  deriving DecidableEq

structure PackageEdge where
  fromPackage : String
  toPackage : String
  kind : PackageEdgeKind
  anchorId : Option Nat
  provenance : Provenance
  confidence : Confidence
  deriving DecidableEq

structure AncestorResult where
  ancestors : List String
  cycleDetected : Bool
  deriving DecidableEq

structure PackageGraphIndex where
  nodes : TreeMap String PackageNode
  outgoingEdges : TreeMap String (List PackageEdge)
  outgoingEdgeSources : TreeMap String (List String)
  fileEdges : TreeMap String (List PackageEdge)
  fileEdgeIds : TreeMap String Nat

def PackageEdge.sourceKind (edge : PackageEdge) : PackageKind :=
  match edge.kind with
  | .composesRole => .class_
  | _ => .package

def PackageEdge.targetKind (edge : PackageEdge) : PackageKind :=
  match edge.kind with
  | .composesRole => .role
  | _ => .external_

namespace PackageGraphIndex

def new : PackageGraphIndex := ⟨∅, ∅, ∅, ∅, ∅⟩

variable (graph : PackageGraphIndex)

def ensureNodeFromEdgeSource (edge : PackageEdge) (fileId : Nat) : PackageGraphIndex :=
  let node := ⟨0, edge.fromPackage, edge.sourceKind, edge.anchorId, some fileId⟩
  { graph with nodes := graph.nodes.insertIfNew edge.fromPackage node }

def ensureNodeFromEdgeTarget (edge : PackageEdge) : PackageGraphIndex :=
  let node := ⟨0, edge.toPackage, edge.targetKind, none, none⟩
  { graph with nodes := graph.nodes.insertIfNew edge.toPackage node }

def addEdge (sourceUri : String) (fileId : Nat) (edge : PackageEdge) : PackageGraphIndex :=
  let graph := (graph.ensureNodeFromEdgeSource edge fileId).ensureNodeFromEdgeTarget edge
  { graph with
    outgoingEdges := push graph.outgoingEdges edge.fromPackage edge
    outgoingEdgeSources := push graph.outgoingEdgeSources edge.fromPackage sourceUri }

def addEdges (sourceUri : String) (fileId : Nat) (edges : List PackageEdge) : PackageGraphIndex :=
  let graph :=
    { graph with
      fileEdges := graph.fileEdges.insert sourceUri edges
      fileEdgeIds := graph.fileEdgeIds.insert sourceUri fileId }
  edges.foldl (fun graph edge => graph.addEdge sourceUri fileId edge) graph

def improveSource (edge : PackageEdge) (fileId : Nat) :
    Option (PackageKind × Option Nat × Nat) → PackageKind × Option Nat × Nat
  | none => (edge.sourceKind, edge.anchorId, fileId)
  | some (kind, anchorId, existing) =>
    let kind := if edge.sourceKind = .class_ then .class_ else kind
    if fileId < existing then (kind, edge.anchorId, fileId)
    else if fileId = existing ∧ anchorId = none then (kind, edge.anchorId, existing)
    else (kind, anchorId, existing)

def improveTarget (edge : PackageEdge) : Option PackageKind → PackageKind
  | none => edge.targetKind
  | some kind => if edge.targetKind = .role then .role else kind

def rebuildNodeMetadata (graph : PackageGraphIndex) : PackageGraphIndex :=
  let live := graph.fileEdges.toList.flatMap fun entry =>
    match graph.fileEdgeIds[entry.1]? with
    | none => []
    | some fileId => entry.2.map fun edge => (edge, fileId)
  let sources := live.foldl (fun (sources : TreeMap String (PackageKind × Option Nat × Nat)) row =>
    sources.insert row.1.fromPackage (improveSource row.1 row.2 sources[row.1.fromPackage]?)) ∅
  let targets := live.foldl (fun (targets : TreeMap String PackageKind) row =>
    targets.insert row.1.toPackage (improveTarget row.1 targets[row.1.toPackage]?)) ∅
  let nodes := targets.toList.foldl (fun (nodes : TreeMap String PackageNode) entry =>
    nodes.insert entry.1 ⟨0, entry.1, entry.2, none, none⟩) ∅
  { graph with
    nodes := sources.toList.foldl (fun nodes entry =>
      nodes.insert entry.1 ⟨0, entry.1, entry.2.1, entry.2.2.1, some entry.2.2.2⟩) nodes }

def dropOwned (sourceUri : String) (graph : PackageGraphIndex) (package : String) : PackageGraphIndex :=
  match graph.outgoingEdges[package]?, graph.outgoingEdgeSources[package]? with
  | some edges, some sources =>
    if edges.length ≠ sources.length then graph
    else
      let kept := (edges.zip sources).filter fun owned => owned.2 != sourceUri
      { graph with
        outgoingEdges := graph.outgoingEdges.insert package (kept.map Prod.fst)
        outgoingEdgeSources := graph.outgoingEdgeSources.insert package (kept.map Prod.snd) }
  | _, _ => graph

variable (graph : PackageGraphIndex)

def removeEdgesForFile (sourceUri : String) : PackageGraphIndex :=
  match graph.fileEdges[sourceUri]? with
  | none => graph
  | some removed =>
    let graph :=
      { graph with
        fileEdges := graph.fileEdges.erase sourceUri
        fileEdgeIds := graph.fileEdgeIds.erase sourceUri }
    let affected := (removed.map (·.fromPackage)).eraseDups
    let graph := affected.foldl (dropOwned sourceUri) graph
    { graph with
      outgoingEdges := graph.outgoingEdges.filter fun _ edges => !edges.isEmpty
      outgoingEdgeSources :=
        graph.outgoingEdgeSources.filter fun _ sources => !sources.isEmpty }.rebuildNodeMetadata

def getEdges (package : String) : List PackageEdge :=
  bucket graph.outgoingEdges package

def getNode (package : String) : Option PackageNode :=
  graph.nodes[package]?

def edgeCount : Nat := (rows graph.outgoingEdges).flatten.length

def directParents (package : String) : List String :=
  ((graph.getEdges package).filter fun edge => edge.kind = .inherits).map (·.toPackage)

/-- Every nested call has collected one more target of an edge, so the depth is bounded by
their number. -/
def collectAncestors (graph : PackageGraphIndex) :
    Nat → String → List String → AncestorResult → AncestorResult
  | 0, _, _, result => result
  | fuel + 1, package, onStack, result =>
    (graph.directParents package).foldl (fun result parent =>
      if result.cycleDetected then result
      else if parent ∈ onStack then { result with cycleDetected := true }
      else if parent ∈ result.ancestors then result
      else collectAncestors graph fuel parent (parent :: onStack)
        { result with ancestors := result.ancestors ++ [parent] }) result

def ancestors (graph : PackageGraphIndex) (package : String) : AncestorResult :=
  collectAncestors graph (graph.edgeCount + 1) package [package] ⟨[], false⟩

end PackageGraphIndex

end PerlLsp.PackageGraph
