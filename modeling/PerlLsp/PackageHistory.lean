import PerlLsp.PackageNodes
import PerlLsp.Runs

/-! The package graph over the life of a workspace: semantic/package_graph.rs as indexing
and removing files drive it. Edges are added to the nodes that are there and removed with
a rebuild of all nodes; the record beside the graph keeps the latest edges of every file. -/
namespace PerlLsp.PackageGraph
open List hiding getElem?_insert
open Std Tables Buckets SemanticFacts Runs

inductive GraphOp where
  | update (sourceUri : String) (fileId : Nat) (edges : List PackageEdge)
  | remove (sourceUri : String)

namespace GraphOp

def sourceUri : GraphOp → String
  | update sourceUri _ _ => sourceUri
  | remove sourceUri => sourceUri

def contribution : GraphOp → Option (Nat × List PackageEdge)
  | update _ fileId edges => some (fileId, edges)
  | remove _ => none

end GraphOp

structure GraphState where
  graph : PackageGraphIndex
  latest : String → Option (Nat × List PackageEdge)

namespace GraphState

def new : GraphState := ⟨.new, fun _ => none⟩

def step (s : GraphState) (op : GraphOp) : GraphState where
  graph :=
    match op with
    | .update sourceUri fileId edges =>
      (s.graph.removeEdgesForFile sourceUri).addEdges sourceUri fileId edges
    | .remove sourceUri => s.graph.removeEdgesForFile sourceUri
  latest := fun other => if other = op.sourceUri then op.contribution else s.latest other

end GraphState

def edgesFrom (files : List Contribution) (package : String) : List PackageEdge :=
  (files.flatMap fun file => file.2.2).filter fun edge => edge.fromPackage = package

namespace GraphState

/-- The graph shows the live contributions and nothing of how they came about. -/
def HistoryFree (s : GraphState) : Prop :=
  ∀ files, Lists files s.latest → ∀ package,
    (s.graph.getEdges package).Perm (edgesFrom files package) ∧
      s.graph.getNode package = nodeOf (rowsOf files) package

end GraphState

namespace PackageGraphIndex

def contributions (graph : PackageGraphIndex) : List Contribution :=
  graph.fileEdges.toList.filterMap fun entry =>
    graph.fileEdgeIds[entry.1]?.map fun fileId => (entry.1, fileId, entry.2)

theorem rebuilt_node (graph : PackageGraphIndex) (package : String) :
    graph.rebuildNodeMetadata.getNode package = nodeOf (rowsOf graph.contributions) package := by
  have live (rowsIn : String × List PackageEdge → List Row)
      (absent : ∀ entry, graph.fileEdgeIds[entry.1]? = none → rowsIn entry = [])
      (present : ∀ entry fileId, graph.fileEdgeIds[entry.1]? = some fileId →
        rowsIn entry = entry.2.map fun edge => (edge, fileId)) :
      graph.fileEdges.toList.flatMap rowsIn = rowsOf graph.contributions := by
    rw [rowsOf, contributions]
    induction graph.fileEdges.toList with
    | nil => rfl
    | cons entry rest ih =>
      rw [flatMap_cons, ih, filterMap_cons]
      cases found : graph.fileEdgeIds[entry.1]? with
      | none => rw [absent entry found, nil_append, Option.map_none]
      | some fileId => rw [present entry fileId found, Option.map_some, flatMap_cons]
  rw [getNode, rebuildNodeMetadata]
  rw [live _ (fun entry found => by rw [found]) (fun entry fileId found => by rw [found]),
    getElem?_written fun name (known : PackageKind × Option Nat × Nat) =>
      (⟨0, name, known.1, known.2.1, some known.2.2⟩ : PackageNode),
    getElem?_written fun name kind => (⟨0, name, kind, none, none⟩ : PackageNode),
    getElem?_gather (fun row : Row => row.1.fromPackage) fun row => improveSource row.1 row.2,
    getElem?_gather (fun row : Row => row.1.toPackage) fun row => improveTarget row.1]
  rw [TreeMap.getElem?_emptyc, TreeMap.getElem?_emptyc, TreeMap.getElem?_emptyc, Option.or_none,
    nodeOf, sourceMeta]
  split
  next known found =>
    rw [found]
    rfl
  next found =>
    rw [found]
    rfl

end PackageGraphIndex

def ownedFrom (files : List Contribution) (package : String) : List (PackageEdge × String) :=
  files.flatMap fun file =>
    (file.2.2.filter fun edge => edge.fromPackage = package).map fun edge => (edge, file.1)

theorem owned_from_perm {files others : List Contribution} (same : files.Perm others)
    (package : String) : (ownedFrom files package).Perm (ownedFrom others package) :=
  same.flatMap_right _

variable (files : List Contribution)

theorem owned_from_edges (package : String) :
    (ownedFrom files package).map Prod.fst = edgesFrom files package := by
  rw [ownedFrom, edgesFrom, map_flatMap, filter_flatMap]
  apply flatMap_congr
  intro file _
  rw [map_map]
  exact map_id _

/-- A file that is listed once and then removed takes just its own entries. -/
theorem owned_without (sourceUri : String) (contribution : Nat × List PackageEdge)
    (package : String) (others : ∀ file ∈ files, file.1 ≠ sourceUri) :
    (ownedFrom ((sourceUri, contribution) :: files) package).filter
      (fun entry => entry.2 != sourceUri) = ownedFrom files package := by
  rw [ownedFrom, flatMap_cons, filter_append, filter_eq_nil_iff.mpr, nil_append, ← ownedFrom]
  · apply filter_eq_self.mpr
    intro entry among
    obtain ⟨file, listed, mapped⟩ := mem_flatMap.mp among
    obtain ⟨edge, _, rfl⟩ := mem_map.mp mapped
    exact bne_iff_ne.mpr (others file listed)
  · intro entry mapped kept
    obtain ⟨edge, _, rfl⟩ := mem_map.mp mapped
    exact bne_iff_ne.mp kept rfl

namespace PackageGraphIndex

def owned (graph : PackageGraphIndex) (package : String) : List (PackageEdge × String) :=
  (bucket graph.outgoingEdges package).zip (bucket graph.outgoingEdgeSources package)

def Lockstep (graph : PackageGraphIndex) : Prop :=
  ∀ package, (bucket graph.outgoingEdges package).length =
    (bucket graph.outgoingEdgeSources package).length

variable {graph : PackageGraphIndex}

theorem Lockstep.edges (lockstep : graph.Lockstep) (package : String) :
    graph.getEdges package = (graph.owned package).map Prod.fst :=
  (map_fst_zip (Nat.le_of_eq (lockstep package))).symm

theorem zip_projections {Left Right : Type} (pairs : List (Left × Right)) :
    (pairs.map Prod.fst).zip (pairs.map Prod.snd) = pairs := by
  induction pairs with
  | nil => rfl
  | cons pair rest ih => rw [map_cons, map_cons, zip_cons_cons, ih]

theorem drop_owned (lockstep : graph.Lockstep) (sourceUri package : String) :
    (graph.dropOwned sourceUri package).Lockstep ∧ ∀ other, (graph.dropOwned sourceUri package).owned other =
        if other = package then (graph.owned other).filter fun entry => entry.2 != sourceUri
        else graph.owned other := by
  have long := lockstep package
  have untouched (none : graph.owned package = []) (other : String) :
      graph.owned other = if other = package
        then (graph.owned other).filter fun entry => entry.2 != sourceUri
        else graph.owned other := by
    split
    next same => rw [same, none, filter_nil]
    · rfl
  rw [dropOwned]
  rw [bucket, bucket] at long
  cases foundEdges : graph.outgoingEdges[package]? with
  | none =>
    apply And.intro lockstep (untouched _)
    rw [owned, bucket, foundEdges, Option.getD_none, zip_nil_left]
  | some edges =>
    cases foundSources : graph.outgoingEdgeSources[package]? with
    | none =>
      apply And.intro lockstep (untouched _)
      rw [owned, bucket, bucket, foundSources, Option.getD_none, zip_nil_right]
    | some sources =>
      rw [foundEdges, foundSources, Option.getD_some, Option.getD_some] at long
      dsimp only
      rw [if_neg fun different => different long]
      have here : graph.owned package = edges.zip sources := by
        rw [owned, bucket, bucket, foundEdges, foundSources, Option.getD_some, Option.getD_some]
      constructor
      · intro other
        dsimp only
        rw [bucket_insert, bucket_insert]
        split
        · rw [length_map, length_map]
        · exact lockstep other
      · intro other
        rw [owned, bucket_insert, bucket_insert]
        by_cases same : package = other
        · rw [if_pos same, if_pos same, if_pos same.symm, ← same, here, zip_projections]
        · rw [if_neg same, if_neg same, if_neg fun equal => same equal.symm]
          rfl

theorem drop_all_owned (lockstep : graph.Lockstep) (sourceUri : String) (affected : List String) :
    (affected.foldl (dropOwned sourceUri) graph).Lockstep ∧
      ∀ other, (affected.foldl (dropOwned sourceUri) graph).owned other =
        if other ∈ affected then (graph.owned other).filter fun entry => entry.2 != sourceUri
        else graph.owned other := by
  induction affected generalizing graph with
  | nil => exact ⟨lockstep, fun _ => rfl⟩
  | cons package rest ih =>
    obtain ⟨still, dropped⟩ := drop_owned lockstep sourceUri package
    obtain ⟨after, all⟩ := ih still
    refine ⟨after, fun other => ?_⟩
    rw [foldl_cons, all, dropped]
    by_cases same : other = package
    · rw [if_pos same, if_pos (mem_cons.mpr (.inl same)), filter_filter]
      simp only [Bool.and_self, ite_self]
    · rw [if_neg same, if_congr (mem_cons.trans (or_iff_right same)) rfl rfl]

theorem drop_all_files (graph : PackageGraphIndex) (sourceUri : String) (affected : List String) :
    (affected.foldl (dropOwned sourceUri) graph).fileEdges = graph.fileEdges ∧
      (affected.foldl (dropOwned sourceUri) graph).fileEdgeIds = graph.fileEdgeIds := by
  induction affected generalizing graph with
  | nil => exact ⟨rfl, rfl⟩
  | cons package rest ih =>
    have same : (dropOwned sourceUri graph package).fileEdges = graph.fileEdges ∧
        (dropOwned sourceUri graph package).fileEdgeIds = graph.fileEdgeIds := by
      rw [dropOwned]
      split
      · split
        · exact ⟨rfl, rfl⟩
        · exact ⟨rfl, rfl⟩
      · exact ⟨rfl, rfl⟩
    obtain ⟨edges, ids⟩ := ih (dropOwned sourceUri graph package)
    exact ⟨edges.trans same.1, ids.trans same.2⟩

theorem bucket_filled {Item : Type} (table : TreeMap String (List Item)) (key : String) :
    bucket (table.filter fun _ rows => !rows.isEmpty) key = bucket table key := by
  rw [bucket, bucket, TreeMap.getElem?_filter']
  cases table[key]? with
  | none => rfl
  | some rows =>
    cases rows with
    | nil => rfl
    | cons row rest => rfl

theorem rebuild_owned (graph : PackageGraphIndex) (package : String) :
    graph.rebuildNodeMetadata.owned package = graph.owned package := rfl

structure Kept (graph : PackageGraphIndex) (latest : Latest) : Prop where
  edges : ∀ sourceUri : String, graph.fileEdges[sourceUri]? = (latest sourceUri).map Prod.snd
  ids : ∀ sourceUri : String, graph.fileEdgeIds[sourceUri]? = (latest sourceUri).map Prod.fst
  lockstep : graph.Lockstep
  filed : ∀ files, Lists files latest → ∀ package,
    (graph.owned package).Perm (ownedFrom files package)

theorem Kept.new : Kept new fun _ => none where
  edges := fun _ => TreeMap.getElem?_emptyc
  ids := fun _ => TreeMap.getElem?_emptyc
  lockstep := by
    intro package
    rfl
  filed := by
    intro files lists package
    have none : files = [] :=
      eq_nil_iff_forall_not_mem.mpr fun file among => by cases (lists.2 _ _).mp among
    rw [none, owned, PackageGraphIndex.new]
    exact List.Perm.refl _

section
variable {latest : Latest} (kept : Kept graph latest)
include graph latest kept

theorem Kept.lists : Lists graph.contributions latest := by
  constructor
  · have fewer : (graph.contributions.map Prod.fst).Sublist (graph.fileEdges.toList.map Prod.fst) := by
      rw [contributions]
      induction graph.fileEdges.toList with
      | nil => exact List.Sublist.refl _
      | cons entry rest ih =>
        rw [filterMap_cons]
        cases graph.fileEdgeIds[entry.1]? with
        | none => exact ih.cons _
        | some fileId => exact ih.cons_cons _
    exact fewer.nodup (keys_nodup graph.fileEdges)
  · intro sourceUri contribution
    rw [contributions, mem_filterMap]
    constructor
    · rintro ⟨⟨key, edges⟩, among, paired⟩
      have foundEdges := TreeMap.mem_toList_iff_getElem?_eq_some.mp among
      obtain ⟨fileId, foundId, same⟩ := Option.map_eq_some_iff.mp paired
      cases same
      rw [kept.edges] at foundEdges
      rw [kept.ids] at foundId
      cases live : latest key with
      | none =>
        rw [live] at foundId
        cases foundId
      | some known =>
        rw [live] at foundEdges foundId
        cases foundEdges
        cases foundId
        rfl
    · intro live
      have foundEdges := kept.edges sourceUri
      have foundId := kept.ids sourceUri
      rw [live] at foundEdges foundId
      refine ⟨(sourceUri, contribution.2), ?_, ?_⟩
      · exact TreeMap.mem_toList_iff_getElem?_eq_some.mpr foundEdges
      · rw [foundId]
        rfl

theorem Kept.affected {sourceUri : String} {contribution : Nat × List PackageEdge}
    (live : latest sourceUri = some contribution) (package : String) (entry : PackageEdge × String)
    (among : entry ∈ graph.owned package) (its : entry.2 = sourceUri) :
    package ∈ contribution.2.map (·.fromPackage) := by
  have there := (kept.filed _ kept.lists package).mem_iff.mp among
  obtain ⟨file, listed, mapped⟩ := mem_flatMap.mp there
  obtain ⟨edge, from_, rfl⟩ := mem_map.mp mapped
  have latestOf := (kept.lists.2 file.1 file.2).mp listed
  have owner : file.1 = sourceUri := its
  rw [owner, live] at latestOf
  cases latestOf
  obtain ⟨inside, same⟩ := mem_filter.mp from_
  exact mem_map.mpr ⟨edge, inside, of_decide_eq_true same⟩

theorem Kept.removed {sourceUri : String} {contribution : Nat × List PackageEdge}
    (live : latest sourceUri = some contribution) :
    let after := graph.removeEdgesForFile sourceUri
    after.fileEdges = graph.fileEdges.erase sourceUri ∧
      after.fileEdgeIds = graph.fileEdgeIds.erase sourceUri ∧ after.Lockstep ∧
      (∀ package, after.owned package = (graph.owned package).filter fun entry => entry.2 != sourceUri) ∧
      ∀ package, after.getNode package = nodeOf (rowsOf after.contributions) package := by
  have foundEdges := kept.edges sourceUri
  rw [live] at foundEdges
  have found : graph.fileEdges[sourceUri]? = some contribution.2 := foundEdges
  have erased : Lockstep { graph with
      fileEdges := graph.fileEdges.erase sourceUri
      fileEdgeIds := graph.fileEdgeIds.erase sourceUri } := kept.lockstep
  obtain ⟨still, dropped⟩ := drop_all_owned erased sourceUri (contribution.2.map (·.fromPackage)).eraseDups
  obtain ⟨edges, ids⟩ := drop_all_files { graph with
      fileEdges := graph.fileEdges.erase sourceUri
      fileEdgeIds := graph.fileEdgeIds.erase sourceUri } sourceUri
    (contribution.2.map (·.fromPackage)).eraseDups
  rw [removeEdgesForFile, found]
  refine ⟨edges, ids, ?_, ?_, fun package => rebuilt_node _ package⟩
  · intro package
    exact (congrArg List.length (bucket_filled _ package)).trans
      ((still package).trans (congrArg List.length (bucket_filled _ package)).symm)
  · intro package
    have whole := dropped package
    rw [rebuild_owned, owned, bucket_filled, bucket_filled]
    apply whole.trans
    split
    · rfl
    next outside =>
      symm
      apply filter_eq_self.mpr
      intro entry among
      apply bne_iff_ne.mpr
      intro its
      exact outside (mem_eraseDups.mpr (kept.affected live package entry among its))

theorem Kept.remove (sourceUri : String) :
    Kept (graph.removeEdgesForFile sourceUri) (put latest sourceUri none) := by
  cases live : latest sourceUri with
  | none =>
    have absent := kept.edges sourceUri
    rw [live] at absent
    have none : graph.fileEdges[sourceUri]? = none := absent
    rw [put_absent live, removeEdgesForFile, none]
    exact kept
  | some contribution =>
    obtain ⟨edges, ids, lockstep, owned, _⟩ := kept.removed live
    refine ⟨?_, ?_, lockstep, ?_⟩
    · intro other
      rw [edges, getElem?_erase, put, kept.edges, apply_ite (Option.map Prod.snd)]
      exact if_congr eq_comm rfl rfl
    · intro other
      rw [ids, getElem?_erase, put, kept.ids, apply_ite (Option.map Prod.fst)]
      exact if_congr eq_comm rfl rfl
    · intro files lists package
      rw [owned]
      have before := kept.filed _ (lists.erased live) package
      apply (before.filter _).trans
      rw [owned_without files sourceUri contribution package fun file among same => ?_]
      have latestOf := (lists.2 file.1 file.2).mp among
      rw [same, put, if_pos rfl] at latestOf
      cases latestOf

end

section
variable (lockstep : graph.Lockstep) (sourceUri : String) (fileId : Nat)
include graph lockstep sourceUri fileId

theorem owned_add_edge (edge : PackageEdge) : (graph.addEdge sourceUri fileId edge).Lockstep ∧
      ∀ package, (graph.addEdge sourceUri fileId edge).owned package =
        graph.owned package ++ if edge.fromPackage = package then [(edge, sourceUri)] else [] := by
  constructor
  · intro package
    rw [addEdge, push, push, bucket_extend, bucket_extend]
    dsimp only [ensureNodeFromEdgeTarget, ensureNodeFromEdgeSource]
    rw [length_append, length_append, lockstep package]
    split
    · rfl
    · rfl
  · intro package
    rw [owned, addEdge, push, push, bucket_extend, bucket_extend]
    dsimp only [ensureNodeFromEdgeTarget, ensureNodeFromEdgeSource]
    rw [zip_append (lockstep package)]
    split
    · rfl
    · rfl

theorem owned_add_all (edges : List PackageEdge) :
    (edges.foldl (fun graph edge => graph.addEdge sourceUri fileId edge) graph).Lockstep ∧ ∀ package,
        (edges.foldl (fun graph edge => graph.addEdge sourceUri fileId edge) graph).owned package =
          graph.owned package ++ (edges.filter fun edge => edge.fromPackage = package).map fun edge =>
              (edge, sourceUri) := by
  induction edges generalizing graph with
  | nil => exact ⟨lockstep, fun _ => (append_nil _).symm⟩
  | cons edge rest ih =>
    obtain ⟨still, added⟩ := owned_add_edge lockstep sourceUri fileId edge
    obtain ⟨after, all⟩ := ih still
    refine ⟨after, fun package => ?_⟩
    rw [foldl_cons, all, added, append_assoc]
    congr 1
    by_cases same : edge.fromPackage = package
    · rw [if_pos same, filter_cons_of_pos (by exact decide_eq_true same)]
      rfl
    · rw [if_neg same, filter_cons_of_neg (by exact fun yes => same (of_decide_eq_true yes))]
      rfl

end

theorem add_all_files (edges : List PackageEdge) (graph : PackageGraphIndex) (sourceUri : String)
    (fileId : Nat) :
    let added := edges.foldl (fun graph edge => graph.addEdge sourceUri fileId edge) graph
    added.fileEdges = graph.fileEdges ∧ added.fileEdgeIds = graph.fileEdgeIds := by
  induction edges generalizing graph with
  | nil => exact ⟨rfl, rfl⟩
  | cons edge rest ih => exact ih (graph.addEdge sourceUri fileId edge)

theorem Kept.add {latest : Latest} (kept : Kept graph latest) (sourceUri : String) (fileId : Nat)
    (edges : List PackageEdge) (absent : latest sourceUri = none) :
    Kept (graph.addEdges sourceUri fileId edges) (put latest sourceUri (some (fileId, edges))) := by
  let opened : PackageGraphIndex :=
    { graph with
      fileEdges := graph.fileEdges.insert sourceUri edges
      fileEdgeIds := graph.fileEdgeIds.insert sourceUri fileId }
  have lockstep : opened.Lockstep := kept.lockstep
  obtain ⟨foundEdges, foundIds⟩ := add_all_files edges opened sourceUri fileId
  obtain ⟨after, all⟩ := owned_add_all lockstep sourceUri fileId edges
  rw [addEdges]
  refine ⟨?_, ?_, after, ?_⟩
  · intro other
    rw [foundEdges, getElem?_insert, put, kept.edges, apply_ite (Option.map Prod.snd)]
    exact if_congr eq_comm rfl rfl
  · intro other
    rw [foundIds, getElem?_insert, put, kept.ids, apply_ite (Option.map Prod.fst)]
    exact if_congr eq_comm rfl rfl
  · intro files lists package
    rw [all]
    have listing : Lists ((sourceUri, fileId, edges) :: graph.contributions)
        (put latest sourceUri (some (fileId, edges))) := kept.lists.cons absent
    apply List.Perm.trans ?_ (owned_from_perm (listing.unique lists) package)
    exact perm_append_comm.trans ((kept.filed _ kept.lists package).append_left _)

theorem add_all_node (edges : List PackageEdge) (graph : PackageGraphIndex) (sourceUri : String)
    (fileId : Nat) (package : String) :
    (edges.foldl (fun graph edge => graph.addEdge sourceUri fileId edge) graph).getNode package =
      (graph.getNode package).or (firstMention fileId package edges) := by
  induction edges generalizing graph with
  | nil => exact (Option.or_none).symm
  | cons edge rest ih =>
    rw [foldl_cons, ih, firstMention, getNode, addEdge, ensureNodeFromEdgeTarget,
      ensureNodeFromEdgeSource, getElem?_ensured, getElem?_ensured, Option.or_assoc,
      Option.or_assoc]
    congr 1
    split
    next same =>
      rw [← same]
      rfl
    · rw [Option.none_or]
      split
      next same =>
        rw [← same]
        rfl
      · rfl

end PackageGraphIndex

namespace GraphState

theorem latest_step (s : GraphState) (op : GraphOp) :
    (s.step op).latest = put s.latest op.sourceUri op.contribution := rfl

/-- The node with which add_edges meets a package: that of the graph without the file, or the one
made for the first edge that mentions it. -/
def met (s : GraphState) (sourceUri : String) (fileId : Nat) (edges : List PackageEdge)
    (package : String) : Option PackageNode :=
  ((s.graph.removeEdgesForFile sourceUri).getNode package).or
    (PackageGraphIndex.firstMention fileId package edges)

def Adds (s : GraphState) : GraphOp → Prop
  | .update sourceUri fileId edges =>
    ∀ package, Absorbs (s.met sourceUri fileId edges package) fileId edges package
  | .remove _ => True

/-- Nothing is improved by the added edges, and no two files left had to agree on an anchor and do
not. -/
def Plain (s : GraphState) (op : GraphOp) : Prop :=
  s.Adds op ∧ OneAnchor (put s.latest op.sourceUri op.contribution)

section
variable {s : GraphState} (kept : s.graph.Kept s.latest)
include s kept

theorem kept_step (op : GraphOp) : (s.step op).graph.Kept (s.step op).latest := by
  rw [latest_step]
  cases op with
  | remove sourceUri => exact kept.remove sourceUri
  | update sourceUri fileId edges =>
    have absent : put s.latest sourceUri none sourceUri = none := if_pos rfl
    have added := (kept.remove sourceUri).add sourceUri fileId edges absent
    exact put_put s.latest sourceUri none _ ▸ added

theorem edges_of_kept (files : List Contribution) (lists : Lists files s.latest) (package : String) :
    (s.graph.getEdges package).Perm (edgesFrom files package) := by
  rw [kept.lockstep.edges, ← owned_from_edges]
  exact (kept.filed files lists package).map Prod.fst

theorem nodes_removed (free : HistoryFree s) (sourceUri package : String) :
    let after := s.graph.removeEdgesForFile sourceUri
    after.getNode package = nodeOf (rowsOf after.contributions) package := by
  cases live : s.latest sourceUri with
  | some contribution => exact (kept.removed live).2.2.2.2 package
  | none =>
    have absent := kept.edges sourceUri
    rw [live] at absent
    have none : s.graph.fileEdges[sourceUri]? = none := absent
    rw [PackageGraphIndex.removeEdgesForFile, none]
    exact (free _ kept.lists package).2

/-- The listing that puts the updated file last. -/
theorem lists_updated (sourceUri : String) (fileId : Nat) (edges : List PackageEdge) :
    Lists ((s.graph.removeEdgesForFile sourceUri).contributions ++ [(sourceUri, fileId, edges)])
      (put s.latest sourceUri (some (fileId, edges))) := by
  have after := kept_step kept (.update sourceUri fileId edges)
  have absent : put s.latest sourceUri none sourceUri = none := if_pos rfl
  have front : Lists ((sourceUri, fileId, edges) ::
      (s.graph.removeEdgesForFile sourceUri).contributions)
      (put (put s.latest sourceUri none) sourceUri (some (fileId, edges))) :=
    (kept.remove sourceUri).lists.cons absent
  rw [put_put] at front
  exact front.perm (perm_append_singleton _ _).symm

end

theorem node_updated (s : GraphState) (sourceUri : String) (fileId : Nat)
    (edges : List PackageEdge) (package : String) :
    (s.step (.update sourceUri fileId edges)).graph.getNode package = s.met sourceUri fileId edges package :=
  PackageGraphIndex.add_all_node edges _ sourceUri fileId package

/-- One step keeps the graph free of its history exactly when it is a plain one. -/
theorem step_free {s : GraphState} (kept : s.graph.Kept s.latest) (free : HistoryFree s)
    (op : GraphOp) : HistoryFree (s.step op) ↔ s.Plain op := by
  have keptAfter := kept_step kept op
  have nodesOnly : HistoryFree (s.step op) ↔ ∀ files, Lists files (s.step op).latest →
      ∀ package, (s.step op).graph.getNode package = nodeOf (rowsOf files) package := by
    constructor
    · exact fun whole files lists package => (whole files lists package).2
    · exact fun nodes files lists package =>
        ⟨edges_of_kept keptAfter files lists package, nodes files lists package⟩
  rw [nodesOnly]
  cases op with
  | remove sourceUri =>
    have rebuilt := nodes_removed kept free sourceUri
    have one := one_anchor_iff (kept.remove sourceUri).lists
    constructor
    · intro nodes
      exact ⟨trivial, one.mpr fun others lists package =>
        (rebuilt package).symm.trans (nodes others lists package)⟩
    · rintro ⟨_, single⟩ files lists package
      exact (rebuilt package).trans (one.mp single files lists package)
  | update sourceUri fileId edges =>
    have rebuilt := nodes_removed kept free sourceUri
    have lists := lists_updated kept sourceUri fileId edges
    have rows : rowsOf ((s.graph.removeEdgesForFile sourceUri).contributions ++
        [(sourceUri, fileId, edges)]) =
        rowsOf (s.graph.removeEdgesForFile sourceUri).contributions ++ tagged fileId edges := by
      rw [rowsOf, flatMap_append, flatMap_cons, flatMap_nil, append_nil]
      rfl
    have absorbed (package : String) :
        nodeOf (rowsOf ((s.graph.removeEdgesForFile sourceUri).contributions ++
            [(sourceUri, fileId, edges)])) package = s.met sourceUri fileId edges package ↔
          Absorbs (s.met sourceUri fileId edges package) fileId edges package := by
      rw [rows, met, rebuilt package]
      exact absorbs_iff edges _ fileId package
    have one := one_anchor_iff lists
    constructor
    · intro nodes
      have last (package : String) := nodes _ lists package
      refine ⟨fun package => ?_, one.mpr fun others other package => ?_⟩
      · apply (absorbed package).mp
        rw [← last package, node_updated]
      · rw [← last package]
        exact nodes others other package
    · rintro ⟨adds, single⟩ files other package
      rw [node_updated, ← (absorbed package).mpr (adds package)]
      exact one.mp single files other package

/-- The graph shows nothing of its history throughout a run exactly when every update and
removal is a plain one. -/
theorem history_free_iff (ops : List GraphOp) :
    Along step HistoryFree new ops ↔ StepsMeet step Plain new ops := by
  have fresh : HistoryFree new := by
    intro files lists package
    have none : files = [] :=
      eq_nil_iff_forall_not_mem.mpr fun file among => by cases (lists.2 _ _).mp among
    refine ⟨edges_of_kept PackageGraphIndex.Kept.new files lists package, ?_⟩
    rw [none, new, PackageGraphIndex.getNode, PackageGraphIndex.new]
    rfl
  calc Along step HistoryFree new ops
      ↔ Along step (fun s => s.graph.Kept s.latest ∧ HistoryFree s) new ops := by
        apply along_iff_of_invariant step fun s => s.graph.Kept s.latest
        · exact fun _ op kept => kept_step kept op
        · exact fun _ kept => (and_iff_right kept).symm
        · exact PackageGraphIndex.Kept.new
    _ ↔ StepsMeet step Plain new ops := by
        apply along_iff_steps
        · intro s op both
          rw [and_iff_right (kept_step both.1 op)]
          exact step_free both.1 both.2 op
        · exact ⟨PackageGraphIndex.Kept.new, fresh⟩

def parentIndexedLater : List GraphOp :=
  let inherits (child parent : String) : PackageEdge :=
    ⟨child, parent, .inherits, some 7, .exactAst, .high⟩
  [.update "file:///child.pm" 1 [inherits "Child" "Base"],
    .update "file:///base.pm" 2 [inherits "Base" "Root"]]

theorem parent_stays_external : ¬ ∀ ops, Along step HistoryFree new ops := by
  intro every
  have last := (along_iff_prefixes step HistoryFree new parentIndexedLater).mp
    (every parentIndexedLater) parentIndexedLater [] (append_nil _).symm
  have kept : (run step new parentIndexedLater).graph.Kept (run step new parentIndexedLater).latest :=
    run_invariant step (fun s => s.graph.Kept s.latest) (fun _ op kept => kept_step kept op) new
      parentIndexedLater PackageGraphIndex.Kept.new
  have stale : (run step new parentIndexedLater).graph.getNode "Base" ≠
      nodeOf (rowsOf (run step new parentIndexedLater).graph.contributions) "Base" := by decide
  exact stale (last _ kept.lists "Base").2

end GraphState

end PerlLsp.PackageGraph
