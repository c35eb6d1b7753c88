import PerlLsp.DepthFirst
import PerlLsp.PackageGraph

/-! Walking the package graph: ancestors and transitive_composed_roles of
semantic/package_graph.rs. The source keeps the roles twice, as a list and as the set it
looks them up in. -/
namespace PerlLsp.PackageGraph
open Std Tables Buckets SemanticFacts DepthFirst List

structure RoleCompositionResult where
  roles : List String
  cycleDetected : Bool
  deriving DecidableEq

structure RoleSearch where
  collected : List String
  roles : List String
  cycleDetected : Bool

namespace PackageGraphIndex

def composedRoles (graph : PackageGraphIndex) (package : String) : List String :=
  ((graph.getEdges package).filter fun edge => edge.kind = .composesRole).map (·.toPackage)

/-- As for the ancestors, the depth is bounded by the number of edges. -/
def collectComposedRoles (graph : PackageGraphIndex) :
    Nat → String → List String → RoleSearch → RoleSearch
  | 0, _, _, search => search
  | fuel + 1, package, onStack, search =>
    (graph.composedRoles package).foldl (fun search role =>
      if role ∈ onStack then { search with cycleDetected := true }
      else if role ∈ search.collected then search
      else collectComposedRoles graph fuel role (role :: onStack)
        { search with
          collected := role :: search.collected
          roles := search.roles ++ [role] }) search

def transitiveComposedRoles (graph : PackageGraphIndex) (package : String) : RoleCompositionResult :=
  let search := collectComposedRoles graph (graph.edgeCount + 1) package [package] ⟨[], [], false⟩
  ⟨search.roles, search.cycleDetected⟩

end PackageGraphIndex

def AncestorResult.found (result : AncestorResult) : Found String :=
  ⟨result.ancestors, result.cycleDetected⟩

def RoleCompositionResult.found (result : RoleCompositionResult) : Found String :=
  ⟨result.roles, result.cycleDetected⟩

def RoleSearch.found (search : RoleSearch) : Found String := ⟨search.roles, search.cycleDetected⟩

/-- The set holds what the list holds. -/
def RoleSearch.Mirrored (search : RoleSearch) : Prop :=
  ∀ role, role ∈ search.collected ↔ role ∈ search.roles

namespace PackageGraphIndex
variable (graph : PackageGraphIndex) (fuel : Nat) (package : String) (onStack : List String)

theorem collect_ancestors_explore (result : AncestorResult) :
    (collectAncestors graph fuel package onStack result).found =
      explore graph.directParents true fuel onStack package result.found := by
  induction fuel generalizing package onStack result with
  | zero => rfl
  | succ fuel ih =>
    rw [collectAncestors, explore]
    generalize graph.directParents package = parents
    induction parents generalizing result with
    | nil => rfl
    | cons parent rest others =>
      rw [foldl_cons, foldl_cons, others]
      congr 1
      rw [Bool.true_and, apply_ite AncestorResult.found, apply_ite AncestorResult.found,
        apply_ite AncestorResult.found, ih]
      rfl

theorem collect_roles_explore (search : RoleSearch) (mirrored : search.Mirrored) :
    (collectComposedRoles graph fuel package onStack search).Mirrored ∧
      (collectComposedRoles graph fuel package onStack search).found =
        explore graph.composedRoles false fuel onStack package search.found := by
  induction fuel generalizing package onStack search with
  | zero => exact ⟨mirrored, rfl⟩
  | succ fuel ih =>
    rw [collectComposedRoles, explore]
    generalize graph.composedRoles package = roles
    induction roles generalizing search with
    | nil => exact ⟨mirrored, rfl⟩
    | cons role rest others =>
      rw [foldl_cons, foldl_cons, Bool.false_and, if_neg Bool.false_ne_true]
      by_cases onPath : role ∈ onStack
      · rw [if_pos onPath, if_pos onPath]
        exact others { search with cycleDetected := true } mirrored
      rw [if_neg onPath, if_neg onPath]
      have listed : role ∈ search.found.collected ↔ role ∈ search.collected :=
        (mirrored role).symm
      by_cases known : role ∈ search.collected
      · rw [if_pos known, if_pos (listed.mpr known)]
        exact others search mirrored
      rw [if_neg known, if_neg (mt listed.mp known)]
      have grown : RoleSearch.Mirrored
          ⟨role :: search.collected, search.roles ++ [role], search.cycleDetected⟩ := by
        intro other
        rw [mem_cons, mem_append, mem_singleton, mirrored other, or_comm]
      obtain ⟨still, same⟩ := ih role (role :: onStack) _ grown
      have after := others _ still
      rw [same] at after
      exact after

def targets (graph : PackageGraphIndex) : List String :=
  (rows graph.outgoingEdges).flatten.map (·.toPackage)

section

include graph

variable (package : String)

theorem edge_target (edge : PackageEdge)
    (among : edge ∈ graph.getEdges package) : edge.toPackage ∈ graph.targets := by
  rw [getEdges, bucket] at among
  cases found : graph.outgoingEdges[package]? with
  | none =>
    rw [found] at among
    cases among
  | some edges =>
    rw [found] at among
    exact mem_map_of_mem (mem_flatten_of_mem (mem_rows _ package edges found) among)

theorem direct_parents_within : graph.directParents package ⊆ graph.targets := by
  intro parent among
  obtain ⟨edge, kept, same⟩ := mem_map.mp among
  exact same ▸ graph.edge_target package edge (mem_filter.mp kept).1

theorem composed_roles_within : graph.composedRoles package ⊆ graph.targets := by
  intro role among
  obtain ⟨edge, kept, same⟩ := mem_map.mp among
  exact same ▸ graph.edge_target package edge (mem_filter.mp kept).1

theorem enough_fuel : (missing graph.targets []).length < graph.edgeCount + 1 := by
  apply Nat.lt_succ_of_le
  apply Nat.le_trans (length_filter_le _ _)
  rw [targets, length_map, edgeCount]

/-- The ancestors are those of a traversal that runs to its end. -/
theorem ancestors_explores (package : String) :
    Explores graph.directParents true [package] (graph.directParents package) ⟨[], false⟩
      (graph.ancestors package).found := by
  rw [ancestors, collect_ancestors_explore]
  exact explore_explores graph.targets graph.direct_parents_within _ [package] package ⟨[], false⟩
    graph.enough_fuel

theorem composed_roles_explores (package : String) :
    Explores graph.composedRoles false [package] (graph.composedRoles package) ⟨[], false⟩
      (graph.transitiveComposedRoles package).found := by
  have empty : RoleSearch.Mirrored ⟨[], [], false⟩ := fun _ => Iff.rfl
  have same : (graph.transitiveComposedRoles package).found =
      explore graph.composedRoles false (graph.edgeCount + 1) [package] package ⟨[], false⟩ :=
    (graph.collect_roles_explore (graph.edgeCount + 1) package [package] _ empty).2
  rw [same]
  exact explore_explores graph.targets graph.composed_roles_within _ [package] package ⟨[], false⟩
    graph.enough_fuel

end

def Linked (graph : PackageGraphIndex) (kind : PackageEdgeKind) (source target : String) : Prop :=
  ∃ edge ∈ graph.getEdges source, edge.kind = kind ∧ edge.toPackage = target

def CycleReachable (graph : PackageGraphIndex) (kind : PackageEdgeKind) (start : String) : Prop :=
  ∃ package, Relation.ReflTransGen (graph.Linked kind) start package ∧
    Relation.TransGen (graph.Linked kind) package package

theorem edge_linked (kind : PackageEdgeKind) : Edge (fun package =>
      ((graph.getEdges package).filter fun edge => edge.kind = kind).map (·.toPackage)) =
      graph.Linked kind := by
  funext source target
  apply propext
  constructor
  · intro linked
    obtain ⟨edge, kept, same⟩ := mem_map.mp linked
    obtain ⟨among, right⟩ := mem_filter.mp kept
    exact ⟨edge, among, of_decide_eq_true right, same⟩
  · rintro ⟨edge, among, right, same⟩
    exact mem_map.mpr ⟨edge, mem_filter.mpr ⟨among, decide_eq_true right⟩, same⟩

/-- What both walks have in common: an end, a flag that tells of a cycle, a list without repetitions
and without the start. -/
structure Walked (graph : PackageGraphIndex) (kind : PackageEdgeKind) (stops : Bool)
    (next : String → List String) (start : String) (found : Found String) : Prop where
  ends : Explores next stops [start] (next start) ⟨[], false⟩ found
  cycle : found.cycle = true ↔ graph.CycleReachable kind start
  distinct : found.collected.Nodup
  withoutStart : start ∉ found.collected

theorem walked_of_explores {graph : PackageGraphIndex} {kind : PackageEdgeKind} {stops : Bool}
    {next : String → List String} {start : String} {found : Found String}
    (linked : Edge next = graph.Linked kind)
    (explores : Explores next stops [start] (next start) ⟨[], false⟩ found) :
    graph.Walked kind stops next start found where
  ends := explores
  cycle := by
    rw [start_cycle_iff explores, CycleBelow, Reaches, linked]
    rfl
  distinct := start_nodup explores
  withoutStart := start_avoided explores

section

include graph

theorem ancestors_walked (start : String) :
    graph.Walked .inherits true graph.directParents start (graph.ancestors start).found :=
  walked_of_explores (graph.edge_linked .inherits) (graph.ancestors_explores start)

theorem roles_walked (start : String) : graph.Walked .composesRole false graph.composedRoles start
      (graph.transitiveComposedRoles start).found :=
  walked_of_explores (graph.edge_linked .composesRole) (graph.composed_roles_explores start)

theorem mem_transitive_roles (start role : String) : role ∈ (graph.transitiveComposedRoles start).roles ↔
      role ≠ start ∧ Relation.ReflTransGen (graph.Linked .composesRole) start role := by
  have complete := start_complete (graph.composed_roles_explores start) (.inl rfl) role
  rw [Reaches, show Edge graph.composedRoles = _ from graph.edge_linked .composesRole] at complete
  exact complete

theorem mem_ancestors (start parent : String) (acyclic : ¬ graph.CycleReachable .inherits start) :
    parent ∈ (graph.ancestors start).ancestors ↔
      Relation.TransGen (graph.Linked .inherits) start parent := by
  have unmet : (graph.ancestors start).found.cycle = false :=
    Bool.eq_false_iff.mpr (mt (graph.ancestors_walked start).cycle.mp acyclic)
  have complete := start_complete (graph.ancestors_explores start) (.inr unmet) parent
  rw [Reaches, show Edge graph.directParents = _ from graph.edge_linked .inherits] at complete
  rw [show parent ∈ (graph.ancestors start).ancestors ↔ _ from complete,
    Relation.reflTransGen_iff_eq_or_transGen]
  constructor
  · rintro ⟨other, same | reaches⟩
    · exact absurd same other
    · exact reaches
  · intro reaches
    refine ⟨?_, .inr reaches⟩
    rintro rfl
    exact acyclic ⟨parent, .refl, reaches⟩

end

/-- Both walks end, tell truly whether a cycle is reached and list no package twice; the roles are
all that are reached, the ancestors whenever no cycle is. -/
theorem walks_correct (graph : PackageGraphIndex) (start : String) :
    graph.Walked .inherits true graph.directParents start (graph.ancestors start).found ∧
    graph.Walked .composesRole false graph.composedRoles start
      (graph.transitiveComposedRoles start).found ∧
    (∀ role, role ∈ (graph.transitiveComposedRoles start).roles ↔
      role ≠ start ∧ Relation.ReflTransGen (graph.Linked .composesRole) start role) ∧
    (¬ graph.CycleReachable .inherits start → ∀ parent,
      parent ∈ (graph.ancestors start).ancestors ↔
        Relation.TransGen (graph.Linked .inherits) start parent) :=
  ⟨graph.ancestors_walked start, graph.roles_walked start, graph.mem_transitive_roles start,
    fun acyclic parent => graph.mem_ancestors start parent acyclic⟩

def diamond : PackageGraphIndex :=
  let inherits (child parent : String) : PackageEdge :=
    ⟨child, parent, .inherits, none, .exactAst, .high⟩
  new.addEdges "file:///a.pm" 1
    [inherits "Child" "Left", inherits "Child" "Right", inherits "Left" "Base",
      inherits "Right" "Base"]

theorem walks_correct_diamond :
    ∀ parent, parent ∈ (diamond.ancestors "Child").ancestors ↔
      Relation.TransGen (diamond.Linked .inherits) "Child" parent := by
  have unmet : (diamond.ancestors "Child").found.cycle = false := by decide
  have acyclic : ¬ diamond.CycleReachable .inherits "Child" :=
    mt (walks_correct diamond "Child").1.cycle.mpr (Bool.eq_false_iff.mp unmet)
  exact (walks_correct diamond "Child").2.2.2 acyclic

end PackageGraphIndex

end PerlLsp.PackageGraph
