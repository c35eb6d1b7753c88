import PerlLsp.PackageGraph
import Mathlib.Data.List.Induction
import Mathlib.Data.List.Nodup

/-! The nodes of the package graph: what rebuild_node_metadata of
semantic/package_graph.rs makes of the edges of the live files, when further edges leave
it as it is, and when the order of the files does not matter. -/
namespace PerlLsp.PackageGraph
open Std Tables Buckets SemanticFacts List PackageGraphIndex

abbrev Row := PackageEdge × Nat

abbrev Contribution := String × Nat × List PackageEdge

abbrev Latest := String → Option (Nat × List PackageEdge)

def rowsOf (files : List Contribution) : List Row :=
  files.flatMap fun file => file.2.2.map fun edge => (edge, file.2.1)

/-- What rebuild_node_metadata keeps for a package that edges leave. -/
def sourceMeta (rows : List Row) (package : String) : Option (PackageKind × Option Nat × Nat) :=
  (rows.filter fun row => row.1.fromPackage = package).foldl
    (fun found row => some (improveSource row.1 row.2 found)) none

def targetMeta (rows : List Row) (package : String) : Option PackageKind :=
  (rows.filter fun row => row.1.toPackage = package).foldl
    (fun found row => some (improveTarget row.1 found)) none

def sourceNode (package : String) (known : PackageKind × Option Nat × Nat) : PackageNode :=
  ⟨0, package, known.1, known.2.1, some known.2.2⟩

def targetNode (package : String) (kind : PackageKind) : PackageNode :=
  ⟨0, package, kind, none, none⟩

def nodeOf (rows : List Row) (package : String) : Option PackageNode :=
  match sourceMeta rows package with
  | some known => some (sourceNode package known)
  | none => (targetMeta rows package).map (targetNode package)

def Lists (files : List Contribution) (latest : Latest) : Prop :=
  (files.map Prod.fst).Nodup ∧
    ∀ sourceUri contribution, (sourceUri, contribution) ∈ files ↔
      latest sourceUri = some contribution

def put (latest : Latest) (sourceUri : String) (contribution : Option (Nat × List PackageEdge)) :
    Latest :=
  fun other => if other = sourceUri then contribution else latest other

theorem put_put (latest : Latest) (sourceUri : String) (earlier later : Option (Nat × List PackageEdge)) :
    put (put latest sourceUri earlier) sourceUri later = put latest sourceUri later := by
  funext other
  rw [put, put, put]
  split
  · rfl
  · rfl

variable {others : List Contribution} {known : SourceMeta} {package : String}

theorem Lists.perm (lists : Lists files latest) (same : files.Perm others) : Lists others latest :=
  ⟨((same.map Prod.fst).nodup_iff).mp lists.1,
    fun sourceUri contribution => same.mem_iff.symm.trans (lists.2 sourceUri contribution)⟩

theorem Lists.nodup (lists : Lists files latest) : files.Nodup :=
  List.Nodup.of_map Prod.fst lists.1

theorem Lists.unique (left : Lists files latest) (right : Lists others latest) : files.Perm others := by
  apply (perm_ext_iff_of_nodup left.nodup right.nodup).mpr
  rintro ⟨sourceUri, contribution⟩
  rw [left.2, right.2]

section
variable {files : List Contribution} {latest : Latest} {sourceUri : String}
    {contribution : Nat × List PackageEdge}
include files latest sourceUri contribution

theorem Lists.cons (lists : Lists files latest) (absent : latest sourceUri = none) :
    Lists ((sourceUri, contribution) :: files) (put latest sourceUri (some contribution)) := by
  constructor
  · apply nodup_cons.mpr ⟨?_, lists.1⟩
    intro among
    obtain ⟨⟨other, edges⟩, there, same⟩ := mem_map.mp among
    cases same
    rw [(lists.2 _ _).mp there] at absent
    cases absent
  · intro other edges
    rw [mem_cons, lists.2, put]
    by_cases same : other = sourceUri
    · subst same
      rw [if_pos rfl, absent, Prod.mk.injEq, Option.some.injEq]
      constructor
      · rintro (⟨_, equal⟩ | none)
        · exact equal.symm
        · cases none
      · exact fun equal => .inl ⟨rfl, equal.symm⟩
    · rw [if_neg same]
      exact or_iff_right fun equal => same (congrArg Prod.fst equal)

theorem Lists.erased (lists : Lists files (put latest sourceUri none))
    (live : latest sourceUri = some contribution) : Lists ((sourceUri, contribution) :: files) latest := by
  have absent : put latest sourceUri none sourceUri = none := if_pos rfl
  have whole : put (put latest sourceUri none) sourceUri (some contribution) = latest := by
    funext other
    rw [put, put]
    by_cases same : other = sourceUri
    · rw [if_pos same, same, live]
    · rw [if_neg same, if_neg same]
  exact whole ▸ lists.cons absent

end

variable {contribution : Nat × List PackageEdge} {sourceUri : String}

theorem put_absent (absent : latest sourceUri = none) : put latest sourceUri none = latest := by
  funext other
  rw [put]
  by_cases same : other = sourceUri
  · rw [if_pos same, same, absent]
  · rw [if_neg same]

def PackageGraphIndex.firstMention (fileId : Nat) (package : String) : List PackageEdge → Option PackageNode
  | [] => none
  | edge :: rest =>
    if edge.fromPackage = package then
      some (sourceNode package (edge.sourceKind, edge.anchorId, fileId))
    else if edge.toPackage = package then some (targetNode package edge.targetKind)
    else firstMention fileId package rest

def FitsSource (node : PackageNode) (edge : PackageEdge) (fileId : Nat) : Prop :=
  ∃ owner, node.fileId = some owner ∧ owner ≤ fileId ∧
    (edge.sourceKind = .class_ → node.kind = .class_) ∧
    (fileId = owner → node.anchorId = none → edge.anchorId = none)

def FitsTarget (node : PackageNode) (edge : PackageEdge) : Prop :=
  node.fileId = none → edge.targetKind = .role → node.kind = .role

abbrev SourceMeta := PackageKind × Option Nat × Nat

structure Improves (before after : SourceMeta) : Prop where
  kind : after.1 = before.1 ∨ after.1 = .class_
  owner : after.2.2 ≤ before.2.2
  anchor : after.2.2 = before.2.2 → before.2.1 ≠ none → after.2.1 = before.2.1

theorem Improves.trans {first middle last : SourceMeta} (left : Improves first middle)
    (right : Improves middle last) : Improves first last where
  kind := by
    rcases right.kind with same | class_
    · exact same ▸ left.kind
    · exact .inr class_
  owner := Nat.le_trans right.owner left.owner
  anchor := by
    intro same known
    have middleOwner : middle.2.2 = first.2.2 :=
      Nat.le_antisymm left.owner (same ▸ right.owner)
    have kept := left.anchor middleOwner known
    exact (right.anchor (same.trans middleOwner.symm) (kept ▸ known)).trans kept

theorem Improves.antisymm {left right : SourceMeta} (up : Improves left right)
    (down : Improves right left) : left = right := by
  have owners : left.2.2 = right.2.2 := Nat.le_antisymm down.owner up.owner
  have kinds : left.1 = right.1 := by
    rcases up.kind with same | class_
    · exact same.symm
    · rcases down.kind with same | other
      · exact same
      · rw [class_, other]
  have anchors : left.2.1 = right.2.1 := by
    cases known : left.2.1 with
    | some anchor =>
      rw [← known, up.anchor owners.symm (by rw [known]; nofun)]
    | none =>
      cases other : right.2.1 with
      | none => rfl
      | some anchor =>
        have same := down.anchor owners (by rw [other]; nofun)
        rw [known, other] at same
        exact same
  exact Prod.ext kinds (Prod.ext anchors owners)

namespace PackageGraphIndex
variable (package : String) (rows : List Row) (edge : PackageEdge) (fileId : Nat)
  (known : SourceMeta)

theorem improve_source_improves : Improves known (improveSource edge fileId (some known)) := by
  obtain ⟨kind, anchor, owner⟩ := known
  rw [improveSource]
  have kinds : (if edge.sourceKind = .class_ then PackageKind.class_ else kind) = kind ∨
      (if edge.sourceKind = .class_ then PackageKind.class_ else kind) = .class_ := by
    split
    · exact .inr rfl
    · exact .inl rfl
  split
  next less => exact ⟨kinds, Nat.le_of_lt less, fun same => absurd same (Nat.ne_of_lt less)⟩
  · split
    next both => exact ⟨kinds, Nat.le_refl _, fun _ some => absurd both.2 some⟩
    · exact ⟨kinds, Nat.le_refl _, fun _ _ => rfl⟩

theorem improve_source_fixed : improveSource edge fileId (some known) = known ↔
      FitsSource (sourceNode package known) edge fileId := by
  obtain ⟨kind, anchor, owner⟩ := known
  have kinds : (if edge.sourceKind = .class_ then PackageKind.class_ else kind) = kind ↔
      (edge.sourceKind = .class_ → kind = .class_) := by
    split
    next class_ => exact ⟨fun same _ => same.symm, fun all => (all class_).symm⟩
    next other => exact ⟨fun _ class_ => absurd class_ other, fun _ => rfl⟩
  have fits : FitsSource (sourceNode package (kind, anchor, owner)) edge fileId ↔
      owner ≤ fileId ∧ (edge.sourceKind = .class_ → kind = .class_) ∧
        (fileId = owner → anchor = none → edge.anchorId = none) := by
    constructor
    · rintro ⟨_, same, rest⟩
      cases same
      exact rest
    · exact fun rest => ⟨owner, rfl, rest⟩
  rw [fits, improveSource]
  split
  next less =>
    constructor
    · intro same
      exact absurd (congrArg (fun known : SourceMeta => known.2.2) same) (Nat.ne_of_lt less)
    · exact fun rest => absurd less (Nat.not_lt_of_ge rest.1)
  next notLess =>
    split
    next both =>
      rw [Prod.mk.injEq, Prod.mk.injEq, kinds, both.2]
      constructor
      · rintro ⟨kept, anchorless, _⟩
        exact ⟨Nat.le_of_not_lt notLess, kept, fun _ _ => anchorless⟩
      · rintro ⟨_, kept, anchorless⟩
        exact ⟨kept, anchorless both.1 rfl, rfl⟩
    next apart =>
      rw [Prod.mk.injEq, kinds]
      constructor
      · rintro ⟨kept, _⟩
        exact ⟨Nat.le_of_not_lt notLess, kept, fun same none => absurd ⟨same, none⟩ apart⟩
      · rintro ⟨_, kept, _⟩
        exact ⟨kept, rfl⟩

theorem fold_source_fixed :
    rows.foldl (fun found row => some (improveSource row.1 row.2 found)) (some known) = some known ↔
      ∀ row ∈ rows, FitsSource (sourceNode package known) row.1 row.2 := by
  have climbs (rows : List Row) (known : SourceMeta) : ∃ after, Improves known after ∧
      rows.foldl (fun found row => some (improveSource row.1 row.2 found)) (some known) = some after := by
    induction rows generalizing known with
    | nil => exact ⟨known, ⟨.inl rfl, Nat.le_refl _, fun _ _ => rfl⟩, rfl⟩
    | cons row rest ih =>
      obtain ⟨after, improves, same⟩ := ih (improveSource row.1 row.2 (some known))
      exact ⟨after, (improve_source_improves row.1 row.2 known).trans improves, same⟩
  induction rows with
  | nil => exact ⟨fun _ _ none => absurd none not_mem_nil, fun _ => rfl⟩
  | cons row rest ih =>
    rw [foldl_cons, forall_mem_cons]
    apply Iff.trans ?_ (and_congr (improve_source_fixed package row.1 row.2 known) ih)
    constructor
    · intro back
      obtain ⟨after, improves, same⟩ := climbs rest (improveSource row.1 row.2 (some known))
      have returned : after = known := Option.some.inj (same.symm.trans back)
      have fixed : improveSource row.1 row.2 (some known) = known :=
        ((improve_source_improves row.1 row.2 known).antisymm (returned ▸ improves)).symm
      rw [fixed] at back
      exact ⟨fixed, back⟩
    · rintro ⟨fixed, back⟩
      rw [fixed]
      exact back

variable (kind : PackageKind)

theorem improve_target_fixed :
    improveTarget edge (some kind) = kind ↔ FitsTarget (targetNode package kind) edge := by
  rw [improveTarget]
  split
  next role => exact ⟨fun same _ _ => same.symm, fun all => (all rfl role).symm⟩
  next other => exact ⟨fun _ _ role => absurd role other, fun _ => rfl⟩

theorem fold_target_fixed :
    rows.foldl (fun found row => some (improveTarget row.1 found)) (some kind) = some kind ↔
      ∀ row ∈ rows, FitsTarget (targetNode package kind) row.1 := by
  have climbs (rows : List Row) : ∀ kind : PackageKind,
      rows.foldl (fun found row => some (improveTarget row.1 found)) (some kind) = some kind ∨
        rows.foldl (fun found row => some (improveTarget row.1 found)) (some kind) = some .role := by
    induction rows with
    | nil => exact fun _ => .inl rfl
    | cons row rest ih =>
      intro kind
      rw [foldl_cons, improveTarget]
      split
      · exact .inr ((ih .role).elim id id)
      · exact ih kind
  induction rows with
  | nil => exact ⟨fun _ _ none => absurd none not_mem_nil, fun _ => rfl⟩
  | cons row rest ih =>
    rw [foldl_cons, forall_mem_cons]
    apply Iff.trans ?_ (and_congr (improve_target_fixed package row.1 kind) ih)
    rw [improveTarget]
    split
    · constructor
      · intro back
        have role : kind = .role :=
          Option.some.inj (back.symm.trans ((climbs rest .role).elim id id))
        rw [role] at back ⊢
        exact ⟨rfl, back⟩
      · rintro ⟨same, back⟩
        rw [same]
        exact back
    · exact ⟨fun back => ⟨rfl, back⟩, And.right⟩

end PackageGraphIndex

def Absorbs (node : Option PackageNode) (fileId : Nat) (edges : List PackageEdge)
    (package : String) : Prop :=
  ∀ edge ∈ edges,
    (edge.fromPackage = package → ∃ known, node = some known ∧ FitsSource known edge fileId) ∧
    (edge.toPackage = package → ∃ known, node = some known ∧ FitsTarget known edge)

def tagged (fileId : Nat) (edges : List PackageEdge) : List Row :=
  edges.map fun edge => (edge, fileId)

variable (edges : List PackageEdge) (rows : List Row)

theorem source_meta_append (more : List Row) (package : String) :
    sourceMeta (rows ++ more) package = (more.filter fun row => row.1.fromPackage = package).foldl
        (fun found row => some (improveSource row.1 row.2 found))
        (sourceMeta rows package) := by
  rw [sourceMeta, filter_append, foldl_append]
  rfl

theorem target_meta_append (more : List Row) (package : String) :
    targetMeta (rows ++ more) package = (more.filter fun row => row.1.toPackage = package).foldl
        (fun found row => some (improveTarget row.1 found))
        (targetMeta rows package) := by
  rw [targetMeta, filter_append, foldl_append]
  rfl

theorem fold_some {Item Value : Type} (improve : Item → Option Value → Value) (items : List Item)
    (value : Value) :
    ∃ after, items.foldl (fun found item => some (improve item found)) (some value) = some after := by
  induction items generalizing value with
  | nil => exact ⟨value, rfl⟩
  | cons item rest ih => exact ih _

theorem source_meta_none (package : String) :
    sourceMeta rows package = none ↔ ∀ row ∈ rows, row.1.fromPackage ≠ package := by
  rw [sourceMeta]
  cases kept : rows.filter fun row => row.1.fromPackage = package with
  | nil =>
    apply iff_of_true rfl
    intro row among same
    exact filter_eq_nil_iff.mp kept row among (decide_eq_true same)
  | cons row rest =>
    rw [foldl_cons]
    obtain ⟨after, found⟩ := fold_some (fun row : Row => improveSource row.1 row.2) rest
      (improveSource row.1 row.2 none)
    rw [found]
    have inside : row ∈ rows.filter fun row => row.1.fromPackage = package :=
      kept ▸ mem_cons_self
    obtain ⟨among, same⟩ := mem_filter.mp inside
    exact iff_of_false (Option.some_ne_none after) fun all =>
      all row among (of_decide_eq_true same)

variable (fileId : Nat)

theorem absorbs_source (edges : List PackageEdge) (package : String) (known : SourceMeta)
    (found : sourceMeta rows package = some known) :
    nodeOf (rows ++ tagged fileId edges) package = some (sourceNode package known) ↔
      Absorbs (some (sourceNode package known)) fileId edges package := by
  have fixed := fold_source_fixed package
    ((tagged fileId edges).filter fun row => row.1.fromPackage = package) known
  have grown := source_meta_append rows (tagged fileId edges) package
  rw [found] at grown
  rw [← grown] at fixed
  have same : nodeOf (rows ++ tagged fileId edges) package = some (sourceNode package known) ↔
      sourceMeta (rows ++ tagged fileId edges) package = some known := by
    obtain ⟨after, reached⟩ := fold_some (fun row : Row => improveSource row.1 row.2)
      ((tagged fileId edges).filter fun row => row.1.fromPackage = package) known
    rw [nodeOf, grown, reached, Option.some.injEq, Option.some.injEq]
    constructor
    · intro equal
      have parts := PackageNode.mk.inj equal
      exact Prod.ext parts.2.2.1 (Prod.ext parts.2.2.2.1 (Option.some.inj parts.2.2.2.2))
    · intro equal
      rw [equal]
  rw [same, fixed]
  constructor
  · intro fits edge among
    constructor
    · intro from_
      refine ⟨_, rfl, fits (edge, fileId) ?_⟩
      exact mem_filter.mpr ⟨mem_map_of_mem among, decide_eq_true from_⟩
    · intro _
      exact ⟨_, rfl, fun none => absurd none (Option.some_ne_none _)⟩
  · intro absorbs row inside
    obtain ⟨listed, from_⟩ := mem_filter.mp inside
    obtain ⟨edge, among, rfl⟩ := mem_map.mp listed
    obtain ⟨node, is, fits⟩ := (absorbs edge among).1 (of_decide_eq_true from_)
    cases is
    exact fits

theorem absorbs_target (edges : List PackageEdge) (package : String) (kind : PackageKind)
    (unsourced : sourceMeta rows package = none) (found : targetMeta rows package = some kind) :
    nodeOf (rows ++ tagged fileId edges) package = some (targetNode package kind) ↔
      Absorbs (some (targetNode package kind)) fileId edges package := by
  have fixed := fold_target_fixed package
    ((tagged fileId edges).filter fun row => row.1.toPackage = package) kind
  have grown := target_meta_append rows (tagged fileId edges) package
  rw [found] at grown
  rw [← grown] at fixed
  have sourceless := source_meta_none (rows ++ tagged fileId edges) package
  cases left : sourceMeta (rows ++ tagged fileId edges) package with
  | some known =>
    apply iff_of_false
    · intro same
      rw [nodeOf, left] at same
      have parts := PackageNode.mk.inj (Option.some.inj same)
      exact Option.some_ne_none _ parts.2.2.2.2
    · intro absorbs
      rw [left] at sourceless
      apply absurd (sourceless.mpr ?_) (Option.some_ne_none known)
      intro row among same
      rcases mem_append.mp among with before | listed
      · exact (source_meta_none rows package).mp unsourced row before same
      obtain ⟨edge, there, rfl⟩ := mem_map.mp listed
      obtain ⟨node, is, owner, has, _⟩ := (absorbs edge there).1 same
      cases is
      cases has
  | none =>
    have none := sourceless.mp left
    have same : nodeOf (rows ++ tagged fileId edges) package = some (targetNode package kind) ↔
        targetMeta (rows ++ tagged fileId edges) package = some kind := by
      obtain ⟨after, reached⟩ := fold_some (fun row : Row => improveTarget row.1)
        ((tagged fileId edges).filter fun row => row.1.toPackage = package) kind
      rw [nodeOf, left, grown, reached, Option.map_some, Option.some.injEq, Option.some.injEq]
      constructor
      · exact fun equal => (PackageNode.mk.inj equal).2.2.1
      · intro equal
        rw [equal]
    rw [same, fixed]
    constructor
    · intro fits edge among
      have listed : (edge, fileId) ∈ tagged fileId edges := mem_map_of_mem among
      constructor
      · exact fun from_ => absurd from_ (none _ (mem_append_right rows listed))
      · intro leads
        exact ⟨_, rfl, fits _ (mem_filter.mpr ⟨listed, decide_eq_true leads⟩)⟩
    · intro absorbs row inside
      obtain ⟨listed, leads⟩ := mem_filter.mp inside
      obtain ⟨edge, among, rfl⟩ := mem_map.mp listed
      obtain ⟨node, is, fits⟩ := (absorbs edge among).2 (of_decide_eq_true leads)
      cases is
      exact fits

theorem absorbs_cons (node : Option PackageNode) (fileId : Nat) (edge : PackageEdge)
    (rest : List PackageEdge) (package : String)
    (first : (edge.fromPackage = package → ∃ known, node = some known ∧ FitsSource known edge fileId) ∧
      (edge.toPackage = package → ∃ known, node = some known ∧ FitsTarget known edge)) :
    Absorbs node fileId (edge :: rest) package ↔ Absorbs node fileId rest package :=
  forall_mem_cons.trans (and_iff_right first)

theorem absorbs_first (package : String) (unsourced : sourceMeta rows package = none)
    (untargeted : targetMeta rows package = none) :
    nodeOf (rows ++ tagged fileId edges) package = firstMention fileId package edges ↔
      Absorbs (firstMention fileId package edges) fileId edges package := by
  induction edges generalizing rows with
  | nil =>
    apply iff_of_true
    · rw [tagged, map_nil, append_nil, nodeOf, unsourced, untargeted]
      rfl
    · exact fun _ none => absurd none not_mem_nil
  | cons edge rest ih =>
    have moved : rows ++ tagged fileId (edge :: rest) =
        (rows ++ [(edge, fileId)]) ++ tagged fileId rest := by
      rw [append_assoc]
      rfl
    have sources := source_meta_append rows [(edge, fileId)] package
    have targets := target_meta_append rows [(edge, fileId)] package
    rw [unsourced] at sources
    rw [untargeted] at targets
    rw [moved, firstMention]
    by_cases leaves : edge.fromPackage = package
    · rw [filter_cons_of_pos (by exact decide_eq_true leaves)] at sources
      rw [if_pos leaves, absorbs_cons]
      · exact absorbs_source _ fileId rest package _ sources
      · constructor
        · intro _
          exact ⟨_, rfl, fileId, rfl, Nat.le_refl _, fun class_ => class_, fun _ none => none⟩
        · intro _
          exact ⟨_, rfl, fun none => absurd none (Option.some_ne_none _)⟩
    · rw [filter_cons_of_neg (by exact fun yes => leaves (of_decide_eq_true yes))] at sources
      rw [if_neg leaves]
      by_cases leads : edge.toPackage = package
      · rw [filter_cons_of_pos (by exact decide_eq_true leads)] at targets
        rw [if_pos leads, absorbs_cons]
        · exact absorbs_target _ fileId rest package _ sources targets
        · constructor
          · exact fun yes => absurd yes leaves
          · intro _
            exact ⟨_, rfl, fun _ role => role⟩
      · rw [filter_cons_of_neg (by exact fun yes => leads (of_decide_eq_true yes))] at targets
        rw [if_neg leads, absorbs_cons]
        · exact ih _ sources targets
        · exact ⟨fun yes => absurd yes leaves, fun yes => absurd yes leads⟩

/-- Adding edges to a package's node, or making it from the first of them, gives what a rebuild
gives exactly when all of them fit. -/
theorem absorbs_iff (package : String) : nodeOf (rows ++ tagged fileId edges) package =
        (nodeOf rows package).or (firstMention fileId package edges) ↔
      Absorbs ((nodeOf rows package).or (firstMention fileId package edges)) fileId edges package := by
  cases sourced : sourceMeta rows package with
  | some known =>
    have node : nodeOf rows package = some (sourceNode package known) := by
      rw [nodeOf, sourced]
    rw [node]
    exact absorbs_source rows fileId edges package known sourced
  | none =>
    cases targeted : targetMeta rows package with
    | some kind =>
      have node : nodeOf rows package = some (targetNode package kind) := by
        rw [nodeOf, sourced, targeted]
        rfl
      rw [node]
      exact absorbs_target rows fileId edges package kind sourced targeted
    | none =>
      have node : nodeOf rows package = none := by
        rw [nodeOf, sourced, targeted]
        rfl
      rw [node]
      exact absorbs_first edges rows fileId package sourced targeted

structure Summary (rows : List Row) (known : SourceMeta) : Prop where
  kind : known.1 =
    if rows.any fun row => row.1.sourceKind = .class_ then PackageKind.class_ else .package
  attained : ∃ row ∈ rows, row.2 = known.2.2
  least : ∀ row ∈ rows, known.2.2 ≤ row.2
  anchor : known.2.1 = (rows.filter fun row => row.2 = known.2.2).findSome? (·.1.anchorId)

theorem source_kind_cases (edge : PackageEdge) :
    edge.sourceKind = if edge.sourceKind = .class_ then PackageKind.class_ else .package := by
  rw [PackageEdge.sourceKind]
  cases edge.kind with
  | inherits => rfl
  | composesRole => rfl
  | dependsOn => rfl

theorem Summary.single (row : Row) : Summary [row] (improveSource row.1 row.2 none) where
  kind := by
    rw [any_cons, any_nil, Bool.or_false]
    simp only [decide_eq_true_eq]
    exact source_kind_cases row.1
  attained := ⟨row, mem_singleton.mpr rfl, rfl⟩
  least := by
    intro other same
    rw [mem_singleton.mp same]
    exact Nat.le_refl _
  anchor := by
    rw [filter_cons_of_pos (by exact decide_eq_true rfl), filter_nil, findSome?_cons]
    rw [improveSource]
    cases row.1.anchorId with
    | none => rfl
    | some anchor => rfl

theorem Summary.more {rows : List Row} (summary : Summary rows known) (row : Row) :
    Summary (rows ++ [row]) (improveSource row.1 row.2 (some known)) := by
  obtain ⟨kind, anchor, owner⟩ := known
  have kinds : (if row.1.sourceKind = .class_ then PackageKind.class_ else kind) =
      if (rows ++ [row]).any fun row => row.1.sourceKind = .class_ then PackageKind.class_
      else .package := by
    have before : kind = _ := summary.kind
    rw [any_append, any_cons, any_nil, Bool.or_false, before]
    by_cases class_ : row.1.sourceKind = .class_
    · rw [if_pos class_, decide_eq_true class_, Bool.or_true]
      rfl
    · rw [if_neg class_, decide_eq_false class_, Bool.or_false]
  have filtered (number : Nat) : (rows ++ [row]).filter (fun row => row.2 = number) =
      rows.filter (fun row => row.2 = number) ++ if row.2 = number then [row] else [] := by
    rw [filter_append, filter_cons, filter_nil]
    simp only [decide_eq_true_eq]
  have least := summary.least
  have anchors : anchor = _ := summary.anchor
  obtain ⟨first, among, is⟩ := summary.attained
  have sole (row : Row) : [row].findSome? (·.1.anchorId) = row.1.anchorId := by
    rw [findSome?_cons]
    cases row.1.anchorId with
    | none => rfl
    | some anchor => rfl
  rw [improveSource]
  split
  next less =>
    have none : rows.filter (fun other => other.2 = row.2) = [] := by
      apply filter_eq_nil_iff.mpr
      intro other inside same
      have above := least other inside
      rw [of_decide_eq_true same] at above
      exact Nat.not_le_of_lt less above
    refine ⟨kinds, ⟨row, mem_append_right _ (mem_singleton.mpr rfl), rfl⟩, ?_, ?_⟩
    · intro other inside
      rcases mem_append.mp inside with before | same
      · exact Nat.le_of_lt (Nat.lt_of_lt_of_le less (least other before))
      · rw [mem_singleton.mp same]
    · rw [filtered, none, if_pos rfl, nil_append, sole]
  next notLess =>
    have leastAll (other : Row) (inside : other ∈ rows ++ [row]) : owner ≤ other.2 := by
      rcases mem_append.mp inside with before | same
      · exact least other before
      · rw [mem_singleton.mp same]
        exact Nat.le_of_not_lt notLess
    split
    next both =>
      refine ⟨kinds, ⟨first, mem_append_left _ among, is⟩, leastAll, ?_⟩
      rw [filtered, findSome?_append, ← anchors, both.2, Option.none_or, if_pos both.1, sole]
    next apart =>
      refine ⟨kinds, ⟨first, mem_append_left _ among, is⟩, leastAll, ?_⟩
      rw [filtered, findSome?_append, ← anchors]
      by_cases same : row.2 = owner
      · cases known : anchor with
        | none => exact absurd ⟨same, known⟩ apart
        | some value => rfl
      · rw [if_neg same]
        exact (Option.or_none).symm

theorem summary_of_meta (package : String) (known : SourceMeta)
    (found : sourceMeta rows package = some known) :
    Summary (rows.filter fun row => row.1.fromPackage = package) known := by
  rw [sourceMeta] at found
  generalize (rows.filter fun row => row.1.fromPackage = package) = kept at found ⊢
  induction kept using List.reverseRecOn generalizing known with
  | nil => cases found
  | append_singleton before row ih =>
    rw [foldl_append, foldl_cons] at found
    cases earlier : before.foldl (fun found row => some (improveSource row.1 row.2 found)) none with
    | none =>
      cases found
      have empty : before = [] := by
        cases before with
        | nil => rfl
        | cons first rest =>
          obtain ⟨after, same⟩ := fold_some (fun row : Row => improveSource row.1 row.2) rest
            (improveSource first.1 first.2 none)
          rw [foldl_cons, same] at earlier
          cases earlier
      rw [empty]
      exact .single row
    | some middle =>
      rw [earlier] at found
      cases found
      exact (ih middle earlier).more row

theorem target_meta_eq (package : String) : targetMeta rows package =
      if (rows.filter fun row => row.1.toPackage = package).isEmpty then none
      else some (if (rows.filter fun row => row.1.toPackage = package).any
        fun row => row.1.targetKind = .role then PackageKind.role else .external_) := by
  rw [targetMeta]
  generalize (rows.filter fun row => row.1.toPackage = package) = kept
  induction kept using List.reverseRecOn with
  | nil => rfl
  | append_singleton before row ih =>
    have kinds : row.1.targetKind =
        if row.1.targetKind = .role then PackageKind.role else .external_ := by
      rw [PackageEdge.targetKind]
      cases row.1.kind with
      | inherits => rfl
      | composesRole => rfl
      | dependsOn => rfl
    have filled : (before ++ [row]).isEmpty = false := by
      cases before with
      | nil => rfl
      | cons first rest => rfl
    rw [foldl_append, foldl_cons, foldl_nil, ih, filled, any_append, any_cons, any_nil, Bool.or_false]
    congr 1
    cases before with
    | nil =>
      rw [isEmpty_nil, any_nil, Bool.false_or]
      simp only [decide_eq_true_eq]
      exact kinds
    | cons first rest =>
      rw [isEmpty_cons, if_neg Bool.false_ne_true, improveTarget]
      by_cases role : row.1.targetKind = .role
      · rw [if_pos role, decide_eq_true role, Bool.or_true, if_pos rfl]
      · rw [if_neg role, decide_eq_false role, Bool.or_false]

theorem rows_of_perm (same : files.Perm others) : (rowsOf files).Perm (rowsOf others) := same.flatMap_right _

theorem target_meta_perm {rows others : List Row} (same : rows.Perm others) (package : String) :
    targetMeta rows package = targetMeta others package := by
  have kept := same.filter fun row => row.1.toPackage = package
  rw [target_meta_eq, target_meta_eq, kept.any_eq, kept.isEmpty_eq]

def firstAnchor (edges : List PackageEdge) (package : String) : Option Nat :=
  (edges.filter fun edge => edge.fromPackage = package).findSome? (·.anchorId)

def Leads (latest : Latest) (package : String) (fileId : Nat) : Prop :=
  ∀ sourceUri contribution, latest sourceUri = some contribution →
    (∃ edge ∈ contribution.2, edge.fromPackage = package) → fileId ≤ contribution.1

def OneAnchor (latest : Latest) : Prop :=
  ∀ package left right ours theirs, latest left = some ours → latest right = some theirs →
    Leads latest package ours.1 → Leads latest package theirs.1 →
    ∀ anchor other, firstAnchor ours.2 package = some anchor →
      firstAnchor theirs.2 package = some other → anchor = other

/-- The anchor of a package is the first one its owner gives. -/
theorem anchor_of_files (files : List Contribution) (package : String) (owner : Nat) :
    (((rowsOf files).filter fun row => row.1.fromPackage = package).filter
        fun row => row.2 = owner).findSome? (·.1.anchorId) =
      files.findSome? fun file =>
        if file.2.1 = owner then firstAnchor file.2.2 package else none := by
  induction files with
  | nil => rfl
  | cons file rest ih =>
    rw [rowsOf, flatMap_cons, ← rowsOf, filter_append, filter_append, findSome?_append, ih, findSome?_cons]
    have own : (((file.2.2.map fun edge => (edge, file.2.1)).filter
        fun row : Row => row.1.fromPackage = package).filter
        fun row : Row => row.2 = owner).findSome? (·.1.anchorId) =
        if file.2.1 = owner then firstAnchor file.2.2 package else none := by
      rw [filter_map]
      split
      next same =>
        rw [filter_eq_self.mpr, findSome?_map]
        · rfl
        · intro row inside
          obtain ⟨edge, _, rfl⟩ := mem_map.mp inside
          exact decide_eq_true same
      next apart =>
        rw [filter_eq_nil_iff.mpr]
        · rfl
        · intro row inside its
          obtain ⟨edge, _, rfl⟩ := mem_map.mp inside
          exact apart (of_decide_eq_true its)
    rw [own]
    cases (if file.2.1 = owner then firstAnchor file.2.2 package else none) with
    | none => rfl
    | some anchor => rfl

theorem findSome?_perm {Item Value : Type} {items others : List Item} (same : items.Perm others)
    (pick : Item → Option Value)
    (agree : ∀ left ∈ items, ∀ right ∈ items, ∀ value other, pick left = some value →
      pick right = some other → value = other) : items.findSome? pick = others.findSome? pick := by
  cases found : items.findSome? pick with
  | none =>
    symm
    apply findSome?_eq_none_iff.mpr
    exact fun item among => findSome?_eq_none_iff.mp found item (same.mem_iff.mpr among)
  | some value =>
    obtain ⟨left, here, picked⟩ := exists_of_findSome?_eq_some found
    cases there : others.findSome? pick with
    | none =>
      have none := findSome?_eq_none_iff.mp there left (same.mem_iff.mp here)
      rw [picked] at none
      cases none
    | some other =>
      obtain ⟨right, among, also⟩ := exists_of_findSome?_eq_some there
      rw [agree left here right (same.mem_iff.mpr among) value other picked also]

/-- Who owns a package: the file of least identifier among those with an edge from it. -/
theorem owner_leads (lists : Lists files latest)
    (found : sourceMeta (rowsOf files) package = some known) : Leads latest package known.2.2 := by
  intro sourceUri contribution live
  rintro ⟨edge, among, leaves⟩
  apply (summary_of_meta _ package known found).least (edge, contribution.1)
  have listed : (edge, contribution.1) ∈ rowsOf files := mem_flatMap.mpr
    ⟨(sourceUri, contribution), (lists.2 _ _).mpr live, mem_map_of_mem among⟩
  exact mem_filter.mpr ⟨listed, by exact decide_eq_true leaves⟩

theorem anchor_found (found : sourceMeta (rowsOf files) package = some known) :
    known.2.1 = files.findSome? fun file =>
      if file.2.1 = known.2.2 then firstAnchor file.2.2 package else none :=
  (summary_of_meta _ package known found).anchor.trans (anchor_of_files files package known.2.2)

theorem owner_unique (lists : Lists files latest) (found : sourceMeta (rowsOf files) package = some known)
    (live : latest sourceUri = some contribution)
    (leaves : ∃ edge ∈ contribution.2, edge.fromPackage = package)
    (leads : Leads latest package contribution.1) : contribution.1 = known.2.2 := by
  apply Nat.le_antisymm
  · obtain ⟨row, inside, is⟩ := (summary_of_meta _ package known found).attained
    obtain ⟨listed, from_⟩ := mem_filter.mp inside
    obtain ⟨file, among, mapped⟩ := mem_flatMap.mp listed
    obtain ⟨edge, there, rfl⟩ := mem_map.mp mapped
    rw [← is]
    exact leads file.1 file.2 ((lists.2 _ _).mp among) ⟨edge, there, of_decide_eq_true from_⟩
  · exact owner_leads lists found sourceUri contribution live leaves

theorem OneAnchor.nodes (one : OneAnchor latest) (lists : Lists files latest)
    (other : Lists others latest) (package : String) :
    nodeOf (rowsOf files) package = nodeOf (rowsOf others) package := by
  have same := lists.unique other
  have rows := rows_of_perm same
  cases found : sourceMeta (rowsOf files) package with
  | none =>
    have none : sourceMeta (rowsOf others) package = none :=
      (source_meta_none _ package).mpr fun row among =>
        (source_meta_none _ package).mp found row (rows.mem_iff.mpr among)
    rw [nodeOf, nodeOf, found, none, target_meta_perm rows]
  | some known =>
    cases there : sourceMeta (rowsOf others) package with
    | none =>
      have none : sourceMeta (rowsOf files) package = none :=
        (source_meta_none _ package).mpr fun row among =>
          (source_meta_none _ package).mp there row (rows.mem_iff.mp among)
      rw [found] at none
      cases none
    | some known' =>
      have left := summary_of_meta _ package known found
      have right := summary_of_meta _ package known' there
      have kept := rows.filter fun row => row.1.fromPackage = package
      have kinds : known.1 = known'.1 := by rw [left.kind, right.kind, kept.any_eq]
      have owners : known.2.2 = known'.2.2 := by
        obtain ⟨row, inside, is⟩ := left.attained
        obtain ⟨row', inside', is'⟩ := right.attained
        apply Nat.le_antisymm
        · exact is' ▸ left.least row' (kept.mem_iff.mpr inside')
        · exact is ▸ right.least row (kept.mem_iff.mp inside)
      have anchors : known.2.1 = known'.2.1 := by
        rw [anchor_found found, anchor_found there, ← owners]
        apply findSome?_perm same
        intro left here right among value other picked also
        have leads := owner_leads lists found
        split at picked
        next its =>
          split at also
          next own =>
            exact one package left.1 right.1 left.2 right.2 ((lists.2 _ _).mp here)
              ((lists.2 _ _).mp among) (its ▸ leads) (own ▸ leads) value other picked also
          · cases also
        · cases picked
      rw [nodeOf, nodeOf, found, there]
      exact congrArg _ (congrArg _ (Prod.ext kinds (Prod.ext anchors owners)))

theorem first_gives_anchor {rest : List Contribution}
    (lists : Lists ((sourceUri, contribution) :: rest) latest) {anchor : Nat}
    (leads : Leads latest package contribution.1)
    (gives : firstAnchor contribution.2 package = some anchor) :
    ∃ node, nodeOf (rowsOf ((sourceUri, contribution) :: rest)) package = some node ∧
      node.anchorId = some anchor := by
  have live := (lists.2 sourceUri contribution).mp mem_cons_self
  obtain ⟨edge, inside, _⟩ := exists_of_findSome?_eq_some gives
  obtain ⟨among, from_⟩ := mem_filter.mp inside
  have leaves : edge.fromPackage = package := of_decide_eq_true from_
  cases found : sourceMeta (rowsOf ((sourceUri, contribution) :: rest)) package with
  | none =>
    have listed : (edge, contribution.1) ∈ rowsOf ((sourceUri, contribution) :: rest) :=
      mem_flatMap.mpr ⟨_, mem_cons_self, mem_map_of_mem among⟩
    exact absurd leaves ((source_meta_none _ package).mp found _ listed)
  | some known =>
    have owner := owner_unique lists found live ⟨edge, among, leaves⟩ leads
    refine ⟨sourceNode package known, by rw [nodeOf, found], ?_⟩
    rw [sourceNode, anchor_found found, findSome?_cons, if_pos owner, gives]

/-- The listings agree on every node exactly when each package has one anchor. -/
theorem one_anchor_iff (lists : Lists files latest) :
    OneAnchor latest ↔ ∀ others, Lists others latest → ∀ package,
      nodeOf (rowsOf files) package = nodeOf (rowsOf others) package := by
  constructor
  · exact fun one others other package => one.nodes lists other package
  · intro agree package left right ours theirs liveLeft liveRight leadsLeft leadsRight anchor
      other gives also
    have gives_first (sourceUri : String) (contribution : Nat × List PackageEdge)
        (live : latest sourceUri = some contribution)
        (leads : Leads latest package contribution.1) (anchor : Nat)
        (gives : firstAnchor contribution.2 package = some anchor) :
        ∃ node, nodeOf (rowsOf files) package = some node ∧ node.anchorId = some anchor := by
      have among := (lists.2 sourceUri contribution).mpr live
      have front := perm_cons_erase among
      rw [agree _ (lists.perm front) package]
      exact first_gives_anchor (lists.perm front) leads gives
    obtain ⟨node, is, has⟩ := gives_first left ours liveLeft leadsLeft anchor gives
    obtain ⟨node', is', has'⟩ := gives_first right theirs liveRight leadsRight other also
    rw [is] at is'
    cases is'
    exact Option.some.inj (has.symm.trans has')

end PerlLsp.PackageGraph
