import PerlLsp.PositionConvert
import PerlLsp.Workspace

/-! Anchors as wire locations: semantic_anchor_wire_location and its batch form in
workspace_index.rs. The shards come in whatever order the hash map lists them. -/
namespace PerlLsp.AnchorLocations
open List hiding getElem?_insert
open Std Tables SemanticFacts Workspace PositionConvert

structure WirePosition where
  line : UInt32
  character : UInt32
  deriving DecidableEq

structure WireRange where
  start : WirePosition
  end_ : WirePosition
  deriving DecidableEq

structure WireLocation where
  uri : String
  range : WireRange
  deriving DecidableEq

theorem offset_converted (text : List Char) (offset : Nat) :
    (offsetToUtf16LineCol text offset).isSome = true := by
  obtain ⟨line, column, _, converted⟩ := convert_offset_located text offset
  rw [converted]
  rfl

def WirePosition.fromByteOffset (source : String) (byteOffset : Nat) : WirePosition :=
  let position := (offsetToUtf16LineCol source.toList byteOffset).get (offset_converted _ _)
  ⟨position.1, position.2⟩

def WireRange.fromByteOffsets (source : String) (startByte endByte : Nat) : WireRange :=
  ⟨.fromByteOffset source startByte, .fromByteOffset source endByte⟩

structure DocumentStore where
  uriKey : String → String
  documents : TreeMap String Document

namespace DocumentStore

def get (store : DocumentStore) (uri : String) : Option Document := store.documents[store.uriKey uri]?

def locate (store : DocumentStore) (shard : FileFactShard) (anchor : AnchorFact) :
    Option WireLocation :=
  (store.get shard.sourceUri).map fun doc =>
    ⟨shard.sourceUri, .fromByteOffsets doc.text anchor.spanStartByte anchor.spanEndByte⟩

/-- The body of the inner loop; `none` is the early return of `None`. -/
def visitAnchor (store : DocumentStore) (shard : FileFactShard) (location : Option WireLocation)
    (anchor : AnchorFact) : Option (Option WireLocation) :=
  if anchor.spanEndByte ≤ anchor.spanStartByte then none
  else
    match store.locate shard anchor with
    | none => none
    | some nextLocation => if location.isSome then none else some (some nextLocation)

def semanticAnchorWireLocation (store : DocumentStore) (shards : List FileFactShard)
    (anchorId : Nat) : Option WireLocation :=
  let location := shards.foldlM (fun location shard =>
    (shard.anchors.filter fun anchor => anchor.id = anchorId).foldlM (store.visitAnchor shard)
      location) none
  location.join

structure Batch where
  claimed : TreeMap Nat Nat
  resolved : TreeMap Nat (Option WireLocation)

def Batch.visitAnchor (store : DocumentStore) (shard : FileFactShard) (batch : Batch)
    (anchor : AnchorFact) : Batch :=
  let count := batch.claimed[anchor.id]?.getD 0 + 1
  let claimed := batch.claimed.insert anchor.id count
  if 1 < count then ⟨claimed, batch.resolved.insert anchor.id none⟩
  else if anchor.spanEndByte ≤ anchor.spanStartByte then
    ⟨claimed, batch.resolved.insert anchor.id none⟩
  else ⟨claimed, batch.resolved.insert anchor.id (store.locate shard anchor)⟩

def semanticAnchorWireLocations (store : DocumentStore) (shards : List FileFactShard)
    (anchorIds : List Nat) : TreeMap Nat (Option WireLocation) :=
  if anchorIds.isEmpty then ∅
  else
    let resolved := anchorIds.foldl (fun (table : TreeMap Nat (Option WireLocation)) id =>
      table.insert id none) ∅
    let batch := shards.foldl (fun batch shard =>
      (shard.anchors.filter fun anchor => anchor.id ∈ anchorIds).foldl (Batch.visitAnchor store shard)
        batch) ⟨∅, resolved⟩
    batch.resolved

def anchorsOf (shards : List FileFactShard) : List (FileFactShard × AnchorFact) :=
  shards.flatMap fun shard => shard.anchors.map fun anchor => (shard, anchor)

def claiming (entries : List (FileFactShard × AnchorFact)) (anchorId : Nat) :
    List (FileFactShard × AnchorFact) :=
  entries.filter fun entry => entry.2.id = anchorId

def resolve (store : DocumentStore) : List (FileFactShard × AnchorFact) → Option WireLocation
  | [entry] =>
    if entry.2.spanEndByte ≤ entry.2.spanStartByte then none
    else store.locate entry.1 entry.2
  | _ => none

variable {batch : Batch} {anchorIds : List Nat} (store : DocumentStore)

theorem resolve_perm {left right : List (FileFactShard × AnchorFact)} (same : left.Perm right) :
    store.resolve left = store.resolve right := by
  match left, right, same with
  | [], right, same => rw [nil_perm.mp same]
  | [entry], right, same => rw [singleton_perm.mp same]
  | first :: second :: rest, right, same =>
    have long := same.length_eq
    match right, long with
    | third :: fourth :: others, _ => rfl

/-- The anchors of one shard after another, as one list. -/
theorem kept_anchors (keep : AnchorFact → Bool) (shard : FileFactShard) (rest : List FileFactShard) :
    ((anchorsOf (shard :: rest)).filter fun entry => keep entry.2) =
      ((shard.anchors.filter keep).map fun anchor => (shard, anchor)) ++
        (anchorsOf rest).filter fun entry => keep entry.2 := by
  rw [anchorsOf, flatMap_cons, ← anchorsOf, filter_append, filter_map]
  rfl

section
variable (keep : AnchorFact → Bool) (shards : List FileFactShard)
include store keep shards

theorem scan_anchors (location : Option WireLocation) : shards.foldlM (fun location shard =>
      (shard.anchors.filter keep).foldlM (store.visitAnchor shard) location) location =
      ((anchorsOf shards).filter fun entry => keep entry.2).foldlM
        (fun location entry => store.visitAnchor entry.1 location entry.2) location := by
  induction shards generalizing location with
  | nil => rfl
  | cons shard rest ih =>
    rw [kept_anchors, foldlM_append, foldlM_map, foldlM_cons]
    apply congrArg
    funext after
    exact ih after

theorem batch_anchors (batch : Batch) : shards.foldl (fun batch shard =>
      (shard.anchors.filter keep).foldl (Batch.visitAnchor store shard) batch) batch =
      ((anchorsOf shards).filter fun entry => keep entry.2).foldl
        (fun batch entry => batch.visitAnchor store entry.1 entry.2) batch := by
  induction shards generalizing batch with
  | nil => rfl
  | cons shard rest ih =>
    rw [kept_anchors, foldl_append, foldl_map, foldl_cons]
    exact ih _

end

/-- A second anchor ends the scan, whatever became of the first. -/
theorem visit_second (shard : FileFactShard) (location : WireLocation) (anchor : AnchorFact) :
    store.visitAnchor shard (some location) anchor = none := by
  rw [visitAnchor]
  split
  · rfl
  · split
    · rfl
    · rfl

theorem scan_resolves (entries : List (FileFactShard × AnchorFact)) :
    (entries.foldlM (fun location entry => store.visitAnchor entry.1 location entry.2)
      none).join = store.resolve entries := by
  match entries with
  | [] => rfl
  | [entry] =>
    rw [foldlM_cons, visitAnchor, resolve]
    split
    · rfl
    · cases store.locate entry.1 entry.2 with
      | none => rfl
      | some location => rfl
  | first :: second :: rest =>
    rw [foldlM_cons, visitAnchor, resolve]
    · split
      · rfl
      cases store.locate first.1 first.2 with
      | none => rfl
      | some location =>
        dsimp only [Option.isSome_none]
        rw [if_neg Bool.false_ne_true]
        have ends := visit_second store second.1 location second.2
        rw [Option.bind_eq_bind, Option.bind_some, foldlM_cons, ends]
        rfl
    · exact fun entry same => by cases same

variable (shards : List FileFactShard)

theorem single_resolves (anchorId : Nat) : store.semanticAnchorWireLocation shards anchorId =
      store.resolve (claiming (anchorsOf shards) anchorId) := by
  rw [semanticAnchorWireLocation, scan_anchors]
  exact store.scan_resolves _

structure Holds (store : DocumentStore) (anchorIds : List Nat)
    (visited : List (FileFactShard × AnchorFact)) (batch : Batch) : Prop where
  claimed : ∀ id : Nat, batch.claimed[id]?.getD 0 = (claiming visited id).length
  resolved : ∀ id : Nat, batch.resolved[id]? =
    if id ∈ anchorIds then some (store.resolve (claiming visited id)) else none

theorem claiming_more (visited : List (FileFactShard × AnchorFact))
    (entry : FileFactShard × AnchorFact) (id : Nat) : claiming (visited ++ [entry]) id =
      claiming visited id ++ if entry.2.id = id then [entry] else [] := by
  rw [claiming, filter_append, filter_cons, filter_nil]
  simp only [decide_eq_true_eq]
  rfl

theorem visited_answer (batch : Batch) (shard : FileFactShard) (anchor : AnchorFact)
    (before : List (FileFactShard × AnchorFact)) (count : batch.claimed[anchor.id]?.getD 0 = before.length) :
    batch.visitAnchor store shard anchor = ⟨batch.claimed.insert anchor.id (before.length + 1),
        batch.resolved.insert anchor.id (store.resolve (before ++ [(shard, anchor)]))⟩ := by
  rw [Batch.visitAnchor, count]
  match before with
  | [] =>
    rw [nil_append, resolve]
    dsimp only [length_nil]
    rw [if_neg (Nat.lt_irrefl 1)]
    split
    · rfl
    · rfl
  | first :: rest =>
    have second : 1 < (first :: rest).length + 1 := by
      rw [length_cons]
      omega
    cases rest with
    | nil => rfl
    | cons other others => rfl

theorem Holds.visit {store : DocumentStore} {visited : List (FileFactShard × AnchorFact)}
    (holds : Holds store anchorIds visited batch) (entry : FileFactShard × AnchorFact)
    (requested : entry.2.id ∈ anchorIds) :
    Holds store anchorIds (visited ++ [entry]) (batch.visitAnchor store entry.1 entry.2) := by
  rw [visited_answer store batch entry.1 entry.2 (claiming visited entry.2.id) (holds.claimed entry.2.id)]
  constructor
  · intro id
    rw [getElem?_insert, claiming_more, length_append]
    by_cases same : entry.2.id = id
    · rw [if_pos same, if_pos same, same]
      rfl
    · rw [if_neg same, if_neg same]
      exact holds.claimed id
  · intro id
    rw [getElem?_insert, claiming_more]
    by_cases same : entry.2.id = id
    · rw [if_pos same, if_pos same, if_pos (same ▸ requested), same]
    · rw [if_neg same, if_neg same, append_nil]
      exact holds.resolved id

theorem Holds.visit_all {store : DocumentStore} (entries visited : List (FileFactShard × AnchorFact))
    (holds : Holds store anchorIds visited batch)
    (requested : ∀ entry ∈ entries, entry.2.id ∈ anchorIds) : Holds store anchorIds (visited ++ entries)
      (entries.foldl (fun batch entry => batch.visitAnchor store entry.1 entry.2) batch) := by
  induction entries generalizing visited batch with
  | nil =>
    rw [append_nil]
    exact holds
  | cons entry rest ih =>
    obtain ⟨first, later⟩ := forall_mem_cons.mp requested
    rw [append_cons]
    exact ih (visited ++ [entry]) (holds.visit entry first) later

theorem all_unresolved (anchorIds : List Nat) (table : TreeMap Nat (Option WireLocation)) (id : Nat) :
    (anchorIds.foldl (fun (table : TreeMap Nat (Option WireLocation)) id =>
      table.insert id none) table)[id]? =
      if id ∈ anchorIds then some none else table[id]? := by
  induction anchorIds generalizing table with
  | nil => rfl
  | cons first rest ih =>
    rw [foldl_cons, ih, getElem?_insert]
    by_cases among : id ∈ rest
    · rw [if_pos among, if_pos (mem_cons_of_mem first among)]
    by_cases same : first = id
    · rw [if_neg among, if_pos same, if_pos (mem_cons.mpr (.inl same.symm))]
    · rw [if_neg among, if_neg same, if_neg fun either =>
        (mem_cons.mp either).elim (fun equal => same equal.symm) among]

theorem batch_resolves (anchorIds : List Nat) (id : Nat) :
    (store.semanticAnchorWireLocations shards anchorIds)[id]? =
      if id ∈ anchorIds then some (store.resolve (claiming (anchorsOf shards) id)) else none := by
  cases anchorIds with
  | nil => exact TreeMap.getElem?_emptyc
  | cons first others =>
    have start : Holds store (first :: others) [] ⟨∅, (first :: others).foldl
        (fun (table : TreeMap Nat (Option WireLocation)) id => table.insert id none) ∅⟩ := by
      constructor
      · intro id
        rw [TreeMap.getElem?_emptyc]
        rfl
      · intro id
        dsimp only
        rw [all_unresolved, TreeMap.getElem?_emptyc]
        rfl
    let keep (anchor : AnchorFact) : Bool := anchor.id ∈ first :: others
    have holds := start.visit_all ((anchorsOf shards).filter fun entry => keep entry.2) [] (by
      intro entry inside
      exact of_decide_eq_true (mem_filter.mp inside).2)
    rw [nil_append, ← batch_anchors store keep] at holds
    have answer := holds.resolved id
    rw [semanticAnchorWireLocations, isEmpty_cons, if_neg Bool.false_ne_true]
    apply answer.trans
    split
    next among =>
      rw [claiming, filter_filter, claiming]
      congr 2
      apply filter_congr
      intro entry _
      by_cases same : entry.2.id = id
      · have kept : keep entry.2 = true := decide_eq_true (same ▸ among)
        rw [kept, Bool.and_true]
      · rw [decide_eq_false same, Bool.false_and]
    · rfl

/-- Whatever the order of the shards, the batch answers each requested identifier as the single form
does, and no other. -/
theorem batch_agrees (store : DocumentStore) (shards others : List FileFactShard)
    (same : shards.Perm others) (anchorIds : List Nat) (id : Nat) :
    (store.semanticAnchorWireLocations shards anchorIds)[id]? =
        (if id ∈ anchorIds then some (store.semanticAnchorWireLocation shards id) else none) ∧
      store.semanticAnchorWireLocation shards id = store.semanticAnchorWireLocation others id ∧
      (store.semanticAnchorWireLocations shards anchorIds)[id]? =
        (store.semanticAnchorWireLocations others anchorIds)[id]? := by
  have entries : (claiming (anchorsOf shards) id).Perm (claiming (anchorsOf others) id) :=
    (same.flatMap_right _).filter _
  rw [batch_resolves, batch_resolves, single_resolves, single_resolves, store.resolve_perm entries]
  exact ⟨rfl, rfl, rfl⟩

def anchorShard (uri : String) (anchor : AnchorFact) : FileFactShard :=
  ⟨uri, anchor.fileId, 0, producerSchemaVersion, none, none, none, none, [anchor], [], [], []⟩

/-- An identifier that two files claim, one of them by an empty span. -/
theorem batch_agrees_claimed_twice :
    let store : DocumentStore :=
      ⟨id, (∅ : TreeMap String Document).insert "file:///a.pm" ⟨"file:///a.pm", 1, "sub f {}"⟩⟩
    let whole := anchorShard "file:///a.pm" ⟨7, 1, 0, 5, none, .exactAst, .high⟩
    let empty := anchorShard "file:///b.pm" ⟨7, 2, 3, 3, none, .exactAst, .high⟩
    (store.semanticAnchorWireLocations [whole, empty] [7])[7]? =
        (if 7 ∈ [7] then some (store.semanticAnchorWireLocation [whole, empty] 7) else none) ∧
      store.semanticAnchorWireLocation [whole, empty] 7 =
        store.semanticAnchorWireLocation [empty, whole] 7 ∧
      (store.semanticAnchorWireLocations [whole, empty] [7])[7]? =
        (store.semanticAnchorWireLocations [empty, whole] [7])[7]? :=
  batch_agrees _ _ _ (List.Perm.swap _ _ []) [7] 7

end DocumentStore

end PerlLsp.AnchorLocations
