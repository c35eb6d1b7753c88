import PerlLsp.Checkpoint

/-! The bounded snapshot of a captured value tree, `variables/lexical_snapshot.rs` of perl-dap: one
walk in source order, charged to the node and byte budgets of the whole snapshot and to the limits
of each container and scalar. -/
namespace PerlLsp.LexicalSnapshot
open Utf8 Option
open Checkpoint (saturatingAdd)
open Text (usizeMax)

/-- The limits are `usize` values; the walk depends on it for the count of the nodes only. -/
structure SnapshotBudget where
  maxTotalNodes : Nat
  maxItemsPerContainer : Nat
  maxDepth : Nat
  maxScalarBytes : Nat
  maxTotalBytes : Nat
  countable : maxTotalNodes ≤ usizeMax

inductive TruncationReason where
  | nodeBudgetExhausted
  | containerItemLimit
  | depthLimit
  | scalarByteLimit
  | totalByteLimit
  deriving DecidableEq, Repr

inductive UnavailableReason where
  | tied
  | magical
  | overloadedStringify
  | inspectionFailed
  deriving DecidableEq, Repr

inductive NodeOutcome where
  | complete
  | truncated (reason : TruncationReason)
  | unavailable (reason : UnavailableReason)
  deriving DecidableEq, Repr

structure SourceFlags where
  tied : Bool
  magical : Bool
  overloadedStringify : Bool
  deriving DecidableEq, Repr

def SourceFlags.plain : SourceFlags := ⟨false, false, false⟩

def SourceFlags.forbidsEnumeration (flags : SourceFlags) : Bool := flags.tied || flags.magical

def SourceFlags.forbidsRendering (flags : SourceFlags) : Bool := flags.overloadedStringify

structure SnapshotNode where
  name : List Char
  kindLabel : List Char
  rendered : Option (List Char)
  children : List SnapshotNode
  outcome : NodeOutcome

structure CollectionSnapshot where
  root : SnapshotNode
  totalNodesVisited : Nat
  totalRetainedBytes : Nat
  truncation : Option TruncationReason

structure SourceValue where
  name : List Char
  kindLabel : List Char
  scalarText : Option (List Char)
  flags : SourceFlags
  children : Option (List SourceValue)

def SourceValue.scalar (name text : List Char) : SourceValue :=
  ⟨name, ['s', 'c', 'a', 'l', 'a', 'r'], some text, .plain, none⟩

def SourceValue.container (name kindLabel : List Char) (children : List SourceValue) : SourceValue :=
  ⟨name, kindLabel, none, .plain, some children⟩

structure BudgetCursor where
  budget : SnapshotBudget
  visited : Nat
  renderedBytes : Nat
  truncation : Option TruncationReason

namespace BudgetCursor

def recordTruncation (cursor : BudgetCursor) (reason : TruncationReason) : BudgetCursor :=
  { cursor with truncation := cursor.truncation.or (some reason) }

def visit (cursor : BudgetCursor) : BudgetCursor :=
  { cursor with visited := saturatingAdd cursor.visited 1 }

def chargeBytes (cursor : BudgetCursor) (bytes : Nat) : Bool × BudgetCursor :=
  let projected := saturatingAdd cursor.renderedBytes bytes
  if cursor.budget.maxTotalBytes < projected then
    (false, cursor.recordTruncation .totalByteLimit)
  else (true, { cursor with renderedBytes := projected })

end BudgetCursor

/-- A node that keeps nothing of its value, not even the name. -/
def unretained (reason : TruncationReason) : SnapshotNode := ⟨[], [], none, [], .truncated reason⟩

def labelled (value : SourceValue) (outcome : NodeOutcome) : SnapshotNode :=
  ⟨value.name, value.kindLabel, none, [], outcome⟩

def renderScalar (value : SourceValue) (cursor : BudgetCursor) : SnapshotNode × BudgetCursor :=
  if value.flags.forbidsRendering then
    (labelled value (.unavailable .overloadedStringify), cursor)
  else
    match value.scalarText with
    | none => (labelled value (.unavailable .inspectionFailed), cursor)
    | some text =>
      if cursor.budget.maxScalarBytes < size text then
        (labelled value (.truncated .scalarByteLimit), cursor.recordTruncation .scalarByteLimit)
      else
        match cursor.chargeBytes (size text) with
        | (false, cursor) => (labelled value (.truncated .totalByteLimit), cursor)
        | (true, cursor) =>
          (⟨value.name, value.kindLabel, some text, [], .complete⟩, cursor)

mutual

def buildNode (value : SourceValue) (depth : Nat) (cursor : BudgetCursor) :
    SnapshotNode × BudgetCursor :=
  match value with
  | value@⟨name, kindLabel, _, flags, children⟩ =>
    if cursor.budget.maxTotalNodes ≤ cursor.visited then
      (unretained .nodeBudgetExhausted, cursor.recordTruncation .nodeBudgetExhausted)
    else
      match cursor.visit.chargeBytes (saturatingAdd (size name) (size kindLabel)) with
      | (false, cursor) => (unretained .totalByteLimit, cursor)
      | (true, cursor) =>
        if flags.forbidsEnumeration then
          (labelled value (.unavailable (if flags.tied then .tied else .magical)), cursor)
        else
          match children with
          | none => renderScalar value cursor
          | some sourceChildren =>
            if cursor.budget.maxDepth ≤ depth ∧ sourceChildren ≠ [] then
              (labelled value (.truncated .depthLimit), cursor.recordTruncation .depthLimit)
            else
              let admitted := min sourceChildren.length cursor.budget.maxItemsPerContainer
              let clipped := admitted < sourceChildren.length
              let cursor := if clipped then cursor.recordTruncation .containerItemLimit else cursor
              let outcome := if clipped then some .containerItemLimit else none
              let (nodes, outcome, cursor) :=
                buildChildren sourceChildren admitted (depth + 1) outcome cursor
              (⟨name, kindLabel, none, nodes, outcome.elim .complete .truncated⟩, cursor)

/-- The loop over the first `admitted` children. -/
def buildChildren (children : List SourceValue) (admitted depth : Nat)
    (outcome : Option TruncationReason) (cursor : BudgetCursor) :
    List SnapshotNode × Option TruncationReason × BudgetCursor :=
  match children, admitted with
  | [], _ => ([], outcome, cursor)
  | _ :: _, 0 => ([], outcome, cursor)
  | child :: rest, admitted + 1 =>
    if cursor.budget.maxTotalNodes ≤ cursor.visited then
      ([], outcome.or (some .nodeBudgetExhausted), cursor.recordTruncation .nodeBudgetExhausted)
    else
      let (node, cursor) := buildNode child depth cursor
      let outcome := match node.outcome with
        | .truncated reason => outcome.or (some reason)
        | _ => outcome
      let (nodes, outcome, cursor) := buildChildren rest admitted depth outcome cursor
      (node :: nodes, outcome, cursor)

end

def captureSnapshot (root : SourceValue) (budget : SnapshotBudget) : CollectionSnapshot :=
  let (rootNode, cursor) := buildNode root 0 ⟨budget, 0, 0, none⟩
  ⟨rootNode, cursor.visited, cursor.renderedBytes, cursor.truncation⟩

section Measures

mutual

def SnapshotNode.nodeCount : SnapshotNode → Nat
  | ⟨_, _, _, children, _⟩ => 1 + nodeCounts children

def nodeCounts : List SnapshotNode → Nat
  | [] => 0
  | node :: rest => node.nodeCount + nodeCounts rest

end

mutual

def SnapshotNode.retainedBytes : SnapshotNode → Nat
  | ⟨name, kindLabel, rendered, children, _⟩ =>
    size name + size kindLabel + rendered.elim 0 size + retainedOf children

def retainedOf : List SnapshotNode → Nat
  | [] => 0
  | node :: rest => node.retainedBytes + retainedOf rest

end

def NodeOutcome.truncation : NodeOutcome → Option TruncationReason
  | .truncated reason => some reason
  | _ => none

def nodeAt : SnapshotNode → List Nat → Option SnapshotNode
  | node, [] => some node
  | node, index :: path => node.children[index]?.bind (nodeAt · path)

def valueAt : SourceValue → List Nat → Option SourceValue
  | value, [] => some value
  | value, index :: path =>
    value.children.bind fun children => children[index]?.bind (valueAt · path)

def SourceValue.refusal (value : SourceValue) : Option UnavailableReason :=
  if value.flags.tied then some .tied
  else if value.flags.magical then some .magical
  else if value.children.isSome then none
  else if value.flags.overloadedStringify then some .overloadedStringify
  else if value.scalarText.isNone then some .inspectionFailed
  else none

/-- The node shows the whole value but for what may not be inspected, which it marks. -/
inductive Represents : SourceValue → SnapshotNode → Prop where
  | refused {value : SourceValue} {reason : UnavailableReason} (refuses : value.refusal = some reason) :
      Represents value (labelled value (.unavailable reason))
  | scalar {value : SourceValue} {text : List Char} (admits : value.refusal = none)
      (childless : value.children = none) (captured : value.scalarText = some text) :
      Represents value ⟨value.name, value.kindLabel, some text, [], .complete⟩
  | container {value : SourceValue} {sources : List SourceValue} {nodes : List SnapshotNode}
      (admits : value.refusal = none) (expanded : value.children = some sources)
      (below : List.Forall₂ Represents sources nodes) :
      Represents value ⟨value.name, value.kindLabel, none, nodes, .complete⟩

end Measures

section Cursor

structure BudgetCursor.Within (cursor : BudgetCursor) : Prop where
  nodes : cursor.visited ≤ cursor.budget.maxTotalNodes
  bytes : cursor.renderedBytes ≤ cursor.budget.maxTotalBytes
  usize : cursor.renderedBytes ≤ usizeMax

structure Charged (cursor : BudgetCursor) (nodes bytes : Nat) (cut : Option TruncationReason)
    (after : BudgetCursor) : Prop where
  budget : after.budget = cursor.budget
  visited : after.visited = cursor.visited + nodes
  retained : after.renderedBytes = saturatingAdd cursor.renderedBytes bytes
  truncation : after.truncation = cursor.truncation.or cut

theorem Charged.trans {first second third : BudgetCursor} {nodes nodes' bytes bytes' : Nat}
    {cut cut' : Option TruncationReason} (left : Charged first nodes bytes cut second)
    (right : Charged second nodes' bytes' cut' third) :
    Charged first (nodes + nodes') (bytes + bytes') (cut.or cut') third := by
  constructor
  · rw [right.budget, left.budget]
  · rw [right.visited, left.visited, Nat.add_assoc]
  · rw [right.retained, left.retained]
    unfold saturatingAdd
    omega
  · rw [right.truncation, left.truncation, Option.or_assoc]

section
variable {cursor : BudgetCursor} (within : cursor.Within)
include cursor within

theorem record_charged (reason : TruncationReason) :
    Charged cursor 0 0 (some reason) (cursor.recordTruncation reason) := by
  have low := within.usize
  refine ⟨rfl, rfl, ?_, rfl⟩
  change cursor.renderedBytes = min (cursor.renderedBytes + 0) usizeMax
  omega

theorem record_within (reason : TruncationReason) :
    (cursor.recordTruncation reason).Within := ⟨within.nodes, within.bytes, within.usize⟩

theorem visit_charged (room : cursor.visited < cursor.budget.maxTotalNodes) :
    Charged cursor 1 0 none cursor.visit ∧ cursor.visit.Within := by
  have counted : cursor.visit.visited = cursor.visited + 1 := by
    have countable := cursor.budget.countable
    change min (cursor.visited + 1) usizeMax = _
    omega
  have low := within.usize
  refine ⟨⟨rfl, counted, ?_, ?_⟩, ?_, within.bytes, within.usize⟩
  · change cursor.renderedBytes = min (cursor.renderedBytes + 0) usizeMax
    omega
  · exact (or_none).symm
  · rw [counted]
    exact room

/-- A charge goes through in full or records the byte limit. -/
theorem charge_bytes_cases (bytes : Nat) : (∃ after, cursor.chargeBytes bytes = (false, after) ∧
      Charged cursor 0 0 (some .totalByteLimit) after ∧ after.Within) ∨
    ∃ after, cursor.chargeBytes bytes = (true, after) ∧ Charged cursor 0 bytes none after ∧
      after.Within := by
  unfold BudgetCursor.chargeBytes
  dsimp only
  split
  next exceeded => exact .inl ⟨_, rfl, record_charged within _, record_within within _⟩
  next fits =>
    refine .inr ⟨_, rfl, ⟨rfl, rfl, rfl, or_none.symm⟩, within.nodes, ?_, ?_⟩
    · exact Nat.le_of_not_lt fits
    · exact Nat.min_le_right _ _

end

end Cursor

section Walk

/-- A node and those below it stand for the values at their places within the local limits. -/
inductive Placed (budget : SnapshotBudget) : Nat → SourceValue → SnapshotNode → Prop where
  | node {depth : Nat} {value : SourceValue} {node : SnapshotNode}
      (shallow : node.children ≠ [] → depth < budget.maxDepth)
      (few : node.children.length ≤ budget.maxItemsPerContainer)
      (faithful : node.outcome.truncation = none → Represents value node)
      (paired : ∀ (index : Nat) child, node.children[index]? = some child →
        ∃ (sources : List SourceValue) (source : SourceValue),
          value.children = some sources ∧ sources[index]? = some source)
      (below : ∀ (index : Nat) child (sources : List SourceValue) source,
        node.children[index]? = some child → value.children = some sources →
          sources[index]? = some source → Placed budget (depth + 1) source child) :
      Placed budget depth value node

section
variable {budget : SnapshotBudget} {depth : Nat} {value : SourceValue} {node : SnapshotNode}
include budget depth value node

theorem placed_leaf (childless : node.children = [])
    (faithful : node.outcome.truncation = none → Represents value node) :
    Placed budget depth value node := by
  apply Placed.node
  · exact fun some => absurd childless some
  · simp [childless]
  · exact faithful
  · intro index child found
    simp [childless] at found
  · intro index child sources source found
    simp [childless] at found

theorem placed_cut {reason : TruncationReason} (childless : node.children = [])
    (cut : node.outcome = .truncated reason) : Placed budget depth value node := by
  refine placed_leaf childless ?_
  intro whole
  rw [cut] at whole
  cases whole

end

structure Built (value : SourceValue) (depth : Nat) (cursor : BudgetCursor) (node : SnapshotNode)
    (after : BudgetCursor) : Prop where
  charged : Charged cursor node.nodeCount node.retainedBytes node.outcome.truncation after
  within : after.Within
  placed : Placed cursor.budget depth value node

theorem forbidden_refusal {value : SourceValue} (forbids : value.flags.forbidsEnumeration = true) :
    value.refusal = some (if value.flags.tied then .tied else .magical) := by
  unfold SourceValue.refusal
  by_cases tied : value.flags.tied = true
  · rw [if_pos tied, if_pos tied]
  · have magical := (Bool.or_eq_true_iff.mp forbids).resolve_left tied
    rw [if_neg tied, if_neg tied, if_pos magical]

/-- `labels` has been charged; what is left is the text, or the reason there is none. -/
theorem render_scalar_built {value : SourceValue} {depth : Nat} {cursor before : BudgetCursor}
    (labels : Charged before 1 (size value.name + size value.kindLabel) none cursor)
    (within : cursor.Within) (childless : value.children = none)
    (plain : value.flags.forbidsEnumeration = false) :
    Built value depth before (renderScalar value cursor).1 (renderScalar value cursor).2 := by
  obtain ⟨untied, unmagical⟩ := Bool.or_eq_false_iff.mp plain
  have admits : value.refusal = if value.flags.overloadedStringify then some .overloadedStringify
      else if value.scalarText.isNone then some .inspectionFailed else none := by
    simp [SourceValue.refusal, untied, unmagical, childless]
  unfold renderScalar
  split
  next forbids =>
    refine ⟨labels, within, placed_leaf rfl fun _ => .refused ?_⟩
    rw [admits]
    exact if_pos forbids
  next allows =>
    have rendering : ¬ value.flags.overloadedStringify = true := allows
    split
    next missing =>
      refine ⟨labels, within, placed_leaf rfl fun _ => .refused ?_⟩
      rw [admits, if_neg rendering, missing]
      rfl
    next text captured =>
      split
      next large =>
        exact ⟨labels.trans (record_charged within _), record_within within _, placed_cut rfl rfl⟩
      next small =>
        rcases charge_bytes_cases within (size text) with
          ⟨after, charge, charged, inside⟩ | ⟨after, charge, charged, inside⟩
        · rw [charge]
          exact ⟨labels.trans charged, inside, placed_cut rfl rfl⟩
        rw [charge]
        refine ⟨labels.trans charged, inside, placed_leaf rfl fun _ => .scalar ?_ childless captured⟩
        rw [admits, if_neg rendering, captured]
        rfl

/-- What becomes of the first `admitted` of the children. -/
structure BuiltChildren (children : List SourceValue) (admitted depth : Nat)
    (outcome : Option TruncationReason) (cursor : BudgetCursor) (nodes : List SnapshotNode)
    (outcome' : Option TruncationReason) (after : BudgetCursor) : Prop where
  charged : ∃ cut, outcome' = outcome.or cut ∧
    Charged cursor (nodeCounts nodes) (retainedOf nodes) cut after
  within : after.Within
  few : nodes.length ≤ admitted
  placed : ∀ (index : Nat) child, nodes[index]? = some child →
    ∃ source, children[index]? = some source ∧ Placed cursor.budget depth source child
  whole : outcome' = none → children.length ≤ admitted → List.Forall₂ Represents children nodes

theorem cut_children {children : List SourceValue} {admitted depth : Nat}
    {outcome : Option TruncationReason} {cursor : BudgetCursor} (within : cursor.Within)
    (reason : TruncationReason) :
    BuiltChildren children admitted depth outcome cursor [] (outcome.or (some reason))
      (cursor.recordTruncation reason) := by
  constructor
  · exact ⟨_, rfl, record_charged within reason⟩
  · exact record_within within reason
  · exact Nat.zero_le _
  · intro index child found
    cases found
  · intro whole
    cases outcome <;> cases whole

theorem stay_charged {cursor : BudgetCursor} (within : cursor.Within) : Charged cursor 0 0 none cursor := by
  have low := within.usize
  refine ⟨rfl, rfl, ?_, or_none.symm⟩
  unfold saturatingAdd
  omega

theorem no_children {children : List SourceValue} {admitted depth : Nat}
    {outcome : Option TruncationReason} {cursor : BudgetCursor} (within : cursor.Within)
    (spent : children = [] ∨ admitted = 0) :
    BuiltChildren children admitted depth outcome cursor [] outcome cursor := by
  constructor
  · exact ⟨none, or_none.symm, stay_charged within⟩
  · exact within
  · exact Nat.zero_le _
  · intro index child found
    cases found
  · intro _ fits
    rcases spent with rfl | rfl
    · exact .nil
    · obtain rfl := List.length_eq_zero_iff.mp (Nat.le_zero.mp fits)
      exact .nil

theorem next_child {child : SourceValue} {rest : List SourceValue} {admitted depth : Nat}
    {outcome outcome' : Option TruncationReason} {cursor middle after : BudgetCursor}
    {node : SnapshotNode} {nodes : List SnapshotNode} (first : Built child depth cursor node middle)
    (others : BuiltChildren rest admitted depth (outcome.or node.outcome.truncation) middle nodes
      outcome' after) :
    BuiltChildren (child :: rest) (admitted + 1) depth outcome cursor (node :: nodes) outcome'
      after := by
  obtain ⟨cut, merged, charged⟩ := others.charged
  rw [Option.or_assoc] at merged
  constructor
  · exact ⟨_, merged, first.charged.trans charged⟩
  · exact others.within
  · exact Nat.succ_le_succ others.few
  · intro index found place
    cases index with
    | zero =>
      obtain rfl := some.inj place
      exact ⟨child, rfl, first.placed⟩
    | succ index =>
      rw [← first.charged.budget]
      exact others.placed index found place
  · intro whole fits
    have uncut : node.outcome.truncation = none := by
      rw [merged, or_eq_none_iff, or_eq_none_iff] at whole
      exact whole.2.1
    obtain ⟨_, _, faithful, _, _⟩ := first.placed
    exact .cons (faithful uncut) (others.whole whole (Nat.le_of_succ_le_succ fits))

theorem container_built {value : SourceValue} {sources : List SourceValue} {depth : Nat}
    {cursor before after : BudgetCursor} {nodes : List SnapshotNode} {outcome : Option TruncationReason}
    (labels : Charged before 1 (size value.name + size value.kindLabel) none cursor)
    (within : cursor.Within) (expanded : value.children = some sources)
    (plain : value.flags.forbidsEnumeration = false)
    (shallow : sources ≠ [] → depth < cursor.budget.maxDepth) (children :
      let admitted := min sources.length cursor.budget.maxItemsPerContainer
      BuiltChildren sources admitted (depth + 1)
        (if admitted < sources.length then some .containerItemLimit else none)
        (if admitted < sources.length then cursor.recordTruncation .containerItemLimit else cursor)
        nodes outcome after) :
    Built value depth before
      ⟨value.name, value.kindLabel, none, nodes, outcome.elim .complete .truncated⟩ after := by
  obtain ⟨untied, unmagical⟩ := Bool.or_eq_false_iff.mp plain
  have admits : value.refusal = none := by simp [SourceValue.refusal, untied, unmagical, expanded]
  have reason : (outcome.elim NodeOutcome.complete NodeOutcome.truncated).truncation = outcome := by
    cases outcome <;> rfl
  obtain ⟨⟨cut, merged, charged⟩, inside, few, placed, whole⟩ := children
  have clipped : ∀ clip, (clip = if min sources.length cursor.budget.maxItemsPerContainer <
      sources.length then some TruncationReason.containerItemLimit else none) →
      Charged cursor 0 0 clip (if min sources.length cursor.budget.maxItemsPerContainer <
        sources.length then cursor.recordTruncation .containerItemLimit else cursor) := by
    rintro clip rfl
    split
    · exact record_charged within _
    · exact stay_charged within
  have total := (labels.trans (clipped _ rfl)).trans charged
  have same : (if min sources.length cursor.budget.maxItemsPerContainer < sources.length then
      cursor.recordTruncation .containerItemLimit else cursor).budget = before.budget := by
    rw [(clipped _ rfl).budget, labels.budget]
  constructor
  · rw [reason, merged]
    exact total
  · exact inside
  · rw [same] at placed
    rw [labels.budget] at shallow few
    constructor
    · intro some
      apply shallow
      rintro rfl
      exact some (List.length_eq_zero_iff.mp (Nat.le_zero.mp few))
    · exact few.trans (Nat.min_le_right _ _)
    · intro uncut
      rw [reason] at uncut
      have unclipped : ¬ min sources.length cursor.budget.maxItemsPerContainer < sources.length := by
        intro clip
        rw [if_pos clip, uncut] at merged
        cases merged
      rw [uncut]
      exact .container admits expanded (whole uncut (Nat.le_of_not_lt unclipped))
    · intro index child found
      obtain ⟨source, place, -⟩ := placed index child found
      exact ⟨sources, source, expanded, place⟩
    · intro index child others source found opened place
      obtain rfl := some.inj (expanded.symm.trans opened)
      obtain ⟨source', place', put⟩ := placed index child found
      obtain rfl := some.inj (place.symm.trans place')
      exact put

theorem merged_outcome (outcome : Option TruncationReason) (node : NodeOutcome) : (match node with
      | .truncated reason => outcome.or (some reason)
      | _ => outcome) = outcome.or node.truncation := by
  cases node with
  | complete | unavailable reason => exact or_none.symm
  | truncated reason => rfl

mutual

theorem build_node (value : SourceValue) (depth : Nat) (cursor : BudgetCursor)
    (within : cursor.Within) (room : cursor.visited < cursor.budget.maxTotalNodes) :
    Built value depth cursor (buildNode value depth cursor).1 (buildNode value depth cursor).2 := by
  match value with
  | ⟨name, kindLabel, scalarText, flags, children⟩ =>
    obtain ⟨visited, entered⟩ := visit_charged within room
    unfold buildNode
    rw [if_neg (Nat.not_le.mpr room)]
    rcases charge_bytes_cases entered (saturatingAdd (size name) (size kindLabel)) with
      ⟨labelled, charge, charged, inside⟩ | ⟨labelled, charge, charged, inside⟩
    · rw [charge]
      exact ⟨visited.trans charged, inside, placed_cut rfl rfl⟩
    rw [charge]
    dsimp only
    have labels : Charged cursor 1 (size name + size kindLabel) none labelled := by
      obtain ⟨budget, count, retained, truncation⟩ := visited.trans charged
      refine ⟨budget, count, ?_, truncation⟩
      rw [retained]
      unfold saturatingAdd
      omega
    split
    next forbids =>
      exact ⟨labels, inside, placed_leaf rfl fun _ => .refused (forbidden_refusal forbids)⟩
    next plain =>
      cases children with
      | none => exact render_scalar_built labels inside rfl (Bool.eq_false_iff.mpr plain)
      | some sources =>
        dsimp only
        split
        next deep =>
          exact ⟨labels.trans (record_charged inside _), record_within inside _, placed_cut rfl rfl⟩
        next shallow =>
          apply container_built labels inside rfl (Bool.eq_false_iff.mpr plain)
          · intro some
            by_contra deep
            exact shallow ⟨Nat.le_of_not_lt deep, some⟩
          · apply build_children
            split
            · exact record_within inside _
            · exact inside

theorem build_children (children : List SourceValue) (admitted depth : Nat)
    (outcome : Option TruncationReason) (cursor : BudgetCursor) (within : cursor.Within) :
    BuiltChildren children admitted depth outcome cursor
      (buildChildren children admitted depth outcome cursor).1
      (buildChildren children admitted depth outcome cursor).2.1
      (buildChildren children admitted depth outcome cursor).2.2 := by
  match children, admitted with
  | [], admitted =>
    rw [buildChildren]
    exact no_children within (.inl rfl)
  | child :: rest, 0 =>
    rw [buildChildren]
    exact no_children within (.inr rfl)
  | child :: rest, admitted + 1 =>
    rw [buildChildren]
    split
    next exhausted => exact cut_children within _
    next room =>
      have first := build_node child depth cursor within (Nat.lt_of_not_le room)
      dsimp only
      rw [merged_outcome]
      exact next_child first (build_children rest admitted depth _ _ first.within)

end

end Walk

/-- The places of the snapshot are places of the tree, as deep in the one as in the other. -/
theorem placed_at {budget : SnapshotBudget} {depth : Nat} {value : SourceValue}
    {node reached : SnapshotNode} {path : List Nat} (placed : Placed budget depth value node)
    (found : nodeAt node path = some reached) : ∃ source, valueAt value path = some source ∧
      Placed budget (depth + path.length) source reached := by
  induction path generalizing depth value node with
  | nil =>
    obtain rfl := some.inj found
    exact ⟨value, rfl, placed⟩
  | cons index path ih =>
    obtain ⟨_, _, _, paired, below⟩ := placed
    obtain ⟨child, here, further⟩ := bind_eq_some_iff.mp found
    obtain ⟨sources, source, opened, place⟩ := paired index child here
    obtain ⟨target, reaches, put⟩ := ih (below index child sources source here opened place) further
    refine ⟨target, ?_, ?_⟩
    · rw [valueAt, opened, bind_some, place, bind_some, reaches]
    · rw [List.length_cons, Nat.add_comm path.length, ← Nat.add_assoc]
      exact put

/-- The counters of a snapshot are those of its nodes and inside the budget, its limits hold at every
place, the root tells of the first cut, and what is called complete is so. -/
theorem capture_bounded (value : SourceValue) (budget : SnapshotBudget)
    (some_node : 1 ≤ budget.maxTotalNodes) :
    let snapshot := captureSnapshot value budget
    snapshot.totalNodesVisited = snapshot.root.nodeCount ∧
    snapshot.totalNodesVisited ≤ budget.maxTotalNodes ∧
    snapshot.totalRetainedBytes = min snapshot.root.retainedBytes usizeMax ∧
    snapshot.totalRetainedBytes ≤ budget.maxTotalBytes ∧
    (∀ reason, snapshot.root.outcome = .truncated reason ↔ snapshot.truncation = some reason) ∧
    ∀ path node, nodeAt snapshot.root path = some node →
      (node.children ≠ [] → path.length < budget.maxDepth) ∧
      node.children.length ≤ budget.maxItemsPerContainer ∧
      ∃ source, valueAt value path = some source ∧
        (node.outcome = .complete → Represents source node) := by
  have within : (BudgetCursor.mk budget 0 0 none).Within := ⟨Nat.zero_le _, Nat.zero_le _, Nat.zero_le _⟩
  obtain ⟨charged, inside, placed⟩ := build_node value 0 _ within some_node
  have budgets := charged.budget
  refine ⟨?_, ?_, ?_, ?_, ?_, ?_⟩
  · exact charged.visited.trans (Nat.zero_add _)
  · have bound := inside.nodes
    rw [budgets] at bound
    exact bound
  · have retained := charged.retained
    rw [saturatingAdd, Nat.zero_add] at retained
    exact retained
  · have bound := inside.bytes
    rw [budgets] at bound
    exact bound
  · intro reason
    have first := charged.truncation
    rw [none_or] at first
    change _ ↔ (buildNode value 0 ⟨budget, 0, 0, none⟩).2.truncation = some reason
    rw [first]
    change (buildNode value 0 ⟨budget, 0, 0, none⟩).1.outcome = _ ↔ _
    cases (buildNode value 0 ⟨budget, 0, 0, none⟩).1.outcome with
    | complete | truncated other | unavailable other => simp [NodeOutcome.truncation]
  · intro path node found
    obtain ⟨source, reaches, put⟩ := placed_at placed found
    obtain ⟨shallow, few, faithful, _, _⟩ := put
    rw [Nat.zero_add] at shallow
    refine ⟨shallow, few, source, reaches, ?_⟩
    intro complete
    apply faithful
    rw [complete]
    rfl

def sampleArray : SourceValue :=
  .container ['@', 'v'] ['a'] [.scalar ['0'] ['x'], .scalar ['1'] ['y']]

def sampleBudget : SnapshotBudget := ⟨2, 8, 4, 16, 64, by decide⟩

theorem sample_bounded :
    (captureSnapshot sampleArray sampleBudget).totalNodesVisited =
      (captureSnapshot sampleArray sampleBudget).root.nodeCount ∧
    ((captureSnapshot sampleArray sampleBudget).root.outcome = .truncated .nodeBudgetExhausted ↔
      (captureSnapshot sampleArray sampleBudget).truncation = some .nodeBudgetExhausted) :=
  ⟨(capture_bounded sampleArray sampleBudget (by decide)).1,
    (capture_bounded sampleArray sampleBudget (by decide)).2.2.2.2.1 .nodeBudgetExhausted⟩

/-- A container is enumerated though its stringification is overloaded, and has no text of its own. -/
theorem overloaded_container_complete :
    ¬ ∀ (value : SourceValue) (budget : SnapshotBudget), 1 ≤ budget.maxTotalNodes →
      (captureSnapshot value budget).root.outcome = .complete →
      value.flags.overloadedStringify = false ∧
        (captureSnapshot value budget).root.rendered = value.scalarText := by
  intro marked
  have plain := marked ⟨['$', 'o'], ['h', 'a', 's', 'h'], some ['O'], ⟨false, false, true⟩,
    some [.scalar ['k'] ['1']]⟩ ⟨8, 8, 4, 16, 64, by decide⟩ (by decide) (by decide)
  cases plain.1

end PerlLsp.LexicalSnapshot
