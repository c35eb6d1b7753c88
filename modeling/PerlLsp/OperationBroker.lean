import PerlLsp.Runs
import PerlLsp.Tables
import PerlLsp.Text
import Mathlib.Data.List.Nodup
import Mathlib.Data.List.Perm.Basic

/-! The operation broker of debug_adapter/operation_broker.rs. Every locked section is one step;
what a thread does between two of them is part of its own state: a submission that has its identity
and not yet the lock, a waiter on its way through `await_framed_payload`, the holder of a lease. The
broker carries the list of the cancelled tokens. Identities and generations are counted without end.
The reader frames are left out. -/
namespace PerlLsp.OperationBroker
open List hiding getElem?_insert
open Std Runs Tables

def maxPendingOperations : Nat := 16

inductive OperationClass where
  | query
  | inspection
  | mutation
  | executionControl
  deriving DecidableEq

structure BrokerOperationSpec where
  requestSeq : Option Int
  operationClass : OperationClass
  sessionGeneration : Nat
  suspensionGeneration : Option Nat
  timeout : Nat
  cancellation : Option Nat

structure BrokerOperation where
  id : Nat
  requestSeq : Option Int
  operationClass : OperationClass
  sessionGeneration : Nat
  suspensionGeneration : Option Nat
  timeout : Nat
  cancellation : Option Nat
  deriving DecidableEq

inductive BrokerTerminal where
  | completed (lines : List (List Char))
  | acknowledged
  | rejected (reason : String)
  | cancelled
  | timedOut
  | staleGeneration
  | sessionGone (reason : String)
  | transportFailure (reason : String)
  | protocolFailure (reason : String)
  deriving DecidableEq

inductive CancelRequestDisposition where
  | accepted (id : Nat)
  | alreadyTerminal (id : Nat)
  | unknown
  deriving DecidableEq

/-- The pending table (its first five fields) and the atomics of the broker. -/
structure Broker where
  fifo : List BrokerOperation
  settled : TreeMap Nat BrokerTerminal
  requests : TreeMap Int Nat
  terminalRequests : TreeMap Int Nat
  terminalOrder : List (Int × Nat)
  nextOperationId : Nat
  sessionGeneration : Nat
  accepting : Bool
  cancelledTokens : List Nat

/-- The `while` loop of `prune_terminal_requests`. -/
def dropOldest : TreeMap Int Nat → List (Int × Nat) → TreeMap Int Nat × List (Int × Nat)
  | requests, [] => (requests, [])
  | requests, (requestSeq, operation) :: rest =>
    if requests.size ≤ maxPendingOperations * 4 then (requests, (requestSeq, operation) :: rest)
    else if requests[requestSeq]? = some operation then dropOldest (requests.erase requestSeq) rest
    else dropOldest requests rest

namespace Broker

def new : Broker := ⟨[], ∅, ∅, ∅, [], 1, 1, true, []⟩

variable (b : Broker)

def ids : List Nat := b.fifo.map BrokerOperation.id

def isPending (id : Nat) : Bool := b.fifo.any fun entry => entry.id == id

def pruneTerminalRequests : Broker :=
  let order := b.terminalOrder.filter fun entry => b.terminalRequests[entry.1]? == some entry.2
  let (requests, order) := dropOldest b.terminalRequests order
  { b with terminalRequests := requests, terminalOrder := order }

def submit (operation : BrokerOperation) : Except BrokerTerminal BrokerOperation × Broker :=
  if operation.sessionGeneration ≠ b.sessionGeneration then (.error .staleGeneration, b)
  else if !b.accepting then (.error (.sessionGone "session_not_ready"), b)
  else if maxPendingOperations ≤ b.fifo.length then
    (.error (.rejected ("broker pending bound exceeded (" ++ toString maxPendingOperations ++ ")")), b)
  else
    let fifo := b.fifo ++ [operation]
    match operation.requestSeq with
    | none => (.ok operation, { b with fifo := fifo })
    | some requestSeq =>
      let terminalRequests := b.terminalRequests.erase requestSeq
      let requests := b.requests.insert requestSeq operation.id
      match b.requests[requestSeq]? with
      | none =>
        (.ok operation,
          { b with fifo := fifo, terminalRequests := terminalRequests, requests := requests })
      | some previous =>
        let token := (fifo.find? fun entry => entry.id == previous).bind (·.cancellation)
        (.ok operation,
          { b with
            fifo := fifo.filter fun entry => entry.id != previous
            terminalRequests := terminalRequests
            requests := requests
            cancelledTokens := token.toList ++ b.cancelledTokens
            settled := b.settled.insert previous .cancelled })

def cancelRequest (requestSeq : Int) : CancelRequestDisposition × Broker :=
  let live := b.requests[requestSeq]?.bind fun id =>
    (b.fifo.find? fun entry => entry.id == id).bind fun entry =>
      entry.cancellation.map fun token => (id, token)
  match live with
  | some (id, token) => (.accepted id, { b with cancelledTokens := token :: b.cancelledTokens })
  | none =>
    match b.terminalRequests[requestSeq]? with
    | some id => (.alreadyTerminal id, b)
    | none => (.unknown, b)

/-- Whether the operation was still pending; `settle_operation` begins with the same lines. -/
def retireForCompletion (id : Nat) : Bool × Broker :=
  let removed := b.fifo.filter fun entry => entry.id == id
  let left := { b with fifo := b.fifo.filter fun entry => entry.id != id }
  let retired :=
    match removed.getLast?.bind (·.requestSeq) with
    | none => left
    | some requestSeq =>
      { left with
        requests := left.requests.erase requestSeq
        terminalRequests := left.terminalRequests.insert requestSeq id
        terminalOrder := left.terminalOrder ++ [(requestSeq, id)] }.pruneTerminalRequests
  (decide (left.fifo.length ≠ b.fifo.length), retired)

def takeSettled (id : Nat) : BrokerTerminal × Broker :=
  (b.settled[id]?.getD (.sessionGone "settled"), { b with settled := b.settled.erase id })

def settleOperation (id : Nat) (terminal : BrokerTerminal) : BrokerTerminal × Broker :=
  match b.retireForCompletion id with
  | (true, b) => (terminal, b)
  | (false, b) => b.takeSettled id

def settleUnderLock (reason : String) (expected : Option Nat) : Bool × Broker :=
  if expected.any fun generation => generation != b.sessionGeneration then (false, b)
  else
    (true,
      { b with
        fifo := []
        settled := b.fifo.foldl (fun settled entry => settled.insert entry.id (.sessionGone reason))
          b.settled
        requests := ∅
        terminalRequests := ∅
        terminalOrder := []
        sessionGeneration := b.sessionGeneration + 1
        accepting := false
        cancelledTokens := b.fifo.filterMap (·.cancellation) ++ b.cancelledTokens })

end Broker

def wordChar (scalar : Char) : Bool := scalar.isAlphanum || scalar == '_'

/-- What stands before (reversed) and after each match of `match_indices`. -/
def matchIndices (marker : List Char) : List Char → List Char → Nat → List (List Char × List Char)
  | before, [], skip => if marker.isEmpty && skip == 0 then [(before, [])] else []
  | before, scalar :: rest, 0 =>
    if marker.isPrefixOf (scalar :: rest) then
      (before, (scalar :: rest).drop marker.length) ::
        matchIndices marker (scalar :: before) rest (marker.length - 1)
    else matchIndices marker (scalar :: before) rest 0
  | before, scalar :: rest, skip + 1 => matchIndices marker (scalar :: before) rest skip

def lineContainsFullMarker (line marker : List Char) : Bool :=
  (matchIndices marker [] line 0).any fun around =>
    !around.1.head?.any wordChar && !around.2.head?.any wordChar

example : lineContainsFullMarker "p DAP_END_1 ".toList "DAP_END_1".toList = true := by decide

example : lineContainsFullMarker "xDAP_END_1 DAP_END_1x".toList "DAP_END_1".toList = false := by decide

structure RecentOutputLine where
  id : Nat
  normalized : List Char

/-- The locals of `await_framed_payload`. -/
structure Frame where
  beginMarker : List Char
  endMarker : List Char
  deadline : Nat
  nextScanId : Nat
  sawBeginMarker : Bool
  framedLines : List (List Char)

inductive ScanDisposition where
  | begin
  | finish
  | payload
  | ignore

namespace Frame

def disposeOfScannedLine (frame : Frame) (line : RecentOutputLine) : ScanDisposition × Frame :=
  if !frame.sawBeginMarker then
    if lineContainsFullMarker line.normalized frame.beginMarker then
      (.begin, { frame with sawBeginMarker := true, framedLines := [] })
    else (.ignore, frame)
  else if lineContainsFullMarker line.normalized frame.endMarker then (.finish, frame)
  else if !(Text.trim line.normalized).isEmpty then
    (.payload, { frame with framedLines := frame.framedLines ++ [line.normalized] })
  else (.ignore, frame)

/-- Whether the end marker was met. -/
def scanLines : List RecentOutputLine → Frame → Bool × Frame
  | [], frame => (false, frame)
  | line :: rest, frame =>
    match frame.disposeOfScannedLine line with
    | (.finish, frame) => (true, frame)
    | (_, frame) => scanLines rest frame

def scan (frame : Frame) (output : List RecentOutputLine) : Bool × Frame :=
  let (ended, frame) := scanLines (output.filter fun line => frame.nextScanId ≤ line.id) frame
  let nextScanId := (output.getLast?.map fun last => min (last.id + 1) (2 ^ 64 - 1)).getD frame.nextScanId
  (ended, { frame with nextScanId := nextScanId })

end Frame

/-- Where the holder of an admitted operation stands. `held` is a lease, or a query whose frame is
being written; the next four are places of `await_framed_payload`; `lost` has found its operation
gone and not yet read the outcome. -/
inductive Phase where
  | held
  | polling (frame : Frame)
  | checking (frame : Frame)
  | scanning (frame : Frame)
  | timing (frame : Frame)
  | lost
  | done (outcome : BrokerTerminal)

structure Waiter where
  operation : BrokerOperation
  phase : Phase

/-- The broker, the submissions not yet in the lock, the admitted operations with their holders, and
the outcome decided for each that left the table. -/
structure System where
  broker : Broker
  calls : List BrokerOperation
  waiters : TreeMap Nat Waiter
  decisions : List (Nat × BrokerTerminal)

inductive Op where
  | call (spec : BrokerOperationSpec)
  | registerRequest (requestSeq : Int) (operationClass : OperationClass) (timeout token : Nat)
  | enter (index : Nat)
  | cancelRequest (requestSeq : Int)
  | cancelToken (token : Nat)
  | openSession
  | settleAll (reason : String)
  | settleAllIfCurrent (reason : String) (expected : Nat)
  | settle (id : Nat) (terminal : BrokerTerminal)
  | dropLease (id : Nat)
  | retireAfterWriteFailure (id : Nat)
  | awaitFramedPayload (id : Nat) (beginMarker endMarker : List Char) (now : Nat)
  | checkToken (id : Nat)
  | checkPending (id : Nat)
  | scanOutput (id : Nat) (output : List RecentOutputLine)
  | checkDeadline (id now : Nat)
  | takeSettled (id : Nat)

namespace System

def start : System := ⟨.new, [], ∅, []⟩

variable (t : System)

/-- The identity is minted before the lock is taken. -/
def call (spec : BrokerOperationSpec) : System :=
  { t with
    broker := { t.broker with nextOperationId := t.broker.nextOperationId + 1 }
    calls := t.calls ++ [⟨t.broker.nextOperationId, spec.requestSeq, spec.operationClass,
      spec.sessionGeneration, spec.suspensionGeneration, spec.timeout, spec.cancellation⟩] }

def superseded (operation : BrokerOperation) : List (Nat × BrokerTerminal) :=
  match operation.requestSeq.bind fun requestSeq => t.broker.requests[requestSeq]? with
  | some previous => [(previous, .cancelled)]
  | none => []

def enter (index : Nat) : System :=
  match t.calls[index]? with
  | none => t
  | some operation =>
    let calls := t.calls.eraseIdx index
    match t.broker.submit operation with
    | (.error _, broker) => { t with broker := broker, calls := calls }
    | (.ok operation, broker) =>
      { broker := broker
        calls := calls
        waiters := t.waiters.insert operation.id ⟨operation, .held⟩
        decisions := t.superseded operation ++ t.decisions }

def settleAll (reason : String) (expected : Option Nat) : System :=
  match t.broker.settleUnderLock reason expected with
  | (false, broker) => { t with broker := broker }
  | (true, broker) =>
    { t with
      broker := broker
      decisions := (t.broker.ids.map fun id => (id, .sessionGone reason)) ++ t.decisions }

def setPhase (id : Nat) (waiter : Waiter) (phase : Phase) : System :=
  { t with waiters := t.waiters.insert id { waiter with phase := phase } }

/-- The first locked section of `retire_or_settled`. -/
def retire (id : Nat) (waiter : Waiter) (own : BrokerTerminal) : System :=
  match t.broker.retireForCompletion id with
  | (true, broker) =>
    { t with broker := broker, decisions := (id, own) :: t.decisions }.setPhase id waiter (.done own)
  | (false, broker) => { t with broker := broker }.setPhase id waiter .lost

def settleLease (id : Nat) (waiter : Waiter) (terminal : BrokerTerminal) : System :=
  let (outcome, broker) := t.broker.settleOperation id terminal
  let decided := if t.broker.isPending id then [(id, terminal)] else []
  { t with broker := broker, decisions := decided ++ t.decisions }.setPhase id waiter (.done outcome)

def requestDropped : BrokerTerminal := .sessionGone "request_dropped"

def holderStep (t : System) (id : Nat) (waiter : Waiter) : Op → System
  | .settle _ terminal =>
    match waiter.phase with
    | .held => t.settleLease id waiter terminal
    | _ => t
  | .dropLease _ =>
    match waiter.phase with
    | .held => t.settleLease id waiter requestDropped
    | .done _ => { t with broker := (t.broker.settleOperation id requestDropped).2 }
    | _ => t
  | .retireAfterWriteFailure _ =>
    match waiter.phase with
    | .held => t.retire id waiter .timedOut
    | _ => t
  | .awaitFramedPayload _ beginMarker endMarker now =>
    match waiter.phase with
    | .held =>
      t.setPhase id waiter
        (.polling ⟨beginMarker, endMarker, now + waiter.operation.timeout, 0, false, []⟩)
    | _ => t
  | .checkToken _ =>
    match waiter.phase with
    | .polling frame =>
      if waiter.operation.cancellation.any fun token => token ∈ t.broker.cancelledTokens then
        t.retire id waiter .cancelled
      else t.setPhase id waiter (.checking frame)
    | _ => t
  | .checkPending _ =>
    match waiter.phase with
    | .checking frame =>
      if t.broker.isPending id then t.setPhase id waiter (.scanning frame)
      else t.setPhase id waiter .lost
    | _ => t
  | .scanOutput _ output =>
    match waiter.phase with
    | .scanning frame =>
      match frame.scan output with
      | (true, frame) => t.retire id waiter (.completed frame.framedLines)
      | (false, frame) => t.setPhase id waiter (.timing frame)
    | _ => t
  | .checkDeadline _ now =>
    match waiter.phase with
    | .timing frame =>
      if frame.deadline ≤ now then t.retire id waiter .timedOut
      else t.setPhase id waiter (.polling frame)
    | _ => t
  | .takeSettled _ =>
    match waiter.phase with
    | .lost =>
      let (outcome, broker) := t.broker.takeSettled id
      { t with broker := broker }.setPhase id waiter (.done outcome)
    | _ => t
  | _ => t

def holder (t : System) (id : Nat) (op : Op) : System :=
  match t.waiters[id]? with
  | none => t
  | some waiter => t.holderStep id waiter op

def step (t : System) (op : Op) : System :=
  match op with
  | .call spec => t.call spec
  | .registerRequest requestSeq operationClass timeout token =>
    t.call ⟨some requestSeq, operationClass, t.broker.sessionGeneration, none, timeout, some token⟩
  | .enter index => t.enter index
  | .cancelRequest requestSeq => { t with broker := (t.broker.cancelRequest requestSeq).2 }
  | .cancelToken token =>
    { t with broker := { t.broker with cancelledTokens := token :: t.broker.cancelledTokens } }
  | .openSession => { t with broker := { t.broker with accepting := true } }
  | .settleAll reason => t.settleAll reason none
  | .settleAllIfCurrent reason expected => t.settleAll reason (some expected)
  | .settle id _ => t.holder id op
  | .dropLease id => t.holder id op
  | .retireAfterWriteFailure id => t.holder id op
  | .awaitFramedPayload id _ _ _ => t.holder id op
  | .checkToken id => t.holder id op
  | .checkPending id => t.holder id op
  | .scanOutput id _ => t.holder id op
  | .checkDeadline id _ => t.holder id op
  | .takeSettled id => t.holder id op

end System

structure Sane (b : Broker) : Prop where
  current : ∀ entry ∈ b.fifo, entry.sessionGeneration = b.sessionGeneration
  bounded : b.fifo.length ≤ maxPendingOperations
  distinct : b.ids.Nodup
  requests : ∀ (requestSeq : Int) id, b.requests[requestSeq]? = some id ↔
    ∃ entry ∈ b.fifo, entry.requestSeq = some requestSeq ∧ entry.id = id
  ordered : ∀ (requestSeq : Int) id, b.terminalRequests[requestSeq]? = some id →
    (requestSeq, id) ∈ b.terminalOrder
  window : b.terminalRequests.size ≤ 4 * maxPendingOperations

theorem new_sane : Sane .new where
  current := fun _ member => nomatch member
  bounded := Nat.zero_le _
  distinct := nodup_nil
  requests := fun requestSeq id => by
    constructor
    · intro found
      cases found
    · rintro ⟨entry, member, _⟩
      cases member
  ordered := fun _ _ found => nomatch found
  window := Nat.zero_le _

variable (b : Broker) (id : Nat)

theorem mem_ids : id ∈ b.ids ↔ ∃ entry ∈ b.fifo, entry.id = id :=
  mem_map

theorem is_pending_iff : b.isPending id = true ↔ id ∈ b.ids := by
  rw [mem_ids, Broker.isPending, any_eq_true]
  exact exists_congr fun entry => and_congr_right fun _ => beq_iff_eq

theorem same_entry {b : Broker} (distinct : b.ids.Nodup) {left right : BrokerOperation}
    (leftMember : left ∈ b.fifo) (rightMember : right ∈ b.fifo) (same : left.id = right.id) : left = right :=
  inj_on_of_nodup_map distinct leftMember rightMember same

theorem empty_of_no_rows (table : TreeMap Int Nat)
    (none_ : ∀ (key : Int) value, table[key]? ≠ some value) : table.size = 0 := by
  rw [← TreeMap.length_toList]
  cases rows : table.toList with
  | nil => rfl
  | cons row rest =>
    have member : row ∈ table.toList := by rw [rows]; exact mem_cons_self
    exact absurd (TreeMap.mem_toList_iff_getElem?_eq_some.mp member) (none_ row.1 row.2)

theorem drop_oldest_spec (order : List (Int × Nat)) (requests : TreeMap Int Nat)
    (ordered : ∀ (requestSeq : Int) id, requests[requestSeq]? = some id → (requestSeq, id) ∈ order) :
    (dropOldest requests order).1.size ≤ 4 * maxPendingOperations ∧
      ∀ (requestSeq : Int) id, (dropOldest requests order).1[requestSeq]? = some id →
        (requestSeq, id) ∈ (dropOldest requests order).2 := by
  induction order generalizing requests with
  | nil =>
    have empty := empty_of_no_rows requests fun requestSeq id found =>
      nomatch ordered requestSeq id found
    exact ⟨by rw [dropOldest, empty]; exact Nat.zero_le _, ordered⟩
  | cons oldest rest ih =>
    obtain ⟨requestSeq, operation⟩ := oldest
    unfold dropOldest
    split
    next small => exact ⟨Nat.mul_comm _ _ ▸ small, ordered⟩
    next large =>
        split
        next found =>
            refine ih (requests.erase requestSeq) fun other id inside => ?_
            rw [TreeMap.getElem?_erase] at inside
            split at inside
            · cases inside
            next apart =>
                rcases mem_cons.mp (ordered other id inside) with same | later
                · exact absurd (Std.compare_eq_iff_eq.mpr (Prod.mk.inj same).1.symm) apart
                · exact later
        next gone =>
            refine ih requests fun other id inside => ?_
            rcases mem_cons.mp (ordered other id inside) with same | later
            · obtain ⟨rfl, rfl⟩ := Prod.mk.inj same
              exact absurd inside gone
            · exact later

theorem prune_spec (ordered : ∀ (requestSeq : Int) id, b.terminalRequests[requestSeq]? = some id →
      (requestSeq, id) ∈ b.terminalOrder) :
    b.pruneTerminalRequests.terminalRequests.size ≤ 4 * maxPendingOperations ∧
      ∀ (requestSeq : Int) id, b.pruneTerminalRequests.terminalRequests[requestSeq]? = some id →
        (requestSeq, id) ∈ b.pruneTerminalRequests.terminalOrder := by
  refine drop_oldest_spec _ _ fun requestSeq id found => ?_
  exact mem_filter.mpr ⟨ordered requestSeq id found, beq_iff_eq.mpr found⟩

theorem requests_without {b : Broker} (ok : Sane b) (gone : BrokerOperation)
    (member : gone ∈ b.fifo) (requests : TreeMap Int Nat) (erased : match gone.requestSeq with
      | none => requests = b.requests
      | some requestSeq => requests = b.requests.erase requestSeq)
    (requestSeq : Int) (id : Nat) :
    requests[requestSeq]? = some id ↔ ∃ entry ∈ b.fifo.filter (fun entry => entry.id != gone.id),
        entry.requestSeq = some requestSeq ∧ entry.id = id := by
  have others : (∃ entry ∈ b.fifo.filter (fun entry => entry.id != gone.id),
        entry.requestSeq = some requestSeq ∧ entry.id = id) ↔
      (b.requests[requestSeq]? = some id ∧ gone.requestSeq ≠ some requestSeq) := by
    constructor
    · rintro ⟨entry, inside, asked, named⟩
      obtain ⟨here, apart⟩ := mem_filter.mp inside
      refine ⟨(ok.requests requestSeq id).mpr ⟨entry, here, asked, named⟩, fun same => ?_⟩
      have first := (ok.requests requestSeq gone.id).mpr ⟨gone, member, same, rfl⟩
      have second := (ok.requests requestSeq entry.id).mpr ⟨entry, here, asked, rfl⟩
      exact bne_iff_ne.mp apart (Option.some.inj (second.symm.trans first))
    · rintro ⟨found, apart⟩
      obtain ⟨entry, here, asked, named⟩ := (ok.requests requestSeq id).mp found
      refine ⟨entry, mem_filter.mpr ⟨here, bne_iff_ne.mpr fun same => apart ?_⟩, asked, named⟩
      rw [← same_entry ok.distinct here member same]
      exact asked
  rw [others]
  cases held : gone.requestSeq with
  | none =>
    rw [held] at erased
    simp only at erased
    rw [erased]
    exact (and_iff_left fun same => nomatch same).symm
  | some goneSeq =>
    rw [held] at erased
    simp only at erased
    rw [erased, TreeMap.getElem?_erase]
    by_cases same : goneSeq = requestSeq
    · rw [if_pos (Std.compare_eq_iff_eq.mpr same), same]
      exact iff_of_false (fun found => nomatch found) (fun both => both.2 rfl)
    · rw [if_neg fun equal => same (Std.compare_eq_iff_eq.mp equal)]
      exact (and_iff_left fun equal => same (Option.some.inj equal)).symm

structure Retired (b after : Broker) (id : Nat) : Prop where
  sane : Sane after
  fifo : after.fifo = b.fifo.filter fun entry => entry.id != id
  settled : after.settled = b.settled
  next : after.nextOperationId = b.nextOperationId

theorem retire_absent (absent : id ∉ b.ids) : b.retireForCompletion id = (false, b) := by
  have elsewhere : ∀ entry ∈ b.fifo, entry.id ≠ id := fun entry member same =>
    absent ((mem_ids b id).mpr ⟨entry, member, same⟩)
  have kept : (b.fifo.filter fun entry => entry.id != id) = b.fifo :=
    filter_eq_self.mpr fun entry member => bne_iff_ne.mpr (elsewhere entry member)
  have none_ : (b.fifo.filter fun entry => entry.id == id) = [] :=
    filter_eq_nil_iff.mpr fun entry member same => elsewhere entry member (beq_iff_eq.mp same)
  simp only [Broker.retireForCompletion, kept, none_, getLast?_nil, Option.bind_none,
    ne_eq, not_true_eq_false, decide_false]

theorem last_removed (distinct : b.ids.Nodup) (gone : BrokerOperation) (member : gone ∈ b.fifo) :
    (b.fifo.filter fun entry => entry.id == gone.id).getLast? = some gone := by
  have inside : gone ∈ b.fifo.filter fun entry => entry.id == gone.id :=
    mem_filter.mpr ⟨member, beq_iff_eq.mpr rfl⟩
  cases found : (b.fifo.filter fun entry => entry.id == gone.id).getLast? with
  | none =>
    rw [getLast?_eq_none_iff.mp found] at inside
    cases inside
  | some last =>
    obtain ⟨here, same⟩ := mem_filter.mp (mem_of_getLast? found)
    rw [same_entry distinct here member (beq_iff_eq.mp same)]

theorem Sane.without {b after : Broker} (ok : Sane b) (gone : BrokerOperation) (member : gone ∈ b.fifo)
    (fifo : after.fifo = b.fifo.filter fun entry => entry.id != gone.id)
    (generation : after.sessionGeneration = b.sessionGeneration) (erased : match gone.requestSeq with
      | none => after.requests = b.requests
      | some requestSeq => after.requests = b.requests.erase requestSeq)
    (ordered : ∀ (requestSeq : Int) id, after.terminalRequests[requestSeq]? = some id →
      (requestSeq, id) ∈ after.terminalOrder)
    (window : after.terminalRequests.size ≤ 4 * maxPendingOperations) : Sane after where
  current := by
    rw [fifo, generation]
    exact fun entry inside => ok.current entry (mem_filter.mp inside).1
  bounded := by
    rw [fifo]
    exact Nat.le_trans (length_filter_le _ _) ok.bounded
  distinct := by
    rw [Broker.ids, fifo]
    exact List.Nodup.sublist (filter_sublist.map _) ok.distinct
  requests := by
    rw [fifo]
    exact requests_without ok gone member after.requests erased
  ordered := ordered
  window := window

theorem retire_present (ok : Sane b) (gone : BrokerOperation) (member : gone ∈ b.fifo) :
    (b.retireForCompletion gone.id).1 = true ∧ Retired b (b.retireForCompletion gone.id).2 gone.id := by
  have shorter : (b.fifo.filter fun entry => entry.id != gone.id).length < b.fifo.length :=
    length_filter_lt_length_iff_exists.mpr ⟨gone, member, fun apart => bne_iff_ne.mp apart rfl⟩
  have last := last_removed b ok.distinct gone member
  simp only [Broker.retireForCompletion, last, Option.bind_some]
  refine ⟨decide_eq_true (Nat.ne_of_lt shorter), ?_⟩
  cases held : gone.requestSeq with
  | none =>
    refine ⟨ok.without gone member rfl rfl ?_ ok.ordered ok.window, rfl, rfl, rfl⟩
    rw [held]
  | some requestSeq =>
    simp only
    obtain ⟨window, ordered⟩ := prune_spec { b with
        fifo := b.fifo.filter fun entry => entry.id != gone.id
        requests := b.requests.erase requestSeq
        terminalRequests := b.terminalRequests.insert requestSeq gone.id
        terminalOrder := b.terminalOrder ++ [(requestSeq, gone.id)] } (by
      intro other id found
      simp only [getElem?_insert] at found
      by_cases same : requestSeq = other
      · rw [if_pos same] at found
        cases found
        exact mem_append.mpr (.inr (mem_singleton.mpr (by rw [same])))
      · rw [if_neg same] at found
        exact mem_append.mpr (.inl (ok.ordered other id found)))
    refine ⟨ok.without gone member rfl rfl ?_ ordered window, rfl, rfl, rfl⟩
    rw [held]
    rfl

theorem ids_without (distinct : b.ids.Nodup) (id : Nat) (pending : id ∈ b.ids) :
    b.ids.Perm (id :: (b.fifo.filter fun entry => entry.id != id).map BrokerOperation.id) := by
  have fewer : List.Sublist ((b.fifo.filter fun entry => entry.id != id).map BrokerOperation.id)
      b.ids := filter_sublist.map _
  have gone : id ∉ (b.fifo.filter fun entry => entry.id != id).map BrokerOperation.id := by
    intro among
    obtain ⟨entry, member, same⟩ := mem_map.mp among
    exact bne_iff_ne.mp (mem_filter.mp member).2 same
  refine (perm_ext_iff_of_nodup distinct (nodup_cons.mpr ⟨gone, distinct.sublist fewer⟩)).mpr fun other => ?_
  rw [mem_cons]
  constructor
  · intro among
    obtain ⟨entry, member, named⟩ := (mem_ids b other).mp among
    by_cases same : other = id
    · exact .inl same
    · refine .inr (mem_map.mpr ⟨entry, mem_filter.mpr ⟨member, ?_⟩, named⟩)
      rw [named]
      exact bne_iff_ne.mpr same
  · rintro (same | among)
    · exact same ▸ pending
    · exact fewer.subset among

/-- What a submission under the lock does. -/
inductive Admitted (b : Broker) (operation : BrokerOperation) :
    Except BrokerTerminal BrokerOperation × Broker → Prop where
  | refused (refusal : BrokerTerminal) : Admitted b operation (.error refusal, b)
  | appended (after : Broker) (sane : Sane after)
      (alone : (operation.requestSeq.bind fun requestSeq => b.requests[requestSeq]?) = none)
      (ids : after.ids = b.ids ++ [operation.id]) (settled : after.settled = b.settled)
      (next : after.nextOperationId = b.nextOperationId) :
      Admitted b operation (.ok operation, after)
  | replaced (previous : Nat) (after : Broker) (sane : Sane after)
      (found : (operation.requestSeq.bind fun requestSeq => b.requests[requestSeq]?) =
        some previous)
      (ids : (b.ids ++ [operation.id]).Perm (previous :: after.ids))
      (settled : after.settled = b.settled.insert previous .cancelled)
      (next : after.nextOperationId = b.nextOperationId) :
      Admitted b operation (.ok operation, after)

theorem Sane.adopt {b after : Broker} (ok : Sane b) (operation : BrokerOperation)
    (kept : List BrokerOperation) (fresh : operation.id ∉ b.ids)
    (sub : List.Sublist kept b.fifo) (room : b.fifo.length < maxPendingOperations)
    (bound : operation.sessionGeneration = b.sessionGeneration) (fifo : after.fifo = kept ++ [operation])
    (generation : after.sessionGeneration = b.sessionGeneration)
    (requests : ∀ (requestSeq : Int) id, after.requests[requestSeq]? = some id ↔
      ∃ entry ∈ kept ++ [operation], entry.requestSeq = some requestSeq ∧ entry.id = id)
    (ordered : ∀ (requestSeq : Int) id, after.terminalRequests[requestSeq]? = some id →
      (requestSeq, id) ∈ after.terminalOrder)
    (window : after.terminalRequests.size ≤ 4 * maxPendingOperations) : Sane after where
  current := by
    rw [fifo, generation]
    intro entry member
    rcases mem_append.mp member with old | new
    · exact ok.current entry (sub.subset old)
    · rw [mem_singleton.mp new]
      exact bound
  bounded := by
    rw [fifo, length_append]
    exact Nat.lt_of_le_of_lt sub.length_le room
  distinct := by
    rw [Broker.ids, fifo, map_append]
    have others := List.Nodup.sublist (sub.map BrokerOperation.id) ok.distinct
    refine nodup_append.mpr ⟨others, nodup_singleton _, ?_⟩
    rintro id old _ new rfl
    rw [mem_singleton.mp new] at old
    exact fresh ((sub.map BrokerOperation.id).subset old)
  requests := by rw [fifo]; exact requests
  ordered := ordered
  window := window

/-- The request map after the sequence was given to a new operation, those that carried
it being gone. -/
theorem requests_with {b : Broker} (ok : Sane b) (operation : BrokerOperation)
    (kept : List BrokerOperation) (asked : Int) (own : operation.requestSeq = some asked)
    (keeps : ∀ entry, entry ∈ kept ↔ entry ∈ b.fifo ∧ entry.requestSeq ≠ some asked)
    (requestSeq : Int) (id : Nat) : (b.requests.insert asked operation.id)[requestSeq]? = some id ↔
      ∃ entry ∈ kept ++ [operation], entry.requestSeq = some requestSeq ∧ entry.id = id := by
  rw [getElem?_insert]
  by_cases same : asked = requestSeq
  · subst same
    rw [if_pos rfl]
    constructor
    · intro named
      exact ⟨operation, mem_append.mpr (.inr mem_cons_self), own, Option.some.inj named⟩
    · rintro ⟨entry, member, asks, named⟩
      rcases mem_append.mp member with old | new
      · exact absurd asks ((keeps entry).mp old).2
      · rw [← named, mem_singleton.mp new]
  · rw [if_neg same]
    constructor
    · intro found
      obtain ⟨entry, member, asks, named⟩ := (ok.requests requestSeq id).mp found
      have apart : entry.requestSeq ≠ some asked := fun equal =>
        same (Option.some.inj (equal.symm.trans asks))
      exact ⟨entry, mem_append.mpr (.inl ((keeps entry).mpr ⟨member, apart⟩)), asks, named⟩
    · rintro ⟨entry, member, asks, named⟩
      rcases mem_append.mp member with old | new
      · exact (ok.requests requestSeq id).mpr ⟨entry, ((keeps entry).mp old).1, asks, named⟩
      · rw [mem_singleton.mp new, own] at asks
        exact absurd (Option.some.inj asks) same

theorem submit_spec (ok : Sane b) (operation : BrokerOperation) (fresh : operation.id ∉ b.ids) :
    Admitted b operation (b.submit operation) := by
  unfold Broker.submit
  by_cases stale : operation.sessionGeneration ≠ b.sessionGeneration
  · rw [if_pos stale]
    exact .refused _
  by_cases shut : (!b.accepting) = true
  · rw [if_neg stale, if_pos shut]
    exact .refused _
  by_cases full : maxPendingOperations ≤ b.fifo.length
  · rw [if_neg stale, if_neg shut, if_pos full]
    exact .refused _
  rw [if_neg stale, if_neg shut, if_neg full]
  have bound := Decidable.not_not.mp stale
  have room := Nat.lt_of_not_le full
  have whole := List.Sublist.refl b.fifo
  cases own : operation.requestSeq with
  | none =>
    refine .appended _ (ok.adopt operation b.fifo fresh whole room bound rfl rfl ?_ ok.ordered
      ok.window) (by rw [own]; rfl) (map_append) rfl rfl
    intro requestSeq id
    refine (ok.requests requestSeq id).trans ⟨?_, ?_⟩
    · rintro ⟨entry, member, asks, named⟩
      exact ⟨entry, mem_append.mpr (.inl member), asks, named⟩
    · rintro ⟨entry, member, asks, named⟩
      rcases mem_append.mp member with old | new
      · exact ⟨entry, old, asks, named⟩
      · rw [mem_singleton.mp new, own] at asks
        cases asks
  | some asked =>
    have ordered : ∀ (requestSeq : Int) id, (b.terminalRequests.erase asked)[requestSeq]? =
        some id → (requestSeq, id) ∈ b.terminalOrder := by
      intro requestSeq id found
      rw [TreeMap.getElem?_erase] at found
      split at found
      · cases found
      · exact ok.ordered requestSeq id found
    have window : (b.terminalRequests.erase asked).size ≤ 4 * maxPendingOperations :=
      Nat.le_trans TreeMap.size_erase_le ok.window
    simp only
    cases found : b.requests[asked]? with
    | none =>
      have keeps : ∀ entry, entry ∈ b.fifo ↔ entry ∈ b.fifo ∧ entry.requestSeq ≠ some asked := by
        refine fun entry => ⟨fun member => ⟨member, fun asks => ?_⟩, And.left⟩
        rw [(ok.requests asked entry.id).mpr ⟨entry, member, asks, rfl⟩] at found
        cases found
      exact .appended _ (ok.adopt operation b.fifo fresh whole room bound rfl rfl
        (requests_with ok operation b.fifo asked own keeps) ordered window)
        (by rw [own]; exact found) map_append rfl rfl
    | some previous =>
      obtain ⟨gone, member, goneAsked, named⟩ := (ok.requests asked previous).mp found
      have pending : previous ∈ b.ids := (mem_ids b previous).mpr ⟨gone, member, named⟩
      have apart : operation.id ≠ previous := fun same => fresh (same ▸ pending)
      have left : ((b.fifo ++ [operation]).filter fun entry => entry.id != previous) =
          (b.fifo.filter fun entry => entry.id != previous) ++ [operation] := by
        have alone : ([operation].filter fun entry => entry.id != previous) = [operation] :=
          filter_eq_self.mpr fun entry inside =>
            bne_iff_ne.mpr (mem_singleton.mp inside ▸ apart)
        rw [filter_append, alone]
      have keeps : ∀ entry, (entry ∈ b.fifo.filter fun entry => entry.id != previous) ↔
          entry ∈ b.fifo ∧ entry.requestSeq ≠ some asked := by
        intro entry
        rw [mem_filter]
        refine and_congr_right fun here => ⟨fun other asks => ?_, fun other => ?_⟩
        · have again := (ok.requests asked entry.id).mpr ⟨entry, here, asks, rfl⟩
          exact bne_iff_ne.mp other (Option.some.inj (again.symm.trans found))
        · refine bne_iff_ne.mpr fun same => other ?_
          rw [same_entry ok.distinct here member (same.trans named.symm)]
          exact goneAsked
      refine .replaced previous _ (ok.adopt operation _ fresh filter_sublist room bound
        left rfl (requests_with ok operation _ asked own keeps) ordered window)
        (by rw [own]; exact found) ?_ rfl rfl
      have moved := (ids_without b ok.distinct previous pending).append_right [operation.id]
      simp only [Broker.ids, left, map_append]
      exact moved

theorem saved_all (entries : List BrokerOperation) (settled : TreeMap Nat BrokerTerminal)
    (terminal : BrokerTerminal) (id : Nat) :
    (entries.foldl (fun settled entry => settled.insert entry.id terminal) settled)[id]? =
      if id ∈ entries.map BrokerOperation.id then some terminal else settled[id]? := by
  induction entries generalizing settled with
  | nil => rfl
  | cons entry rest ih =>
    rw [foldl_cons, ih, getElem?_insert, map_cons]
    by_cases later : id ∈ rest.map BrokerOperation.id
    · rw [if_pos later, if_pos (mem_cons_of_mem _ later)]
    by_cases same : entry.id = id
    · rw [if_neg later, if_pos same, if_pos (mem_cons.mpr (.inl same.symm))]
    · rw [if_neg later, if_neg same, if_neg fun either =>
        (mem_cons.mp either).elim (fun equal => same equal.symm) later]

theorem settle_sane (reason : String) (expected : Option Nat) :
    b.settleUnderLock reason expected = (false, b) ∨
      ∃ after, b.settleUnderLock reason expected = (true, after) ∧ Sane after ∧ after.fifo = [] ∧
        after.nextOperationId = b.nextOperationId ∧
        ∀ id, after.settled[id]? =
          if id ∈ b.ids then some (.sessionGone reason) else b.settled[id]? := by
  unfold Broker.settleUnderLock
  by_cases old : (expected.any fun generation => generation != b.sessionGeneration) = true
  · exact .inl (if_pos old)
  refine .inr ⟨_, if_neg old, ⟨?_, ?_, ?_, ?_, ?_, ?_⟩, rfl, rfl, fun id => saved_all b.fifo b.settled _ id⟩
  · exact fun _ member => nomatch member
  · exact Nat.zero_le _
  · exact nodup_nil
  · refine fun requestSeq id => ⟨(fun found => nomatch found), ?_⟩
    rintro ⟨entry, member, _⟩
    cases member
  · exact fun _ _ found => nomatch found
  · exact Nat.zero_le _

namespace System

def Saved (t : System) (id : Nat) : Prop :=
  ∃ outcome, (id, outcome) ∈ t.decisions ∧ t.broker.settled[id]? = some outcome

/-- What the place of a holder says about its operation. -/
def Stands (t : System) (id : Nat) : Phase → Prop
  | .done outcome => (id, outcome) ∈ t.decisions
  | .lost => Saved t id
  | _ => id ∈ t.broker.ids ∨ Saved t id

structure Sound (t : System) : Prop where
  sane : Sane t.broker
  minted : ∀ operation ∈ t.calls, operation.id < t.broker.nextOperationId
  separate : (t.calls.map BrokerOperation.id).Nodup
  outside : ∀ operation ∈ t.calls, operation.id ∉ t.waiters
  admitted : ∀ id, id ∈ t.waiters → id < t.broker.nextOperationId
  accounted : (t.broker.ids ++ t.decisions.map Prod.fst).Perm t.waiters.keys
  stands : ∀ id (waiter : Waiter), t.waiters[id]? = some waiter → Stands t id waiter.phase

theorem keys_distinct (t : System) : t.waiters.keys.Nodup := by
  rw [← TreeMap.map_fst_toList_eq_keys]
  exact keys_nodup t.waiters

variable {u : System}

theorem Sound.decided_not_pending (ok : Sound t) (id : Nat) (outcome : BrokerTerminal)
    (decided : (id, outcome) ∈ t.decisions) : id ∉ t.broker.ids := by
  intro pending
  have distinct := ok.accounted.nodup_iff.mpr (keys_distinct t)
  exact (nodup_append.mp distinct).2.2 id pending id (mem_map_of_mem decided) rfl

theorem Sound.holds (ok : Sound t) (id : Nat) (pending : id ∈ t.broker.ids) : id ∈ t.waiters :=
  TreeMap.mem_keys.mp (ok.accounted.mem_iff.mp (mem_append.mpr (.inl pending)))

/-- The parts of the invariant that a step on the waiters and the decisions touches. -/
structure Kept (t u : System) : Prop where
  calls : u.calls = t.calls
  next : u.broker.nextOperationId = t.broker.nextOperationId
  waiters : ∀ id, id ∈ u.waiters ↔ id ∈ t.waiters

theorem Sound.rebuild (ok : Sound t) (kept : Kept t u) (sane : Sane u.broker)
    (accounted : (u.broker.ids ++ u.decisions.map Prod.fst).Perm u.waiters.keys)
    (stands : ∀ id (waiter : Waiter), u.waiters[id]? = some waiter → Stands u id waiter.phase) :
    Sound u where
  sane := sane
  minted := by rw [kept.calls, kept.next]; exact ok.minted
  separate := by rw [kept.calls]; exact ok.separate
  outside := by
    rw [kept.calls]
    exact fun operation member inside =>
      ok.outside operation member ((kept.waiters _).mp inside)
  admitted := by
    rw [kept.next]
    exact fun id inside => ok.admitted id ((kept.waiters id).mp inside)
  accounted := accounted
  stands := stands

theorem stands_mono (phase : Phase) (pending : id ∈ t.broker.ids → id ∈ u.broker.ids ∨ Saved u id)
    (saved : Saved t id → Saved u id) (grown : ∀ decision ∈ t.decisions, decision ∈ u.decisions)
    (before : Stands t id phase) : Stands u id phase := by
  have waiting : id ∈ t.broker.ids ∨ Saved t id → id ∈ u.broker.ids ∨ Saved u id :=
    fun either => either.elim pending fun held => .inr (saved held)
  cases phase with
  | done outcome => exact grown _ before
  | lost => exact saved before
  | held | polling frame | checking frame | scanning frame | timing frame => exact waiting before

/-- Another operation's holder stands as before while its operation is pending or its saved outcome
there. -/
theorem stands_other (phase : Phase) (pending : id ∈ t.broker.ids → id ∈ u.broker.ids)
    (settled : u.broker.settled[id]? = t.broker.settled[id]?)
    (grown : ∀ decision ∈ t.decisions, decision ∈ u.decisions) (before : Stands t id phase) :
    Stands u id phase := by
  refine stands_mono id phase (fun inside => .inl (pending inside)) ?_ grown before
  rintro ⟨outcome, decided, found⟩
  exact ⟨outcome, grown _ decided, settled.trans found⟩

theorem set_phase_keys (t : System) (id : Nat) (waiter : Waiter) (phase : Phase)
    (found : t.waiters[id]? = some waiter) : (t.setPhase id waiter phase).waiters.keys.Perm t.waiters.keys ∧
      ∀ other, other ∈ (t.setPhase id waiter phase).waiters ↔ other ∈ t.waiters := by
  have inside : id ∈ t.waiters := TreeMap.mem_iff_isSome_getElem?.mpr (by rw [found]; rfl)
  have keys := keys_insert_present_perm t.waiters id { waiter with phase := phase } inside
  refine ⟨keys, fun other => ?_⟩
  rw [← TreeMap.mem_keys, ← TreeMap.mem_keys]
  exact keys.mem_iff

section
variable {t : System} (ok : Sound t) (waiter : Waiter) (found : t.waiters[id]? = some waiter)
include t ok id waiter found

/-- The holder of one operation moves on; the broker changed at most in what concerns it. -/
theorem Sound.moves (broker : Broker)
    (decided : List (Nat × BrokerTerminal)) (phase : Phase) (sane : Sane broker)
    (next : broker.nextOperationId = t.broker.nextOperationId)
    (accounted : (broker.ids ++ decided.map Prod.fst).Perm t.broker.ids)
    (others : ∀ other, other ≠ id → (other ∈ t.broker.ids → other ∈ broker.ids) ∧
        broker.settled[other]? = t.broker.settled[other]?)
    (stands : Stands ⟨broker, t.calls, t.waiters, decided ++ t.decisions⟩ id phase) :
    Sound (setPhase ⟨broker, t.calls, t.waiters, decided ++ t.decisions⟩ id waiter phase) := by
  obtain ⟨keys, members⟩ :=
    set_phase_keys ⟨broker, t.calls, t.waiters, decided ++ t.decisions⟩ id waiter phase found
  refine ok.rebuild ⟨rfl, next, members⟩ sane ?_ ?_
  · refine List.Perm.trans ?_ keys.symm
    refine List.Perm.trans ?_ ok.accounted
    rw [setPhase, map_append, ← append_assoc]
    exact accounted.append_right _
  · intro other row held
    by_cases same : id = other
    · subst same
      rw [setPhase, getElem?_insert, if_pos rfl] at held
      cases held
      exact stands
    · rw [setPhase, getElem?_insert, if_neg same] at held
      obtain ⟨pending, settled⟩ := others other (Ne.symm same)
      exact stands_other other row.phase pending settled
        (fun decision member => mem_append.mpr (.inr member)) (ok.stands other row held)

theorem Sound.phase (phase : Phase) (stands : Stands t id phase) : Sound (t.setPhase id waiter phase) := by
  refine ok.moves id waiter found t.broker [] phase ok.sane rfl ?_
    (fun other _ => ⟨fun inside => inside, rfl⟩) stands
  rw [map_nil, append_nil]

/-- The holder that still finds its operation pending decides its outcome. -/
theorem Sound.decide (pending : id ∈ t.broker.ids) (own : BrokerTerminal) :
    (t.broker.retireForCompletion id).1 = true ∧
      Sound (setPhase ⟨(t.broker.retireForCompletion id).2, t.calls, t.waiters,
        (id, own) :: t.decisions⟩ id waiter (.done own)) := by
  obtain ⟨gone, member, rfl⟩ := (mem_ids t.broker id).mp pending
  obtain ⟨removed, retired⟩ := retire_present t.broker ok.sane gone member
  refine ⟨removed, ?_⟩
  refine ok.moves gone.id waiter found _ [(gone.id, own)] (.done own) retired.sane retired.next ?_ ?_
    mem_cons_self
  · have split := ids_without t.broker ok.sane.distinct gone.id pending
    rw [Broker.ids, retired.fifo]
    exact (perm_append_singleton _ _).trans split.symm
  · intro other apart
    refine ⟨fun inside => ?_, by rw [retired.settled]⟩
    obtain ⟨entry, here, named⟩ := (mem_ids t.broker other).mp inside
    refine (mem_ids _ other).mpr ⟨entry, ?_, named⟩
    rw [retired.fifo]
    exact mem_filter.mpr ⟨here, bne_iff_ne.mpr fun same => apart (named.symm.trans same)⟩

theorem Sound.retire (own : BrokerTerminal)
    (waiting : id ∈ t.broker.ids ∨ Saved t id) : Sound (t.retire id waiter own) := by
  unfold System.retire
  by_cases pending : id ∈ t.broker.ids
  · obtain ⟨removed, sound⟩ := ok.decide id waiter found pending own
    generalize t.broker.retireForCompletion id = result at *
    obtain ⟨flag, broker⟩ := result
    cases removed
    exact sound
  · rw [retire_absent t.broker id pending]
    exact ok.phase id waiter found .lost (waiting.resolve_left pending)

theorem Sound.read (saved : Saved t id) :
    Sound (setPhase { t with broker := (t.broker.takeSettled id).2 } id waiter
      (.done (t.broker.takeSettled id).1)) := by
  obtain ⟨outcome, decided, held⟩ := saved
  have reads : (t.broker.takeSettled id).1 = outcome := by rw [Broker.takeSettled, held]; rfl
  rw [reads]
  refine ok.moves id waiter found _ [] (.done outcome) ?_ rfl ?_ ?_ decided
  · exact ⟨ok.sane.current, ok.sane.bounded, ok.sane.distinct, ok.sane.requests, ok.sane.ordered,
      ok.sane.window⟩
  · rw [map_nil, append_nil]
    exact List.Perm.refl _
  · intro other apart
    refine ⟨fun inside => inside, ?_⟩
    rw [Broker.takeSettled, TreeMap.getElem?_erase,
      if_neg fun equal => apart (Std.compare_eq_iff_eq.mp equal).symm]

theorem Sound.settleLease (terminal : BrokerTerminal)
    (waiting : id ∈ t.broker.ids ∨ Saved t id) : Sound (t.settleLease id waiter terminal) := by
  unfold System.settleLease Broker.settleOperation
  by_cases pending : id ∈ t.broker.ids
  · obtain ⟨removed, sound⟩ := ok.decide id waiter found pending terminal
    rw [if_pos ((is_pending_iff _ _).mpr pending)]
    generalize t.broker.retireForCompletion id = result at *
    obtain ⟨flag, broker⟩ := result
    cases removed
    exact sound
  · rw [retire_absent t.broker id pending, if_neg fun inside => pending ((is_pending_iff _ _).mp inside)]
    exact ok.read id waiter found (waiting.resolve_left pending)

theorem Sound.dropSettled (outcome : BrokerTerminal)
    (settled : waiter.phase = .done outcome) (terminal : BrokerTerminal) :
    Sound { t with broker := (t.broker.settleOperation id terminal).2 } := by
  have decided : (id, outcome) ∈ t.decisions := by
    have stands := ok.stands id waiter found
    rw [settled] at stands
    exact stands
  have absent := ok.decided_not_pending id outcome decided
  unfold Broker.settleOperation
  rw [retire_absent t.broker id absent]
  refine ok.rebuild ⟨rfl, rfl, fun _ => Iff.rfl⟩ ?_ ok.accounted ?_
  · exact ⟨ok.sane.current, ok.sane.bounded, ok.sane.distinct, ok.sane.requests, ok.sane.ordered,
      ok.sane.window⟩
  · intro other row held
    by_cases same : id = other
    · subst same
      cases found.symm.trans held
      rw [settled]
      exact decided
    · refine stands_other (t := t) other row.phase (fun inside => inside) ?_ (fun _ made => made)
        (ok.stands other row held)
      simp only [Broker.takeSettled]
      rw [TreeMap.getElem?_erase, if_neg fun equal => same (Std.compare_eq_iff_eq.mp equal)]

end

section
variable {t : System} (ok : Sound t) (operation : BrokerOperation) (calls : List BrokerOperation)
    (split : t.calls.Perm (operation :: calls))
include t ok operation calls split

theorem Sound.leaves : Sound { t with calls := calls } where
  sane := ok.sane
  minted := fun other member => ok.minted other (split.mem_iff.mpr (mem_cons_of_mem _ member))
  separate := (nodup_cons.mp ((split.map BrokerOperation.id).nodup_iff.mp ok.separate)).2
  outside := fun other member =>
    ok.outside other (split.mem_iff.mpr (mem_cons_of_mem _ member))
  admitted := ok.admitted
  accounted := ok.accounted
  stands := ok.stands

theorem Sound.admits (broker : Broker) (decided : List (Nat × BrokerTerminal)) (sane : Sane broker)
    (next : broker.nextOperationId = t.broker.nextOperationId) (pending : operation.id ∈ broker.ids)
    (accounted : (broker.ids ++ decided.map Prod.fst).Perm (operation.id :: t.broker.ids))
    (others : ∀ id phase, Stands t id phase →
      Stands ⟨broker, calls, t.waiters, decided ++ t.decisions⟩ id phase) :
    Sound ⟨broker, calls, t.waiters.insert operation.id ⟨operation, .held⟩,
      decided ++ t.decisions⟩ := by
  have asked : operation ∈ t.calls := split.mem_iff.mpr mem_cons_self
  have fresh := ok.outside operation asked
  have left := ok.leaves operation calls split
  have keys := keys_insert_perm t.waiters operation.id ⟨operation, .held⟩ fresh
  have members : ∀ id, id ∈ t.waiters.insert operation.id ⟨operation, .held⟩ ↔
      id = operation.id ∨ id ∈ t.waiters := fun id => by
    rw [← TreeMap.mem_keys, keys.mem_iff, mem_cons, TreeMap.mem_keys]
  refine ⟨sane, ?_, left.separate, ?_, ?_, ?_, ?_⟩
  · exact fun other member => Nat.lt_of_lt_of_eq (left.minted other member) next.symm
  · intro other member inside
    rcases (members other.id).mp inside with same | old
    · have distinct := (split.map BrokerOperation.id).nodup_iff.mp ok.separate
      exact (nodup_cons.mp distinct).1 (same ▸ mem_map_of_mem member)
    · exact left.outside other member old
  · intro id inside
    rw [next]
    rcases (members id).mp inside with same | old
    · exact same ▸ ok.minted operation asked
    · exact ok.admitted id old
  · refine List.Perm.trans ?_ keys.symm
    rw [map_append, ← append_assoc]
    exact (accounted.append_right _).trans (ok.accounted.cons _)
  · intro id waiter held
    rw [getElem?_insert] at held
    split at held
    next same =>
        cases held
        exact .inl (same ▸ pending)
    next => exact others id waiter.phase (ok.stands id waiter held)

end

theorem superseded_eq (t : System) (operation : BrokerOperation) : t.superseded operation =
      ((operation.requestSeq.bind fun requestSeq => t.broker.requests[requestSeq]?).map
        fun previous => (previous, BrokerTerminal.cancelled)).toList := by
  unfold superseded
  cases operation.requestSeq.bind fun requestSeq => t.broker.requests[requestSeq]? with
  | none => rfl
  | some previous => rfl

/-- What a step may do to the admitted operations: they grow by pending ones, and decisions stay. -/
structure Grows (t u : System) : Prop where
  kept : ∀ id, id ∈ t.waiters → id ∈ u.waiters
  new : ∀ id, id ∈ u.waiters → id ∈ t.waiters ∨ id ∈ u.broker.ids
  decisions : t.decisions <:+ u.decisions

theorem Grows.same (waiters : u.waiters = t.waiters) (decisions : u.decisions = t.decisions) :
    Grows t u where
  kept := by rw [waiters]; exact fun _ inside => inside
  new := by rw [waiters]; exact fun _ inside => .inl inside
  decisions := decisions ▸ suffix_refl _

section
variable {t : System} (ok : Sound t)
include t ok

theorem enter_grows (index : Nat) : Sound (t.enter index) ∧ Grows t (t.enter index) := by
  unfold System.enter
  cases found : t.calls[index]? with
  | none => exact ⟨ok, .same rfl rfl⟩
  | some operation =>
    obtain ⟨inside, same⟩ := List.getElem?_eq_some_iff.mp found
    have split : t.calls.Perm (operation :: t.calls.eraseIdx index) := by
      rw [← same]
      exact (getElem_cons_eraseIdx_perm inside).symm
    have asked : operation ∈ t.calls := split.mem_iff.mpr mem_cons_self
    have fresh : operation.id ∉ t.broker.ids := fun pending =>
      ok.outside operation asked (ok.holds operation.id pending)
    have admitted := submit_spec t.broker ok.sane operation fresh
    have grows : ∀ broker decided, operation.id ∈ broker.ids → Grows t ⟨broker, t.calls.eraseIdx index,
          t.waiters.insert operation.id ⟨operation, .held⟩, decided ++ t.decisions⟩ := by
      intro broker decided pending
      refine ⟨fun id old => TreeMap.mem_insert.mpr (.inr old), fun id inside => ?_, suffix_append _ _⟩
      rcases TreeMap.mem_insert.mp inside with new | old
      · exact .inr (Std.compare_eq_iff_eq.mp new ▸ pending)
      · exact .inl old
    simp only [superseded_eq]
    generalize t.broker.submit operation = result at *
    cases admitted with
    | refused refusal =>
      exact ⟨ok.leaves operation _ split, fun _ old => old, fun _ old => .inl old, suffix_refl _⟩
    | appended after sane alone ids settled next =>
      have pending : operation.id ∈ after.ids := by
        rw [ids]
        exact mem_append.mpr (.inr mem_cons_self)
      simp only [alone, Option.map_none]
      refine ⟨ok.admits operation _ split after [] sane next pending ?_ ?_, grows after [] pending⟩
      · rw [ids, map_nil, append_nil]
        exact perm_append_singleton _ _
      · intro id phase before
        refine stands_other (t := t) id phase (fun old => ?_) (by rw [settled]) (fun _ made => made) before
        rw [ids]
        exact mem_append.mpr (.inl old)
    | replaced previous after sane held ids settled next =>
      simp only [held, Option.map_some]
      have gone : previous ∈ t.broker.ids := by
        obtain ⟨requestSeq, _, named⟩ := Option.bind_eq_some_iff.mp held
        obtain ⟨entry, member, _, same⟩ := (ok.sane.requests requestSeq previous).mp named
        exact (mem_ids t.broker previous).mpr ⟨entry, member, same⟩
      have stays : ∀ id, id ∈ t.broker.ids ++ [operation.id] → id ≠ previous →
          id ∈ after.ids := fun id old apart =>
        (mem_cons.mp (ids.mem_iff.mp old)).resolve_left apart
      have pending : operation.id ∈ after.ids :=
        stays _ (mem_append.mpr (.inr mem_cons_self)) fun same => fresh (same ▸ gone)
      refine ⟨ok.admits operation _ split after [(previous, .cancelled)] sane next pending
        ?_ ?_, grows after _ pending⟩
      · refine List.Perm.trans (perm_append_singleton _ _) ?_
        exact ids.symm.trans (perm_append_singleton _ _)
      · intro id phase before
        refine stands_mono id phase (fun old => ?_) ?_ (fun _ made => mem_cons_of_mem _ made) before
        · by_cases same : id = previous
          · refine .inr ⟨.cancelled, same ▸ mem_cons_self, ?_⟩
            simp only [settled, getElem?_insert, same, if_true]
          · exact .inl (stays id (mem_append.mpr (.inl old)) same)
        · rintro ⟨outcome, decided, saved⟩
          have apart : previous ≠ id := fun same =>
            ok.decided_not_pending id outcome decided (same ▸ gone)
          refine ⟨outcome, mem_cons_of_mem _ decided, ?_⟩
          simp only [settled, getElem?_insert, if_neg apart]
          exact saved

theorem settle_all_grows (reason : String) (expected : Option Nat) :
    Sound (t.settleAll reason expected) ∧ Grows t (t.settleAll reason expected) := by
  unfold System.settleAll
  rcases settle_sane t.broker reason expected with same | ⟨after, same, sane, empty, next, saves⟩
  · rw [same]
    exact ⟨ok, .same rfl rfl⟩
  rw [same]
  refine ⟨ok.rebuild ⟨rfl, next, fun _ => Iff.rfl⟩ sane ?_ ?_, fun _ inside => inside,
    fun _ inside => .inl inside, suffix_append _ _⟩
  · have named : (t.broker.ids.map fun id => (id, BrokerTerminal.sessionGone reason)).map
        Prod.fst = t.broker.ids := by
      rw [map_map]
      exact map_id _
    simp only [Broker.ids, empty, map_append, map_nil]
    rw [show t.broker.fifo.map BrokerOperation.id = t.broker.ids from rfl, named]
    exact ok.accounted
  · intro id waiter held
    refine stands_mono (t := t) id waiter.phase (fun pending => .inr ?_) ?_
      (fun _ made => mem_append.mpr (.inr made)) (ok.stands id waiter held)
    · exact ⟨_, mem_append.mpr (.inl (mem_map_of_mem pending)), (saves id).trans (if_pos pending)⟩
    · rintro ⟨outcome, decided, kept⟩
      exact ⟨outcome, mem_append.mpr (.inr decided),
        ((saves id).trans (if_neg (ok.decided_not_pending id outcome decided))).trans kept⟩

theorem call_grows (spec : BrokerOperationSpec) : Sound (t.call spec) ∧ Grows t (t.call spec) := by
  refine ⟨⟨?_, ?_, ?_, ?_, ?_, ok.accounted, ?_⟩, .same rfl rfl⟩
  · exact ⟨ok.sane.current, ok.sane.bounded, ok.sane.distinct, ok.sane.requests, ok.sane.ordered,
      ok.sane.window⟩
  · intro operation member
    rcases mem_append.mp member with old | new
    · exact Nat.lt_succ_of_lt (ok.minted operation old)
    · rw [mem_singleton.mp new]
      exact Nat.lt_succ_self _
  · rw [System.call, map_append]
    refine nodup_append.mpr ⟨ok.separate, nodup_singleton _, ?_⟩
    rintro id old _ new rfl
    obtain ⟨operation, member, named⟩ := mem_map.mp old
    have below := ok.minted operation member
    rw [named, mem_singleton.mp new] at below
    exact Nat.lt_irrefl _ below
  · intro operation member
    rcases mem_append.mp member with old | new
    · exact ok.outside operation old
    · rw [mem_singleton.mp new]
      exact fun inside => Nat.lt_irrefl _ (ok.admitted _ inside)
  · exact fun id inside => Nat.lt_succ_of_lt (ok.admitted id inside)
  · intro id waiter held
    exact stands_other (t := t) id waiter.phase (fun inside => inside) rfl (fun _ made => made)
      (ok.stands id waiter held)

theorem sideways (accepting : Bool) (cancelledTokens : List Nat) :
    Sound { t with broker := { t.broker with
      accepting := accepting, cancelledTokens := cancelledTokens } } ∧
    Grows t { t with broker := { t.broker with
      accepting := accepting, cancelledTokens := cancelledTokens } } := by
  refine ⟨ok.rebuild ⟨rfl, rfl, fun _ => Iff.rfl⟩ ?_ ok.accounted fun id waiter held => ?_, .same rfl rfl⟩
  · exact ⟨ok.sane.current, ok.sane.bounded, ok.sane.distinct, ok.sane.requests, ok.sane.ordered,
      ok.sane.window⟩
  · exact stands_other (t := t) id waiter.phase (fun inside => inside) rfl (fun _ made => made)
      (ok.stands id waiter held)

end

theorem cancel_request_sideways (requestSeq : Int) : ∃ cancelledTokens, (b.cancelRequest requestSeq).2 =
      { b with cancelledTokens := cancelledTokens } := by
  simp only [Broker.cancelRequest]
  split
  next token _ => exact ⟨_, rfl⟩
  next =>
      split
      · exact ⟨b.cancelledTokens, rfl⟩
      · exact ⟨b.cancelledTokens, rfl⟩

/-- What one step of the holder of an operation can be. -/
inductive Turn (t : System) (id : Nat) (waiter : Waiter) : System → Prop where
  | stays : Turn t id waiter t
  | moves (phase : Phase) (stands : Stands t id phase) : Turn t id waiter (t.setPhase id waiter phase)
  | retires (own : BrokerTerminal) (waiting : id ∈ t.broker.ids ∨ Saved t id) :
      Turn t id waiter (t.retire id waiter own)
  | settles (terminal : BrokerTerminal) (waiting : id ∈ t.broker.ids ∨ Saved t id) :
      Turn t id waiter (t.settleLease id waiter terminal)
  | drops (outcome : BrokerTerminal) (settled : waiter.phase = .done outcome) :
      Turn t id waiter { t with broker := (t.broker.settleOperation id requestDropped).2 }
  | reads (saved : Saved t id) :
      Turn t id waiter (setPhase { t with broker := (t.broker.takeSettled id).2 } id waiter
        (.done (t.broker.takeSettled id).1))

theorem holder_step_turn (ok : Sound t) (id : Nat) (waiter : Waiter)
    (found : t.waiters[id]? = some waiter) (op : Op) : Turn t id waiter (t.holderStep id waiter op) := by
  have stands := ok.stands id waiter found
  cases here : waiter.phase with
  | held =>
    rw [here] at stands
    cases op with
    | settle _ terminal => simp only [holderStep, here]; exact .settles terminal stands
    | dropLease => simp only [holderStep, here]; exact .settles _ stands
    | retireAfterWriteFailure => simp only [holderStep, here]; exact .retires _ stands
    | awaitFramedPayload => simp only [holderStep, here]; exact .moves _ stands
    | _ => simp only [holderStep, here]; exact .stays
  | polling frame =>
    rw [here] at stands
    cases op with
    | checkToken =>
      simp only [holderStep, here]
      split
      · exact .retires _ stands
      · exact .moves _ stands
    | _ => simp only [holderStep, here]; exact .stays
  | checking frame =>
    rw [here] at stands
    cases op with
    | checkPending =>
      simp only [holderStep, here]
      split
      · exact .moves _ stands
      next gone =>
          have absent : id ∉ t.broker.ids := fun inside => gone ((is_pending_iff _ _).mpr inside)
          exact .moves .lost (Or.resolve_left stands absent)
    | _ => simp only [holderStep, here]; exact .stays
  | scanning frame =>
    rw [here] at stands
    cases op with
    | scanOutput _ output =>
      simp only [holderStep, here]
      split
      · exact .retires _ stands
      · exact .moves _ stands
    | _ => simp only [holderStep, here]; exact .stays
  | timing frame =>
    rw [here] at stands
    cases op with
    | checkDeadline =>
      simp only [holderStep, here]
      split
      · exact .retires _ stands
      · exact .moves _ stands
    | _ => simp only [holderStep, here]; exact .stays
  | lost =>
    rw [here] at stands
    cases op with
    | takeSettled => simp only [holderStep, here]; exact .reads stands
    | _ => simp only [holderStep, here]; exact .stays
  | done outcome =>
    cases op with
    | dropLease => simp only [holderStep, here]; exact .drops outcome here
    | _ => simp only [holderStep, here]; exact .stays

theorem Turn.sound {id : Nat} {waiter : Waiter} (turn : Turn t id waiter u) (ok : Sound t)
    (found : t.waiters[id]? = some waiter) : Sound u := by
  cases turn with
  | stays => exact ok
  | moves phase stands => exact ok.phase id waiter found phase stands
  | retires own waiting => exact ok.retire id waiter found own waiting
  | settles terminal waiting => exact ok.settleLease id waiter found terminal waiting
  | drops outcome settled => exact ok.dropSettled id waiter found outcome settled requestDropped
  | reads saved => exact ok.read id waiter found saved

theorem set_phase_grows (waiter : Waiter) (found : t.waiters[id]? = some waiter) (broker : Broker)
    (decided : List (Nat × BrokerTerminal)) (phase : Phase) :
    Grows t (setPhase ⟨broker, t.calls, t.waiters, decided ++ t.decisions⟩ id waiter phase) := by
  have members := (set_phase_keys ⟨broker, t.calls, t.waiters, decided ++ t.decisions⟩ id waiter
    phase found).2
  exact ⟨fun other inside => (members other).mpr inside,
    fun other inside => .inl ((members other).mp inside), suffix_append _ _⟩

theorem Turn.grows {id : Nat} {waiter : Waiter} (turn : Turn t id waiter u)
    (found : t.waiters[id]? = some waiter) : Grows t u := by
  cases turn with
  | stays | drops => exact .same rfl rfl
  | moves phase => exact set_phase_grows id waiter found t.broker [] phase
  | retires own =>
    unfold System.retire
    generalize t.broker.retireForCompletion id = result
    obtain ⟨removed, broker⟩ := result
    cases removed with
    | true => exact set_phase_grows id waiter found broker [(id, own)] (.done own)
    | false => exact set_phase_grows id waiter found broker [] .lost
  | settles terminal => exact set_phase_grows id waiter found _ _ _
  | reads => exact set_phase_grows id waiter found _ [] _

theorem holder_grows (ok : Sound t) (id : Nat) (op : Op) :
    Sound (t.holder id op) ∧ Grows t (t.holder id op) := by
  unfold System.holder
  cases found : t.waiters[id]? with
  | none => exact ⟨ok, .same rfl rfl⟩
  | some waiter =>
    have turn := holder_step_turn ok id waiter found op
    exact ⟨turn.sound ok found, turn.grows found⟩

theorem step_grows (ok : Sound t) (op : Op) : Sound (step t op) ∧ Grows t (step t op) := by
  cases op with
  | call spec => exact call_grows ok spec
  | registerRequest requestSeq operationClass timeout token => exact call_grows ok _
  | enter index => exact enter_grows ok index
  | cancelRequest requestSeq =>
    obtain ⟨cancelledTokens, same⟩ := cancel_request_sideways t.broker requestSeq
    simp only [step, same]
    exact sideways ok t.broker.accepting cancelledTokens
  | cancelToken token => exact sideways ok t.broker.accepting (token :: t.broker.cancelledTokens)
  | openSession => exact sideways ok true t.broker.cancelledTokens
  | settleAll reason => exact settle_all_grows ok reason none
  | settleAllIfCurrent reason expected => exact settle_all_grows ok reason (some expected)
  | settle id terminal | dropLease id | retireAfterWriteFailure id
  | awaitFramedPayload id beginMarker endMarker now | checkToken id | checkPending id
  | scanOutput id output | checkDeadline id now | takeSettled id => exact holder_grows ok id _

theorem Sound.start : Sound start where
  sane := new_sane
  minted := fun _ member => nomatch member
  separate := nodup_nil
  outside := fun _ member => nomatch member
  admitted := fun id inside => absurd inside (TreeMap.not_mem_emptyc (k := id))
  accounted := by
    exact List.Perm.refl _
  stands := fun _ _ found => nomatch found

/-- What the broker promises in every state. The admitted operations are the keys of the waiters;
`decided` is the outcome with which one left the table. -/
structure Arbitrated (t : System) : Prop where
  exactlyOnce : (t.broker.ids ++ t.decisions.map Prod.fst).Perm t.waiters.keys
  admittedOnce : t.waiters.keys.Nodup
  returned : ∀ id (waiter : Waiter), t.waiters[id]? = some waiter →
    ∀ outcome, waiter.phase = .done outcome → (id, outcome) ∈ t.decisions
  readable : ∀ id (waiter : Waiter), t.waiters[id]? = some waiter →
    (∀ outcome, waiter.phase ≠ .done outcome) → id ∉ t.broker.ids →
    (id, (t.broker.takeSettled id).1) ∈ t.decisions
  lost : ∀ id (waiter : Waiter), t.waiters[id]? = some waiter → waiter.phase = .lost →
    id ∉ t.broker.ids
  current : ∀ entry ∈ t.broker.fifo, entry.sessionGeneration = t.broker.sessionGeneration
  bounded : t.broker.fifo.length ≤ maxPendingOperations
  requests : ∀ (requestSeq : Int) id, t.broker.requests[requestSeq]? = some id ↔
    ∃ entry ∈ t.broker.fifo, entry.requestSeq = some requestSeq ∧ entry.id = id
  window : t.broker.terminalRequests.size ≤ 4 * maxPendingOperations

theorem saved_reads (saved : Saved t id) : (id, (t.broker.takeSettled id).1) ∈ t.decisions := by
  obtain ⟨outcome, decided, held⟩ := saved
  rw [Broker.takeSettled, held]
  exact decided

theorem Sound.arbitrated (ok : Sound t) : Arbitrated t where
  exactlyOnce := ok.accounted
  admittedOnce := keys_distinct t
  returned := fun id waiter found outcome here => by
    have stands := ok.stands id waiter found
    rw [here] at stands
    exact stands
  readable := fun id waiter found open_ absent => by
    have stands := ok.stands id waiter found
    refine saved_reads id ?_
    cases here : waiter.phase with
    | done outcome => exact absurd here (open_ outcome)
    | lost => rw [here] at stands; exact stands
    | held | polling frame | checking frame | scanning frame | timing frame =>
      rw [here] at stands; exact Or.resolve_left stands absent
  lost := fun id waiter found here => by
    have stands := ok.stands id waiter found
    rw [here] at stands
    obtain ⟨outcome, decided, _⟩ := stands
    exact ok.decided_not_pending id outcome decided
  current := ok.sane.current
  bounded := ok.sane.bounded
  requests := ok.sane.requests
  window := ok.sane.window

/-- The outcomes a step decides are those of the operations it removes, and no decision is taken
back. -/
def Decides (t : System) (op : Op) : Prop :=
  ∃ decided, (step t op).decisions = decided ++ t.decisions ∧
    ∀ id, id ∈ decided.map Prod.fst ↔ id ∈ t.broker.ids ∧ id ∉ (step t op).broker.ids

theorem Sound.decides (ok : Sound t) (op : Op) : Decides t op := by
  obtain ⟨after, grows⟩ := step_grows ok op
  obtain ⟨decided, split⟩ := grows.decisions
  refine ⟨decided, split.symm, fun id => ?_⟩
  have accounted := after.accounted
  rw [← split, map_append] at accounted
  have distinct := accounted.nodup_iff.mpr (keys_distinct _)
  obtain ⟨_, decisions, apart⟩ := nodup_append.mp distinct
  constructor
  · intro now
    have removed : id ∉ (step t op).broker.ids := fun pending =>
      apart id pending id (mem_append.mpr (.inl now)) rfl
    have admitted : id ∈ (step t op).waiters := TreeMap.mem_keys.mp
      (accounted.mem_iff.mp (mem_append.mpr (.inr (mem_append.mpr (.inl now)))))
    have before : id ∈ t.waiters := (grows.new id admitted).resolve_right removed
    refine ⟨?_, removed⟩
    rcases mem_append.mp (ok.accounted.mem_iff.mpr (TreeMap.mem_keys.mpr before)) with
      pending | old
    · exact pending
    · exact absurd rfl ((nodup_append.mp decisions).2.2 id now id old)
  · rintro ⟨pending, removed⟩
    have admitted := grows.kept id (ok.holds id pending)
    have known := accounted.mem_iff.mpr (TreeMap.mem_keys.mpr admitted)
    rcases mem_append.mp ((mem_append.mp known).resolve_left removed) with now | old
    · exact now
    · obtain ⟨⟨_, outcome⟩, made, rfl⟩ := mem_map.mp old
      exact absurd pending (ok.decided_not_pending _ outcome made)

/-- Any interleaving of the threads around a new broker. -/
theorem every_interleaving_arbitrated (ops : List Op) :
    Along step Arbitrated start ops ∧ StepsMeet step Decides start ops := by
  have sound : Along step Sound start ops :=
    along_of_invariant step Sound (fun t op ok => (step_grows ok op).1) start ops Sound.start
  exact ⟨along_mono step (fun t ok => ok.arbitrated) start ops sound,
    steps_meet_of_along step Sound Decides (fun t op ok => ok.decides op) start ops sound⟩

end System

end PerlLsp.OperationBroker
