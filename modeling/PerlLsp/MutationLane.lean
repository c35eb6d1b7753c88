import PerlLsp.Runs

/-! The mutation side of scheduler.rs: one ingress task reserves a place in the bounded mutation
queue, allocates a sequence number and sends; one worker runs the handlers in turn, publishes the
number of each mutation it is done with, and responds. When a response cannot be delivered the
worker settles what is queued and drops the receiver. Reads wait until their number is published. -/
namespace PerlLsp.Scheduler
open Runs List Bool

structure RequestParams where
  uri : Option String
  line : Option Nat
  character : Option Nat
deriving DecidableEq

structure JsonRpcRequest (Id : Type) where
  id : Option Id
  method : String
  params : Option RequestParams
deriving DecidableEq

structure JsonRpcError where
  code : Int
  message : String
deriving DecidableEq

structure JsonRpcResponse (Id Value : Type) where
  id : Option Id
  result : Option Value
  error : Option JsonRpcError
deriving DecidableEq

def internalError : Int := -32603

inductive HandlerOutcome (Id Value : Type) where
  | response (response : JsonRpcResponse Id Value)
  | panicked (response : JsonRpcResponse Id Value)
  | empty
deriving DecidableEq

inductive HandlerEnd (Id Value : Type) where
  | returned (response : Option (JsonRpcResponse Id Value))
  | panicked

variable {Id Value : Type}

def runHandler (ended : HandlerEnd Id Value) (id : Option Id) (method : String) :
    HandlerOutcome Id Value :=
  match ended with
  | .returned (some response) => .response response
  | .returned none => .empty
  | .panicked =>
    match id with
    | none => .empty
    | some id =>
      .panicked ⟨some id, none, some ⟨internalError,
        method ++ " handler failed unexpectedly; see the Perl LSP server log for details"⟩⟩

/-- What a mutation owes its caller. -/
def HandlerOutcome.toSend : HandlerOutcome Id Value → Option (JsonRpcResponse Id Value)
  | .response reply => some reply
  | .panicked reply => some reply
  | .empty => none

structure QueuedMutation (Id : Type) where
  request : JsonRpcRequest Id
  seq : Nat
deriving DecidableEq

/-- Where the ingress task stands in `send_mutation`. -/
inductive Ingress (Id : Type) where
  | idle
  | reserving (request : JsonRpcRequest Id)
  | reserved (request : JsonRpcRequest Id)
  | allocated (queued : QueuedMutation Id)
deriving DecidableEq

inductive Worker (Id Value : Type) where
  | receiving
  | handling (queued : QueuedMutation Id)
  | handled (queued : QueuedMutation Id) (outcome : HandlerOutcome Id Value)
  | responding (outcome : HandlerOutcome Id Value)
  | draining
  | leaving
  | exited
deriving DecidableEq

def queueCapacity : Nat := 64

/-- The mutation queue between ingress task and worker. `closed` tells that the senders are gone,
`barriers` are the numbers the reads wait for. The last three fields record the run: handlers
started and returned, responses delivered. -/
structure Lane (Id Value : Type) where
  seqNext : Nat
  seqDone : Nat
  queue : List (QueuedMutation Id)
  receiver : Bool
  closed : Bool
  ingress : Ingress Id
  worker : Worker Id Value
  barriers : List Nat
  started : List (QueuedMutation Id)
  returned : List (QueuedMutation Id)
  outbox : List (JsonRpcResponse Id Value)

open Lane

namespace Lane

def new : Lane Id Value where
  seqNext := 0
  seqDone := 0
  queue := []
  receiver := true
  closed := false
  ingress := .idle
  worker := .receiving
  barriers := []
  started := []
  returned := []
  outbox := []

variable (s : Lane Id Value)

def beginMutation (request : JsonRpcRequest Id) : Lane Id Value :=
  match s.ingress with
  | .idle => if s.closed then s else { s with ingress := .reserving request }
  | _ => s

/-- A transport failure drops a `send_mutation` that waits for a place. -/
def cancelIngress : Lane Id Value :=
  match s.ingress with
  | .reserving _ => { s with ingress := .idle }
  | _ => s

/-- The next step of `send_mutation`; a message sent after the receiver is gone is lost. -/
def stepIngress : Lane Id Value :=
  match s.ingress with
  | .idle => s
  | .reserving request =>
    if !s.receiver then { s with ingress := .idle }
    else if s.queue.length < queueCapacity then { s with ingress := .reserved request }
    else s
  | .reserved request =>
    { s with seqNext := s.seqNext + 1, ingress := .allocated ⟨request, s.seqNext + 1⟩ }
  | .allocated queued =>
    { s with
      queue := if s.receiver then s.queue ++ [queued] else s.queue
      ingress := .idle }

/-- `send_read` takes the last number allocated as its barrier. -/
def sendRead : Lane Id Value :=
  match s.ingress with
  | .idle => if s.closed then s else { s with barriers := s.barriers ++ [s.seqNext] }
  | _ => s

/-- Dropping the scheduler drops the senders, once no `send_mutation` borrows it. -/
def shutdown : Lane Id Value :=
  match s.ingress with
  | .idle => { s with closed := true }
  | _ => s

/-- The worker's next step: `ended` is how a handler ends, `accepted` whether the outbound channel
takes a response. -/
def stepWorker (s : Lane Id Value) (ended : HandlerEnd Id Value) (accepted : Bool) : Lane Id Value :=
  match s.worker with
  | .receiving =>
    match s.queue with
    | queued :: rest =>
      { s with
        queue := rest, worker := .handling queued, started := s.started ++ [queued] }
    | [] => if s.closed then { s with worker := .exited, receiver := false } else s
  | .handling queued =>
    { s with
      worker := .handled queued (runHandler ended queued.request.id queued.request.method)
      returned := s.returned ++ [queued] }
  | .handled queued outcome =>
    { s with seqDone := queued.seq, worker := .responding outcome }
  | .responding outcome =>
    match outcome.toSend with
    | none => { s with worker := .receiving }
    | some response =>
      if accepted then { s with worker := .receiving, outbox := s.outbox ++ [response] }
      else { s with worker := .draining }
  | .draining =>
    match s.queue with
    | abandoned :: rest => { s with queue := rest, seqDone := abandoned.seq }
    | [] => { s with worker := .leaving }
  | .leaving => { s with worker := .exited, receiver := false, queue := [] }
  | .exited => s

end Lane

inductive LaneOp (Id Value : Type) where
  | beginMutation (request : JsonRpcRequest Id)
  | cancelIngress
  | ingress
  | sendRead
  | shutdown
  | worker (ended : HandlerEnd Id Value) (accepted : Bool)

def Lane.step (s : Lane Id Value) : LaneOp Id Value → Lane Id Value
  | .beginMutation request => s.beginMutation request
  | .cancelIngress => s.cancelIngress
  | .ingress => s.stepIngress
  | .sendRead => s.sendRead
  | .shutdown => s.shutdown
  | .worker ended accepted => s.stepWorker ended accepted

def Worker.taken : Worker Id Value → List (QueuedMutation Id)
  | .handling queued => [queued]
  | .handled queued _ => [queued]
  | .receiving => []
  | .responding _ => []
  | .draining => []
  | .leaving => []
  | .exited => []

def Ingress.allocation : Ingress Id → List (QueuedMutation Id)
  | .allocated queued => [queued]
  | .idle => []
  | .reserving _ => []
  | .reserved _ => []

def Ingress.holdsPlace : Ingress Id → Bool
  | .reserved _ => true
  | .allocated _ => true
  | .idle => false
  | .reserving _ => false

def Lane.outstanding (s : Lane Id Value) : List (QueuedMutation Id) :=
  s.worker.taken ++ s.queue ++ s.ingress.allocation

/-- What is outstanding carries the numbers after the published one, up to the last allocated. -/
structure Lane.InOrder (s : Lane Id Value) : Prop where
  order : s.outstanding.map QueuedMutation.seq =
    List.range' (s.seqDone + 1) s.outstanding.length
  count : s.seqNext = s.seqDone + s.outstanding.length
  barriers : ∀ barrier ∈ s.barriers, barrier ≤ s.seqNext
  closed : s.closed = true → s.ingress = .idle
  receiver : s.receiver = true ↔ s.worker ≠ .exited
  gone : s.receiver = false → s.queue = [] ∧ s.ingress.holdsPlace = false

theorem new_in_order : (.new : Lane Id Value).InOrder where
  order := rfl
  count := rfl
  barriers := fun _ none => absurd none not_mem_nil
  closed := fun _ => rfl
  receiver := iff_of_true rfl nofun
  gone := nofun

theorem range_snoc (start count : Nat) :
    List.range' start (count + 1) = List.range' start count ++ [start + count] := by
  rw [range'_concat, Nat.one_mul]

theorem Lane.InOrder.alive {s : Lane Id Value} (ordered : s.InOrder)
    (place : s.ingress.holdsPlace = true) : s.receiver = true := by
  rw [← not_eq_false]
  intro dropped
  have none := (ordered.gone dropped).2
  exact absurd (place.symm.trans none) Bool.noConfusion

theorem Lane.InOrder.unclosed {s : Lane Id Value} (ordered : s.InOrder)
    (busy : s.ingress ≠ .idle) : s.closed = false := by
  rw [← not_eq_true]
  intro closed
  exact busy (ordered.closed closed)

theorem Lane.InOrder.moved {s t : Lane Id Value} (ordered : s.InOrder)
    (outstanding : t.outstanding = s.outstanding) (next : t.seqNext = s.seqNext)
    (done : t.seqDone = s.seqDone) (barriers : t.barriers = s.barriers)
    (closed : t.closed = true → t.ingress = .idle) (receiver : t.receiver = true ↔ t.worker ≠ .exited)
    (gone : t.receiver = false → t.queue = [] ∧ t.ingress.holdsPlace = false) : t.InOrder := by
  constructor
  · rw [outstanding, done]
    exact ordered.order
  · rw [outstanding, done, next]
    exact ordered.count
  · rw [barriers, next]
    exact ordered.barriers
  · exact closed
  · exact receiver
  · exact gone

theorem begin_mutation_in_order (s : Lane Id Value) (request : JsonRpcRequest Id)
    (ordered : s.InOrder) : (s.beginMutation request).InOrder := by
  rw [beginMutation]
  cases stands : s.ingress with
  | idle =>
    rcases eq_false_or_eq_true s.closed with closed | live
    · rw [if_pos closed]
      exact ordered
    rw [if_neg (by rw [live]; exact Bool.false_ne_true)]
    apply ordered.moved
    · simp only [outstanding, stands, Ingress.allocation]
    · rfl
    · rfl
    · rfl
    · intro closed
      exact absurd (live.symm.trans closed) Bool.false_ne_true
    · exact ordered.receiver
    · intro dropped
      exact ⟨(ordered.gone dropped).1, rfl⟩
  | reserving other | reserved other | allocated queued => exact ordered

section
variable (s : Lane Id Value) (ordered : s.InOrder)
include s ordered

theorem cancel_ingress_in_order : s.cancelIngress.InOrder := by
  rw [cancelIngress]
  cases stands : s.ingress with
  | reserving request =>
    apply ordered.moved
    · simp only [outstanding, stands, Ingress.allocation]
    · rfl
    · rfl
    · rfl
    · exact fun _ => rfl
    · exact ordered.receiver
    · intro dropped
      exact ⟨(ordered.gone dropped).1, rfl⟩
  | idle | reserved other | allocated queued => exact ordered

theorem send_read_in_order : s.sendRead.InOrder := by
  have barred : InOrder { s with barriers := s.barriers ++ [s.seqNext] } := by
    constructor
    · exact ordered.order
    · exact ordered.count
    · intro barrier held
      rcases mem_append.mp held with held | new
      · exact ordered.barriers barrier held
      · exact Nat.le_of_eq (mem_singleton.mp new)
    · exact ordered.closed
    · exact ordered.receiver
    · exact ordered.gone
  rw [sendRead]
  split
  · split
    · exact ordered
    · exact barred
  · exact ordered

theorem shutdown_in_order : s.shutdown.InOrder := by
  rw [shutdown]
  split
  next idle =>
    apply ordered.moved
    · rfl
    · rfl
    · rfl
    · rfl
    · exact fun _ => idle
    · exact ordered.receiver
    · exact ordered.gone
  · exact ordered

theorem step_ingress_in_order : s.stepIngress.InOrder := by
  rw [stepIngress]
  cases stands : s.ingress with
  | idle => exact ordered
  | reserving request =>
    have live : s.closed = false := ordered.unclosed (by rw [stands]; nofun)
    dsimp only
    rcases eq_false_or_eq_true s.receiver with alive | dropped
    · rw [if_neg (by rw [alive]; nofun)]
      split
      · apply ordered.moved
        · simp only [outstanding, stands, Ingress.allocation]
        · rfl
        · rfl
        · rfl
        · intro closed
          exact absurd (live.symm.trans closed) Bool.false_ne_true
        · exact ordered.receiver
        · intro dropped
          exact absurd (alive.symm.trans dropped) Bool.noConfusion
      · exact ordered
    · rw [if_pos (by rw [dropped]; rfl)]
      apply ordered.moved
      · simp only [outstanding, stands, Ingress.allocation]
      · rfl
      · rfl
      · rfl
      · exact fun _ => rfl
      · exact ordered.receiver
      · exact fun _ => ⟨(ordered.gone dropped).1, rfl⟩
  | reserved request =>
    have alive := ordered.alive (by rw [stands]; rfl)
    have live : s.closed = false := ordered.unclosed (by rw [stands]; nofun)
    have grown : ({ s with
        seqNext := s.seqNext + 1
        ingress := .allocated ⟨request, s.seqNext + 1⟩ } : Lane Id Value).outstanding =
          s.outstanding ++ [⟨request, s.seqNext + 1⟩] := by
      simp only [outstanding, stands, Ingress.allocation, append_nil]
    constructor
    · rw [grown, map_append, length_append, ordered.order, ordered.count]
      dsimp only [map_nil, length_cons, length_nil]
      rw [range_snoc, Nat.add_right_comm]
      rfl
    · rw [grown, length_append]
      dsimp only [length_cons, length_nil]
      rw [ordered.count, Nat.add_assoc]
    · intro barrier held
      exact Nat.le_succ_of_le (ordered.barriers barrier held)
    · intro closed
      exact absurd (live.symm.trans closed) Bool.false_ne_true
    · exact ordered.receiver
    · intro dropped
      exact absurd (alive.symm.trans dropped) Bool.noConfusion
  | allocated queued =>
    have alive := ordered.alive (by rw [stands]; rfl)
    dsimp only
    rw [if_pos alive]
    apply ordered.moved
    · simp only [outstanding, stands, Ingress.allocation, append_nil, append_assoc]
    · rfl
    · rfl
    · rfl
    · exact fun _ => rfl
    · exact ordered.receiver
    · intro dropped
      exact absurd (alive.symm.trans dropped) Bool.noConfusion

end

/-- The worker publishes the first number outstanding. -/
theorem Lane.InOrder.published {s t : Lane Id Value} (ordered : s.InOrder)
    {first : QueuedMutation Id} {rest : List (QueuedMutation Id)}
    (outstanding : s.outstanding = first :: rest) (left : t.outstanding = rest)
    (done : t.seqDone = first.seq) (next : t.seqNext = s.seqNext)
    (barriers : t.barriers = s.barriers) (closed : t.closed = true → t.ingress = .idle)
    (receiver : t.receiver = true ↔ t.worker ≠ .exited)
    (gone : t.receiver = false → t.queue = [] ∧ t.ingress.holdsPlace = false) : t.InOrder := by
  have order := ordered.order
  have count := ordered.count
  rw [outstanding] at order count
  rw [map_cons, length_cons, range'_succ, List.cons.injEq] at order
  constructor
  · rw [left, done, order.1]
    exact order.2
  · rw [left, done, next, count, length_cons]
    omega
  · rw [barriers, next]
    exact ordered.barriers
  · exact closed
  · exact receiver
  · exact gone

variable (s : Lane Id Value)

def Unlost : LaneOp Id Value → Prop
  | .worker _ _ => s.worker = .leaving → s.queue = [] ∧ s.ingress.holdsPlace = false
  | .beginMutation _ => True
  | .cancelIngress => True
  | .ingress => True
  | .sendRead => True
  | .shutdown => True

theorem step_worker_in_order (ended : HandlerEnd Id Value) (accepted : Bool)
    (ordered : s.InOrder) (unlost : Unlost s (.worker ended accepted)) :
    (s.stepWorker ended accepted).InOrder := by
  have alive : s.worker ≠ .exited → s.receiver = true := ordered.receiver.mpr
  have kept : s.receiver = true → ∀ {P : Prop}, s.receiver = false → P :=
    fun up P down => absurd (up.symm.trans down) Bool.noConfusion
  rw [stepWorker]
  cases stands : s.worker with
  | receiving =>
    have up := alive (by rw [stands]; nofun)
    dsimp only
    cases waiting : s.queue with
    | cons queued rest =>
      apply ordered.moved
      · simp only [outstanding, stands, waiting, Worker.taken, nil_append, cons_append]
      · rfl
      · rfl
      · rfl
      · exact ordered.closed
      · exact iff_of_true up nofun
      · exact kept up
    | nil =>
      dsimp only
      split
      next closed =>
        have idle := ordered.closed closed
        apply ordered.moved
        · simp only [outstanding, stands, waiting, Worker.taken]
        · rfl
        · rfl
        · rfl
        · exact ordered.closed
        · exact iff_of_false Bool.false_ne_true (fun other => other rfl)
        · refine fun _ => ⟨rfl, ?_⟩
          rw [idle]
          rfl
      · exact ordered
  | handling queued =>
    have up := alive (by rw [stands]; nofun)
    apply ordered.moved
    · simp only [outstanding, stands, Worker.taken]
    · rfl
    · rfl
    · rfl
    · exact ordered.closed
    · exact iff_of_true up nofun
    · exact kept up
  | handled queued outcome =>
    have up := alive (by rw [stands]; nofun)
    have first : s.outstanding = queued :: (s.queue ++ s.ingress.allocation) := by
      simp only [outstanding, stands, Worker.taken, cons_append, nil_append]
    apply ordered.published first
    · simp only [outstanding, Worker.taken, nil_append]
    · rfl
    · rfl
    · rfl
    · exact ordered.closed
    · exact iff_of_true up nofun
    · exact kept up
  | responding outcome =>
    have up := alive (by rw [stands]; nofun)
    -- The response goes out or not; the numbers stay where they are.
    have stays (worker : Worker Id Value) (outbox : List (JsonRpcResponse Id Value))
        (empty : worker.taken = []) (here : worker ≠ .exited) :
        InOrder { s with worker := worker, outbox := outbox } := by
      apply ordered.moved
      · simp only [outstanding, stands, empty]
        rfl
      · rfl
      · rfl
      · rfl
      · exact ordered.closed
      · exact iff_of_true up here
      · exact kept up
    dsimp only
    cases outcome.toSend with
    | none => exact stays .receiving s.outbox rfl nofun
    | some response =>
      dsimp only
      split
      · exact stays .receiving (s.outbox ++ [response]) rfl nofun
      · exact stays .draining s.outbox rfl nofun
  | draining =>
    have up := alive (by rw [stands]; nofun)
    cases waiting : s.queue with
    | cons abandoned rest =>
      have first : s.outstanding = abandoned :: (rest ++ s.ingress.allocation) := by
        simp only [outstanding, stands, waiting, Worker.taken, cons_append, nil_append]
      apply ordered.published first
      · simp only [outstanding, Worker.taken, nil_append]
      · rfl
      · rfl
      · rfl
      · exact ordered.closed
      · exact iff_of_true up nofun
      · exact kept up
    | nil =>
      apply ordered.moved
      · simp only [outstanding, stands, waiting, Worker.taken]
      · rfl
      · rfl
      · rfl
      · exact ordered.closed
      · exact iff_of_true up nofun
      · exact kept up
  | leaving =>
    obtain ⟨empty, free⟩ := unlost stands
    apply ordered.moved
    · simp only [outstanding, stands, Worker.taken, empty]
    · rfl
    · rfl
    · rfl
    · exact ordered.closed
    · exact iff_of_false Bool.false_ne_true (fun other => other rfl)
    · exact fun _ => ⟨rfl, free⟩
  | exited => exact ordered

theorem step_in_order (op : LaneOp Id Value) (ordered : s.InOrder)
    (unlost : Unlost s op) : (s.step op).InOrder := by
  cases op with
  | beginMutation request => exact begin_mutation_in_order s request ordered
  | cancelIngress => exact cancel_ingress_in_order s ordered
  | ingress => exact step_ingress_in_order s ordered
  | sendRead => exact send_read_in_order s ordered
  | shutdown => exact shutdown_in_order s ordered
  | worker ended accepted => exact step_worker_in_order s ended accepted ordered unlost

/-- Once the worker is gone and no `send_mutation` is in progress, every allocated number is
published. -/
def Lane.NoneStranded (s : Lane Id Value) : Prop :=
  s.worker = .exited → s.ingress = .idle →
    s.seqDone = s.seqNext ∧ ∀ barrier ∈ s.barriers, barrier ≤ s.seqDone

theorem Lane.InOrder.none_stranded {s : Lane Id Value} (ordered : s.InOrder) : s.NoneStranded := by
  intro exited idle
  have dropped : s.receiver = false := by
    rw [← not_eq_true, ordered.receiver, exited]
    exact fun other => other rfl
  have empty := (ordered.gone dropped).1
  have settled : s.seqDone = s.seqNext := by
    have count := ordered.count
    simp only [outstanding, exited, idle, empty, Worker.taken, Ingress.allocation] at count
    exact count.symm
  refine ⟨settled, fun barrier held => ?_⟩
  rw [settled]
  exact ordered.barriers barrier held

/-- Whatever the order of ingress task and worker: while no message is lost between the last
`try_recv` and the drop of the receiver, no read is left waiting. -/
theorem barriers_published (ops : List (LaneOp Id Value))
    (unlost : StepsMeet step Unlost .new ops) :
    Along step NoneStranded (.new : Lane Id Value) ops := by
  have along := along_of_steps step InOrder Unlost step_in_order .new ops new_in_order
    unlost
  exact along_mono step (fun _ ordered => ordered.none_stranded) .new ops along

def saveRequest : JsonRpcRequest Nat := ⟨some 1, "textDocument/willSaveWaitUntil", none⟩

def changeRequest : JsonRpcRequest Nat := ⟨none, "textDocument/didChange", none⟩

def refused (count : Nat) : List (LaneOp Nat Nat) :=
  List.replicate count (.worker (.returned (some ⟨some 1, some 0, none⟩)) false)

/-- One mutation whose response fails, the next one settled by the worker that leaves. -/
def settledRun : List (LaneOp Nat Nat) :=
  [.beginMutation saveRequest, .ingress, .ingress, .ingress,
    .beginMutation changeRequest, .ingress, .ingress, .ingress, .sendRead] ++ refused 7

instance decidableUnlost [DecidableEq Id] [DecidableEq Value] (s : Lane Id Value) :
    (op : LaneOp Id Value) → Decidable (Unlost s op)
  | .worker _ _ => inferInstanceAs
      (Decidable (s.worker = .leaving → s.queue = [] ∧ s.ingress.holdsPlace = false))
  | .beginMutation _ => inferInstanceAs (Decidable True)
  | .cancelIngress => inferInstanceAs (Decidable True)
  | .ingress => inferInstanceAs (Decidable True)
  | .sendRead => inferInstanceAs (Decidable True)
  | .shutdown => inferInstanceAs (Decidable True)

theorem barriers_published_settled :
    Along step NoneStranded .new settledRun ∧
      (run step .new settledRun).worker = .exited ∧
      (run step .new settledRun).barriers = [2] :=
  ⟨barriers_published settledRun (by decide), by decide, by decide⟩

/-- The second `send_mutation` holds its place while the queue is drained; its number is allocated
after the receiver is gone. -/
def strandedRun : List (LaneOp Nat Nat) :=
  [.beginMutation saveRequest, .ingress, .ingress, .ingress] ++ refused 4 ++
  [.beginMutation changeRequest, .ingress] ++ refused 2 ++ [.ingress, .ingress, .sendRead]

theorem lost_number_strands_read :
    ¬ ∀ ops : List (LaneOp Nat Nat), Along step NoneStranded .new ops := by
  intro every
  have along := (along_iff_prefixes step NoneStranded .new strandedRun).mp
    (every strandedRun) strandedRun [] (append_nil _).symm
  have exited : (run step .new strandedRun).worker = .exited := by decide
  have idle : (run step .new strandedRun).ingress = .idle := by decide
  have behind : (run step .new strandedRun).seqDone ≠
      (run step .new strandedRun).seqNext := by decide
  exact behind (along exited idle).1

end PerlLsp.Scheduler
