import PerlLsp.ReadFreshness

/-! The read side of scheduler.rs and the scheduler as a whole. The ingress task sends mutations to
the mutation worker and reads to the read dispatcher; the dispatcher drains its channel into a heap,
drops the reads that a newer one with the same key supersedes and spawns the others, each with a
permit; a spawned read waits for the mutations sent before it, runs its handler and answers. -/
namespace PerlLsp.Scheduler

def readWorkers : Nat := 4

def dedupMapCap : Nat := 4096

variable {Id Value : Type}

/-- `Ord for QueuedRead`: `left` is popped after `right`. -/
def QueuedRead.below (left right : QueuedRead Id) : Bool :=
  right.priority.value < left.priority.value ||
    (right.priority.value == left.priority.value && left.arrivalSeq < right.arrivalSeq)

/-- `BinaryHeap::pop`: the greatest read and the others. -/
def popRead : List (QueuedRead Id) → Option (QueuedRead Id × List (QueuedRead Id))
  | [] => none
  | first :: rest =>
    match popRead rest with
    | none => some (first, [])
    | some (top, others) =>
      if first.below top then some (top, first :: others) else some (first, rest)

theorem pop_read_none {reads : List (QueuedRead Id)} (none : popRead reads = none) : reads = [] := by
  cases reads with
  | nil => rfl
  | cons first rest =>
    rw [popRead] at none
    split at none
    · cases none
    · split at none
      · cases none
      · cases none

theorem pop_read_perm {reads : List (QueuedRead Id)} {top : QueuedRead Id}
    {others : List (QueuedRead Id)} (popped : popRead reads = some (top, others)) :
    reads.Perm (top :: others) := by
  induction reads generalizing top others with
  | nil => cases popped
  | cons first rest ih =>
    rw [popRead] at popped
    split at popped
    next none =>
      cases popped
      rw [pop_read_none none]
    next high kept found =>
      split at popped
      · cases popped
        exact ((ih found).cons first).trans (.swap top first kept)
      · cases popped
        exact .refl _

def latestOf (latestSeq : List (RequestDedupKey × Nat)) (key : RequestDedupKey) : Option Nat :=
  latestSeq.lookup key

/-- `entry(key).and_modify(..).or_insert(arrival_seq)`. -/
def raiseLatest (key : RequestDedupKey) (arrivalSeq : Nat) :
    List (RequestDedupKey × Nat) → List (RequestDedupKey × Nat)
  | [] => [(key, arrivalSeq)]
  | (other, latest) :: rest =>
    if other = key then (other, max latest arrivalSeq) :: rest
    else (other, latest) :: raiseLatest key arrivalSeq rest

variable (latestSeq : List (RequestDedupKey × Nat))

def noteArrival (queued : QueuedRead Id) : List (RequestDedupKey × Nat) :=
  match queued.dedupKey with
  | none => latestSeq
  | some key =>
    raiseLatest key queued.arrivalSeq (if dedupMapCap ≤ latestSeq.length then [] else latestSeq)

def isSuperseded (queued : QueuedRead Id) : Bool :=
  match queued.dedupKey with
  | none => false
  | some key => (latestOf latestSeq key).any fun latest => queued.arrivalSeq < latest

inductive TaskStage (Id Value : Type) where
  | barrier
  | released
  | running
  | returned (outcome : HandlerOutcome Id Value)
  | finished
deriving DecidableEq

structure SpawnedRead (Id Value : Type) where
  read : QueuedRead Id
  freshness : Option ReadFreshness
  stage : TaskStage Id Value

def SpawnedRead.isFinished (task : SpawnedRead Id Value) : Bool :=
  match task.stage with
  | .finished => true
  | .barrier => false
  | .released => false
  | .running => false
  | .returned _ => false

/-- Where the read dispatcher stands; `closing` tells that it empties its heap after the
senders are gone. -/
inductive Dispatcher (Id : Type) where
  | draining
  | picking
  | receiving
  | dispatching (queued : QueuedRead Id) (closing : Bool)
  | acquiring (queued : QueuedRead Id) (closing : Bool)
  | waiting
  | emptying
  | joining
  | exited
deriving DecidableEq

inductive Sent (Id : Type) where
  | mutation (queued : QueuedMutation Id)
  | read (queued : QueuedRead Id)
deriving DecidableEq

/-- `readIngress` is a `send_read` that waits for a place. The senders of both channels
go together: `lane.closed`. The last two fields record the run. -/
structure SchedulerState (Id Value : Type) where
  lane : Lane Id Value
  documents : Documents
  arrivalNext : Nat
  readIngress : Option (QueuedRead Id)
  readQueue : List (QueuedRead Id)
  pending : List (QueuedRead Id)
  latestSeq : List (RequestDedupKey × Nat)
  dispatcher : Dispatcher Id
  inFlight : List (SpawnedRead Id Value)
  outbox : List (JsonRpcResponse Id Value)
  sent : List (Sent Id)
  supersededReads : List (QueuedRead Id)

namespace SchedulerState

def new : SchedulerState Id Value where
  lane := .new
  documents := .new
  arrivalNext := 0
  readIngress := none
  readQueue := []
  pending := []
  latestSeq := []
  dispatcher := .draining
  inFlight := []
  outbox := []
  sent := []
  supersededReads := []

/-- One task calls `send_mutation` and `send_read` in turn. -/
def sendMutation (s : SchedulerState Id Value) (request : JsonRpcRequest Id) : SchedulerState Id Value :=
  match s.readIngress with
  | none => { s with lane := s.lane.beginMutation request }
  | some _ => s

def sendRead (keys : UriKeys) (s : SchedulerState Id Value) (request : JsonRpcRequest Id) :
    SchedulerState Id Value :=
  match s.readIngress, s.lane.ingress with
  | none, .idle =>
    if s.lane.closed then s
    else
      let priority := requestPriority request.method
      { s with
        lane := s.lane.sendRead
        arrivalNext := s.arrivalNext + 1
        readIngress := some
          { request := request
            waitForSeq := s.lane.seqNext
            priority := priority
            arrivalSeq := s.arrivalNext
            dedupKey := extractDedupKey request.method request.params priority
            freshness := extractFreshness keys s.documents request.params priority } }
  | _, _ => s

variable (s : SchedulerState Id Value)

/-- A transport failure drops a call that waits for a place. -/
def cancelIngress : SchedulerState Id Value :=
  { s with lane := s.lane.cancelIngress, readIngress := none }

def stepMutationIngress : SchedulerState Id Value :=
  { s with
    lane := s.lane.stepIngress
    sent :=
      match s.lane.ingress with
      | .allocated queued => s.sent ++ [.mutation queued]
      | .idle => s.sent
      | .reserving _ => s.sent
      | .reserved _ => s.sent }

def stepReadIngress : SchedulerState Id Value :=
  match s.readIngress with
  | none => s
  | some queued =>
    if s.readQueue.length < queueCapacity then
      { s with
        readIngress := none
        readQueue := s.readQueue ++ [queued]
        sent := s.sent ++ [.read queued] }
    else s

def shutdown : SchedulerState Id Value :=
  match s.readIngress with
  | none => { s with lane := s.lane.shutdown }
  | some _ => s

def stepWorker (ended : HandlerEnd Id Value) : SchedulerState Id Value :=
  { s with lane := s.lane.stepWorker ended true }

def receive (queued : QueuedRead Id) (rest : List (QueuedRead Id)) : SchedulerState Id Value :=
  { s with
    readQueue := rest
    latestSeq := noteArrival s.latestSeq queued
    pending := queued :: s.pending
    dispatcher := .draining }

def afterDispatch (closing : Bool) : Dispatcher Id :=
  if closing then .emptying else .waiting

def cancelRead (s : SchedulerState Id Value) (queued : QueuedRead Id) (reason : StaleReason) :
    List (JsonRpcResponse Id Value) :=
  s.outbox ++ [cancellation queued.request.id queued.request.method reason]

/-- `dispatch_one` up to the permit. -/
def checkRead (keys : UriKeys) (s : SchedulerState Id Value) (queued : QueuedRead Id)
    (closing : Bool) : SchedulerState Id Value :=
  if isSuperseded s.latestSeq queued then
    { s with
      outbox := s.cancelRead queued .positionSuperseded
      supersededReads := s.supersededReads ++ [queued]
      dispatcher := afterDispatch closing }
  else
    match if refreshAfterMutationBarrier queued then none
      else staleReadReason keys s.documents queued.freshness with
    | some reason =>
      { s with
        outbox := s.cancelRead queued reason
        dispatcher := afterDispatch closing }
    | none => { s with dispatcher := .acquiring queued closing }

variable (s : SchedulerState Id Value)

def permitsHeld : Nat :=
  s.inFlight.countP fun task => !task.isFinished

def spawnRead (queued : QueuedRead Id) (closing : Bool) : SchedulerState Id Value :=
  if s.permitsHeld < readWorkers then
    { s with
      inFlight := s.inFlight ++ [⟨queued, queued.freshness, .barrier⟩]
      dispatcher := afterDispatch closing }
  else s

/-- `join_next` takes a finished task out, if there is one. -/
def joinNext : SchedulerState Id Value :=
  { s with inFlight := s.inFlight.eraseP SpawnedRead.isFinished }

/-- The next step of `read_dispatcher`. -/
def stepDispatcher (keys : UriKeys) (s : SchedulerState Id Value) : SchedulerState Id Value :=
  match s.dispatcher with
  | .draining =>
    match s.readQueue with
    | queued :: rest => s.receive queued rest
    | [] => { s with dispatcher := if s.lane.closed then .emptying else .picking }
  | .picking =>
    match popRead s.pending with
    | some (queued, rest) =>
      { s with pending := rest, dispatcher := .dispatching queued false }
    | none => { s with dispatcher := .receiving }
  | .receiving =>
    match s.readQueue with
    | queued :: rest => s.receive queued rest
    | [] => if s.lane.closed then { s with dispatcher := .joining } else s
  | .dispatching queued closing => s.checkRead keys queued closing
  | .acquiring queued closing => s.spawnRead queued closing
  | .waiting =>
    if s.inFlight.length < readWorkers then { s with dispatcher := .draining } else s.joinNext
  | .emptying =>
    match popRead s.pending with
    | some (queued, rest) =>
      { s with pending := rest, dispatcher := .dispatching queued true }
    | none => { s with dispatcher := .joining }
  | .joining =>
    match s.inFlight with
    | [] => { s with dispatcher := .exited }
    | _ :: _ => s.joinNext
  | .exited => s

def putTask (s : SchedulerState Id Value) (place : Nat) (task : SpawnedRead Id Value) :
    SchedulerState Id Value :=
  { s with inFlight := s.inFlight.set place task }

/-- The next step of a spawned read; `ended` is how its handler ends. -/
def stepTask (keys : UriKeys) (null : Value → Bool) (s : SchedulerState Id Value) (place : Nat)
    (ended : HandlerEnd Id Value) : SchedulerState Id Value :=
  match s.inFlight[place]? with
  | none => s
  | some task =>
    match task.stage with
    | .barrier =>
      if task.read.waitForSeq ≤ s.lane.seqDone then
        s.putTask place
          { task with
            freshness :=
              if refreshAfterMutationBarrier task.read then
                refreshReadFreshness keys s.documents task.freshness
              else task.freshness
            stage := .released }
      else s
    | .released =>
      match staleReadReason keys s.documents task.freshness with
      | some reason =>
        { s.putTask place { task with stage := .finished } with
          outbox := s.cancelRead task.read reason }
      | none => s.putTask place { task with stage := .running }
    | .running =>
      s.putTask place
        { task with
          stage := .returned
            (runHandler ended task.read.request.id task.read.request.method) }
    | .returned outcome =>
      { s.putTask place { task with stage := .finished } with
        outbox := s.outbox ++
          (answerRead keys null s.documents task.read task.freshness outcome).toList }
    | .finished => s

end SchedulerState

/-- `documents`: a mutation handler has changed the documents. -/
inductive SchedulerOp (Id Value : Type) where
  | sendMutation (request : JsonRpcRequest Id)
  | sendRead (request : JsonRpcRequest Id)
  | cancelIngress
  | shutdown
  | documents (documents : Documents)
  | mutationIngress
  | readIngress
  | worker (ended : HandlerEnd Id Value)
  | dispatcher
  | task (place : Nat) (ended : HandlerEnd Id Value)

def SchedulerState.step (keys : UriKeys) (null : Value → Bool) (s : SchedulerState Id Value) :
    SchedulerOp Id Value → SchedulerState Id Value
  | .sendMutation request => s.sendMutation request
  | .sendRead request => s.sendRead keys request
  | .cancelIngress => s.cancelIngress
  | .shutdown => s.shutdown
  | .documents documents => { s with documents := documents }
  | .mutationIngress => s.stepMutationIngress
  | .readIngress => s.stepReadIngress
  | .worker ended => s.stepWorker ended
  | .dispatcher => s.stepDispatcher keys
  | .task place ended => s.stepTask keys null place ended

end PerlLsp.Scheduler
