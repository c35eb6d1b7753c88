import PerlLsp.Framing
import PerlLsp.Runs

/-! Outbound delivery of outbound.rs: producers put messages into a bounded channel
behind an admission gate, one writer thread takes them out in batches and hands their
frames to a sink that may fail, and the exit path closes the gate and asks whether
everything was delivered. A step is what one thread does under one lock, or one call on
the channel or the sink. -/
namespace PerlLsp.OutboundDelivery
open Runs Bool
open List hiding after

inductive OutboundMessage (Response Params : Type) where
  | response (response : Response)
  | notification (method : String) (params : Params)
  | request (id : Int) (method : String) (params : Params)
deriving DecidableEq

structure Sent (Response Params : Type) where
  call : Nat
  message : OutboundMessage Response Params
deriving DecidableEq

inductive WriterTerminalOutcome (Kind : Type) where
  | normalClose
  | writeFailed (kind : Kind) (queued batchMessages batchBytes : Nat)
  | flushFailed (kind : Kind) (queued batchMessages batchBytes : Nat)
deriving DecidableEq

def WriterTerminalOutcome.isIoFailure {Kind : Type} : WriterTerminalOutcome Kind → Bool
  | .normalClose => false
  | .writeFailed .. => true
  | .flushFailed .. => true

structure ExitSettlement (Kind : Type) where
  writer : Option (WriterTerminalOutcome Kind)
  rejectedRequired : Nat
deriving DecidableEq

def ExitSettlement.isCleanDelivery {Kind : Type} (settlement : ExitSettlement Kind) : Bool :=
  (match settlement.writer with
    | some .normalClose => true
    | _ => false) && settlement.rejectedRequired == 0

/-- Where a call of `settle_for_exit` stands. -/
inductive Settling (Kind : Type) where
  | closing
  | waiting
  | counting (writer : Option (WriterTerminalOutcome Kind))
  | returning (settlement : ExitSettlement Kind)
deriving DecidableEq

inductive Writer (Response Params Kind : Type) where
  | receiving
  | batching (batch : List (Sent Response Params)) (batchBuf : List UInt8)
  | collected (batch : List (Sent Response Params)) (batchBuf : List UInt8)
  | writing (batch : List (Sent Response Params)) (batchBuf : List UInt8) (queued : Nat)
  | flushing (batch : List (Sent Response Params)) (batchBuf : List UInt8) (queued : Nat)
  | returned (outcome : WriterTerminalOutcome Kind)
  | published
deriving DecidableEq

/-- How the sink answers: a failing write may have taken some bytes. -/
inductive SinkReply (Kind : Type) where
  | ok
  | error (kind : Kind) (written : Nat)

inductive SendErrorKind where
  | invalidInput
  | brokenPipe
  | wouldBlock
deriving DecidableEq

structure SendError where
  kind : SendErrorKind
  message : String
deriving DecidableEq

inductive TrySendError where
  | full
  | closed

def mapTrySendError : TrySendError → SendError
  | .full => ⟨.wouldBlock, "outbound channel full"⟩
  | .closed => ⟨.brokenPipe, "outbound channel closed"⟩

def outboundCapacity : Nat := 64

variable {Response Params Kind : Type}

/-- The channel with its gate, the writer with its completion and the sink, and the calls under way.
The last four fields record the run: calls, responses passed in, what was admitted and what flushed.
-/
structure Outbound (Response Params Kind : Type) where
  gate : Bool
  queue : List (Sent Response Params)
  receiver : Bool
  outcome : Option (WriterTerminalOutcome Kind)
  failed : Bool
  rejectedRequired : Nat
  writer : Writer Response Params Kind
  sink : List UInt8
  settling : List (Settling Kind)
  responding : List (Sent Response Params)
  calls : Nat
  passed : List (Sent Response Params)
  admitted : List (Sent Response Params)
  flushed : List (Sent Response Params)

namespace Outbound

def spawnWriter : Outbound Response Params Kind where
  gate := true
  queue := []
  receiver := true
  outcome := none
  failed := false
  rejectedRequired := 0
  writer := .receiving
  sink := []
  settling := []
  responding := []
  calls := 0
  passed := []
  admitted := []
  flushed := []

variable (s : Outbound Response Params Kind)
variable (sent : Sent Response Params)

/-- The channel's own `try_send`. -/
def channelSend : Except TrySendError (Outbound Response Params Kind) :=
  if !s.receiver then .error .closed
  else if outboundCapacity ≤ s.queue.length then .error .full
  else .ok { s with queue := s.queue ++ [sent], admitted := s.admitted ++ [sent] }

def trySend : Except SendError Unit × Outbound Response Params Kind :=
  if !s.gate then (.error ⟨.brokenPipe, "outbound channel closed"⟩, s)
  else
    match s.channelSend sent with
    | .ok s => (.ok (), s)
    | .error error => (.error (mapTrySendError error), s)

def sendResponse : Except SendError Unit × Outbound Response Params Kind :=
  if !s.gate then
    (.error ⟨.brokenPipe, "outbound channel closed"⟩,
      { s with rejectedRequired := s.rejectedRequired + 1, failed := true })
  else
    match s.channelSend sent with
    | .ok s => (.ok (), s)
    | .error error => (.error (mapTrySendError error), { s with gate := false, failed := true })

def enterResponse (response : Response) : Outbound Response Params Kind :=
  let sent : Sent Response Params := ⟨s.calls, .response response⟩
  { s with
    calls := s.calls + 1
    responding := s.responding ++ [sent]
    passed := s.passed ++ [sent] }

variable (outboundRejection : String → Option String)
variable (s : Outbound Response Params Kind)

def sendNotification (method : String) (params : Params) :
    Except SendError Unit × Outbound Response Params Kind :=
  let sent : Sent Response Params := ⟨s.calls, .notification method params⟩
  let s := { s with calls := s.calls + 1 }
  match outboundRejection method with
  | some reason =>
    (.error ⟨.invalidInput, "outbound notification `" ++ method ++ "` " ++ reason⟩, s)
  | none => s.trySend sent

def sendRequest (id : Int) (method : String)
    (params : Params) : Except SendError Unit × Outbound Response Params Kind :=
  let sent : Sent Response Params := ⟨s.calls, .request id method params⟩
  let s := { s with calls := s.calls + 1 }
  match outboundRejection method with
  | some reason => (.error ⟨.invalidInput, "outbound request `" ++ method ++ "` " ++ reason⟩, s)
  | none => s.trySend sent

def closeAdmission : Outbound Response Params Kind :=
  { s with gate := false }

/-- `WriterCompletion::publish`. -/
def publish (outcome : WriterTerminalOutcome Kind) : Outbound Response Params Kind :=
  if s.outcome.all fun existing => !existing.isIoFailure && outcome.isIoFailure then
    { s with outcome := some outcome, failed := s.failed || outcome.isIoFailure }
  else s

/-- The next step of the settling call. A wait that ends by its timeout finds what is
there at that time. -/
def settle (s : Outbound Response Params Kind) (index : Nat) : Outbound Response Params Kind :=
  match s.settling[index]? with
  | none => s
  | some .closing => { s.closeAdmission with settling := s.settling.set index .waiting }
  | some .waiting => { s with settling := s.settling.set index (.counting s.outcome) }
  | some (.counting writer) =>
    { s with settling := s.settling.set index (.returning ⟨writer, s.rejectedRequired⟩) }
  | some (.returning _) => { s with settling := s.settling.eraseIdx index }

variable (serializeMessage : OutboundMessage Response Params → List UInt8)

def frameOf (sent : Sent Response Params) : List UInt8 :=
  Framing.frame (serializeMessage sent.message)

variable (s : Outbound Response Params Kind)

def finish (outcome : WriterTerminalOutcome Kind) : Outbound Response Params Kind :=
  { s with writer := .returned outcome, receiver := false, queue := [] }

/-- The next step of `writer_loop_batched`, and of the thread after it. -/
def advanceWriter (reply : SinkReply Kind) : Outbound Response Params Kind :=
  match s.writer with
  | .receiving =>
    match s.queue with
    | sent :: rest =>
      { s with queue := rest, writer := .batching [sent] (frameOf serializeMessage sent) }
    | [] => if s.gate then s else s.finish .normalClose
  | .batching batch batchBuf =>
    match s.queue with
    | sent :: rest =>
      { s with
        queue := rest
        writer := .batching (batch ++ [sent]) (batchBuf ++ frameOf serializeMessage sent) }
    | [] => { s with writer := .collected batch batchBuf }
  | .collected batch batchBuf => { s with writer := .writing batch batchBuf s.queue.length }
  | .writing batch batchBuf queued =>
    match reply with
    | .ok => { s with sink := s.sink ++ batchBuf, writer := .flushing batch batchBuf queued }
    | .error kind written =>
      { s with sink := s.sink ++ batchBuf.take written }.finish
        (.writeFailed kind queued batch.length batchBuf.length)
  | .flushing batch batchBuf queued =>
    match reply with
    | .ok => { s with flushed := s.flushed ++ batch, writer := .receiving }
    | .error kind _ => s.finish (.flushFailed kind queued batch.length batchBuf.length)
  | .returned outcome => { s.publish outcome with writer := .published }
  | .published => s

end Outbound

inductive Op (Response Params Kind : Type) where
  | enterResponse (response : Response)
  | sendResponse (index : Nat)
  | sendNotification (method : String) (params : Params)
  | sendRequest (id : Int) (method : String) (params : Params)
  | closeAdmission
  | settleForExit
  | settle (index : Nat)
  | writer (reply : SinkReply Kind)

variable (outboundRejection : String → Option String)
  (serializeMessage : OutboundMessage Response Params → List UInt8)

/-- Any thread may take its next step: a response that has not reached the gate is named by its
place in `responding`, a settling call by that in `settling`. -/
def step (s : Outbound Response Params Kind) : Op Response Params Kind → Outbound Response Params Kind
  | .enterResponse response => s.enterResponse response
  | .sendResponse index =>
    match s.responding[index]? with
    | none => s
    | some sent => { (s.sendResponse sent).2 with responding := s.responding.eraseIdx index }
  | .sendNotification method params => (s.sendNotification outboundRejection method params).2
  | .sendRequest id method params => (s.sendRequest outboundRejection id method params).2
  | .closeAdmission => s.closeAdmission
  | .settleForExit => { s with settling := s.settling ++ [.closing] }
  | .settle index => s.settle index
  | .writer reply => s.advanceWriter serializeMessage reply

def framesOf (messages : List (Sent Response Params)) : List UInt8 :=
  messages.flatMap (Outbound.frameOf serializeMessage)

theorem frames_append (left right : List (Sent Response Params)) :
    framesOf serializeMessage (left ++ right) =
      framesOf serializeMessage left ++ framesOf serializeMessage right := flatMap_append

theorem frames_snoc (messages : List (Sent Response Params)) (sent : Sent Response Params) :
    framesOf serializeMessage (messages ++ [sent]) =
      framesOf serializeMessage messages ++ Outbound.frameOf serializeMessage sent := by
  rw [frames_append, framesOf, framesOf, flatMap_cons, flatMap_nil, append_nil]

namespace Writer

def isRunning : Writer Response Params Kind → Bool
  | .receiving => true
  | .batching _ _ => true
  | .collected _ _ => true
  | .writing _ _ _ => true
  | .flushing _ _ _ => true
  | .returned _ => false
  | .published => false

def batch : Writer Response Params Kind → List (Sent Response Params)
  | .receiving => []
  | .batching batch _ => batch
  | .collected batch _ => batch
  | .writing batch _ _ => batch
  | .flushing batch _ _ => batch
  | .returned _ => []
  | .published => []

def batchBuf : Writer Response Params Kind → List UInt8
  | .batching _ batchBuf => batchBuf
  | .collected _ batchBuf => batchBuf
  | .writing _ batchBuf _ => batchBuf
  | .flushing _ batchBuf _ => batchBuf
  | .receiving => []
  | .returned _ => []
  | .published => []

/-- The messages whose frames the sink has taken without a flush. -/
def written : Writer Response Params Kind → List (Sent Response Params)
  | .receiving => []
  | .batching _ _ => []
  | .collected _ _ => []
  | .writing _ _ _ => []
  | .flushing batch _ _ => batch
  | .returned _ => []
  | .published => []

end Writer

/-- The writer has ended, or will, without an I/O failure. -/
def ClosedNormally (s : Outbound Response Params Kind) : Prop :=
  s.writer = .returned .normalClose ∨ s.writer = .published ∧ s.outcome = some .normalClose

/-- While the writer runs, the admitted messages in order are those flushed, those in its hands and
those queued. -/
structure Delivering (s : Outbound Response Params Kind) : Prop where
  receiver : s.receiver = s.writer.isRunning
  unpublished : s.writer ≠ .published → s.outcome = none
  order : s.writer.isRunning = true → s.admitted = s.flushed ++ s.writer.batch ++ s.queue
  buffered : s.writer.batchBuf = framesOf serializeMessage s.writer.batch
  taken : s.writer.isRunning = true →
    s.sink = framesOf serializeMessage (s.flushed ++ s.writer.written)
  handed : s.sink <+: framesOf serializeMessage s.admitted
  normal : ClosedNormally s → s.gate = false ∧ s.admitted = s.flushed

theorem spawn_delivering : Delivering serializeMessage (.spawnWriter : Outbound Response Params Kind) where
  receiver := rfl
  unpublished := fun _ => rfl
  order := fun _ => rfl
  buffered := rfl
  taken := fun _ => rfl
  handed := prefix_rfl
  normal := by
    rintro (returned | ⟨published, -⟩)
    · cases returned
    · cases published

/-- The parts of the state that the accounts of the writer read, apart from the gate. -/
structure SameChannel (s after : Outbound Response Params Kind) : Prop where
  queue : after.queue = s.queue
  receiver : after.receiver = s.receiver
  outcome : after.outcome = s.outcome
  writer : after.writer = s.writer
  sink : after.sink = s.sink
  admitted : after.admitted = s.admitted
  flushed : after.flushed = s.flushed

/-- Closing the gate, or leaving the channel alone, keeps the accounts. -/
theorem SameChannel.delivering {s : Outbound Response Params Kind} (same : SameChannel s after)
    (closes : s.gate = false → after.gate = false) (delivering : Delivering serializeMessage s) :
    Delivering serializeMessage after where
  receiver := by rw [same.receiver, same.writer, delivering.receiver]
  unpublished := by
    rw [same.writer, same.outcome]
    exact delivering.unpublished
  order := by
    rw [same.writer, same.admitted, same.flushed, same.queue]
    exact delivering.order
  buffered := by
    rw [same.writer]
    exact delivering.buffered
  taken := by
    rw [same.writer, same.sink, same.flushed]
    exact delivering.taken
  handed := by
    rw [same.sink, same.admitted]
    exact delivering.handed
  normal := by
    rw [ClosedNormally, same.writer, same.outcome, same.admitted, same.flushed]
    intro normally
    exact ⟨closes (delivering.normal normally).1, (delivering.normal normally).2⟩

def accepted (s : Outbound Response Params Kind) (sent : Sent Response Params) :
    Outbound Response Params Kind :=
  { s with queue := s.queue ++ [sent], admitted := s.admitted ++ [sent] }

section
variable (s : Outbound Response Params Kind)
include s

theorem channel_send_cases (sent : Sent Response Params) :
    (s.receiver = false ∧ s.channelSend sent = .error .closed) ∨
      (s.receiver = true ∧ outboundCapacity ≤ s.queue.length ∧ s.channelSend sent = .error .full) ∨
      (s.receiver = true ∧ s.channelSend sent = .ok (accepted s sent)) := by
  rw [Outbound.channelSend]
  rcases eq_false_or_eq_true s.receiver with alive | dropped
  · rw [if_neg (by rw [alive]; exact Bool.false_ne_true)]
    by_cases full : outboundCapacity ≤ s.queue.length
    · exact .inr (.inl ⟨alive, full, if_pos full⟩)
    · exact .inr (.inr ⟨alive, if_neg full⟩)
  · exact .inl ⟨dropped, if_pos (by rw [dropped]; rfl)⟩

theorem admitted_delivering (sent : Sent Response Params)
    (receiver : s.receiver = true) (delivering : Delivering serializeMessage s) :
    Delivering serializeMessage (accepted s sent) where
  receiver := delivering.receiver
  unpublished := delivering.unpublished
  order := by
    intro running
    dsimp only [accepted] at running ⊢
    rw [delivering.order running, append_assoc _ s.queue]
  buffered := delivering.buffered
  taken := delivering.taken
  handed := by
    dsimp only [accepted]
    rw [frames_snoc]
    exact delivering.handed.trans (prefix_append _ _)
  normal := by
    -- the writer still runs, so it has not ended
    have running := delivering.receiver.symm.trans receiver
    rintro (returned | ⟨published, -⟩)
    · rw [show s.writer = _ from returned] at running
      cases running
    · rw [show s.writer = _ from published] at running
      cases running

theorem finish_delivering (outcome : WriterTerminalOutcome Kind) (unpublished : s.outcome = none)
    (handed : s.sink <+: framesOf serializeMessage s.admitted)
    (normal : outcome = .normalClose → s.gate = false ∧ s.admitted = s.flushed) :
    Delivering serializeMessage (s.finish outcome) where
  receiver := rfl
  unpublished := fun _ => unpublished
  order := nofun
  buffered := rfl
  taken := nofun
  handed := handed
  normal := by
    rintro (returned | ⟨published, -⟩)
    · exact normal (Writer.returned.inj returned)
    · cases published

theorem running_delivering (running : s.writer.isRunning = true) (receiver : s.receiver = true)
    (unpublished : s.outcome = none) (order : s.admitted = s.flushed ++ s.writer.batch ++ s.queue)
    (buffered : s.writer.batchBuf = framesOf serializeMessage s.writer.batch)
    (taken : s.sink = framesOf serializeMessage (s.flushed ++ s.writer.written)) :
    Delivering serializeMessage s where
  receiver := receiver.trans running.symm
  unpublished := fun _ => unpublished
  order := fun _ => order
  buffered := buffered
  taken := fun _ => taken
  handed := by
    have within : s.writer.written <+: s.writer.batch := by
      cases s.writer with
      | flushing held batchBuf queued => exact prefix_rfl
      | _ => exact nil_prefix
    obtain ⟨more, whole⟩ := within
    rw [taken, order, ← whole, append_assoc, append_assoc,
      ← append_assoc s.flushed, frames_append _ (s.flushed ++ s.writer.written)]
    exact prefix_append _ _
  normal := by
    rintro (returned | ⟨published, -⟩)
    · rw [returned] at running
      cases running
    · rw [published] at running
      cases running

end

inductive Advances (s : Outbound Response Params Kind) : Outbound Response Params Kind → Prop where
  | still : Advances s s
  | takeFirst (sent : Sent Response Params) (rest : List (Sent Response Params))
      (stands : s.writer = .receiving) (queued : s.queue = sent :: rest) :
      Advances s { s with
        queue := rest, writer := .batching [sent] (Outbound.frameOf serializeMessage sent) }
  | close (stands : s.writer = .receiving) (queued : s.queue = []) (gate : s.gate = false) :
      Advances s (s.finish .normalClose)
  | takeNext (batch : List (Sent Response Params)) (batchBuf : List UInt8)
      (sent : Sent Response Params) (rest : List (Sent Response Params))
      (stands : s.writer = .batching batch batchBuf) (queued : s.queue = sent :: rest) :
      Advances s { s with
        queue := rest
        writer := .batching (batch ++ [sent]) (batchBuf ++ Outbound.frameOf serializeMessage sent) }
  | collect (batch : List (Sent Response Params)) (batchBuf : List UInt8)
      (stands : s.writer = .batching batch batchBuf) :
      Advances s { s with writer := .collected batch batchBuf }
  | measure (batch : List (Sent Response Params)) (batchBuf : List UInt8)
      (stands : s.writer = .collected batch batchBuf) :
      Advances s { s with writer := .writing batch batchBuf s.queue.length }
  | write (batch : List (Sent Response Params)) (batchBuf : List UInt8) (queued : Nat)
      (stands : s.writer = .writing batch batchBuf queued) :
      Advances s { s with sink := s.sink ++ batchBuf, writer := .flushing batch batchBuf queued }
  | failWrite (batch : List (Sent Response Params)) (batchBuf : List UInt8) (queued written : Nat)
      (kind : Kind) (stands : s.writer = .writing batch batchBuf queued) :
      Advances s ({ s with sink := s.sink ++ batchBuf.take written }.finish
        (.writeFailed kind queued batch.length batchBuf.length))
  | flush (batch : List (Sent Response Params)) (batchBuf : List UInt8) (queued : Nat)
      (stands : s.writer = .flushing batch batchBuf queued) :
      Advances s { s with flushed := s.flushed ++ batch, writer := .receiving }
  | failFlush (batch : List (Sent Response Params)) (batchBuf : List UInt8) (queued : Nat)
      (kind : Kind) (stands : s.writer = .flushing batch batchBuf queued) :
      Advances s (s.finish (.flushFailed kind queued batch.length batchBuf.length))
  | publish (outcome : WriterTerminalOutcome Kind) (stands : s.writer = .returned outcome) :
      Advances s { s.publish outcome with writer := .published }

section
variable (s : Outbound Response Params Kind)
include s

theorem advance_writer_advances (reply : SinkReply Kind) :
    Advances serializeMessage s (s.advanceWriter serializeMessage reply) := by
  rw [Outbound.advanceWriter]
  split
  next stands =>
    split
    next sent rest queued => exact .takeFirst sent rest stands queued
    next queued =>
      split
      next => exact .still
      next closed => exact .close stands queued (not_eq_true _ ▸ closed)
  next batch batchBuf stands =>
    split
    next sent rest queued => exact .takeNext batch batchBuf sent rest stands queued
    next => exact .collect batch batchBuf stands
  next batch batchBuf stands => exact .measure batch batchBuf stands
  next batch batchBuf queued stands =>
    cases reply with
    | ok => exact .write batch batchBuf queued stands
    | error kind written => exact .failWrite batch batchBuf queued written kind stands
  next batch batchBuf queued stands =>
    cases reply with
    | ok => exact .flush batch batchBuf queued stands
    | error kind written => exact .failFlush batch batchBuf queued kind stands
  next outcome stands => exact .publish outcome stands
  next => exact .still

theorem publish_first (outcome : WriterTerminalOutcome Kind) (unpublished : s.outcome = none) :
    s.publish outcome = { s with outcome := some outcome, failed := s.failed || outcome.isIoFailure } := by
  simp only [Outbound.publish, unpublished, Option.all_none, if_true]

/-- A published I/O failure is not replaced, whatever is published after it. -/
theorem publish_sticky (existing outcome : WriterTerminalOutcome Kind) (known : s.outcome = some existing)
    (failure : existing.isIoFailure = true) : (s.publish outcome).outcome = some existing := by
  simp only [Outbound.publish, known, Option.all_some, failure, Bool.not_true, Bool.false_and,
    false_eq_true, if_false]

end

theorem Advances.delivering {s : Outbound Response Params Kind}
    (advances : Advances serializeMessage s after) (delivering : Delivering serializeMessage s) :
    Delivering serializeMessage after := by
  -- while the writer runs, the accounts speak of its batch
  have runs : ∀ writer, s.writer = writer → writer.isRunning = true →
      s.receiver = true ∧ s.outcome = none ∧ s.admitted = s.flushed ++ writer.batch ++ s.queue ∧
        writer.batchBuf = framesOf serializeMessage writer.batch ∧
        s.sink = framesOf serializeMessage (s.flushed ++ writer.written) := by
    rintro writer rfl running
    refine ⟨delivering.receiver.trans running, delivering.unpublished fun published => ?_,
      delivering.order running, delivering.buffered, delivering.taken running⟩
    rw [published] at running
    cases running
  cases advances with
  | still => exact delivering
  | takeFirst sent rest stands queued =>
    obtain ⟨receiver, unpublished, order, -, taken⟩ := runs _ stands rfl
    refine running_delivering serializeMessage _ rfl receiver unpublished ?_ ?_ taken
    · rw [order, queued, Writer.batch, append_nil, append_assoc]
      rfl
    · exact (frames_snoc serializeMessage [] sent).symm
  | close stands queued gate =>
    obtain ⟨-, unpublished, order, -, -⟩ := runs _ stands rfl
    refine finish_delivering serializeMessage s .normalClose unpublished delivering.handed ?_
    intro _
    rw [queued] at order
    exact ⟨gate, order.trans (by rw [Writer.batch, append_nil, append_nil])⟩
  | takeNext batch batchBuf sent rest stands queued =>
    obtain ⟨receiver, unpublished, order, buffered, taken⟩ := runs _ stands rfl
    refine running_delivering serializeMessage _ rfl receiver unpublished ?_ ?_ taken
    · rw [order, queued]
      simp only [Writer.batch, append_assoc, cons_append, nil_append]
    · dsimp only [Writer.batchBuf, Writer.batch] at buffered ⊢
      rw [frames_snoc, buffered]
  | collect batch batchBuf stands | measure batch batchBuf stands =>
    obtain ⟨receiver, unpublished, order, buffered, taken⟩ := runs _ stands rfl
    exact running_delivering serializeMessage _ rfl receiver unpublished order buffered taken
  | write batch batchBuf queued stands =>
    obtain ⟨receiver, unpublished, order, buffered, taken⟩ := runs _ stands rfl
    refine running_delivering serializeMessage _ rfl receiver unpublished order buffered ?_
    dsimp only [Writer.written, Writer.batchBuf, Writer.batch] at buffered taken ⊢
    rw [taken, buffered, append_nil, frames_append]
  | failWrite batch batchBuf queued written kind stands =>
    obtain ⟨-, unpublished, order, buffered, taken⟩ := runs _ stands rfl
    refine finish_delivering serializeMessage _ _ unpublished ?_ nofun
    -- part of the batch after everything flushed
    dsimp only [Writer.written, Writer.batch] at order buffered taken ⊢
    rw [taken, append_nil, order, frames_append, frames_append, append_assoc, ← buffered]
    refine (prefix_append_right_inj _).mpr ?_
    exact (List.take_prefix written batchBuf).trans (prefix_append _ _)
  | flush batch batchBuf queued stands =>
    obtain ⟨receiver, unpublished, order, -, taken⟩ := runs _ stands rfl
    refine running_delivering serializeMessage _ rfl receiver unpublished ?_ rfl ?_
    · dsimp only [Writer.batch] at order ⊢
      rw [order, append_nil]
    · dsimp only [Writer.written] at taken ⊢
      rw [taken, append_nil]
  | failFlush batch batchBuf queued kind stands =>
    obtain ⟨-, unpublished, -⟩ := runs _ stands rfl
    exact finish_delivering serializeMessage s _ unpublished delivering.handed nofun
  | publish outcome stands =>
    have unpublished := delivering.unpublished (by rw [stands]; exact nofun)
    rw [publish_first s outcome unpublished]
    exact {
      receiver := by
        rw [delivering.receiver, stands]
        rfl
      unpublished := fun other => absurd rfl other
      order := nofun
      buffered := rfl
      taken := nofun
      handed := delivering.handed
      normal := by
        rintro (returned | ⟨-, known⟩)
        · cases returned
        · cases known
          exact delivering.normal (.inl stands) }

/-- What an operation can do. Three of them matter to the verdict: the start of a response, a
response that finds the channel full, and the last look of a settling call. -/
inductive Moves (s : Outbound Response Params Kind) :
    Op Response Params Kind → Outbound Response Params Kind → Prop where
  | still (op) : Moves s op s
  | writer (op) (after : Outbound Response Params Kind)
      (advances : Advances serializeMessage s after) : Moves s op after
  | enter (response : Response) : Moves s (.enterResponse response) (s.enterResponse response)
  | refuse (op) (index : Nat) (closed : s.gate = false) :
      Moves s op { s with
        rejectedRequired := s.rejectedRequired + 1
        failed := true
        responding := s.responding.eraseIdx index }
  | lose (op) (index : Nat) (opened : s.gate = true) (dropped : s.receiver = false) :
      Moves s op { s with
        gate := false, failed := true, responding := s.responding.eraseIdx index }
  | overflow (index : Nat) (called : index < s.responding.length) (opened : s.gate = true)
      (alive : s.receiver = true) (full : outboundCapacity ≤ s.queue.length) :
      Moves s (.sendResponse index) { s with
        gate := false, failed := true, responding := s.responding.eraseIdx index }
  | accept (op) (index : Nat) (sent : Sent Response Params)
      (called : s.responding[index]? = some sent) (opened : s.gate = true)
      (alive : s.receiver = true) :
      Moves s op { accepted s sent with responding := s.responding.eraseIdx index }
  | turnAway (op) : Moves s op { s with calls := s.calls + 1 }
  | acceptOther (op) (sent : Sent Response Params) (opened : s.gate = true)
      (alive : s.receiver = true) : Moves s op { accepted s sent with calls := s.calls + 1 }
  | close (op) : Moves s op { s with gate := false }
  | beginSettle (op) : Moves s op { s with settling := s.settling ++ [.closing] }
  | settleClose (op) (index : Nat) :
      Moves s op { s with gate := false, settling := s.settling.set index .waiting }
  | settleWait (op) (index : Nat) :
      Moves s op { s with settling := s.settling.set index (.counting s.outcome) }
  | settleCount (index : Nat) (writer : Option (WriterTerminalOutcome Kind))
      (stands : s.settling[index]? = some (.counting writer)) :
      Moves s (.settle index) { s with
        settling := s.settling.set index (.returning ⟨writer, s.rejectedRequired⟩) }
  | settleReturn (op) (index : Nat) : Moves s op { s with settling := s.settling.eraseIdx index }

section
variable (s : Outbound Response Params Kind)
include s

theorem send_response_moves (index : Nat)
    (sent : Sent Response Params) (called : s.responding[index]? = some sent) :
    Moves serializeMessage s (.sendResponse index)
      { (s.sendResponse sent).2 with responding := s.responding.eraseIdx index } := by
  have within := (List.getElem?_eq_some_iff.mp called).1
  rw [Outbound.sendResponse]
  rcases eq_false_or_eq_true s.gate with opened | closed
  · rw [if_neg (by rw [opened]; exact Bool.false_ne_true)]
    rcases channel_send_cases s sent with
      ⟨dropped, result⟩ | ⟨alive, full, result⟩ | ⟨alive, result⟩
    · rw [result]
      exact .lose _ index opened dropped
    · rw [result]
      exact .overflow index within opened alive full
    · rw [result]
      exact .accept _ index sent called opened alive
  · rw [if_pos (by rw [closed]; rfl)]
    exact .refuse _ index closed

variable (op : Op Response Params Kind)

theorem try_send_moves (sent : Sent Response Params) :
    Moves serializeMessage s op (({ s with calls := s.calls + 1 } : Outbound Response Params Kind).trySend
      sent).2 := by
  rw [Outbound.trySend]
  rcases eq_false_or_eq_true s.gate with opened | closed
  · rw [if_neg (by dsimp only; rw [opened]; exact Bool.false_ne_true)]
    rcases channel_send_cases ({ s with calls := s.calls + 1 } : Outbound Response Params Kind)
      sent with ⟨-, result⟩ | ⟨-, -, result⟩ | ⟨alive, result⟩
    · rw [result]
      exact .turnAway _
    · rw [result]
      exact .turnAway _
    · rw [result]
      exact .acceptOther _ sent opened alive
  · rw [if_pos (by dsimp only; rw [closed]; rfl)]
    exact .turnAway _

theorem step_moves : Moves serializeMessage s op (step outboundRejection serializeMessage s op) := by
  cases op with
  | enterResponse response => exact .enter response
  | sendResponse index =>
    rw [step]
    cases called : s.responding[index]? with
    | none => exact .still _
    | some sent => exact send_response_moves serializeMessage s index sent called
  | sendNotification method params =>
    rw [step, Outbound.sendNotification]
    cases outboundRejection method with
    | some reason => exact .turnAway _
    | none => exact try_send_moves serializeMessage s _ _
  | sendRequest id method params =>
    rw [step, Outbound.sendRequest]
    cases outboundRejection method with
    | some reason => exact .turnAway _
    | none => exact try_send_moves serializeMessage s _ _
  | closeAdmission => exact .close _
  | settleForExit => exact .beginSettle _
  | settle index =>
    rw [step, Outbound.settle]
    cases stands : s.settling[index]? with
    | none => exact .still _
    | some settling =>
      cases settling with
      | closing => exact .settleClose _ index
      | waiting => exact .settleWait _ index
      | counting writer => exact .settleCount index writer stands
      | returning settlement => exact .settleReturn _ index
  | writer reply => exact .writer _ _ (advance_writer_advances serializeMessage s reply)

end

theorem Moves.delivering {s : Outbound Response Params Kind} {op : Op Response Params Kind}
    (moves : Moves serializeMessage s op after) (delivering : Delivering serializeMessage s) :
    Delivering serializeMessage after := by
  -- the remaining moves leave the channel as it is, or close its gate
  have aside : ∀ t : Outbound Response Params Kind, SameChannel s t →
      (s.gate = false → t.gate = false) → Delivering serializeMessage t :=
    fun t same closes => same.delivering serializeMessage closes delivering
  cases moves with
  | still => exact delivering
  | writer _ _ advances => exact advances.delivering serializeMessage delivering
  | accept _ index sent called opened alive | acceptOther _ sent opened alive =>
    have added := admitted_delivering serializeMessage s sent alive delivering
    exact SameChannel.delivering (s := accepted s sent) serializeMessage
      ⟨rfl, rfl, rfl, rfl, rfl, rfl, rfl⟩ id added
  | enter response | refuse _ index closed | turnAway | beginSettle | settleWait _ index
  | settleCount index writer stands | settleReturn _ index =>
    exact aside _ ⟨rfl, rfl, rfl, rfl, rfl, rfl, rfl⟩ id
  | lose _ index opened dropped | close | settleClose _ index
  | overflow index called opened alive full =>
    exact aside _ ⟨rfl, rfl, rfl, rfl, rfl, rfl, rfl⟩ fun _ => rfl

theorem publish_gate (s : Outbound Response Params Kind) (outcome : WriterTerminalOutcome Kind) :
    (s.publish outcome).gate = s.gate ∧ (s.publish outcome).admitted = s.admitted ∧
      (s.publish outcome).passed = s.passed ∧ (s.publish outcome).responding = s.responding ∧
      (s.publish outcome).rejectedRequired = s.rejectedRequired ∧
      (s.publish outcome).settling = s.settling := by
  rw [Outbound.publish]
  split
  · exact ⟨rfl, rfl, rfl, rfl, rfl, rfl⟩
  · exact ⟨rfl, rfl, rfl, rfl, rfl, rfl⟩

section
variable {s after : Outbound Response Params Kind}
include s after

theorem Advances.calls (advances : Advances serializeMessage s after) :
    after.gate = s.gate ∧ after.admitted = s.admitted ∧ after.passed = s.passed ∧
      after.responding = s.responding ∧ after.rejectedRequired = s.rejectedRequired ∧
      after.settling = s.settling := by
  cases advances with
  | publish outcome stands => exact publish_gate s outcome
  | _ => exact ⟨rfl, rfl, rfl, rfl, rfl, rfl⟩

theorem Moves.closed {op : Op Response Params Kind}
    (moves : Moves serializeMessage s op after) (closed : s.gate = false) :
    after.gate = false ∧ after.admitted = s.admitted := by
  cases moves with
  | writer _ _ advances =>
    have calls := advances.calls
    exact ⟨calls.1.trans closed, calls.2.1⟩
  | accept _ index sent called opened alive | acceptOther _ sent opened alive =>
    exact absurd (closed.symm.trans opened) Bool.noConfusion
  | lose | overflow | close | settleClose => exact ⟨rfl, rfl⟩
  | _ => exact ⟨closed, rfl⟩

theorem Advances.outcome (advances : Advances serializeMessage s after) :
    after.outcome = s.outcome ∨ ∃ outcome, after.outcome = (s.publish outcome).outcome := by
  cases advances with
  | publish outcome stands => exact .inr ⟨outcome, rfl⟩
  | _ => exact .inl rfl

theorem Moves.sticky {op : Op Response Params Kind}
    (moves : Moves serializeMessage s op after) (outcome : WriterTerminalOutcome Kind)
    (known : s.outcome = some outcome) (failure : outcome.isIoFailure = true) :
    after.outcome = some outcome := by
  cases moves with
  | writer _ _ advances =>
    rcases advances.outcome with same | ⟨published, same⟩
    · exact same.trans known
    · exact same.trans (publish_sticky s outcome published known failure)
  | _ => exact known

end

def Settling.settlement? : Settling Kind → Option (ExitSettlement Kind)
  | .returning settlement => some settlement
  | .closing => none
  | .waiting => none
  | .counting _ => none

def Settling.isCounting : Settling Kind → Bool
  | .counting _ => true
  | .closing => false
  | .waiting => false
  | .returning _ => false

/-- A settling call about to return a clean verdict returns a true one: every response passed in was
admitted and flushed. -/
def CleanDelivery (s : Outbound Response Params Kind) : Prop :=
  ∀ settling ∈ s.settling, ∀ settlement, settling.settlement? = some settlement →
    settlement.isCleanDelivery = true → ∀ sent ∈ s.passed, sent ∈ s.admitted ∧ sent ∈ s.flushed

/-- No response meets a full channel, and none is on its way to the gate between a settling call's
last look and its return. -/
def Unhindered (s : Outbound Response Params Kind) : Op Response Params Kind → Prop
  | .enterResponse _ => ∀ settling ∈ s.settling, settling.settlement? = none
  | .sendResponse index => index < s.responding.length → s.gate = true → s.receiver = true →
      s.queue.length < outboundCapacity
  | .settle index => s.settling[index]?.any Settling.isCounting = true → s.responding = []
  | .sendNotification .. => True
  | .sendRequest .. => True
  | .closeAdmission => True
  | .settleForExit => True
  | .writer _ => True

instance (s : Outbound Response Params Kind) (op : Op Response Params Kind) :
    Decidable (Unhindered s op) :=
  match op with
  | .enterResponse _ => inferInstanceAs (Decidable (∀ settling ∈ s.settling, _ = none))
  | .sendResponse _ => inferInstanceAs (Decidable (_ → _ → _ → _))
  | .settle _ => inferInstanceAs (Decidable (_ → _))
  | .sendNotification .. => isTrue trivial
  | .sendRequest .. => isTrue trivial
  | .closeAdmission => isTrue trivial
  | .settleForExit => isTrue trivial
  | .writer _ => isTrue trivial

variable (s : Outbound Response Params Kind)

/-- The writer has ended, or will, with an I/O failure. -/
def Broken : Prop :=
  s.writer.isRunning = false ∧ ¬ ClosedNormally s

def Knows : Settling Kind → Prop
  | .closing => True
  | .waiting => True
  | .counting writer =>
    writer = some .normalClose → s.writer = .published ∧ s.outcome = some .normalClose
  | .returning settlement => settlement.isCleanDelivery = true →
      (s.writer = .published ∧ s.outcome = some .normalClose) ∧ ∀ sent ∈ s.passed, sent ∈ s.admitted

structure Answering (s : Outbound Response Params Kind) : Prop where
  accounted : ∀ sent ∈ s.passed, sent ∈ s.responding ∨ sent ∈ s.admitted ∨
    0 < s.rejectedRequired ∨ Broken s
  known : ∀ settling ∈ s.settling, Knows s settling

theorem clean_parts (settlement : ExitSettlement Kind) (clean : settlement.isCleanDelivery = true) :
    settlement.writer = some .normalClose ∧ settlement.rejectedRequired = 0 := by
  rw [ExitSettlement.isCleanDelivery, and_eq_true, beq_iff_eq] at clean
  refine ⟨?_, clean.2⟩
  have closed := clean.1
  split at closed
  next same => exact same
  next => cases closed

variable {s : Outbound Response Params Kind}

theorem Answering.clean (answering : Answering s)
    (delivering : Delivering serializeMessage s) : CleanDelivery s := by
  intro settling among settlement held clean sent passed
  cases settling with
  | returning verdict =>
    cases held
    obtain ⟨closed, all⟩ := answering.known _ among clean
    have admitted := all sent passed
    refine ⟨admitted, ?_⟩
    rw [← (delivering.normal (.inr closed)).2]
    exact admitted
  | closing => cases held
  | waiting => cases held
  | counting writer => cases held

theorem Advances.ended (advances : Advances serializeMessage s after)
    (delivering : Delivering serializeMessage s) :
    (s.writer = .published → after = s) ∧ (Broken s → Broken after) := by
  constructor
  · intro published
    cases advances with
    | still => rfl
    | takeFirst _ _ stands | close stands | takeNext _ _ _ _ stands | collect _ _ stands
    | measure _ _ stands | write _ _ _ stands | failWrite _ _ _ _ _ stands | flush _ _ _ stands
    | failFlush _ _ _ _ stands | publish _ stands => rw [published] at stands; cases stands
  · rintro ⟨ended, failed⟩
    cases advances with
    | still => exact ⟨ended, failed⟩
    | takeFirst _ _ stands | close stands | takeNext _ _ _ _ stands | collect _ _ stands
    | measure _ _ stands | write _ _ _ stands | failWrite _ _ _ _ _ stands | flush _ _ _ stands
    | failFlush _ _ _ _ stands => rw [stands] at ended; cases ended
    | publish outcome stands =>
      have unpublished := delivering.unpublished (by rw [stands]; exact nofun)
      refine ⟨rfl, ?_⟩
      rintro (returned | ⟨-, known⟩)
      · cases returned
      · rw [publish_first s outcome unpublished] at known
        cases known
        exact failed (.inl stands)

theorem Knows.kept {settling : Settling Kind} (knows : Knows s settling)
    (ended : s.writer = .published → after.writer = .published ∧ after.outcome = s.outcome)
    (passed : after.passed = s.passed) (admitted : ∀ sent ∈ s.admitted, sent ∈ after.admitted) :
    Knows after settling := by
  cases settling with
  | closing => trivial
  | waiting => trivial
  | counting writer =>
    intro normal
    obtain ⟨published, known⟩ := knows normal
    exact ⟨(ended published).1, (ended published).2.trans known⟩
  | returning settlement =>
    intro clean
    obtain ⟨⟨published, known⟩, all⟩ := knows clean
    refine ⟨⟨(ended published).1, (ended published).2.trans known⟩, ?_⟩
    rw [passed]
    exact fun sent among => admitted sent (all sent among)

/-- The response at a place either is the one taken out there or stays. -/
theorem mem_or_erased {Item : Type} (items : List Item) (index : Nat) (item taken : Item)
    (at' : items[index]? = some taken) (among : item ∈ items) :
    item = taken ∨ item ∈ items.eraseIdx index := by
  obtain ⟨within, is⟩ := List.getElem?_eq_some_iff.mp at'
  have perm := getElem_cons_eraseIdx_perm within
  rw [is] at perm
  exact mem_cons.mp (perm.mem_iff.mpr among)

theorem Moves.answering {s : Outbound Response Params Kind} {op : Op Response Params Kind}
    (moves : Moves serializeMessage s op after) (delivering : Delivering serializeMessage s)
    (unhindered : Unhindered s op) (answering : Answering s) : Answering after := by
  -- most moves keep the writer, the outcome, the responses and what the settling calls know
  have kept : ∀ t : Outbound Response Params Kind, t.writer = s.writer → t.outcome = s.outcome →
      t.passed = s.passed → (∀ sent ∈ s.admitted, sent ∈ t.admitted) →
      ∀ settling ∈ s.settling, Knows t settling := by
    intro t writer outcome passed admitted settling among
    exact (answering.known settling among).kept (fun published => ⟨writer.trans published, outcome⟩)
      passed admitted
  cases moves with
  | still => exact answering
  | writer _ _ advances =>
    obtain ⟨-, admitted, passed, responding, rejected, settling⟩ := advances.calls
    obtain ⟨still, broken⟩ := advances.ended serializeMessage delivering
    constructor
    · rw [passed, admitted, responding, rejected]
      intro sent among
      exact (answering.accounted sent among).imp_right (Or.imp_right (Or.imp_right broken))
    · rw [settling]
      intro call among
      refine (answering.known call among).kept (fun published => ?_) passed ?_
      · rw [still published]
        exact ⟨published, rfl⟩
      · rw [admitted]
        exact fun sent inside => inside
  | enter response =>
    constructor
    · intro sent among
      rcases mem_append.mp among with old | new
      · exact (answering.accounted sent old).imp_left (mem_append_left _)
      · exact .inl (mem_append_right _ new)
    · intro call among
      have knows := answering.known call among
      have unverdicted := unhindered call among
      cases call with
      | closing => trivial
      | waiting => trivial
      | counting writer => exact knows
      | returning settlement => cases unverdicted
  | refuse _ index closed =>
    exact ⟨fun sent _ => .inr (.inr (.inl (Nat.succ_pos _))), kept _ rfl rfl rfl fun sent inside => inside⟩
  | lose _ index opened dropped =>
    -- the receiver is gone although the gate is open: the writer has failed
    have broken : Broken s := by
      refine ⟨delivering.receiver.symm.trans dropped, fun normally => ?_⟩
      exact absurd ((delivering.normal normally).1.symm.trans opened) Bool.noConfusion
    exact ⟨fun sent _ => .inr (.inr (.inr broken)), kept _ rfl rfl rfl fun sent inside => inside⟩
  | overflow index called opened alive full =>
    exact absurd full (Nat.not_le_of_lt (unhindered called opened alive))
  | accept _ index sent called opened alive =>
    constructor
    · intro other among
      rcases answering.accounted other among with waiting | admitted | others
      · rcases mem_or_erased _ index other sent called waiting with rfl | stays
        · exact .inr (.inl (mem_append_right _ (mem_singleton.mpr rfl)))
        · exact .inl stays
      · exact .inr (.inl (mem_append_left _ admitted))
      · exact .inr (.inr others)
    · exact kept _ rfl rfl rfl fun sent inside => mem_append_left _ inside
  | turnAway | close => exact ⟨answering.accounted, kept _ rfl rfl rfl fun sent inside => inside⟩
  | acceptOther _ sent opened alive =>
    constructor
    · intro other among
      exact (answering.accounted other among).imp_right (Or.imp_left (mem_append_left _))
    · exact kept _ rfl rfl rfl fun sent inside => mem_append_left _ inside
  | beginSettle =>
    refine ⟨answering.accounted, fun call among => ?_⟩
    rcases mem_append.mp among with old | new
    · exact kept _ rfl rfl rfl (fun sent inside => inside) call old
    · rw [mem_singleton.mp new]
      trivial
  | settleClose _ index =>
    refine ⟨answering.accounted, fun call among => ?_⟩
    rcases mem_or_eq_of_mem_set among with old | rfl
    · exact kept _ rfl rfl rfl (fun sent inside => inside) call old
    · trivial
  | settleWait _ index =>
    refine ⟨answering.accounted, fun call among => ?_⟩
    rcases mem_or_eq_of_mem_set among with old | rfl
    · exact kept _ rfl rfl rfl (fun sent inside => inside) call old
    · intro normal
      refine ⟨Classical.byContradiction fun other => ?_, normal⟩
      exact nomatch (delivering.unpublished other).symm.trans normal
  | settleCount index writer stands =>
    refine ⟨answering.accounted, fun call among => ?_⟩
    rcases mem_or_eq_of_mem_set among with old | rfl
    · exact kept _ rfl rfl rfl (fun sent inside => inside) call old
    intro clean
    obtain ⟨normal, none⟩ := clean_parts _ clean
    have closed := answering.known _ (mem_of_getElem? stands) normal
    refine ⟨closed, fun sent among => ?_⟩
    rcases answering.accounted sent among with waiting | admitted | rejected | broken
    · rw [unhindered (by rw [stands]; rfl)] at waiting
      exact absurd waiting not_mem_nil
    · exact admitted
    · exact absurd none (Nat.ne_of_gt rejected)
    · exact absurd (.inr closed) broken.2
  | settleReturn _ index =>
    refine ⟨answering.accounted, fun call among => ?_⟩
    exact kept _ rfl rfl rfl (fun sent inside => inside) call (mem_of_mem_eraseIdx among)

/-- The bytes handed to the sink lead the admitted messages' frames in order, a closed gate lets
nothing pass, and an I/O failure stays the outcome. -/
structure Accounted (s : Outbound Response Params Kind) : Prop where
  handed : s.sink <+: framesOf serializeMessage s.admitted
  closed : s.gate = false → ∀ op, (step outboundRejection serializeMessage s op).gate = false ∧
    (step outboundRejection serializeMessage s op).admitted = s.admitted
  sticky : ∀ outcome, s.outcome = some outcome → outcome.isIoFailure = true →
    ∀ op, (step outboundRejection serializeMessage s op).outcome = some outcome

/-- In every run the deliveries are accounted for; where no response meets a full channel or the end
of a settling call, clean verdicts are true. -/
theorem delivery_accounted (ops : List (Op Response Params Kind)) :
    Along (step outboundRejection serializeMessage)
        (Accounted outboundRejection serializeMessage) .spawnWriter ops ∧
      (StepsMeet (step outboundRejection serializeMessage) Unhindered .spawnWriter ops →
        Along (step outboundRejection serializeMessage) CleanDelivery .spawnWriter ops) := by
  have moves := @step_moves Response Params Kind outboundRejection serializeMessage
  constructor
  · have delivering : Along (step outboundRejection serializeMessage) (Delivering serializeMessage)
        .spawnWriter ops :=
      along_of_invariant _ _ (fun s op => (moves s op).delivering serializeMessage) _ ops
        (spawn_delivering serializeMessage)
    refine along_mono _ (fun s delivering => ?_) _ ops delivering
    exact {
      handed := delivering.handed
      closed := fun closed op => (moves s op).closed serializeMessage closed
      sticky := fun outcome known failure op =>
        (moves s op).sticky serializeMessage outcome known failure }
  · intro meet
    have answering : Along (step outboundRejection serializeMessage)
        (fun s => Delivering serializeMessage s ∧ Answering s) .spawnWriter ops := by
      refine along_of_steps _ _ Unhindered (fun s op both unhindered => ?_) _ ops ?_ meet
      · exact ⟨(moves s op).delivering serializeMessage both.1,
          (moves s op).answering serializeMessage both.1 unhindered both.2⟩
      · exact ⟨spawn_delivering serializeMessage, fun sent among => absurd among not_mem_nil,
          fun call among => absurd among not_mem_nil⟩
    exact along_mono _ (fun s both => both.2.clean serializeMessage both.1) _ ops answering

/-- Responses and parameters that are JSON already, in the order `serde_json` writes the
members of an object. -/
def jsonOf : OutboundMessage (List UInt8) (List UInt8) → List UInt8
  | .response json => json
  | .notification method params =>
    Utf8.encode ("\x7b\"jsonrpc\":\"2.0\",\"method\":\"".toList ++ method.toList ++
      "\",\"params\":".toList) ++ params ++ Utf8.encode ['\x7d']
  | .request id method params =>
    Utf8.encode ("\x7b\"id\":".toList ++ (toString id).toList ++
      ",\"jsonrpc\":\"2.0\",\"method\":\"".toList ++ method.toList ++
      "\",\"params\":".toList) ++ params ++ Utf8.encode ['\x7d']

def emptyObject : List UInt8 := [0x7B, 0x7D]

def settledRun : List (Op (List UInt8) (List UInt8) Unit) :=
  [.enterResponse emptyObject, .sendResponse 0, .settleForExit, .settle 0] ++
    List.replicate 7 (.writer .ok) ++ [.settle 0, .settle 0]

theorem delivery_accounted_settled :
    (run (step (fun _ => none) jsonOf) .spawnWriter settledRun).settling =
        [.returning ⟨some .normalClose, 0⟩] ∧
      Along (step (fun _ => none) jsonOf) CleanDelivery .spawnWriter settledRun :=
  ⟨by decide, (delivery_accounted (fun _ => none) jsonOf settledRun).2 (by decide)⟩

/-- Notifications fill the channel while the writer sleeps, a response is refused, and the exit path
settles after the channel has been drained. -/
def overflowingRun : List (Op (List UInt8) (List UInt8) Unit) :=
  List.replicate 64 (.sendNotification "window/logMessage" emptyObject) ++
    [.enterResponse emptyObject, .sendResponse 0, .settleForExit, .settle 0] ++
    List.replicate 70 (.writer .ok) ++ [.settle 0, .settle 0]

/-- The verdict is clean though the response was never admitted: only a refusal by a closed gate is
counted. -/
theorem full_channel_not_counted :
    ¬ Along (step (fun _ => none) jsonOf) CleanDelivery .spawnWriter overflowingRun := by
  intro along
  have final := (along_iff_prefixes _ _ _ _).mp along overflowingRun [] (append_nil _).symm
  have verdict : (run (step (fun _ => none) jsonOf) .spawnWriter overflowingRun).settling =
      [.returning ⟨some .normalClose, 0⟩] := by decide +kernel
  have passed : (run (step (fun _ => none) jsonOf) .spawnWriter overflowingRun).passed =
      [⟨64, .response emptyObject⟩] := by decide +kernel
  have refused : ⟨64, .response emptyObject⟩ ∉
      (run (step (fun _ => none) jsonOf) .spawnWriter overflowingRun).admitted := by decide +kernel
  have returning := verdict ▸ mem_singleton_self _
  have sent := passed ▸ mem_singleton_self _
  exact refused (final _ returning ⟨some .normalClose, 0⟩ rfl rfl _ sent).1

/-- However the sink's bytes are cut, and however many of them have come, the framer that reads them
finds the first of the admitted messages in order; while the writer runs, all that it has written once
all the bytes have come. -/
theorem framer_reads_admitted (ops : List (Op Response Params Kind)) (chunks : List (List UInt8))
    (rest : List UInt8) :
    let s := run (step outboundRejection serializeMessage) .spawnWriter ops
    let bodies := map fun sent : Sent Response Params => serializeMessage sent.message
    (∀ body ∈ bodies s.admitted, body.length ≤ Framing.maxFrameSize) →
    chunks.flatten ++ rest = s.sink →
    ∃ received left, Framing.feed {} chunks = .ok (received, left) ∧ received <+: bodies s.admitted ∧
      (rest = [] → s.writer.isRunning → received = bodies (s.flushed ++ s.writer.written) ∧
        left = {}) := by
  intro s bodies bounds come
  have delivering : Delivering serializeMessage s := run_invariant _ _
    (fun s op => (step_moves outboundRejection serializeMessage s op).delivering serializeMessage) _
    ops (spawn_delivering serializeMessage)
  have framed (sents : List (Sent Response Params)) :
      framesOf serializeMessage sents = Framing.stream (bodies sents) := by
    rw [Framing.stream, map_map, framesOf, flatMap_def]
    rfl
  obtain ⟨unsent, split⟩ := delivering.handed
  rw [← come, append_assoc, framed] at split
  obtain ⟨received, waiting, left, shape, fed, remains, short⟩ :=
    Framing.feed_front chunks _ [] (rest ++ unsent) bounds split (Framing.incomplete_nil _)
  refine ⟨received, ⟨left⟩, fed, ⟨waiting, shape.symm⟩, fun all running => ?_⟩
  have whole : chunks.flatten = Framing.stream (bodies (s.flushed ++ s.writer.written)) := by
    rw [← framed, ← delivering.taken running, ← come, all, append_nil]
  have within : s.flushed ++ s.writer.written ⊆ s.admitted := by
    rw [delivering.order running, append_assoc]
    refine append_subset.mpr ⟨subset_append_left _ _, fun sent inside => ?_⟩
    cases stands : s.writer <;> simp_all [Writer.written, Writer.batch]
  have complete := Framing.feed_stream chunks _ []
    (fun body inside => bounds body (map_subset _ within inside)) whole (Framing.incomplete_nil _)
  obtain ⟨rfl, same⟩ := Prod.mk.inj (Except.ok.inj (fed.symm.trans complete))
  exact ⟨rfl, same⟩

theorem framer_reads_cut_frame :
    Framing.feed {} [(Framing.frame emptyObject).take 9, (Framing.frame emptyObject).drop 9] =
      .ok ([emptyObject], {}) := by
  obtain ⟨received, left, fed, -, whole⟩ := framer_reads_admitted (fun _ => none) jsonOf
    (settledRun.take 8) [(Framing.frame emptyObject).take 9, (Framing.frame emptyObject).drop 9] []
    (by decide) (by decide)
  obtain ⟨rfl, rfl⟩ := whole rfl (by decide)
  exact fed

end PerlLsp.OutboundDelivery
