import PerlLsp.ReadDispatcher

/-! The order in which scheduler.rs runs handlers: mutations one at a time as they were
sent, reads after the mutations sent before them, at most so many reads at once. -/
namespace PerlLsp.Scheduler
open Runs UnderWay List SchedulerState
variable {Id Value : Type}

def HandlerEnd.answers (ended : HandlerEnd Id Value) (request : JsonRpcRequest Id) : Prop :=
  match ended with
  | .panicked => True
  | .returned response => response.map JsonRpcResponse.id = request.id.map some

def HandlerOutcome.id (outcome : HandlerOutcome Id Value) : Option Id :=
  outcome.toSend.bind JsonRpcResponse.id

theorem run_handler_id (ended : HandlerEnd Id Value) (request : JsonRpcRequest Id)
    (answers : ended.answers request) (method : String) :
    (runHandler ended request.id method).id = request.id := by
  cases ended with
  | panicked =>
    cases named : request.id with
    | none => rfl
    | some id => rfl
  | returned response =>
    rw [HandlerEnd.answers] at answers
    cases response with
    | none =>
      cases named : request.id with
      | none => rfl
      | some id =>
        rw [named] at answers
        cases answers
    | some response =>
      cases named : request.id with
      | none =>
        rw [named] at answers
        cases answers
      | some id =>
        rw [named, Option.map_some, Option.map_some, Option.some.injEq] at answers
        exact answers

def Sent.mutation? : Sent Id → Option (QueuedMutation Id)
  | .mutation queued => some queued
  | .read _ => none

def Sent.read? : Sent Id → Option (QueuedRead Id)
  | .read queued => some queued
  | .mutation _ => none

def mutationsOf (sent : List (Sent Id)) : List (QueuedMutation Id) :=
  sent.filterMap Sent.mutation?

def readsOf (sent : List (Sent Id)) : List (QueuedRead Id) :=
  sent.filterMap Sent.read?

section
variable (sent : List (Sent Id))
include sent

theorem mutations_snoc_mutation (queued : QueuedMutation Id) :
    mutationsOf (sent ++ [.mutation queued]) = mutationsOf sent ++ [queued] :=
  filterMap_append

theorem mutations_snoc_read (queued : QueuedRead Id) :
    mutationsOf (sent ++ [.read queued]) = mutationsOf sent := by
  rw [mutationsOf, filterMap_append]
  exact append_nil _

theorem reads_snoc_mutation (queued : QueuedMutation Id) :
    readsOf (sent ++ [.mutation queued]) = readsOf sent := by
  rw [readsOf, filterMap_append]
  exact append_nil _

theorem reads_snoc_read (queued : QueuedRead Id) :
    readsOf (sent ++ [.read queued]) = readsOf sent ++ [queued] :=
  filterMap_append

end

def Worker.running : Worker Id Value → List (QueuedMutation Id)
  | .handling queued => [queued]
  | .handled _ _ => []
  | .receiving => []
  | .responding _ => []
  | .draining => []
  | .leaving => []
  | .exited => []

def Worker.owed : Worker Id Value → Option Id
  | .handling queued => queued.request.id
  | .handled _ outcome => outcome.id
  | .responding outcome => outcome.id
  | .receiving => none
  | .draining => none
  | .leaving => none
  | .exited => none

def Worker.abandons : Worker Id Value → Bool
  | .draining => true
  | .leaving => true
  | .handling _ => false
  | .handled _ _ => false
  | .receiving => false
  | .responding _ => false
  | .exited => false

def QueuedMutation.id (queued : QueuedMutation Id) : Option Id := queued.request.id

def Lane.owed (lane : Lane Id Value) : List Id :=
  lane.worker.owed.toList ++ lane.queue.filterMap QueuedMutation.id

structure LaneLog (lane : Lane Id Value) (mutations : List (QueuedMutation Id)) : Prop where
  ordered : lane.InOrder
  live : lane.worker.abandons = false
  sent : mutations = lane.started ++ lane.queue
  started : lane.started = lane.returned ++ lane.worker.running
  numbered : lane.seqNext = mutations.length + lane.ingress.allocation.length
  replies : mutations.filterMap QueuedMutation.id =
    lane.outbox.filterMap JsonRpcResponse.id ++ lane.owed

structure Lane.SameWork (before after : Lane Id Value) : Prop where
  worker : after.worker = before.worker
  queue : after.queue = before.queue
  started : after.started = before.started
  returned : after.returned = before.returned
  outbox : after.outbox = before.outbox

variable {mutations : List (QueuedMutation Id)}

theorem LaneLog.same_work {before after : Lane Id Value} (log : LaneLog before mutations)
    (ordered : after.InOrder) (same : before.SameWork after)
    (numbered : after.seqNext = mutations.length + after.ingress.allocation.length) :
    LaneLog after mutations := by
  constructor
  · exact ordered
  · rw [same.worker]
    exact log.live
  · rw [same.started, same.queue]
    exact log.sent
  · rw [same.started, same.returned, same.worker]
    exact log.started
  · exact numbered
  · rw [same.outbox, Lane.owed, same.worker, same.queue]
    exact log.replies

theorem new_log : LaneLog (.new : Lane Id Value) [] where
  ordered := new_in_order
  live := rfl
  sent := rfl
  started := rfl
  numbered := rfl
  replies := rfl

section
variable {lane : Lane Id Value} (log : LaneLog lane mutations)
include lane mutations log

theorem LaneLog.idle (idle : lane.ingress.allocation = []) : lane.seqNext = mutations.length := by
  rw [log.numbered, idle]
  rfl

theorem begin_mutation_log (request : JsonRpcRequest Id) :
    LaneLog (lane.beginMutation request) mutations := by
  have ordered := begin_mutation_in_order lane request log.ordered
  revert ordered
  rw [Lane.beginMutation]
  split
  next stands =>
    split
    · exact fun _ => log
    · intro ordered
      apply log.same_work ordered ⟨rfl, rfl, rfl, rfl, rfl⟩
      exact log.idle (by rw [stands]; rfl)
  · exact fun _ => log

theorem cancel_ingress_log : LaneLog lane.cancelIngress mutations := by
  have ordered := cancel_ingress_in_order lane log.ordered
  revert ordered
  rw [Lane.cancelIngress]
  split
  next stands =>
    intro ordered
    apply log.same_work ordered ⟨rfl, rfl, rfl, rfl, rfl⟩
    exact log.idle (by rw [stands]; rfl)
  · exact fun _ => log

theorem send_read_log : LaneLog lane.sendRead mutations := by
  have ordered := send_read_in_order lane log.ordered
  revert ordered
  rw [Lane.sendRead]
  split
  · split
    · exact fun _ => log
    · exact fun ordered => log.same_work ordered ⟨rfl, rfl, rfl, rfl, rfl⟩ log.numbered
  · exact fun _ => log

theorem shutdown_log : LaneLog lane.shutdown mutations := by
  have ordered := shutdown_in_order lane log.ordered
  revert ordered
  rw [Lane.shutdown]
  split
  · exact fun ordered => log.same_work ordered ⟨rfl, rfl, rfl, rfl, rfl⟩ log.numbered
  · exact fun _ => log

end

def Ingress.sends : Ingress Id → List (QueuedMutation Id)
  | .allocated queued => [queued]
  | .idle => []
  | .reserving _ => []
  | .reserved _ => []

theorem step_ingress_log {lane : Lane Id Value} (log : LaneLog lane mutations) :
    LaneLog lane.stepIngress (mutations ++ lane.ingress.sends) := by
  have ordered := step_ingress_in_order lane log.ordered
  revert ordered
  rw [Lane.stepIngress]
  split
  next stands =>
    rw [stands, Ingress.sends, append_nil]
    exact fun _ => log
  next request stands =>
    rw [stands, Ingress.sends, append_nil]
    have numbered := log.idle (by rw [stands]; rfl)
    split
    · exact fun ordered => log.same_work ordered ⟨rfl, rfl, rfl, rfl, rfl⟩ numbered
    · split
      · exact fun ordered => log.same_work ordered ⟨rfl, rfl, rfl, rfl, rfl⟩ numbered
      · exact fun _ => log
  next request stands =>
    rw [stands, Ingress.sends, append_nil]
    intro ordered
    apply log.same_work ordered ⟨rfl, rfl, rfl, rfl, rfl⟩
    have numbered := log.idle (by rw [stands]; rfl)
    dsimp only [Ingress.allocation, length_cons, length_nil]
    rw [numbered]
  next queued stands =>
    have alive := log.ordered.alive (by rw [stands]; rfl)
    rw [stands, Ingress.sends, if_pos alive]
    intro ordered
    constructor
    · exact ordered
    · exact log.live
    · rw [log.sent, append_assoc]
    · exact log.started
    · have numbered := log.numbered
      rw [stands] at numbered
      rw [length_append, numbered]
      rfl
    · rw [filterMap_append, log.replies, Lane.owed, Lane.owed, filterMap_append, append_assoc, append_assoc]

def Worker.endsWell (worker : Worker Id Value) (ended : HandlerEnd Id Value) : Prop :=
  match worker with
  | .handling queued => ended.answers queued.request
  | .handled _ _ => True
  | .receiving => True
  | .responding _ => True
  | .draining => True
  | .leaving => True
  | .exited => True

section
variable {lane : Lane Id Value} (log : LaneLog lane mutations)
include lane mutations log

theorem step_worker_log (ended : HandlerEnd Id Value)
    (well : lane.worker.endsWell ended) : LaneLog (lane.stepWorker ended true) mutations := by
  have unlost : Unlost lane (.worker ended true) := by
    intro leaving
    have live := log.live
    rw [leaving] at live
    cases live
  have ordered := step_worker_in_order lane ended true log.ordered unlost
  have sent := log.sent
  have started := log.started
  have replies := log.replies
  rw [Lane.owed] at replies
  revert ordered
  rw [Lane.stepWorker]
  split
  next stands =>
    rw [stands] at started replies
    split
    next queued rest waiting =>
      rw [waiting] at sent replies
      intro ordered
      constructor
      · exact ordered
      · rfl
      · rw [sent]
        rw [append_assoc, singleton_append]
      · rw [started, Worker.running, Worker.running, append_nil]
      · exact log.numbered
      · rw [replies, Lane.owed]
        dsimp only [Worker.owed]
        cases named : queued.request.id with
        | none | some id => simp [QueuedMutation.id, named]
    next waiting =>
      split
      · intro ordered
        constructor
        · exact ordered
        · rfl
        · exact sent
        · exact started
        · exact log.numbered
        · exact replies
      · exact fun _ => log
  next queued stands =>
    rw [stands] at started replies well
    intro ordered
    constructor
    · exact ordered
    · rfl
    · exact sent
    · rw [started, Worker.running, Worker.running, append_nil]
    · exact log.numbered
    · rw [replies, Lane.owed]
      dsimp only [Worker.owed]
      rw [run_handler_id ended queued.request well]
  next queued outcome stands =>
    rw [stands] at started replies
    intro ordered
    constructor
    · exact ordered
    · rfl
    · exact sent
    · exact started
    · exact log.numbered
    · exact replies
  next outcome stands =>
    rw [stands] at started replies
    dsimp only [Worker.owed, HandlerOutcome.id] at replies
    split
    next none =>
      rw [none] at replies
      intro ordered
      constructor
      · exact ordered
      · rfl
      · exact sent
      · exact started
      · exact log.numbered
      · exact replies
    next response owed =>
      rw [owed] at replies
      rw [if_pos rfl]
      intro ordered
      constructor
      · exact ordered
      · rfl
      · exact sent
      · exact started
      · exact log.numbered
      · rw [replies, Lane.owed, filterMap_append]
        cases named : response.id with
        | none | some id => simp [named, Worker.owed]
  next stands =>
    have live := log.live
    rw [stands] at live
    cases live
  next stands =>
    have live := log.live
    rw [stands] at live
    cases live
  · exact fun _ => log

/-- What is published has returned. -/
theorem LaneLog.published_returned : lane.seqDone ≤ lane.returned.length := by
  have count := log.ordered.count
  have numbered := log.numbered
  have sent := congrArg List.length log.sent
  have started := congrArg List.length log.started
  have runs : lane.worker.running.length ≤ lane.worker.taken.length := by
    cases lane.worker with
    | handled queued outcome => exact Nat.zero_le _
    | handling queued | receiving | responding outcome | draining | leaving | exited =>
      exact Nat.le_refl _
  rw [Lane.outstanding, length_append, length_append] at count
  rw [length_append] at sent started
  omega

/-- The handlers that have returned are those of the first mutations sent. -/
theorem LaneLog.returned_first : ∃ later, mutations = lane.returned ++ later := by
  refine ⟨lane.worker.running ++ lane.queue, ?_⟩
  rw [log.sent, log.started, append_assoc]

theorem LaneLog.publishes (ended : HandlerEnd Id Value) :
    lane.seqDone ≤ (lane.stepWorker ended true).seqDone := by
  have live := log.live
  rw [Lane.stepWorker]
  split
  · split
    · exact Nat.le_refl _
    · split
      · exact Nat.le_refl _
      · exact Nat.le_refl _
  · exact Nat.le_refl _
  next queued outcome stands =>
    have order := log.ordered.order
    rw [Lane.outstanding, stands] at order
    dsimp only [Worker.taken, cons_append] at order
    rw [map_cons, length_cons, range'_succ, List.cons.injEq] at order
    rw [order.1]
    exact Nat.le_succ _
  · split
    · exact Nat.le_refl _
    · exact Nat.le_refl _
  next stands =>
    rw [stands] at live
    cases live
  · exact Nat.le_refl _
  · exact Nat.le_refl _

end

def SpawnedRead.held (task : SpawnedRead Id Value) : Option (QueuedRead Id) :=
  if task.isFinished then none else some task.read

def Dispatcher.held : Dispatcher Id → Option (QueuedRead Id)
  | .dispatching queued _ => some queued
  | .acquiring queued _ => some queued
  | .draining => none
  | .picking => none
  | .receiving => none
  | .waiting => none
  | .emptying => none
  | .joining => none
  | .exited => none

def SchedulerState.held (s : SchedulerState Id Value) : List (QueuedRead Id) :=
  s.readQueue ++ (s.pending ++ (s.dispatcher.held.toList ++ s.inFlight.filterMap SpawnedRead.held))

def QueuedRead.id (queued : QueuedRead Id) : Option Id := queued.request.id

/-- What a step does to the reads: it leaves them unanswered, sends one more, or answers one. -/
inductive Accounts (before after : SchedulerState Id Value) : Prop where
  | keeps (held : after.held.Perm before.held) (outbox : after.outbox = before.outbox)
      (sent : readsOf after.sent = readsOf before.sent)
  | sends (read : QueuedRead Id) (held : after.held.Perm (read :: before.held))
      (outbox : after.outbox = before.outbox)
      (sent : readsOf after.sent = readsOf before.sent ++ [read])
  | answers (read : QueuedRead Id) (reply : Option (JsonRpcResponse Id Value))
      (held : before.held.Perm (read :: after.held))
      (outbox : after.outbox = before.outbox ++ reply.toList)
      (named : reply.bind JsonRpcResponse.id = read.id)
      (sent : readsOf after.sent = readsOf before.sent)

def SchedulerState.ReadsKept (s : SchedulerState Id Value) : Prop :=
  ∃ answered : List (QueuedRead Id), (readsOf s.sent).Perm (answered ++ s.held) ∧
    s.outbox.filterMap JsonRpcResponse.id = answered.filterMap QueuedRead.id

theorem Accounts.kept {before after : SchedulerState Id Value} (accounts : Accounts before after)
    (kept : before.ReadsKept) : after.ReadsKept := by
  obtain ⟨answered, places, replies⟩ := kept
  cases accounts with
  | keeps held outbox sent =>
    refine ⟨answered, ?_, ?_⟩
    · rw [sent]
      exact places.trans (held.symm.append_left answered)
    · rw [outbox]
      exact replies
  | sends read held outbox sent =>
    refine ⟨answered, ?_, ?_⟩
    · rw [sent]
      have more : (readsOf before.sent ++ [read]).Perm (answered ++ (before.held ++ [read])) := by
        rw [← append_assoc]
        exact places.append_right [read]
      have last : (before.held ++ [read]).Perm (read :: before.held) :=
        perm_append_singleton read before.held
      exact more.trans ((last.trans held.symm).append_left answered)
    · rw [outbox]
      exact replies
  | answers read reply held outbox named sent =>
    refine ⟨answered ++ [read], ?_, ?_⟩
    · rw [sent, append_assoc]
      exact places.trans (held.append_left answered)
    · rw [outbox, filterMap_append, filterMap_append, replies]
      rw [filterMap_cons, ← named]
      cases reply with
      | none => rfl
      | some response =>
        rfl

section
variable {tasks : List (SpawnedRead Id Value)} {place : Nat} {task : SpawnedRead Id Value}
    (stands : tasks[place]? = some task) (next : SpawnedRead Id Value)
include tasks place task stands next

theorem held_put_same (same : next.held = task.held) :
    ((tasks.set place next).filterMap SpawnedRead.held).Perm (tasks.filterMap SpawnedRead.held) := by
  have changed := (set_perm stands next).filterMap SpawnedRead.held
  have taken := (taken_perm stands).filterMap SpawnedRead.held
  rw [filterMap_cons, same] at changed
  rw [filterMap_cons] at taken
  exact changed.trans taken

theorem held_put_finished (finished : next.held = none) (unanswered : task.held = some task.read) :
    (tasks.filterMap SpawnedRead.held).Perm
      (task.read :: (tasks.set place next).filterMap SpawnedRead.held) := by
  have changed := (set_perm stands next).filterMap SpawnedRead.held
  have taken := (taken_perm stands).filterMap SpawnedRead.held
  rw [filterMap_cons, finished] at changed
  rw [filterMap_cons, unanswered] at taken
  exact taken.symm.trans (changed.symm.cons task.read)

end

theorem held_join (tasks : List (SpawnedRead Id Value)) :
    (tasks.eraseP SpawnedRead.isFinished).filterMap SpawnedRead.held = tasks.filterMap SpawnedRead.held := by
  induction tasks with
  | nil => rfl
  | cons task rest ih =>
    rw [eraseP_cons]
    cases finished : task.isFinished with
    | true =>
      rw [cond_true, filterMap_cons, SpawnedRead.held, if_pos finished]
    | false =>
      rw [cond_false, filterMap_cons, filterMap_cons, ih]

variable (keys : UriKeys) (null : Value → Bool) (s : SchedulerState Id Value)

theorem permits_held_length : s.permitsHeld = (s.inFlight.filterMap SpawnedRead.held).length := by
  rw [permitsHeld]
  induction s.inFlight with
  | nil => rfl
  | cons task rest ih =>
    rw [countP_cons, filterMap_cons, SpawnedRead.held, ih]
    cases task.isFinished with
    | true => rfl
    | false => rfl

structure TaskSound (published : Nat) (task : SpawnedRead Id Value) : Prop where
  released : task.stage ≠ .barrier → task.read.waitForSeq ≤ published
  named : ∀ outcome, task.stage = .returned outcome → outcome.id = task.read.id

theorem answer_read_id (d : Documents) (read : QueuedRead Id) (freshness : Option ReadFreshness)
    (outcome : HandlerOutcome Id Value) (named : outcome.id = read.id) :
    (answerRead keys null d read freshness outcome).bind JsonRpcResponse.id = read.id := by
  cases outcome with
  | panicked response => exact named
  | empty => exact named
  | response response =>
    rw [answerRead]
    split
    · exact named
    · split
      · exact named
      · rfl

def HandlersAnswer (s : SchedulerState Id Value) : SchedulerOp Id Value → Prop
  | .worker ended => s.lane.worker.endsWell ended
  | .task place ended => ∀ task, s.inFlight[place]? = some task → task.stage = .running →
      ended.answers task.read.request
  | .sendMutation _ => True
  | .sendRead _ => True
  | .cancelIngress => True
  | .shutdown => True
  | .documents _ => True
  | .mutationIngress => True
  | .readIngress => True
  | .dispatcher => True

theorem held_of_stage (task : SpawnedRead Id Value) (going : task.stage ≠ .finished) :
    task.held = some task.read := by
  rw [SpawnedRead.held, SpawnedRead.isFinished]
  cases stands : task.stage with
  | finished => exact absurd stands going
  | barrier => rfl
  | released => rfl
  | running => rfl
  | returned outcome => rfl

theorem held_out {read : QueuedRead Id} {places others : List (QueuedRead Id)}
    (queue pending : List (QueuedRead Id)) (out : places.Perm (read :: others)) :
    (queue ++ (pending ++ places)).Perm (read :: (queue ++ (pending ++ others))) := by
  have inner : (pending ++ places).Perm (read :: (pending ++ others)) :=
    (out.append_left pending).trans perm_middle
  exact (inner.append_left queue).trans perm_middle

section
variable {place : Nat} {task : SpawnedRead Id Value} (stands : s.inFlight[place]? = some task)
include s place task stands

theorem put_task_keeps (next : SpawnedRead Id Value)
    (same : next.held = task.held) : Accounts s (s.putTask place next) := by
  apply Accounts.keeps
  · exact (((held_put_same stands next same).append_left _).append_left _).append_left _
  · rfl
  · rfl

theorem put_task_answers (unanswered : task.held = some task.read) (freshness : Option ReadFreshness)
    (reply : Option (JsonRpcResponse Id Value)) (named : reply.bind JsonRpcResponse.id = task.read.id) :
    Accounts s { s.putTask place ⟨task.read, freshness, .finished⟩ with
      outbox := s.outbox ++ reply.toList } := by
  apply Accounts.answers task.read reply
  · have dropped := held_put_finished stands ⟨task.read, freshness, .finished⟩ rfl unanswered
    apply held_out
    exact (dropped.append_left s.dispatcher.held.toList).trans perm_middle
  · rfl
  · exact named
  · rfl

end

theorem step_task_accounts (place : Nat) (ended : HandlerEnd Id Value) (published : Nat)
    (sound : ∀ task ∈ s.inFlight, TaskSound published task) :
    Accounts s (s.stepTask keys null place ended) := by
  have same : Accounts s s := .keeps (.refl _) rfl rfl
  rw [stepTask]
  split
  · exact same
  next task stands =>
    have held (going : task.stage ≠ .finished) := held_of_stage task going
    split
    next barrier =>
      split
      · apply put_task_keeps s stands
        rw [held (by rw [barrier]; nofun)]
        rfl
      · exact same
    next released =>
      split
      · apply put_task_answers s stands (held (by rw [released]; nofun)) task.freshness (some _)
        rfl
      · apply put_task_keeps s stands
        rw [held (by rw [released]; nofun)]
        rfl
    next running =>
      apply put_task_keeps s stands
      rw [held (by rw [running]; nofun)]
      rfl
    next outcome returned =>
      apply put_task_answers s stands (held (by rw [returned]; nofun)) task.freshness
      apply answer_read_id
      exact (sound task (mem_of_getElem? stands)).named outcome returned
    · exact same

section

include s

theorem receive_accounts (queued : QueuedRead Id)
    (rest : List (QueuedRead Id)) (waiting : s.readQueue = queued :: rest)
    (free : s.dispatcher.held = none) : Accounts s (s.receive queued rest) := by
  apply Accounts.keeps
  · rw [held, held, waiting, free]
    exact perm_middle
  · rfl
  · rfl

theorem pop_accounts (queued : QueuedRead Id) (rest : List (QueuedRead Id)) (closing : Bool)
    (popped : popRead s.pending = some (queued, rest)) (free : s.dispatcher.held = none) :
    Accounts s { s with pending := rest, dispatcher := .dispatching queued closing } := by
  apply Accounts.keeps
  · rw [held, held, free]
    apply List.Perm.append_left
    have places := pop_read_perm popped
    exact perm_middle.trans (places.symm.append_right _)
  · rfl
  · rfl

theorem phase_accounts (dispatcher : Dispatcher Id) (same : dispatcher.held = s.dispatcher.held) :
    Accounts s { s with dispatcher := dispatcher } := by
  apply Accounts.keeps
  · rw [held, held, same]
  · rfl
  · rfl

theorem join_accounts : Accounts s s.joinNext := by
  apply Accounts.keeps
  · rw [held, held, joinNext]
    rw [held_join]
  · rfl
  · rfl

end

theorem after_dispatch_held (closing : Bool) : (afterDispatch closing : Dispatcher Id).held = none := by
  cases closing with
  | true => rfl
  | false => rfl

section
variable (queued : QueuedRead Id) (closing : Bool) (here : s.dispatcher.held = some queued)
include s queued closing here

theorem cancel_accounts (reason : StaleReason) (marked : List (QueuedRead Id)) :
    Accounts s { s with
      outbox := s.cancelRead queued reason
      supersededReads := marked
      dispatcher := afterDispatch closing } := by
  apply Accounts.answers queued (some (cancellation queued.request.id queued.request.method reason))
  · rw [held, held, here]
    dsimp only
    rw [after_dispatch_held]
    exact held_out _ _ (.refl _)
  · rfl
  · rfl
  · rfl

theorem spawn_accounts : Accounts s (s.spawnRead queued closing) := by
  rw [spawnRead]
  split
  · apply Accounts.keeps
    · rw [held, held, here]
      rw [after_dispatch_held, filterMap_append]
      apply List.Perm.append_left
      apply List.Perm.append_left
      exact perm_append_singleton queued _
    · rfl
    · rfl
  · exact .keeps (.refl _) rfl rfl

end

theorem step_dispatcher_accounts : Accounts s (s.stepDispatcher keys) := by
  have same : Accounts s s := .keeps (.refl _) rfl rfl
  rw [stepDispatcher]
  split
  next draining =>
    split
    next queued rest waiting => exact receive_accounts s queued rest waiting (by rw [draining]; rfl)
    · apply phase_accounts
      rw [draining]
      split
      · rfl
      · rfl
  next picking =>
    split
    next queued rest popped => exact pop_accounts s queued rest false popped (by rw [picking]; rfl)
    · exact phase_accounts s .receiving (by rw [picking]; rfl)
  next receiving =>
    split
    next queued rest waiting => exact receive_accounts s queued rest waiting (by rw [receiving]; rfl)
    · split
      · exact phase_accounts s .joining (by rw [receiving]; rfl)
      · exact same
  next queued closing dispatching =>
    have here : s.dispatcher.held = some queued := by rw [dispatching]; rfl
    rw [checkRead]
    split
    · exact cancel_accounts s queued closing here _ _
    · split
      · exact cancel_accounts s queued closing here _ s.supersededReads
      · exact phase_accounts s (.acquiring queued closing) (by rw [dispatching]; rfl)
  next queued closing acquiring => exact spawn_accounts s queued closing (by rw [acquiring]; rfl)
  next waiting =>
    split
    · exact phase_accounts s .draining (by rw [waiting]; rfl)
    · exact join_accounts s
  next emptying =>
    split
    next queued rest popped => exact pop_accounts s queued rest true popped (by rw [emptying]; rfl)
    · exact phase_accounts s .joining (by rw [emptying]; rfl)
  next joining =>
    split
    · exact phase_accounts s .exited (by rw [joining]; rfl)
    · exact join_accounts s
  · exact same

theorem step_accounts (op : SchedulerOp Id Value) (published : Nat)
    (sound : ∀ task ∈ s.inFlight, TaskSound published task) : Accounts s (s.step keys null op) := by
  have same : Accounts s s := .keeps (.refl _) rfl rfl
  cases op with
  | sendMutation request =>
    rw [step, sendMutation]
    split
    · exact .keeps (.refl _) rfl rfl
    · exact same
  | sendRead request =>
    rw [step, sendRead]
    split
    · split
      · exact same
      · exact .keeps (.refl _) rfl rfl
    · exact same
  | cancelIngress | documents documents | worker ended => exact .keeps (.refl _) rfl rfl
  | shutdown =>
    rw [step, shutdown]
    split
    · exact .keeps (.refl _) rfl rfl
    · exact same
  | mutationIngress =>
    rw [step, stepMutationIngress]
    apply Accounts.keeps
    · exact .refl _
    · rfl
    · split
      · exact reads_snoc_mutation s.sent _
      · rfl
      · rfl
      · rfl
  | readIngress =>
    rw [step, stepReadIngress]
    split
    · exact same
    next queued _ =>
      split
      · apply Accounts.sends queued
        · rw [held]
          rw [append_assoc]
          exact perm_middle
        · rfl
        · exact reads_snoc_read s.sent queued
      · exact same
  | dispatcher => exact step_dispatcher_accounts keys s
  | task place ended => exact step_task_accounts keys null s place ended published sound

end PerlLsp.Scheduler
