import Mathlib.Algebra.BigOperators.Group.List.Basic
import PerlLsp.SchedulerOrder

/-! What scheduler.rs guarantees over whole runs: the order of handlers, one answer for
every request with an id, how many reads run, when a read is superseded, and that the
workers get to the end of whatever was sent. -/
namespace PerlLsp.Scheduler
open Runs UnderWay List Nat Option SchedulerState
variable {Id Value : Type}

structure Lane.Later (before after : Lane Id Value) : Prop where
  closed : before.closed = true → after.closed = true
  published : before.seqDone ≤ after.seqDone

section
variable (lane : Lane Id Value)
include lane

theorem Lane.Later.same : lane.Later lane :=
  ⟨fun closed => closed, le_refl _⟩

theorem begin_mutation_later (request : JsonRpcRequest Id) : lane.Later (lane.beginMutation request) := by
  rw [Lane.beginMutation]
  split
  · split
    · exact .same lane
    · exact ⟨fun closed => closed, le_refl _⟩
  · exact .same lane

theorem cancel_ingress_later : lane.Later lane.cancelIngress := by
  rw [Lane.cancelIngress]
  split
  · exact ⟨fun closed => closed, le_refl _⟩
  · exact .same lane

theorem step_ingress_later : lane.Later lane.stepIngress := by
  rw [Lane.stepIngress]
  split
  · exact .same lane
  · split
    · exact ⟨fun closed => closed, le_refl _⟩
    · split
      · exact ⟨fun closed => closed, le_refl _⟩
      · exact .same lane
  · exact ⟨fun closed => closed, le_refl _⟩
  · exact ⟨fun closed => closed, le_refl _⟩

theorem send_read_later : lane.Later lane.sendRead := by
  rw [Lane.sendRead]
  split
  · split
    · exact .same lane
    · exact ⟨fun closed => closed, le_refl _⟩
  · exact .same lane

theorem shutdown_later : lane.Later lane.shutdown := by
  rw [Lane.shutdown]
  split
  · exact ⟨fun _ => rfl, le_refl _⟩
  · exact .same lane

theorem step_worker_closed (ended : HandlerEnd Id Value)
    (accepted : Bool) : (lane.stepWorker ended accepted).closed = lane.closed := by
  rw [Lane.stepWorker]
  split
  · split
    · rfl
    · split
      · rfl
      · rfl
  · rfl
  · rfl
  · split
    · rfl
    · split
      · rfl
      · rfl
  · split
    · rfl
    · rfl
  · rfl
  · rfl

end

structure SchedulerState.SameIngress (before after : SchedulerState Id Value) : Prop where
  lane : after.lane = before.lane
  sent : after.sent = before.sent
  readIngress : after.readIngress = before.readIngress
  arrivalNext : after.arrivalNext = before.arrivalNext

variable {latestSeq : List (RequestDedupKey × Nat)} (lane : Lane Id Value)
  (ended : HandlerEnd Id Value) {entry : RequestDedupKey × Nat} {reads : List (QueuedRead Id)}
  {task : SpawnedRead Id Value} {read queued : QueuedRead Id} (sent : List (Sent Id))
  (accepted : Bool) (keys : UriKeys) (null : Value → Bool) (s : SchedulerState Id Value)

theorem SchedulerState.SameIngress.same : s.SameIngress s :=
  ⟨rfl, rfl, rfl, rfl⟩

inductive Spawns (s after : SchedulerState Id Value) : Prop where
  | same (inFlight : after.inFlight = s.inFlight)
  | spawns (queued : QueuedRead Id) (free : s.permitsHeld < readWorkers)
      (inFlight : after.inFlight = s.inFlight ++ [⟨queued, queued.freshness, .barrier⟩])
  | joins (inFlight : after.inFlight = s.inFlight.eraseP SpawnedRead.isFinished)

theorem step_dispatcher_effect :
    s.SameIngress (s.stepDispatcher keys) ∧ Spawns s (s.stepDispatcher keys) := by
  have same : s.SameIngress s ∧ Spawns s s := ⟨.same s, .same rfl⟩
  rw [stepDispatcher]
  split
  · split
    · exact ⟨⟨rfl, rfl, rfl, rfl⟩, .same rfl⟩
    · exact ⟨⟨rfl, rfl, rfl, rfl⟩, .same rfl⟩
  · split
    · exact ⟨⟨rfl, rfl, rfl, rfl⟩, .same rfl⟩
    · exact ⟨⟨rfl, rfl, rfl, rfl⟩, .same rfl⟩
  · split
    · exact ⟨⟨rfl, rfl, rfl, rfl⟩, .same rfl⟩
    · split
      · exact ⟨⟨rfl, rfl, rfl, rfl⟩, .same rfl⟩
      · exact same
  · rw [checkRead]
    split
    · exact ⟨⟨rfl, rfl, rfl, rfl⟩, .same rfl⟩
    · split
      · exact ⟨⟨rfl, rfl, rfl, rfl⟩, .same rfl⟩
      · exact ⟨⟨rfl, rfl, rfl, rfl⟩, .same rfl⟩
  next queued closing _ =>
    rw [spawnRead]
    split
    next free => exact ⟨⟨rfl, rfl, rfl, rfl⟩, .spawns queued free rfl⟩
    · exact same
  · split
    · exact ⟨⟨rfl, rfl, rfl, rfl⟩, .same rfl⟩
    · exact ⟨⟨rfl, rfl, rfl, rfl⟩, .joins rfl⟩
  · split
    · exact ⟨⟨rfl, rfl, rfl, rfl⟩, .same rfl⟩
    · exact ⟨⟨rfl, rfl, rfl, rfl⟩, .same rfl⟩
  · split
    · exact ⟨⟨rfl, rfl, rfl, rfl⟩, .same rfl⟩
    · exact ⟨⟨rfl, rfl, rfl, rfl⟩, .joins rfl⟩
  · exact same

def SpawnedRead.work (task : SpawnedRead Id Value) : Nat :=
  match task.stage with
  | .barrier => 12
  | .released => 11
  | .running => 10
  | .returned _ => 9
  | .finished => 8

inductive TaskMoves (s after : SchedulerState Id Value) (place : Nat)
    (ended : HandlerEnd Id Value) : Prop where
  | stays (same : after = s)
  | moves (task next : SpawnedRead Id Value) (outbox : List (JsonRpcResponse Id Value))
      (stands : s.inFlight[place]? = some task)
      (after : after = { s.putTask place next with outbox := outbox })
      (held : next.held = task.held ∨ next.held = none)
      (less : next.work < task.work)
      (sound : TaskSound s.lane.seqDone task →
        (task.stage = .running → ended.answers task.read.request) →
        TaskSound s.lane.seqDone next)

theorem step_task_moves (place : Nat) (ended : HandlerEnd Id Value) :
    TaskMoves s (s.stepTask keys null place ended) place ended := by
  rw [stepTask]
  split
  · exact .stays rfl
  next task stands =>
    have held (going : task.stage ≠ .finished) := held_of_stage task going
    split
    next barrier =>
      split
      next passed =>
        apply TaskMoves.moves task _ s.outbox stands rfl
        · rw [held (fun done => by cases barrier.symm.trans done)]
          exact .inl rfl
        · simp only [SpawnedRead.work, barrier]
          omega
        · intro _ _
          exact ⟨fun _ => passed, fun _ is => by cases is⟩
      · exact .stays rfl
    next released =>
      split
      · apply TaskMoves.moves task ⟨task.read, task.freshness, .finished⟩ _ stands rfl (.inr rfl)
        · simp only [SpawnedRead.work, released]
          omega
        · intro sound _
          exact ⟨fun _ => sound.released (fun still => by cases released.symm.trans still),
            fun _ is => by cases is⟩
      · apply TaskMoves.moves task ⟨task.read, task.freshness, .running⟩ s.outbox stands rfl
        · rw [held (fun done => by cases released.symm.trans done)]
          exact .inl rfl
        · simp only [SpawnedRead.work, released]
          omega
        · intro sound _
          exact ⟨fun _ => sound.released (fun still => by cases released.symm.trans still),
            fun _ is => by cases is⟩
    next running =>
      apply TaskMoves.moves task _ s.outbox stands rfl
      · rw [held (fun done => by cases running.symm.trans done)]
        exact .inl rfl
      · simp only [SpawnedRead.work, running]
        omega
      · intro sound answers
        refine ⟨fun _ => sound.released (fun still => by cases running.symm.trans still), ?_⟩
        intro outcome is
        cases is
        exact run_handler_id ended task.read.request (answers running) _
    next outcome returned =>
      apply TaskMoves.moves task ⟨task.read, task.freshness, .finished⟩ _ stands rfl (.inr rfl)
      · simp only [SpawnedRead.work, returned]
        omega
      · intro sound _
        exact ⟨fun _ => sound.released (fun still => by cases returned.symm.trans still),
            fun _ is => by cases is⟩
    · exact .stays rfl

theorem TaskMoves.same_ingress {s after : SchedulerState Id Value} {place : Nat}
    {ended : HandlerEnd Id Value} (moves : TaskMoves s after place ended) : s.SameIngress after := by
  cases moves with
  | stays same =>
    rw [same]
    exact .same s
  | moves task next outbox stands after =>
    rw [after]
    exact ⟨rfl, rfl, rfl, rfl⟩

variable (op : SchedulerOp Id Value)

theorem step_lane_later (log : LaneLog s.lane (mutationsOf s.sent)) :
    s.lane.Later (s.step keys null op).lane := by
  have same := Lane.Later.same s.lane
  cases op with
  | sendMutation request =>
    rw [step, sendMutation]
    split
    · exact begin_mutation_later s.lane request
    · exact same
  | sendRead request =>
    rw [step, sendRead]
    split
    · split
      · exact same
      · exact send_read_later s.lane
    · exact same
  | cancelIngress => exact cancel_ingress_later s.lane
  | shutdown =>
    rw [step, SchedulerState.shutdown]
    split
    · exact shutdown_later s.lane
    · exact same
  | documents documents => exact same
  | mutationIngress => exact step_ingress_later s.lane
  | readIngress =>
    rw [step, stepReadIngress]
    split
    · exact same
    · split
      · exact same
      · exact same
  | worker ended =>
    constructor
    · intro closed
      exact (step_worker_closed s.lane ended true).trans closed
    · exact log.publishes ended
  | dispatcher =>
    rw [step, (step_dispatcher_effect keys s).1.lane]
    exact same
  | task place ended =>
    rw [step, (step_task_moves keys null s place ended).same_ingress.lane]
    exact same

theorem step_log (log : LaneLog s.lane (mutationsOf s.sent)) (answers : HandlersAnswer s op) :
    LaneLog (s.step keys null op).lane (mutationsOf (s.step keys null op).sent) := by
  cases op with
  | sendMutation request =>
    rw [step, sendMutation]
    split
    · exact begin_mutation_log log request
    · exact log
  | sendRead request =>
    rw [step, sendRead]
    split
    · split
      · exact log
      · exact send_read_log log
    · exact log
  | cancelIngress => exact cancel_ingress_log log
  | shutdown =>
    rw [step, SchedulerState.shutdown]
    split
    · exact shutdown_log log
    · exact log
  | documents documents => exact log
  | mutationIngress =>
    have next := step_ingress_log log
    rw [step, stepMutationIngress]
    cases stands : s.lane.ingress with
    | allocated queued =>
      rw [stands] at next
      rw [mutations_snoc_mutation]
      exact next
    | idle | reserving request | reserved request =>
      rw [stands, Ingress.sends, append_nil] at next
      exact next
  | readIngress =>
    rw [step, stepReadIngress]
    split
    · exact log
    next queued _ =>
      split
      · rw [mutations_snoc_read]
        exact log
      · exact log
  | worker ended => exact step_worker_log log ended answers
  | dispatcher =>
    have same := (step_dispatcher_effect keys s).1
    rw [step, same.lane, same.sent]
    exact log
  | task place ended =>
    have same := (step_task_moves keys null s place ended).same_ingress
    rw [step, same.lane, same.sent]
    exact log

structure SpawnsSound (s : SchedulerState Id Value) : Prop where
  tasks : ∀ task ∈ s.inFlight, TaskSound s.lane.seqDone task
  permits : s.permitsHeld ≤ readWorkers

theorem TaskSound.later {published later : Nat} (sound : TaskSound published task)
    (grown : published ≤ later) : TaskSound later task :=
  ⟨fun past => le_trans (sound.released past) grown, sound.named⟩

theorem SpawnsSound.same {s after : SchedulerState Id Value} (sound : SpawnsSound s)
    (inFlight : after.inFlight = s.inFlight) (later : s.lane.seqDone ≤ after.lane.seqDone) :
    SpawnsSound after := by
  constructor
  · rw [inFlight]
    exact fun task among => (sound.tasks task among).later later
  · rw [permitsHeld, inFlight]
    exact sound.permits

theorem step_dispatcher_spawns (sound : SpawnsSound s) : SpawnsSound (s.stepDispatcher keys) := by
  obtain ⟨same, spawns⟩ := step_dispatcher_effect keys s
  cases spawns with
  | same inFlight => exact sound.same inFlight (le_of_eq (by rw [same.lane]))
  | spawns queued free inFlight =>
    constructor
    · rw [inFlight, same.lane]
      intro task among
      rcases mem_append.mp among with held | new
      · exact sound.tasks task held
      · rw [mem_singleton.mp new]
        exact ⟨fun past => absurd rfl past, nofun⟩
    · rw [permitsHeld, inFlight, countP_append]
      exact free
  | joins inFlight =>
    constructor
    · rw [inFlight, same.lane]
      exact fun task among => sound.tasks task (mem_of_mem_eraseP among)
    · rw [permits_held_length, inFlight, held_join, ← permits_held_length]
      exact sound.permits

section

include keys null s

theorem step_task_spawns (place : Nat) (ended : HandlerEnd Id Value) (sound : SpawnsSound s)
    (answers : HandlersAnswer s (.task place ended)) : SpawnsSound (s.stepTask keys null place ended) := by
  cases step_task_moves keys null s place ended with
  | stays same =>
    rw [same]
    exact sound
  | moves task next outbox stands after held _ goes =>
    rw [after]
    constructor
    · intro other among
      rcases (mem_set stands).mp among with new | kept
      · rw [new]
        exact goes (sound.tasks task (mem_of_getElem? stands)) (answers task stands)
      · exact sound.tasks other (mem_of_mem_eraseIdx kept)
    · have permits := sound.permits
      rw [permits_held_length] at permits ⊢
      have changed := ((set_perm stands next).filterMap SpawnedRead.held).length_eq
      have taken := ((taken_perm stands).filterMap SpawnedRead.held).length_eq
      rw [filterMap_cons] at changed taken
      dsimp only [putTask]
      rcases held with same | none
      · rw [same] at changed
        rw [changed, taken]
        exact permits
      rw [none] at changed
      rw [changed]
      refine le_trans ?_ permits
      rw [← taken]
      cases task.held with
      | none => exact le_refl _
      | some read => exact le_succ _

theorem step_spawns (op : SchedulerOp Id Value) (log : LaneLog s.lane (mutationsOf s.sent))
    (sound : SpawnsSound s) (answers : HandlersAnswer s op) : SpawnsSound (s.step keys null op) := by
  have later := (step_lane_later keys null s op log).published
  have same (flight : (s.step keys null op).inFlight = s.inFlight) :
      SpawnsSound (s.step keys null op) := sound.same flight later
  cases op with
  | sendMutation request =>
    apply same
    rw [step, sendMutation]
    split
    · rfl
    · rfl
  | sendRead request =>
    apply same
    rw [step, sendRead]
    split
    · split
      · rfl
      · rfl
    · rfl
  | cancelIngress | documents documents | mutationIngress | worker ended => exact same rfl
  | shutdown =>
    apply same
    rw [step, SchedulerState.shutdown]
    split
    · rfl
    · rfl
  | readIngress =>
    apply same
    rw [step, stepReadIngress]
    split
    · rfl
    · split
      · rfl
      · rfl
  | dispatcher => exact step_dispatcher_spawns keys s sound
  | task place ended => exact step_task_spawns keys null s place ended sound answers

end

/-- Reads arrive in ascending order; the map holds arrivals of sent reads; what was superseded has a
later read under its key. -/
structure ArrivalsSound (s : SchedulerState Id Value) : Prop where
  ascending : (readsOf s.sent).Pairwise fun earlier later => earlier.arrivalSeq < later.arrivalSeq
  bounded : ∀ read ∈ readsOf s.sent, read.arrivalSeq < s.arrivalNext
  ingress : ∀ read, s.readIngress = some read → read.arrivalSeq < s.arrivalNext ∧
    ∀ other ∈ readsOf s.sent, other.arrivalSeq < read.arrivalSeq
  latest : ∀ entry ∈ s.latestSeq, ∃ read ∈ readsOf s.sent,
    read.dedupKey = some entry.1 ∧ read.arrivalSeq = entry.2
  superseded : ∀ read ∈ s.supersededReads, read ∈ readsOf s.sent ∧ read.dedupKey ≠ none ∧
    ∃ later ∈ readsOf s.sent, later.dedupKey = read.dedupKey ∧ read.arrivalSeq < later.arrivalSeq

theorem raise_latest_mem {key : RequestDedupKey} {arrivalSeq : Nat}
    (among : entry ∈ raiseLatest key arrivalSeq latestSeq) :
    entry ∈ latestSeq ∨ entry = (key, arrivalSeq) := by
  induction latestSeq with
  | nil => exact .inr (mem_singleton.mp among)
  | cons first rest ih =>
    rw [raiseLatest] at among
    split at among
    next same =>
      rcases mem_cons.mp among with raised | kept
      · rcases le_total first.2 arrivalSeq with below | above
        · rw [max_eq_right below, same] at raised
          exact .inr raised
        · rw [max_eq_left above] at raised
          rw [raised]
          exact .inl (mem_cons_self ..)
      · exact .inl (mem_cons_of_mem first kept)
    · rcases mem_cons.mp among with same | deeper
      · rw [same]
        exact .inl (mem_cons_self ..)
      · exact (ih deeper).imp_left (mem_cons_of_mem first)

theorem note_arrival_mem (among : entry ∈ noteArrival latestSeq queued) :
    entry ∈ latestSeq ∨ queued.dedupKey = some entry.1 ∧ queued.arrivalSeq = entry.2 := by
  rw [noteArrival] at among
  split at among
  · exact .inl among
  next key named =>
    rcases raise_latest_mem among with kept | new
    · split at kept
      · exact absurd kept not_mem_nil
      · exact .inl kept
    · rw [new]
      exact .inr ⟨named, rfl⟩

theorem is_superseded_entry (superseded : isSuperseded latestSeq queued = true) :
    ∃ entry ∈ latestSeq, queued.dedupKey = some entry.1 ∧ queued.arrivalSeq < entry.2 := by
  rw [isSuperseded] at superseded
  split at superseded
  · cases superseded
  next key named =>
    rw [Option.any_eq_true] at superseded
    obtain ⟨latest, found, newer⟩ := superseded
    obtain ⟨before, after, split, _⟩ := lookup_eq_some_iff.mp found
    refine ⟨(key, latest), ?_, named, of_decide_eq_true newer⟩
    rw [split]
    exact mem_append_right before (mem_cons_self ..)

theorem ArrivalsSound.same {s after : SchedulerState Id Value} (sound : ArrivalsSound s)
    (sent : readsOf after.sent = readsOf s.sent) (next : after.arrivalNext = s.arrivalNext)
    (ingress : ∀ read, after.readIngress = some read → s.readIngress = some read)
    (latest : after.latestSeq = s.latestSeq)
    (superseded : after.supersededReads = s.supersededReads) : ArrivalsSound after := by
  constructor
  · rw [sent]
    exact sound.ascending
  · rw [sent, next]
    exact sound.bounded
  · rw [sent, next]
    exact fun read stands => sound.ingress read (ingress read stands)
  · rw [sent, latest]
    exact sound.latest
  · rw [sent, superseded]
    exact sound.superseded

theorem receive_arrivals (sound : ArrivalsSound s) (queued : QueuedRead Id)
    (rest : List (QueuedRead Id)) (sent : queued ∈ readsOf s.sent) :
    ArrivalsSound (s.receive queued rest) := by
  constructor
  · exact sound.ascending
  · exact sound.bounded
  · exact sound.ingress
  · intro entry among
    rcases note_arrival_mem among with kept | new
    · exact sound.latest entry kept
    · exact ⟨queued, sent, new⟩
  · exact sound.superseded

theorem check_read_arrivals (sound : ArrivalsSound s) (queued : QueuedRead Id) (closing : Bool)
    (sent : queued ∈ readsOf s.sent) : ArrivalsSound (s.checkRead keys queued closing) := by
  rw [checkRead]
  split
  next superseded =>
    constructor
    · exact sound.ascending
    · exact sound.bounded
    · exact sound.ingress
    · exact sound.latest
    · intro read among
      rcases mem_append.mp among with held | new
      · exact sound.superseded read held
      rw [mem_singleton.mp new]
      obtain ⟨entry, there, named, newer⟩ := is_superseded_entry superseded
      obtain ⟨later, arrived, key, arrival⟩ := sound.latest entry there
      refine ⟨sent, by rw [named]; exact some_ne_none _, later, arrived, ?_, ?_⟩
      · rw [key, named]
      · rw [arrival]
        exact newer
  · split
    · exact sound.same rfl rfl (fun _ stands => stands) rfl rfl
    · exact sound.same rfl rfl (fun _ stands => stands) rfl rfl

theorem held_sent {s : SchedulerState Id Value} (kept : s.ReadsKept) (held : read ∈ s.held) :
    read ∈ readsOf s.sent := by
  obtain ⟨answered, places, _⟩ := kept
  exact places.mem_iff.mpr (mem_append_right answered held)

theorem step_dispatcher_arrivals (kept : s.ReadsKept) (sound : ArrivalsSound s) :
    ArrivalsSound (s.stepDispatcher keys) := by
  have still (after : SchedulerState Id Value) (sent : after.sent = s.sent)
      (next : after.arrivalNext = s.arrivalNext) (ingress : after.readIngress = s.readIngress)
      (latest : after.latestSeq = s.latestSeq)
      (superseded : after.supersededReads = s.supersededReads) : ArrivalsSound after :=
    sound.same (by rw [sent]) next (fun _ stands => ingress ▸ stands) latest superseded
  have queued (read : QueuedRead Id) (rest : List (QueuedRead Id))
      (waiting : s.readQueue = read :: rest) : read ∈ readsOf s.sent := by
    apply held_sent kept
    rw [SchedulerState.held, waiting]
    exact mem_cons_self ..
  rw [stepDispatcher]
  split
  · split
    next read rest waiting => exact receive_arrivals s sound read rest (queued read rest waiting)
    · exact still _ rfl rfl rfl rfl rfl
  · split
    · exact still _ rfl rfl rfl rfl rfl
    · exact still _ rfl rfl rfl rfl rfl
  · split
    next read rest waiting => exact receive_arrivals s sound read rest (queued read rest waiting)
    · split
      · exact still _ rfl rfl rfl rfl rfl
      · exact sound
  next read closing dispatching =>
    apply check_read_arrivals keys s sound
    apply held_sent kept
    rw [SchedulerState.held, dispatching]
    apply mem_append_right
    apply mem_append_right
    exact mem_cons_self ..
  · rw [spawnRead]
    split
    · exact still _ rfl rfl rfl rfl rfl
    · exact sound
  · split
    · exact still _ rfl rfl rfl rfl rfl
    · exact still _ rfl rfl rfl rfl rfl
  · split
    · exact still _ rfl rfl rfl rfl rfl
    · exact still _ rfl rfl rfl rfl rfl
  · split
    · exact still _ rfl rfl rfl rfl rfl
    · exact still _ rfl rfl rfl rfl rfl
  · exact sound

theorem send_read_arrivals (sound : ArrivalsSound s) (request : JsonRpcRequest Id) :
    ArrivalsSound (s.sendRead keys request) := by
  rw [sendRead]
  split
  · split
    · exact sound
    constructor
    · exact sound.ascending
    · exact fun read among => lt_succ_of_lt (sound.bounded read among)
    · intro read taken
      cases taken
      exact ⟨lt_succ_self _, sound.bounded⟩
    · exact sound.latest
    · exact sound.superseded
  · exact sound

theorem step_read_ingress_arrivals (sound : ArrivalsSound s) : ArrivalsSound s.stepReadIngress := by
  rw [stepReadIngress]
  split
  · exact sound
  next queued stands =>
    split
    · obtain ⟨below, above⟩ := sound.ingress queued stands
      have more (read : QueuedRead Id) (among : read ∈ readsOf s.sent) :
          read ∈ readsOf (s.sent ++ [.read queued]) := by
        rw [reads_snoc_read]
        exact mem_append_left _ among
      constructor
      · rw [reads_snoc_read, pairwise_append]
        refine ⟨sound.ascending, pairwise_singleton .., ?_⟩
        intro earlier among later last
        rw [mem_singleton.mp last]
        exact above earlier among
      · intro read among
        rw [reads_snoc_read] at among
        rcases mem_append.mp among with held | new
        · exact sound.bounded read held
        · rw [mem_singleton.mp new]
          exact below
      · exact fun read taken => absurd taken (some_ne_none read).symm
      · intro entry among
        obtain ⟨read, sent, is⟩ := sound.latest entry among
        exact ⟨read, more read sent, is⟩
      · intro read among
        obtain ⟨sent, keyed, later, after, is⟩ := sound.superseded read among
        exact ⟨more read sent, keyed, later, more later after, is⟩
    · exact sound

theorem step_arrivals (kept : s.ReadsKept) (sound : ArrivalsSound s) :
    ArrivalsSound (s.step keys null op) := by
  cases op with
  | sendMutation request =>
    rw [step, sendMutation]
    split
    · exact sound.same rfl rfl (fun _ stands => stands) rfl rfl
    · exact sound
  | sendRead request => exact send_read_arrivals keys s sound request
  | cancelIngress =>
    exact sound.same rfl rfl (fun read taken => absurd taken (some_ne_none read).symm) rfl rfl
  | shutdown =>
    rw [step, SchedulerState.shutdown]
    split
    · exact sound.same rfl rfl (fun _ stands => stands) rfl rfl
    · exact sound
  | documents documents | worker ended => exact sound.same rfl rfl (fun _ stands => stands) rfl rfl
  | mutationIngress =>
    have sent : readsOf (s.stepMutationIngress).sent = readsOf s.sent := by
      rw [stepMutationIngress]
      split
      · exact reads_snoc_mutation s.sent _
      · rfl
      · rfl
      · rfl
    exact sound.same sent rfl (fun _ stands => stands) rfl rfl
  | readIngress => exact step_read_ingress_arrivals s sound
  | dispatcher => exact step_dispatcher_arrivals keys s kept sound
  | task place ended =>
    rw [step]
    cases step_task_moves keys null s place ended with
    | stays same =>
      rw [same]
      exact sound
    | moves task next outbox stands after =>
      rw [after]
      exact sound.same rfl rfl (fun _ stands => stands) rfl rfl

structure BarriersSound (s : SchedulerState Id Value) : Prop where
  sent : ∀ before read after, s.sent = before ++ .read read :: after →
    read.waitForSeq = (mutationsOf before).length
  ingress : ∀ read, s.readIngress = some read →
    s.lane.ingress = .idle ∧ read.waitForSeq = s.lane.seqNext

theorem split_snoc {sent before after : List (Sent Id)} {last first : Sent Id}
    (split : sent ++ [last] = before ++ first :: after) :
    (before = sent ∧ first = last) ∨ ∃ rest, sent = before ++ first :: rest := by
  rcases eq_nil_or_concat after with none | ⟨rest, other, is⟩
  · rw [none] at split
    obtain ⟨same, tail⟩ := append_inj' split rfl
    exact .inl ⟨same.symm, (List.cons.inj tail).1.symm⟩
  · have longer : sent ++ [last] = (before ++ first :: rest) ++ [other] := by
      rw [split, is, append_assoc, cons_append, concat_eq_append]
    exact .inr ⟨rest, (append_inj' longer rfl).1⟩

theorem BarriersSound.same {s after : SchedulerState Id Value} (sound : BarriersSound s)
    (sent : after.sent = s.sent)
    (ingress : ∀ read, after.readIngress = some read → s.readIngress = some read ∧
      after.lane.ingress = s.lane.ingress ∧ after.lane.seqNext = s.lane.seqNext) : BarriersSound after := by
  constructor
  · rw [sent]
    exact sound.sent
  · intro read stands
    obtain ⟨before, idle, next⟩ := ingress read stands
    rw [idle, next]
    exact sound.ingress read before

theorem step_worker_ingress : (lane.stepWorker ended accepted).ingress = lane.ingress ∧
      (lane.stepWorker ended accepted).seqNext = lane.seqNext := by
  rw [Lane.stepWorker]
  split
  · split
    · exact ⟨rfl, rfl⟩
    · split
      · exact ⟨rfl, rfl⟩
      · exact ⟨rfl, rfl⟩
  · exact ⟨rfl, rfl⟩
  · exact ⟨rfl, rfl⟩
  · split
    · exact ⟨rfl, rfl⟩
    · split
      · exact ⟨rfl, rfl⟩
      · exact ⟨rfl, rfl⟩
  · split
    · exact ⟨rfl, rfl⟩
    · exact ⟨rfl, rfl⟩
  · exact ⟨rfl, rfl⟩
  · exact ⟨rfl, rfl⟩

theorem step_read_ingress_barriers (log : LaneLog s.lane (mutationsOf s.sent))
    (sound : BarriersSound s) : BarriersSound s.stepReadIngress := by
  rw [stepReadIngress]
  split
  · exact sound
  next queued stands =>
    split
    · obtain ⟨idle, barrier⟩ := sound.ingress queued stands
      constructor
      · intro before read after split
        rcases split_snoc split with ⟨all, is⟩ | ⟨rest, earlier⟩
        · rw [Sent.read.injEq] at is
          rw [all, is, barrier]
          exact log.idle (by rw [idle]; rfl)
        · exact sound.sent before read rest earlier
      · exact fun read taken => absurd taken (some_ne_none read).symm
    · exact sound

theorem step_mutation_ingress_barriers (sound : BarriersSound s) : BarriersSound s.stepMutationIngress := by
  have idle (read : QueuedRead Id) (stands : s.readIngress = some read) :
      s.lane.stepIngress = s.lane := by
    rw [Lane.stepIngress, (sound.ingress read stands).1]
  rw [stepMutationIngress]
  constructor
  · split
    · intro before read after split
      rcases split_snoc split with ⟨_, is⟩ | ⟨rest, earlier⟩
      · cases is
      · exact sound.sent before read rest earlier
    · exact sound.sent
    · exact sound.sent
    · exact sound.sent
  · intro read stands
    rw [idle read stands]
    exact sound.ingress read stands

theorem step_barriers (log : LaneLog s.lane (mutationsOf s.sent)) (sound : BarriersSound s) :
    BarriersSound (s.step keys null op) := by
  cases op with
  | sendMutation request =>
    rw [step, sendMutation]
    split
    next free =>
      apply sound.same
      · rfl
      · intro read stands
        exact absurd (free.symm.trans stands) (some_ne_none read).symm
    · exact sound
  | sendRead request =>
    rw [step, sendRead]
    split
    next idle =>
      split
      · exact sound
      next live =>
        constructor
        · exact sound.sent
        · intro read taken
          cases taken
          have same : s.lane.sendRead.ingress = .idle ∧ s.lane.seqNext = s.lane.sendRead.seqNext := by
            rw [Lane.sendRead, idle]
            rw [if_neg live]
            exact ⟨rfl, rfl⟩
          exact same
    · exact sound
  | cancelIngress =>
    exact sound.same rfl fun read taken => absurd taken (some_ne_none read).symm
  | shutdown =>
    rw [step, SchedulerState.shutdown]
    split
    next free =>
      apply sound.same
      · rfl
      · intro read stands
        exact absurd (free.symm.trans stands) (some_ne_none read).symm
    · exact sound
  | documents documents => exact sound.same rfl fun _ stands => ⟨stands, rfl, rfl⟩
  | mutationIngress => exact step_mutation_ingress_barriers s sound
  | readIngress => exact step_read_ingress_barriers s log sound
  | worker ended =>
    apply sound.same
    · rfl
    · intro _ stands
      exact ⟨stands, step_worker_ingress s.lane ended true⟩
  | dispatcher =>
    have same := (step_dispatcher_effect keys s).1
    apply sound.same same.sent
    intro read stands
    exact ⟨same.readIngress.symm.trans stands, congrArg Lane.ingress same.lane,
      congrArg Lane.seqNext same.lane⟩
  | task place ended =>
    have same := (step_task_moves keys null s place ended).same_ingress
    apply sound.same same.sent
    intro read stands
    exact ⟨same.readIngress.symm.trans stands, congrArg Lane.ingress same.lane,
      congrArg Lane.seqNext same.lane⟩

def Dispatcher.closing : Dispatcher Id → Bool
  | .emptying => true
  | .joining => true
  | .exited => true
  | .dispatching _ closing => closing
  | .acquiring _ closing => closing
  | .draining => false
  | .picking => false
  | .receiving => false
  | .waiting => false

def Dispatcher.emptied : Dispatcher Id → Bool
  | .receiving => true
  | .joining => true
  | .exited => true
  | .dispatching _ _ => false
  | .acquiring _ _ => false
  | .draining => false
  | .picking => false
  | .waiting => false
  | .emptying => false

structure PhaseSound (s : SchedulerState Id Value) : Prop where
  closing : s.dispatcher.closing = true → s.readQueue = [] ∧ s.lane.closed = true
  emptied : s.dispatcher.emptied = true → s.pending = []
  closed : s.lane.closed = true → s.readIngress = none

theorem PhaseSound.same {s after : SchedulerState Id Value} (sound : PhaseSound s)
    (dispatcher : after.dispatcher = s.dispatcher) (pending : after.pending = s.pending)
    (queue : s.readQueue = [] → s.lane.closed = true → after.readQueue = [])
    (later : s.lane.closed = true → after.lane.closed = true)
    (closed : after.lane.closed = true → after.readIngress = none) : PhaseSound after := by
  constructor
  · rw [dispatcher]
    intro closing
    obtain ⟨empty, gone⟩ := sound.closing closing
    exact ⟨queue empty gone, later gone⟩
  · rw [dispatcher, pending]
    exact sound.emptied
  · exact closed

theorem PhaseSound.moved {s after : SchedulerState Id Value} (sound : PhaseSound s)
    (lane : after.lane = s.lane) (ingress : after.readIngress = s.readIngress)
    (closing : after.dispatcher.closing = true → after.readQueue = [] ∧ s.lane.closed = true)
    (emptied : after.dispatcher.emptied = true → after.pending = []) : PhaseSound after := by
  constructor
  · rw [lane]
    exact closing
  · exact emptied
  · rw [lane, ingress]
    exact sound.closed

theorem after_dispatch_closing (closing : Bool) :
    (afterDispatch closing : Dispatcher Id).closing = closing := by
  cases closing with
  | true => rfl
  | false => rfl

theorem after_dispatch_emptied (closing : Bool) :
    (afterDispatch closing : Dispatcher Id).emptied = false := by
  cases closing with
  | true => rfl
  | false => rfl

theorem step_dispatcher_phase (sound : PhaseSound s) : PhaseSound (s.stepDispatcher keys) := by
  -- A phase that is neither on its way out nor has found the heap empty.
  have plain (after : SchedulerState Id Value) (lane : after.lane = s.lane)
      (ingress : after.readIngress = s.readIngress)
      (going : after.dispatcher.closing = false) (busy : after.dispatcher.emptied = false) :
      PhaseSound after := by
    apply sound.moved lane ingress
    · rw [going]
      exact fun out => absurd out Bool.false_ne_true
    · rw [busy]
      exact fun none => absurd none Bool.false_ne_true
  have dispatched (after : SchedulerState Id Value) (closing : Bool)
      (here : s.dispatcher.closing = closing) (lane : after.lane = s.lane)
      (ingress : after.readIngress = s.readIngress) (queue : after.readQueue = s.readQueue)
      (dispatcher : after.dispatcher = afterDispatch closing) :
      PhaseSound after := by
    apply sound.moved lane ingress
    · rw [dispatcher, after_dispatch_closing, queue, ← here]
      exact sound.closing
    · rw [dispatcher, after_dispatch_emptied]
      exact fun none => absurd none Bool.false_ne_true
  have joined : PhaseSound s.joinNext :=
    sound.same rfl rfl (fun empty _ => empty) (fun closed => closed) sound.closed
  rw [stepDispatcher]
  split
  · split
    · exact plain _ rfl rfl rfl rfl
    next waiting =>
      rcases Bool.eq_false_or_eq_true s.lane.closed with closed | live
      · rw [if_pos closed]
        apply sound.moved
        · rfl
        · rfl
        · exact fun _ => ⟨waiting, closed⟩
        · exact fun taken => absurd taken Bool.false_ne_true
      · rw [if_neg (fun closed => Bool.noConfusion (live.symm.trans closed))]
        exact plain _ rfl rfl rfl rfl
  · split
    · exact plain _ rfl rfl rfl rfl
    next none =>
      apply sound.moved
      · rfl
      · rfl
      · exact fun taken => absurd taken Bool.false_ne_true
      · exact fun _ => pop_read_none none
  next receiving =>
    split
    · exact plain _ rfl rfl rfl rfl
    next waiting =>
      split
      next closed =>
        apply sound.moved
        · rfl
        · rfl
        · exact fun _ => ⟨waiting, closed⟩
        · exact fun _ => sound.emptied (by rw [receiving]; rfl)
      · exact sound
  next queued closing dispatching =>
    have here : s.dispatcher.closing = closing := by rw [dispatching]; rfl
    rw [checkRead]
    split
    · exact dispatched _ closing here rfl rfl rfl rfl
    split
    · exact dispatched _ closing here rfl rfl rfl rfl
    apply sound.moved
    · rfl
    · rfl
    · rw [← here]
      exact sound.closing
    · exact fun taken => absurd taken Bool.false_ne_true
  next queued closing acquiring =>
    have here : s.dispatcher.closing = closing := by rw [acquiring]; rfl
    rw [spawnRead]
    split
    · exact dispatched _ closing here rfl rfl rfl rfl
    · exact sound
  · split
    · exact plain _ rfl rfl rfl rfl
    · exact joined
  next emptying =>
    have out := sound.closing (by rw [emptying]; rfl)
    split
    · apply sound.moved
      · rfl
      · rfl
      · exact fun _ => out
      · exact fun taken => absurd taken Bool.false_ne_true
    next none =>
      apply sound.moved
      · rfl
      · rfl
      · exact fun _ => out
      · exact fun _ => pop_read_none none
  next joining =>
    split
    · apply sound.moved
      · rfl
      · rfl
      · exact fun _ => sound.closing (by rw [joining]; rfl)
      · exact fun _ => sound.emptied (by rw [joining]; rfl)
    · exact joined
  · exact sound

theorem step_phase (log : LaneLog s.lane (mutationsOf s.sent)) (sound : PhaseSound s) :
    PhaseSound (s.step keys null op) := by
  have later := (step_lane_later keys null s op log).closed
  cases op with
  | sendMutation request =>
    rw [step, sendMutation] at later ⊢
    split
    next free =>
      rw [free] at later
      apply sound.same
      · rfl
      · rfl
      · exact fun empty _ => empty
      · exact later
      · exact fun _ => free
    · exact sound
  | sendRead request =>
    rw [step, sendRead] at later ⊢
    split
    next free idle =>
      split
      · exact sound
      next live =>
        have unclosed : s.lane.sendRead.closed = s.lane.closed := by
          rw [Lane.sendRead, idle]
          dsimp only
          rw [if_neg live]
        apply sound.same
        · rfl
        · rfl
        · exact fun empty _ => empty
        · exact fun closed => absurd closed live
        · intro closed
          exact absurd (unclosed.symm.trans closed) live
    · exact sound
  | cancelIngress =>
    apply sound.same
    · rfl
    · rfl
    · exact fun empty _ => empty
    · exact later
    · exact fun _ => rfl
  | shutdown =>
    rw [step, SchedulerState.shutdown] at later ⊢
    split
    next free =>
      rw [free] at later
      apply sound.same
      · rfl
      · rfl
      · exact fun empty _ => empty
      · exact later
      · exact fun _ => free
    · exact sound
  | documents documents =>
    exact sound.same rfl rfl (fun empty _ => empty) later sound.closed
  | mutationIngress =>
    have same : s.lane.stepIngress.closed = s.lane.closed := by
      rw [Lane.stepIngress]
      split
      · rfl
      · split
        · rfl
        · split
          · rfl
          · rfl
      · rfl
      · rfl
    apply sound.same
    · rfl
    · rfl
    · exact fun empty _ => empty
    · exact later
    · intro closed
      exact sound.closed (same.symm.trans closed)
  | readIngress =>
    rw [step, stepReadIngress]
    split
    · exact sound
    next queued stands =>
      split
      · have live : s.lane.closed = true → False := fun closed =>
          absurd ((sound.closed closed).symm.trans stands) (some_ne_none queued).symm
        apply sound.same
        · rfl
        · rfl
        · exact fun _ closed => (live closed).elim
        · exact fun closed => closed
        · exact fun _ => rfl
      · exact sound
  | worker ended =>
    apply sound.same
    · rfl
    · rfl
    · exact fun empty _ => empty
    · exact later
    · intro closed
      exact sound.closed ((step_worker_closed s.lane ended true).symm.trans closed)
  | dispatcher => exact step_dispatcher_phase keys s sound
  | task place ended =>
    rw [step]
    cases step_task_moves keys null s place ended with
    | stays same =>
      rw [same]
      exact sound
    | moves task next outbox stands after =>
      rw [after]
      exact sound.same rfl rfl (fun empty _ => empty) (fun closed => closed) sound.closed

structure SchedulerSound (s : SchedulerState Id Value) : Prop where
  log : LaneLog s.lane (mutationsOf s.sent)
  kept : s.ReadsKept
  spawns : SpawnsSound s
  arrivals : ArrivalsSound s
  barriers : BarriersSound s
  phase : PhaseSound s

theorem new_scheduler_sound : SchedulerSound (.new : SchedulerState Id Value) where
  log := new_log
  kept := ⟨[], .refl _, rfl⟩
  spawns := ⟨fun _ none => absurd none not_mem_nil, zero_le _⟩
  arrivals := ⟨.nil, fun _ none => absurd none not_mem_nil,
    fun read taken => absurd taken (some_ne_none read).symm,
    fun _ none => absurd none not_mem_nil, fun _ none => absurd none not_mem_nil⟩
  barriers := by
    constructor
    · intro before read after split
      exact absurd split.symm (append_ne_nil_of_right_ne_nil before (cons_ne_nil _ _))
    · exact fun read taken => absurd taken (some_ne_none read).symm
  phase := ⟨nofun, nofun, fun _ => rfl⟩

theorem step_scheduler_sound (sound : SchedulerSound s) (answers : HandlersAnswer s op) :
    SchedulerSound (s.step keys null op) where
  log := step_log keys null s op sound.log answers
  kept := (step_accounts keys null s op s.lane.seqDone sound.spawns.tasks).kept sound.kept
  spawns := step_spawns keys null s op sound.log sound.spawns answers
  arrivals := step_arrivals keys null s op sound.kept sound.arrivals
  barriers := step_barriers keys null s op sound.log sound.barriers
  phase := step_phase keys null s op sound.log sound.phase

def Ingress.work : Ingress Id → Nat
  | .idle => 0
  | .reserving _ => 10
  | .reserved _ => 9
  | .allocated _ => 8

def Worker.work : Worker Id Value → Nat
  | .receiving => 1
  | .handling _ => 5
  | .handled _ _ => 4
  | .responding _ => 3
  | .draining => 2
  | .leaving => 1
  | .exited => 0

def Lane.work (lane : Lane Id Value) : Nat :=
  lane.ingress.work + 7 * lane.queue.length + lane.worker.work

def Dispatcher.work : Dispatcher Id → Nat
  | .dispatching _ _ => 28
  | .acquiring _ _ => 27
  | .waiting => 5
  | .draining => 4
  | .picking => 3
  | .emptying => 3
  | .receiving => 2
  | .joining => 1
  | .exited => 0

/-- Every step of the workers that changes anything makes this less. -/
def SchedulerState.work (s : SchedulerState Id Value) : Nat :=
  s.lane.work + 41 * s.readIngress.toList.length + 40 * s.readQueue.length +
    30 * s.pending.length + s.dispatcher.work + (s.inFlight.map SpawnedRead.work).sum

theorem step_ingress_work : lane.stepIngress = lane ∨ lane.stepIngress.work < lane.work := by
  rw [Lane.stepIngress]
  split
  · exact .inl rfl
  next request stands =>
    split
    · simp only [Lane.work, stands, Ingress.work]
      omega
    split
    · simp only [Lane.work, stands, Ingress.work]
      omega
    · exact .inl rfl
  next request stands =>
    simp only [Lane.work, stands, Ingress.work]
    omega
  next queued stands =>
    simp only [Lane.work, stands, Ingress.work]
    split
    · rw [length_append, length_singleton]
      omega
    · omega

theorem step_worker_work :
    lane.stepWorker ended accepted = lane ∨ (lane.stepWorker ended accepted).work < lane.work := by
  rw [Lane.stepWorker]
  split
  next stands =>
    split
    next queued rest waiting =>
      simp only [Lane.work, waiting, Worker.work, length_cons]
      omega
    · split
      · simp only [Lane.work, stands, Worker.work]
        omega
      · exact .inl rfl
  next queued stands =>
    simp only [Lane.work, stands, Worker.work]
    omega
  next queued outcome stands =>
    simp only [Lane.work, stands, Worker.work]
    omega
  next outcome stands =>
    split
    · simp only [Lane.work, stands, Worker.work]
      omega
    split
    · simp only [Lane.work, stands, Worker.work]
      omega
    · simp only [Lane.work, stands, Worker.work]
      omega
  next stands =>
    split
    next abandoned rest waiting =>
      simp only [Lane.work, waiting, length_cons]
      omega
    · simp only [Lane.work, stands, Worker.work]
      omega
  next stands =>
    simp only [Lane.work, stands, Worker.work, length_nil]
    omega
  · exact .inl rfl

theorem join_work (tasks : List (SpawnedRead Id Value)) : tasks.eraseP SpawnedRead.isFinished = tasks ∨
      ((tasks.eraseP SpawnedRead.isFinished).map SpawnedRead.work).sum <
        (tasks.map SpawnedRead.work).sum := by
  induction tasks with
  | nil => exact .inl rfl
  | cons task rest ih =>
    rw [eraseP_cons]
    cases finished : task.isFinished with
    | true =>
      right
      have some : 0 < task.work := by
        rw [SpawnedRead.work]
        split
        all_goals omega
      rw [cond_true, map_cons, sum_cons]
      omega
    | false =>
      rw [cond_false]
      rcases ih with same | less
      · left
        rw [same]
      · right
        rw [map_cons, map_cons, sum_cons, sum_cons]
        omega

theorem put_work {tasks : List (SpawnedRead Id Value)} {place : Nat}
    (stands : tasks[place]? = some task) (next : SpawnedRead Id Value) (less : next.work < task.work) :
    ((tasks.set place next).map SpawnedRead.work).sum < (tasks.map SpawnedRead.work).sum := by
  have changed := ((set_perm stands next).map SpawnedRead.work).sum_nat
  have taken := ((taken_perm stands).map SpawnedRead.work).sum_nat
  rw [map_cons, sum_cons] at changed taken
  omega

/-- The dispatcher has nothing to do until something else moves. -/
def SchedulerState.DispatcherRests (s : SchedulerState Id Value) : Prop :=
  match s.dispatcher with
  | .receiving => s.readQueue = []
  | .acquiring _ _ => ¬s.permitsHeld < readWorkers
  | .waiting => readWorkers ≤ s.inFlight.length ∧
      s.inFlight.eraseP SpawnedRead.isFinished = s.inFlight
  | .joining => s.inFlight ≠ [] ∧ s.inFlight.eraseP SpawnedRead.isFinished = s.inFlight
  | .exited => True
  | .draining => False
  | .picking => False
  | .dispatching _ _ => False
  | .emptying => False

theorem pop_read_length {top : QueuedRead Id} {others : List (QueuedRead Id)}
    (popped : popRead reads = some (top, others)) : reads.length = others.length + 1 :=
  (pop_read_perm popped).length_eq

theorem after_dispatch_work (closing : Bool) : (afterDispatch closing : Dispatcher Id).work ≤ 5 := by
  cases closing with
  | true => exact le_of_ble_eq_true rfl
  | false => exact le_refl _

theorem join_next_work : s.joinNext = s ∧ s.inFlight.eraseP SpawnedRead.isFinished = s.inFlight ∨
      s.joinNext.work < s.work := by
  rcases join_work s.inFlight with same | less
  · left
    rw [joinNext, same]
    exact ⟨rfl, rfl⟩
  · right
    simp only [work, joinNext]
    omega

theorem step_dispatcher_work :
    s.stepDispatcher keys = s ∧ s.DispatcherRests ∨ (s.stepDispatcher keys).work < s.work := by
  rw [stepDispatcher, DispatcherRests]
  split
  next stands =>
    right
    split
    next queued rest waiting =>
      simp only [work, receive, stands, waiting, Dispatcher.work, length_cons]
      omega
    · simp only [work, stands]
      split
      · simp only [Dispatcher.work]
        omega
      · simp only [Dispatcher.work]
        omega
  next stands =>
    right
    split
    next queued rest popped =>
      have shorter := pop_read_length popped
      simp only [work, stands, Dispatcher.work]
      omega
    · simp only [work, stands, Dispatcher.work]
      omega
  next stands =>
    split
    next queued rest waiting =>
      right
      simp only [work, receive, stands, waiting, Dispatcher.work, length_cons]
      omega
    next waiting =>
      split
      · right
        simp only [work, stands, Dispatcher.work]
        omega
      · rw [stands]
        exact .inl ⟨rfl, waiting⟩
  next queued closing stands =>
    right
    have next := @after_dispatch_work Id closing
    rw [checkRead]
    split
    · simp only [work, stands, Dispatcher.work] at next ⊢
      omega
    split
    · simp only [work, stands, Dispatcher.work] at next ⊢
      omega
    · simp only [work, stands, Dispatcher.work]
      omega
  next queued closing stands =>
    rw [spawnRead]
    split
    · right
      have next := @after_dispatch_work Id closing
      simp only [work, stands, Dispatcher.work, map_append, sum_append,
        map_cons, map_nil, sum_cons, sum_nil, SpawnedRead.work] at next ⊢
      omega
    next full =>
      rw [stands]
      exact .inl ⟨rfl, full⟩
  next stands =>
    split
    · right
      simp only [work, stands, Dispatcher.work]
      omega
    next many =>
      rw [stands]
      exact (join_next_work s).imp_left fun rests => ⟨rests.1, not_lt.mp many, rests.2⟩
  next stands =>
    right
    split
    next queued rest popped =>
      have shorter := pop_read_length popped
      simp only [work, stands, Dispatcher.work]
      omega
    · simp only [work, stands, Dispatcher.work]
      omega
  next stands =>
    split
    · right
      simp only [work, stands, Dispatcher.work]
      omega
    next task rest some =>
      rw [stands]
      refine (join_next_work s).imp_left fun rests => ⟨rests.1, ?_, rests.2⟩
      rw [some]
      exact cons_ne_nil task rest
  next stands =>
    rw [stands]
    exact .inl ⟨rfl, trivial⟩

def SchedulerOp.ofWorkers : SchedulerOp Id Value → Bool
  | .mutationIngress => true
  | .readIngress => true
  | .worker _ => true
  | .dispatcher => true
  | .task _ _ => true
  | .sendMutation _ => false
  | .sendRead _ => false
  | .cancelIngress => false
  | .shutdown => false
  | .documents _ => false

theorem step_work (workers : op.ofWorkers = true) :
    s.step keys null op = s ∨ (s.step keys null op).work < s.work := by
  cases op with
  | mutationIngress =>
    rcases step_ingress_work s.lane with same | less
    · left
      rw [step, stepMutationIngress, same]
      split
      next queued stands =>
        have moved := congrArg Lane.ingress same
        rw [Lane.stepIngress, stands] at moved
        cases moved
      · rfl
      · rfl
      · rfl
    · simp only [work, step, stepMutationIngress]
      omega
  | readIngress =>
    rw [step, stepReadIngress]
    split
    · exact .inl rfl
    next queued stands =>
      split
      · simp only [work, stands, toList_none, toList_some, length_append, length_cons, length_nil]
        omega
      · exact .inl rfl
  | worker ended =>
    rcases step_worker_work s.lane ended true with same | less
    · left
      rw [step, stepWorker, same]
    · simp only [work, step, stepWorker]
      omega
  | dispatcher => exact (step_dispatcher_work keys s).imp_left fun rests => rests.1
  | task place ended =>
    rw [step]
    cases step_task_moves keys null s place ended with
    | stays same => exact .inl same
    | moves task next outbox stands after _ less =>
      have lower := put_work stands next less
      rw [after]
      simp only [work, putTask]
      omega
  | sendMutation request | sendRead request | cancelIngress | shutdown | documents documents =>
    cases workers

def SchedulerState.AtRest (keys : UriKeys) (null : Value → Bool) (s : SchedulerState Id Value) : Prop :=
  ∀ op : SchedulerOp Id Value, op.ofWorkers = true → s.step keys null op = s

theorem worker_at_rest {lane : Lane Id Value} {mutations : List (QueuedMutation Id)}
    (log : LaneLog lane mutations) (rests : lane.stepWorker .panicked true = lane) :
    lane.queue = [] ∧ lane.worker.taken = [] ∧ lane.worker.owed = none := by
  have live := log.live
  rw [Lane.stepWorker] at rests
  split at rests
  next stands =>
    split at rests
    · have moved := congrArg Lane.worker rests
      rw [stands] at moved
      cases moved
    next waiting =>
      rw [stands]
      exact ⟨waiting, rfl, rfl⟩
  next stands =>
    have moved := congrArg Lane.worker rests
    rw [stands] at moved
    cases moved
  next stands =>
    have moved := congrArg Lane.worker rests
    rw [stands] at moved
    cases moved
  next stands =>
    split at rests
    · have moved := congrArg Lane.worker rests
      rw [stands] at moved
      cases moved
    · have moved := congrArg Lane.worker rests
      rw [stands] at moved
      cases moved
  next stands =>
    rw [stands] at live
    cases live
  next stands =>
    rw [stands] at live
    cases live
  next stands =>
    have dropped : lane.receiver = false := by
      rw [← Bool.not_eq_true, log.ordered.receiver, stands]
      exact fun other => other rfl
    rw [stands]
    exact ⟨(log.ordered.gone dropped).1, rfl, rfl⟩

theorem ingress_at_rest {lane : Lane Id Value} (rests : lane.stepIngress = lane)
    (room : lane.queue.length < queueCapacity) : lane.ingress = .idle := by
  rw [Lane.stepIngress] at rests
  split at rests
  next stands => exact stands
  next request stands =>
    split at rests
    · have moved := congrArg Lane.ingress rests
      rw [stands] at moved
      cases moved
    · have moved := congrArg Lane.ingress rests
      rw [stands] at moved
      cases moved
  next request stands =>
    have moved := congrArg Lane.ingress rests
    rw [stands] at moved
    cases moved
  next queued stands =>
    have moved := congrArg Lane.ingress rests
    rw [stands] at moved
    cases moved

/-- A spawned read that takes no step has ended, unless it waits at its barrier. -/
theorem task_at_rest (rests : s.AtRest keys null) (task : SpawnedRead Id Value)
    (among : task ∈ s.inFlight) (passes : task.read.waitForSeq ≤ s.lane.seqDone) : task.held = none := by
  obtain ⟨place, within, stands⟩ := getElem_of_mem among
  have found : s.inFlight[place]? = some task := by rw [getElem?_eq_getElem within, stands]
  have moves (next : SpawnedRead Id Value) (same : s.inFlight.set place next = s.inFlight)
      (less : next.work < task.work) : False := by
    have lower := put_work found next less
    rw [same] at lower
    exact lt_irrefl _ lower
  have rest := congrArg SchedulerState.inFlight (rests (.task place .panicked) rfl)
  rw [step, stepTask, found] at rest
  dsimp only at rest
  rw [SpawnedRead.held, SpawnedRead.isFinished]
  cases stage : task.stage with
  | finished => rfl
  | barrier =>
    rw [stage] at rest
    rw [if_pos passes] at rest
    apply (moves _ rest _).elim
    simp only [SpawnedRead.work, stage]
    omega
  | released =>
    rw [stage] at rest
    dsimp only at rest
    split at rest
    · apply (moves _ rest _).elim
      simp only [SpawnedRead.work, stage]
      omega
    · apply (moves _ rest _).elim
      simp only [SpawnedRead.work, stage]
      omega
  | running | returned outcome =>
    rw [stage] at rest
    apply (moves _ rest _).elim
    simp only [SpawnedRead.work, stage]
    omega

theorem barrier_within {s : SchedulerState Id Value} (sound : SchedulerSound s)
    (sent : read ∈ readsOf s.sent) : read.waitForSeq ≤ (mutationsOf s.sent).length := by
  obtain ⟨entry, among, is⟩ := mem_filterMap.mp sent
  cases entry with
  | mutation queued => cases is
  | read queued =>
    cases is
    obtain ⟨before, after, split⟩ := append_of_mem among
    rw [sound.barriers.sent before read after split, split, mutationsOf, mutationsOf,
      filterMap_append, length_append]
    exact le_add_right _ _

/-- At rest nothing that was sent is unanswered. -/
theorem at_rest_nothing_owed (sound : SchedulerSound s) (rests : s.AtRest keys null) :
    s.lane.owed = [] ∧ s.held = [] := by
  have log := sound.log
  have worker : s.lane.stepWorker .panicked true = s.lane :=
    congrArg SchedulerState.lane (rests (.worker .panicked) rfl)
  obtain ⟨queue, taken, owed⟩ := worker_at_rest log worker
  have ingress : s.lane.stepIngress = s.lane :=
    congrArg SchedulerState.lane (rests .mutationIngress rfl)
  have idle := ingress_at_rest ingress (by rw [queue]; exact zero_lt_succ 63)
  have all : s.lane.seqDone = (mutationsOf s.sent).length := by
    have count := log.ordered.count
    rw [Lane.outstanding, taken, queue, idle] at count
    rw [← log.idle (by rw [idle]; rfl), count]
    rfl
  -- With every mutation published each spawned read has ended.
  have ended (task : SpawnedRead Id Value) (among : task ∈ s.inFlight) : task.held = none := by
    cases held : task.held with
    | none => rfl
    | some read =>
      have own : read = task.read := by
        rw [SpawnedRead.held] at held
        split at held
        · cases held
        · exact (Option.some.inj held).symm
      have sent : read ∈ readsOf s.sent := by
        apply held_sent sound.kept
        rw [SchedulerState.held]
        apply mem_append_right
        apply mem_append_right
        apply mem_append_right
        exact mem_filterMap.mpr ⟨task, among, held⟩
      have passes := barrier_within sound sent
      rw [own, ← all] at passes
      rw [← held]
      exact task_at_rest keys null s rests task among passes
  have none : s.inFlight.filterMap SpawnedRead.held = [] := filterMap_eq_nil_iff.mpr ended
  have finished (task : SpawnedRead Id Value) (among : task ∈ s.inFlight) :
      task.isFinished = true := by
    have gone := ended task among
    rw [SpawnedRead.held] at gone
    split at gone
    next is => exact is
    · cases gone
  have leaves (some : s.inFlight ≠ [])
      (same : s.inFlight.eraseP SpawnedRead.isFinished = s.inFlight) : False := by
    obtain ⟨first, rest, is⟩ := exists_cons_of_ne_nil some
    rw [is, eraseP_cons_of_pos (finished first (by rw [is]; exact mem_cons_self ..))] at same
    exact absurd (congrArg List.length same) (by rw [length_cons]; omega)
  have dispatcher := (step_dispatcher_work keys s).resolve_right (by
    have same := rests .dispatcher rfl
    rw [step] at same
    rw [same]
    exact lt_irrefl _)
  have resting := dispatcher.2
  have out : s.dispatcher.held = Option.none ∧ s.readQueue = [] ∧ s.pending = [] := by
    rw [DispatcherRests] at resting
    have emptied := sound.phase.emptied
    have closing := sound.phase.closing
    split at resting
    next stands =>
      rw [stands] at emptied
      exact ⟨by rw [stands]; rfl, resting, emptied rfl⟩
    · rw [permits_held_length, none] at resting
      exact absurd (zero_lt_succ 3) resting
    · obtain ⟨many, same⟩ := resting
      refine (leaves ?_ same).elim
      intro empty
      rw [empty, length_nil] at many
      exact absurd many (by decide)
    · exact (leaves resting.1 resting.2).elim
    next stands =>
      rw [stands] at emptied closing
      exact ⟨by rw [stands]; rfl, (closing rfl).1, emptied rfl⟩
    · exact resting.elim
    · exact resting.elim
    · exact resting.elim
    · exact resting.elim
  constructor
  · rw [Lane.owed, queue, owed]
    rfl
  · rw [SchedulerState.held, none, out.1, out.2.1, out.2.2]
    rfl

def Sent.id : Sent Id → Option Id
  | .mutation queued => queued.id
  | .read queued => queued.id

namespace SchedulerState

/-- The ids that requests were sent under, that responses went out under, and that are
still to be answered. -/
def sentIds (s : SchedulerState Id Value) : List Id := s.sent.filterMap Sent.id

def repliedIds (s : SchedulerState Id Value) : List Id :=
  s.lane.outbox.filterMap JsonRpcResponse.id ++ s.outbox.filterMap JsonRpcResponse.id

def owedIds (s : SchedulerState Id Value) : List Id :=
  s.lane.owed ++ s.held.filterMap QueuedRead.id

end SchedulerState

def SpawnedRead.isRunning (task : SpawnedRead Id Value) : Bool :=
  match task.stage with
  | .running => true
  | .barrier => false
  | .released => false
  | .returned _ => false
  | .finished => false

/-- Mutations' handlers run one at a time in the order of sending; that of a read runs when those of
the mutations sent before it have returned, and no more than so many at once; each id is answered as
often as it was sent, or still owed; a read is superseded by one with its key that was sent after
it. -/
structure SchedulerState.Accounted (s : SchedulerState Id Value) : Prop where
  inOrder : ∃ waiting, mutationsOf s.sent = s.lane.started ++ waiting
  oneAtATime : ∃ running, s.lane.started = s.lane.returned ++ running ∧ running.length ≤ 1
  afterMutations : ∀ task ∈ s.inFlight, task.isRunning = true →
    .read task.read ∈ s.sent ∧ ∀ before after, s.sent = before ++ .read task.read :: after →
      ∀ queued, .mutation queued ∈ before → queued ∈ s.lane.returned
  replies : s.sentIds.Perm (s.repliedIds ++ s.owedIds)
  workers : s.inFlight.countP SpawnedRead.isRunning ≤ readWorkers
  superseded : ∀ read ∈ s.supersededReads, read.dedupKey ≠ none ∧ ∃ later,
    later.dedupKey = read.dedupKey ∧ [Sent.read read, Sent.read later].Sublist s.sent

/-- A step of the workers that changes anything leaves less to do, and when none does, all that was
sent is answered. -/
structure SchedulerState.GetsThrough (keys : UriKeys) (null : Value → Bool)
    (s : SchedulerState Id Value) : Prop where
  lessToDo : ∀ op : SchedulerOp Id Value, op.ofWorkers = true →
    s.step keys null op = s ∨ (s.step keys null op).work < s.work
  allAnswered : s.AtRest keys null → s.sentIds.Perm s.repliedIds

theorem sent_ids_perm : (sent.filterMap Sent.id).Perm ((mutationsOf sent).filterMap QueuedMutation.id ++
      (readsOf sent).filterMap QueuedRead.id) := by
  induction sent with
  | nil => exact .refl _
  | cons first rest ih =>
    rw [mutationsOf, readsOf] at ih ⊢
    cases first with
    | mutation queued =>
      simp only [filterMap_cons, Sent.mutation?, Sent.read?, Sent.id]
      cases queued.id with
      | none => exact ih
      | some id => exact ih.cons id
    | read queued =>
      simp only [filterMap_cons, Sent.mutation?, Sent.read?, Sent.id]
      cases queued.id with
      | none => exact ih
      | some id => exact (ih.cons id).trans perm_middle.symm

theorem SchedulerSound.replies {s : SchedulerState Id Value} (sound : SchedulerSound s) :
    s.sentIds.Perm (s.repliedIds ++ s.owedIds) := by
  obtain ⟨answered, places, replies⟩ := sound.kept
  have reads := places.filterMap QueuedRead.id
  rw [filterMap_append, ← replies] at reads
  have both := reads.append_left ((mutationsOf s.sent).filterMap QueuedMutation.id)
  refine (sent_ids_perm s.sent).trans (both.trans ?_)
  rw [sound.log.replies, repliedIds, owedIds, append_assoc, append_assoc]
  apply List.Perm.append_left
  rw [← append_assoc, ← append_assoc]
  exact perm_append_comm.append_right _

theorem arrivals_sublist
    (ascending : reads.Pairwise fun earlier later => earlier.arrivalSeq < later.arrivalSeq)
    {later : QueuedRead Id} (first : read ∈ reads) (second : later ∈ reads)
    (newer : read.arrivalSeq < later.arrivalSeq) : [read, later].Sublist reads := by
  induction reads with
  | nil => cases first
  | cons head rest ih =>
    rw [pairwise_cons] at ascending
    rcases mem_cons.mp second with here | deeper
    · rcases mem_cons.mp first with same | among
      · rw [same, here] at newer
        exact absurd newer (lt_irrefl _)
      · have older := ascending.1 read among
        rw [here] at newer
        exact absurd newer (lt_asymm older)
    · rcases mem_cons.mp first with same | among
      · rw [same]
        exact (singleton_sublist.mpr deeper).cons_cons head
      · exact (ih ascending.2 among deeper).cons head

theorem reads_sublist : ((readsOf sent).map Sent.read).Sublist sent := by
  induction sent with
  | nil => exact .slnil
  | cons first rest ih =>
    cases first with
    | mutation queued => exact ih.cons (.mutation queued)
    | read queued => exact ih.cons_cons (.read queued)

variable {s : SchedulerState Id Value}

theorem SchedulerSound.after_mutations (sound : SchedulerSound s)
    (task : SpawnedRead Id Value) (among : task ∈ s.inFlight) (running : task.isRunning = true) :
    .read task.read ∈ s.sent ∧ ∀ before after, s.sent = before ++ .read task.read :: after →
      ∀ queued, .mutation queued ∈ before → queued ∈ s.lane.returned := by
  have stage : task.stage = .running := by
    rw [SpawnedRead.isRunning] at running
    split at running
    next is => exact is
    · cases running
    · cases running
    · cases running
    · cases running
  constructor
  · have sent : task.read ∈ readsOf s.sent := by
      apply held_sent sound.kept
      apply mem_append_right
      apply mem_append_right
      apply mem_append_right
      exact mem_filterMap.mpr ⟨task, among, held_of_stage task (fun done => by cases stage.symm.trans done)⟩
    obtain ⟨entry, there, is⟩ := mem_filterMap.mp sent
    cases entry with
    | mutation queued => cases is
    | read queued =>
      cases is
      exact there
  · intro before after split queued earlier
    have passed := (sound.spawns.tasks task among).released (fun still => by cases stage.symm.trans still)
    rw [sound.barriers.sent before task.read after split] at passed
    have many := le_trans passed sound.log.published_returned
    obtain ⟨later, all⟩ := sound.log.returned_first
    have first : mutationsOf before <+: mutationsOf s.sent := by
      rw [split, mutationsOf, mutationsOf, filterMap_append]
      exact prefix_append _ _
    have within : mutationsOf before <+: s.lane.returned := by
      apply prefix_of_prefix_length_le first _ many
      rw [all]
      exact prefix_append _ _
    exact within.subset (mem_filterMap.mpr ⟨_, earlier, rfl⟩)

theorem SchedulerSound.accounted (sound : SchedulerSound s) : s.Accounted where
  inOrder := ⟨s.lane.queue, sound.log.sent⟩
  oneAtATime := by
    refine ⟨s.lane.worker.running, sound.log.started, ?_⟩
    cases s.lane.worker with
    | handling queued => exact le_refl _
    | handled queued outcome | receiving | responding outcome | draining | leaving | exited =>
      exact zero_le _
  afterMutations := sound.after_mutations
  replies := sound.replies
  workers := by
    refine le_trans (countP_mono_left ?_) sound.spawns.permits
    intro task _ running
    rw [SpawnedRead.isRunning] at running
    rw [SpawnedRead.isFinished]
    split at running
    next is =>
      rw [is]
      rfl
    · cases running
    · cases running
    · cases running
    · cases running
  superseded := by
    intro read among
    obtain ⟨sent, keyed, later, after, same, newer⟩ := sound.arrivals.superseded read among
    have ordered := arrivals_sublist sound.arrivals.ascending sent after newer
    exact ⟨keyed, later, same, (ordered.map Sent.read).trans (reads_sublist s.sent)⟩

theorem SchedulerSound.gets_through (sound : SchedulerSound s) : s.GetsThrough keys null where
  lessToDo := step_work keys null s
  allAnswered := by
    intro rests
    obtain ⟨owed, held⟩ := at_rest_nothing_owed keys null s sound rests
    have replies := sound.replies
    rw [owedIds, owed, held, filterMap_nil, append_nil, append_nil] at replies
    exact replies

/-- Whatever is sent and however the workers interleave. -/
theorem scheduler_accounted (keys : UriKeys) (null : Value → Bool)
    (ops : List (SchedulerOp Id Value))
    (answers : StepsMeet (step keys null) HandlersAnswer .new ops) :
    Along (step keys null) (fun s => s.Accounted ∧ s.GetsThrough keys null)
      (.new : SchedulerState Id Value) ops := by
  have along := along_of_steps (step keys null) SchedulerSound HandlersAnswer
    (step_scheduler_sound keys null) .new ops new_scheduler_sound answers
  exact along_mono (step keys null)
    (fun _ sound => ⟨sound.accounted, sound.gets_through keys null⟩) .new ops along

instance decidableAnswers [DecidableEq Id] (ended : HandlerEnd Id Value)
    (request : JsonRpcRequest Id) : Decidable (ended.answers request) :=
  match ended with
  | .panicked => inferInstanceAs (Decidable True)
  | .returned response =>
    inferInstanceAs (Decidable (response.map JsonRpcResponse.id = request.id.map some))

instance decidableEndsWell [DecidableEq Id] (worker : Worker Id Value)
    (ended : HandlerEnd Id Value) : Decidable (worker.endsWell ended) :=
  match worker with
  | .handling queued => inferInstanceAs (Decidable (ended.answers queued.request))
  | .handled _ _ => inferInstanceAs (Decidable True)
  | .receiving => inferInstanceAs (Decidable True)
  | .responding _ => inferInstanceAs (Decidable True)
  | .draining => inferInstanceAs (Decidable True)
  | .leaving => inferInstanceAs (Decidable True)
  | .exited => inferInstanceAs (Decidable True)

instance decidableHandlersAnswer [DecidableEq Id] [DecidableEq Value]
    (s : SchedulerState Id Value) : (op : SchedulerOp Id Value) → Decidable (HandlersAnswer s op)
  | .worker ended => inferInstanceAs (Decidable (s.lane.worker.endsWell ended))
  | .task place ended => inferInstanceAs (Decidable (∀ task ∈ s.inFlight[place]?,
      task.stage = .running → ended.answers task.read.request))
  | .sendMutation _ => inferInstanceAs (Decidable True)
  | .sendRead _ => inferInstanceAs (Decidable True)
  | .cancelIngress => inferInstanceAs (Decidable True)
  | .shutdown => inferInstanceAs (Decidable True)
  | .documents _ => inferInstanceAs (Decidable True)
  | .mutationIngress => inferInstanceAs (Decidable True)
  | .readIngress => inferInstanceAs (Decidable True)
  | .dispatcher => inferInstanceAs (Decidable True)

def workerSteps : List (SchedulerOp Nat Nat) := List.replicate 4 (.worker (.returned none))

def dispatcherSteps : List (SchedulerOp Nat Nat) := List.replicate 13 .dispatcher

def taskSteps : List (SchedulerOp Nat Nat) :=
  List.replicate 4 (.task 0 (.returned (some ⟨some 2, some 7, none⟩)))

/-- An edit and two hovers at one place: the second supersedes the first, waits for the edit and is
answered. -/
def hoverRun : List (SchedulerOp Nat Nat) :=
  [.sendMutation changeRequest, .mutationIngress, .mutationIngress, .mutationIngress,
    .sendRead hover, .readIngress, .sendRead ⟨some 2, hover.method, hover.params⟩,
    .readIngress] ++ (dispatcherSteps ++ (taskSteps ++ (workerSteps ++ taskSteps)))

theorem scheduler_accounted_hovers :
    Along (step plainKeys fun _ => false)
        (fun s => s.Accounted ∧ s.GetsThrough plainKeys fun _ => false) .new hoverRun ∧
      (run (step plainKeys fun _ => false) .new hoverRun).repliedIds = [1, 2] ∧
      (run (step plainKeys fun _ => false) .new hoverRun).supersededReads.map
        QueuedRead.id = [some 1] :=
  ⟨scheduler_accounted plainKeys (fun _ => false) hoverRun (by decide +kernel),
    by decide +kernel, by decide +kernel⟩

end PerlLsp.Scheduler
