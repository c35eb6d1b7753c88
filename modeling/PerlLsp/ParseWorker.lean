import PerlLsp.Runs
import PerlLsp.Tables
import Mathlib.Data.Finset.Card

/-! The queue of runtime/parse_worker.rs: a `Coordinator` shared by the threads of a fixed pool, at
most one pending job for each URI, and the worker loop around `take_next` and `finish`. Every
operation of the coordinator is one step under the lock; a worker's turn is cut where it leaves the
lock. Of a job only how it ended is read here. -/
namespace PerlLsp.ParseWorker
open List hiding getElem?_insert
open Std Runs Tables Option

structure ParseJob where
  uri : String
  normalizedUri : String
  generation : UInt32
  generationHandle : Nat
  text : List Char
  refreshConsumersAfterIndex : Bool
  deriving DecidableEq

structure Metrics where
  jobsEnqueued : UInt64
  jobsStarted : UInt64
  jobsCoalesced : UInt64
  jobsRejectedStale : UInt64
  jobsPublished : UInt64
  failuresPublished : UInt64
  queueDepthMax : UInt64
  jobsPanicked : UInt64
  deriving DecidableEq

def Metrics.new : Metrics := ⟨0, 0, 0, 0, 0, 0, 0, 0⟩

def Metrics.bumpQueueDepth (metrics : Metrics) (depth : Nat) : Metrics :=
  { metrics with queueDepthMax := max metrics.queueDepthMax (UInt64.ofNat depth) }

structure Coordinator where
  pending : TreeMap String ParseJob
  ready : List String
  active : Finset String
  shutdown : Bool
  metrics : Metrics

/-- What `take_next` does at the end of one pass under the lock. -/
inductive Next where
  | job (uri : String) (job : ParseJob)
  | stop
  | wait

def scanReady (pending : TreeMap String ParseJob) :
    List String → Option (String × ParseJob × List String)
  | [] => none
  | uri :: rest =>
    match pending[uri]? with
    | some job => some (uri, job, rest)
    | none => scanReady pending rest

namespace Coordinator

def new : Coordinator where
  pending := ∅
  ready := []
  active := ∅
  shutdown := false
  metrics := .new

/-- Whether the call claimed the URI, which is when `on_activated` is called. -/
def enqueueLocked (c : Coordinator) (job : ParseJob) : Bool × Coordinator :=
  let uri := job.normalizedUri
  let replaced := c.pending.contains uri
  let pending := c.pending.insert uri job
  let metrics :=
    { c.metrics with jobsEnqueued := c.metrics.jobsEnqueued + 1 }.bumpQueueDepth pending.size
  if uri ∉ c.active then
    (true, { c with
      pending := pending
      ready := c.ready ++ [uri]
      active := insert uri c.active
      metrics := metrics })
  else if replaced then
    (false, { c with
      pending := pending
      metrics := { metrics with jobsCoalesced := metrics.jobsCoalesced + 1 } })
  else (false, { c with pending := pending, metrics := metrics })

def tryEnqueue (c : Coordinator) (job : ParseJob) : Except ParseJob Bool × Coordinator :=
  if c.shutdown then (.error job, c)
  else
    let (newlyActive, c) := c.enqueueLocked job
    (.ok newlyActive, c)

def takeNext (c : Coordinator) : Next × Coordinator :=
  match scanReady c.pending c.ready with
  | some (uri, job, rest) =>
    (.job uri job, { c with ready := rest, pending := c.pending.erase uri })
  | none => (if c.shutdown then .stop else .wait, { c with ready := [] })

def finish (c : Coordinator) (uri : String) : Bool × Coordinator :=
  if c.pending.contains uri then (false, { c with ready := c.ready ++ [uri] })
  else (true, { c with active := c.active.erase uri })

def requestShutdown (c : Coordinator) : Coordinator := { c with shutdown := true }

end Coordinator

/-- How `process_job` ended: a publish, with a tree or as a failure snapshot, after which the
callback may panic; a stale job; or a panic before the publish. -/
inductive Outcome where
  | published (isFailure callbackPanicked : Bool)
  | rejectedStale
  | panicked
  deriving DecidableEq

def processJob (metrics : Metrics) : Outcome → Metrics
  | .published isFailure callbackPanicked =>
    { metrics with
      jobsStarted := metrics.jobsStarted + 1
      jobsPublished := metrics.jobsPublished + 1
      failuresPublished := metrics.failuresPublished + if isFailure then 1 else 0
      jobsPanicked := metrics.jobsPanicked + if callbackPanicked then 1 else 0 }
  | .rejectedStale =>
    { metrics with
      jobsStarted := metrics.jobsStarted + 1
      jobsRejectedStale := metrics.jobsRejectedStale + 1 }
  | .panicked =>
    { metrics with
      jobsStarted := metrics.jobsStarted + 1
      jobsPanicked := metrics.jobsPanicked + 1 }

/-- Where a worker thread stands: about to call `take_next`, processing a job under its finish
guard, about to call `on_settled`, or past the loop. -/
inductive Worker where
  | idle
  | processing (uri : String) (job : ParseJob)
  | settling (uri : String)
  | exited
  deriving DecidableEq

def Worker.uri? : Worker → Option String
  | .processing uri _ => some uri
  | _ => none

def Worker.isSettling : Worker → Bool
  | .settling _ => true
  | _ => false

/-- The pool and its history: the jobs admitted, newest first, those taken and those replaced while
pending, and how often `on_activated`, the release by `finish` and `on_settled` came. -/
structure Pool where
  coordinator : Coordinator
  workers : List Worker
  admitted : List ParseJob
  taken : List ParseJob
  coalesced : List ParseJob
  activated : Nat
  released : Nat
  settled : Nat

inductive Op where
  | tryEnqueue (job : ParseJob)
  | takeNext (worker : Nat)
  | finish (worker : Nat) (outcome : Outcome)
  | onSettled (worker : Nat)
  | requestShutdown

namespace Pool

def new (workers : Nat) : Pool where
  coordinator := .new
  workers := List.replicate workers .idle
  admitted := []
  taken := []
  coalesced := []
  activated := 0
  released := 0
  settled := 0

def enqueue (p : Pool) (job : ParseJob) : Pool :=
  match p.coordinator.tryEnqueue job with
  | (.error _, coordinator) => { p with coordinator := coordinator }
  | (.ok newlyActive, coordinator) =>
    { p with
      coordinator := coordinator
      admitted := job :: p.admitted
      coalesced := p.coordinator.pending[job.normalizedUri]?.toList ++ p.coalesced
      activated := p.activated + if newlyActive then 1 else 0 }

def take (p : Pool) (worker : Nat) : Pool :=
  match p.coordinator.takeNext with
  | (.job uri job, coordinator) =>
    { p with
      coordinator := coordinator
      workers := p.workers.set worker (.processing uri job)
      taken := job :: p.taken }
  | (.stop, coordinator) =>
    { p with coordinator := coordinator, workers := p.workers.set worker .exited }
  | (.wait, coordinator) => { p with coordinator := coordinator }

def finish (p : Pool) (worker : Nat) (uri : String) (outcome : Outcome) : Pool :=
  let metrics := processJob p.coordinator.metrics outcome
  match { p.coordinator with metrics := metrics }.finish uri with
  | (true, coordinator) =>
    { p with
      coordinator := coordinator
      workers := p.workers.set worker (.settling uri)
      released := p.released + 1 }
  | (false, coordinator) =>
    { p with coordinator := coordinator, workers := p.workers.set worker .idle }

def step (p : Pool) : Op → Pool
  | .tryEnqueue job => p.enqueue job
  | .takeNext worker => if p.workers[worker]? = some .idle then p.take worker else p
  | .finish worker outcome =>
    match p.workers[worker]? with
    | some (.processing uri _) => p.finish worker uri outcome
    | _ => p
  | .onSettled worker =>
    match p.workers[worker]? with
    | some (.settling _) =>
      { p with workers := p.workers.set worker .idle, settled := p.settled + 1 }
    | _ => p
  | .requestShutdown => { p with coordinator := p.coordinator.requestShutdown }

def processing (p : Pool) : List String := p.workers.filterMap Worker.uri?

/-- `active` is what waits in `ready` and what the workers process, each URI once; what waits in
`ready` has a pending job, whose URI is owned. -/
structure Owned (p : Pool) : Prop where
  owners : ∀ uri, uri ∈ p.coordinator.active ↔ uri ∈ p.coordinator.ready ++ p.processing
  distinct : (p.coordinator.ready ++ p.processing).Nodup
  backed : ∀ uri ∈ p.coordinator.ready, uri ∈ p.coordinator.pending
  claimed : ∀ uri ∈ p.coordinator.pending, uri ∈ p.coordinator.active

theorem scan_ready_backed (pending : TreeMap String ParseJob) (ready : List String)
    (backed : ∀ uri ∈ ready, uri ∈ pending) : (ready = [] ∧ scanReady pending ready = none) ∨
      ∃ uri rest job, ready = uri :: rest ∧ pending[uri]? = some job ∧
        scanReady pending ready = some (uri, job, rest) := by
  cases ready with
  | nil => exact .inl ⟨rfl, rfl⟩
  | cons uri rest =>
    obtain ⟨job, found⟩ := Option.isSome_iff_exists.mp
      (TreeMap.mem_iff_isSome_getElem?.mp (backed uri mem_cons_self))
    exact .inr ⟨uri, rest, job, rfl, found, by rw [scanReady, found]⟩

def Counted (before after : Metrics) (coalesced : UInt64) : Prop :=
  after.jobsEnqueued = before.jobsEnqueued + 1 ∧
    after.jobsCoalesced = before.jobsCoalesced + coalesced

inductive Effect (p : Pool) : Pool → Prop where
  | refused : Effect p p
  | activated (job : ParseJob) (metrics : Metrics)
      (serving : p.coordinator.shutdown = false)
      (fresh : job.normalizedUri ∉ p.coordinator.active)
      (nothing : job.normalizedUri ∉ p.coordinator.pending)
      (counted : Counted p.coordinator.metrics metrics 0) :
      Effect p { p with
        coordinator := { p.coordinator with
          pending := p.coordinator.pending.insert job.normalizedUri job
          ready := p.coordinator.ready ++ [job.normalizedUri]
          active := insert job.normalizedUri p.coordinator.active
          metrics := metrics }
        admitted := job :: p.admitted
        activated := p.activated + 1 }
  | queuedBehind (job : ParseJob) (metrics : Metrics)
      (serving : p.coordinator.shutdown = false)
      (owned : job.normalizedUri ∈ p.coordinator.active)
      (counted : Counted p.coordinator.metrics metrics
        (if job.normalizedUri ∈ p.coordinator.pending then 1 else 0)) :
      Effect p { p with
        coordinator := { p.coordinator with
          pending := p.coordinator.pending.insert job.normalizedUri job
          metrics := metrics }
        admitted := job :: p.admitted
        coalesced := p.coordinator.pending[job.normalizedUri]?.toList ++ p.coalesced }
  | taken (worker : Nat) (uri : String) (rest : List String) (job : ParseJob)
      (idle : p.workers[worker]? = some .idle)
      (front : p.coordinator.ready = uri :: rest)
      (found : p.coordinator.pending[uri]? = some job) :
      Effect p { p with
        coordinator := { p.coordinator with
          ready := rest
          pending := p.coordinator.pending.erase uri }
        workers := p.workers.set worker (.processing uri job)
        taken := job :: p.taken }
  | exited (worker : Nat) (idle : p.workers[worker]? = some .idle)
      (empty : p.coordinator.ready = []) (closed : p.coordinator.shutdown = true) :
      Effect p { p with workers := p.workers.set worker .exited }
  | requeued (worker : Nat) (uri : String) (job : ParseJob) (outcome : Outcome)
      (busy : p.workers[worker]? = some (.processing uri job))
      (newer : uri ∈ p.coordinator.pending) :
      Effect p { p with
        coordinator := { p.coordinator with
          ready := p.coordinator.ready ++ [uri]
          metrics := processJob p.coordinator.metrics outcome }
        workers := p.workers.set worker .idle }
  | released (worker : Nat) (uri : String) (job : ParseJob) (outcome : Outcome)
      (busy : p.workers[worker]? = some (.processing uri job))
      (last : uri ∉ p.coordinator.pending) :
      Effect p { p with
        coordinator := { p.coordinator with
          active := p.coordinator.active.erase uri
          metrics := processJob p.coordinator.metrics outcome }
        workers := p.workers.set worker (.settling uri)
        released := p.released + 1 }
  | settled (worker : Nat) (uri : String)
      (due : p.workers[worker]? = some (.settling uri)) :
      Effect p { p with workers := p.workers.set worker .idle, settled := p.settled + 1 }
  | stopped : Effect p { p with coordinator := p.coordinator.requestShutdown }

theorem enqueue_locked_cases (c : Coordinator) (job : ParseJob) :
    (job.normalizedUri ∉ c.active ∧ ∃ metrics, Counted c.metrics metrics 0 ∧
      c.enqueueLocked job = (true, { c with
        pending := c.pending.insert job.normalizedUri job
        ready := c.ready ++ [job.normalizedUri]
        active := insert job.normalizedUri c.active
        metrics := metrics })) ∨
    (job.normalizedUri ∈ c.active ∧ ∃ metrics,
      Counted c.metrics metrics (if job.normalizedUri ∈ c.pending then 1 else 0) ∧
      c.enqueueLocked job = (false, { c with
        pending := c.pending.insert job.normalizedUri job
        metrics := metrics })) := by
  have counted : Counted c.metrics
      ({ c.metrics with jobsEnqueued := c.metrics.jobsEnqueued + 1 }.bumpQueueDepth
        (c.pending.insert job.normalizedUri job).size) 0 := ⟨rfl, (UInt64.add_zero _).symm⟩
  unfold Coordinator.enqueueLocked
  by_cases owned : job.normalizedUri ∈ c.active
  · refine .inr ⟨owned, ?_⟩
    rw [if_neg (not_not_intro owned)]
    by_cases replaced : job.normalizedUri ∈ c.pending
    · rw [if_pos replaced, if_pos (TreeMap.contains_iff_mem.mpr replaced)]
      exact ⟨_, ⟨rfl, rfl⟩, rfl⟩
    · rw [if_neg replaced, if_neg (fun held => replaced (TreeMap.contains_iff_mem.mp held))]
      exact ⟨_, counted, rfl⟩
  · refine .inl ⟨owned, ?_⟩
    rw [if_pos owned]
    exact ⟨_, counted, rfl⟩

theorem enqueue_effect (p : Pool) (ok : Owned p) (job : ParseJob) : Effect p (p.enqueue job) := by
  unfold enqueue Coordinator.tryEnqueue
  by_cases closed : p.coordinator.shutdown = true
  · rw [if_pos closed]
    exact .refused
  have serving : p.coordinator.shutdown = false := by simpa using closed
  rw [if_neg closed]
  obtain ⟨fresh, metrics, counted, done⟩ | ⟨owned, metrics, counted, done⟩ :=
    enqueue_locked_cases p.coordinator job
  · have nothing : job.normalizedUri ∉ p.coordinator.pending := fun held =>
      fresh (ok.claimed _ held)
    simp only [done, TreeMap.getElem?_eq_none nothing, toList_none, nil_append, if_true]
    exact .activated job metrics serving fresh nothing counted
  · simp only [done]
    exact .queuedBehind job metrics serving owned counted

theorem take_effect (p : Pool) (ok : Owned p) (worker : Nat)
    (idle : p.workers[worker]? = some .idle) : Effect p (p.take worker) := by
  unfold take Coordinator.takeNext
  obtain ⟨empty, scanned⟩ | ⟨uri, rest, job, front, found, scanned⟩ :=
    scan_ready_backed p.coordinator.pending p.coordinator.ready ok.backed
  · have same : { p.coordinator with ready := [] } = p.coordinator := by
      rw [← empty]
    rw [scanned]
    simp only [same]
    by_cases closed : p.coordinator.shutdown = true
    · rw [if_pos closed]
      exact .exited worker idle empty closed
    · rw [if_neg closed]
      exact .refused
  · simp only [scanned]
    exact .taken worker uri rest job idle front found

theorem finish_effect (p : Pool) (worker : Nat) (uri : String) (job : ParseJob)
    (outcome : Outcome) (busy : p.workers[worker]? = some (.processing uri job)) :
    Effect p (p.finish worker uri outcome) := by
  unfold finish Coordinator.finish
  by_cases newer : uri ∈ p.coordinator.pending
  · simp only [TreeMap.contains_iff_mem.mpr newer]
    exact .requeued worker uri job outcome busy newer
  · simp only [TreeMap.contains_iff_mem, newer]
    exact .released worker uri job outcome busy newer

theorem step_effect (p : Pool) (ok : Owned p) (op : Op) : Effect p (p.step op) := by
  cases op with
  | tryEnqueue job => exact enqueue_effect p ok job
  | takeNext worker =>
    simp only [step]
    split
    · rename_i idle
      exact take_effect p ok worker idle
    · exact .refused
  | finish worker outcome =>
    simp only [step]
    split
    · rename_i uri job busy
      exact finish_effect p worker uri job outcome busy
    · exact .refused
  | onSettled worker =>
    simp only [step]
    split
    · rename_i uri due
      exact .settled worker uri due
    · exact .refused
  | requestShutdown => exact .stopped

section
variable (workers : List Worker) (worker : Nat) (old new : Worker) (here : workers[worker]? = some old)
include workers worker old new here

theorem worker_turn :
    ∃ others, workers.Perm (old :: others) ∧ (workers.set worker new).Perm (new :: others) := by
  obtain ⟨within, rfl⟩ := List.getElem?_eq_some_iff.mp here
  exact ⟨workers.eraseIdx worker, (getElem_cons_eraseIdx_perm within).symm,
    set_perm_cons_eraseIdx within new⟩

/-- What the workers process when one of them takes its turn. -/
theorem processing_turn : ∃ others, (workers.filterMap Worker.uri?).Perm (old.uri?.toList ++ others) ∧
      ((workers.set worker new).filterMap Worker.uri?).Perm (new.uri?.toList ++ others) := by
  obtain ⟨others, before, after⟩ := worker_turn workers worker old new here
  have split (first : Worker) : (first :: others).filterMap Worker.uri? =
      first.uri?.toList ++ others.filterMap Worker.uri? := by
    cases first <;> rfl
  exact ⟨others.filterMap Worker.uri?, split old ▸ before.filterMap _,
    split new ▸ after.filterMap _⟩

end

/-- The owned URIs in another order are owned the same way. -/
theorem Owned.reorder {p q : Pool} (ok : Owned p)
    (perm : (q.coordinator.ready ++ q.processing).Perm (p.coordinator.ready ++ p.processing))
    (same : q.coordinator.active = p.coordinator.active)
    (backed : ∀ uri ∈ q.coordinator.ready, uri ∈ q.coordinator.pending)
    (claimed : ∀ uri ∈ q.coordinator.pending, uri ∈ q.coordinator.active) : Owned q where
  owners uri := by rw [same, ok.owners, perm.mem_iff]
  distinct := perm.nodup_iff.mpr ok.distinct
  backed := backed
  claimed := claimed

theorem Owned.step {p : Pool} (ok : Owned p) (op : Op) : Owned (p.step op) := by
  have effect := step_effect p ok op
  generalize p.step op = q at effect
  cases effect with
  | refused => exact ok
  | activated job metrics serving fresh nothing counted =>
    have grown : ((p.coordinator.ready ++ [job.normalizedUri]) ++ p.processing).Perm
        (job.normalizedUri :: (p.coordinator.ready ++ p.processing)) := by
      rw [← append_cons]
      exact perm_middle
    refine ⟨fun uri => ?_, ?_, fun uri among => ?_, fun uri among => ?_⟩
    · rw [Finset.mem_insert, ok.owners, ← mem_cons]
      exact grown.mem_iff.symm
    · refine grown.nodup_iff.mpr (nodup_cons.mpr ⟨?_, ok.distinct⟩)
      exact fun among => fresh ((ok.owners _).mpr among)
    · obtain already | rfl := mem_append.mp among |>.imp_right mem_singleton.mp
      · exact TreeMap.mem_insert.mpr (.inr (ok.backed uri already))
      · exact TreeMap.mem_insert_self
    · obtain same | already := TreeMap.mem_insert.mp among
      · exact Finset.mem_insert.mpr (.inl (Std.compare_eq_iff_eq.mp same).symm)
      · exact Finset.mem_insert_of_mem (ok.claimed uri already)
  | queuedBehind job metrics serving owned counted =>
    refine ok.reorder (.refl _) rfl (fun uri among => ?_) (fun uri among => ?_)
    · exact TreeMap.mem_insert.mpr (.inr (ok.backed uri among))
    · obtain same | already := TreeMap.mem_insert.mp among
      · exact Std.compare_eq_iff_eq.mp same ▸ owned
      · exact ok.claimed uri already
  | taken worker uri rest job idle front found =>
    obtain ⟨others, before, after⟩ :=
      processing_turn p.workers worker .idle (.processing uri job) idle
    have order : (rest ++ (p.workers.set worker (.processing uri job)).filterMap
        Worker.uri?).Perm (p.coordinator.ready ++ p.processing) := by
      rw [front]
      exact (after.append_left rest).trans (perm_middle.trans ((before.symm.append_left rest).cons uri))
    refine ok.reorder order rfl (fun other among => ?_) (fun other among => ?_)
    · have distinct := front ▸ List.Nodup.of_append_left ok.distinct
      have different : uri ≠ other := fun same =>
        (nodup_cons.mp distinct).1 (same ▸ among)
      refine TreeMap.mem_erase.mpr ⟨?_, ok.backed other (front ▸ mem_cons_of_mem _ among)⟩
      exact fun same => different (Std.compare_eq_iff_eq.mp same)
    · exact ok.claimed other (TreeMap.mem_erase.mp among).2
  | exited worker idle empty closed =>
    obtain ⟨others, before, after⟩ := processing_turn p.workers worker .idle .exited idle
    exact ok.reorder ((after.trans before.symm).append_left _) rfl ok.backed ok.claimed
  | requeued worker uri job outcome busy newer =>
    obtain ⟨others, before, after⟩ :=
      processing_turn p.workers worker (.processing uri job) .idle busy
    have order : ((p.coordinator.ready ++ [uri]) ++ (p.workers.set worker .idle).filterMap
        Worker.uri?).Perm (p.coordinator.ready ++ p.processing) := by
      rw [← append_cons]
      exact ((after.cons uri).trans before.symm).append_left _
    refine ok.reorder order rfl (fun other among => ?_) ok.claimed
    obtain already | rfl := mem_append.mp among |>.imp_right mem_singleton.mp
    · exact ok.backed other already
    · exact newer
  | released worker uri job outcome busy last =>
    obtain ⟨others, before, after⟩ :=
      processing_turn p.workers worker (.processing uri job) (.settling uri) busy
    have order : (p.coordinator.ready ++ p.processing).Perm
        (uri :: (p.coordinator.ready ++ (p.workers.set worker (.settling uri)).filterMap Worker.uri?)) :=
      (before.append_left _).trans (perm_middle.trans ((after.symm.append_left _).cons uri))
    have distinct := nodup_cons.mp (order.nodup_iff.mp ok.distinct)
    refine ⟨fun other => ?_, distinct.2, ok.backed, fun other among => ?_⟩
    · rw [Finset.mem_erase, ok.owners, order.mem_iff, mem_cons]
      constructor
      · exact fun both => both.2.resolve_left both.1
      · intro among
        exact ⟨fun same => distinct.1 (same ▸ among), .inr among⟩
    · refine Finset.mem_erase.mpr ⟨?_, ok.claimed other among⟩
      exact fun same => last (same ▸ among)
  | settled worker uri due =>
    obtain ⟨others, before, after⟩ := processing_turn p.workers worker (.settling uri) .idle due
    exact ok.reorder ((after.trans before.symm).append_left _) rfl ok.backed ok.claimed
  | stopped => exact ⟨ok.owners, ok.distinct, ok.backed, ok.claimed⟩

def latestJob (p : Pool) (uri : String) : Option ParseJob :=
  p.admitted.find? fun job => job.normalizedUri == uri

def LatestKept (p : Pool) : Prop :=
  ∀ uri job, p.latestJob uri = some job →
    p.coordinator.pending[uri]? = some job ∨ job ∈ p.taken

structure Accounted (p : Pool) : Prop where
  lifecycles : p.activated = p.released + p.coordinator.active.card
  credits : p.released = p.settled + p.workers.countP Worker.isSettling
  jobs : p.admitted.length = p.taken.length + p.coalesced.length + p.coordinator.pending.size
  enqueued : p.coordinator.metrics.jobsEnqueued = UInt64.ofNat p.admitted.length
  coalesced : p.coordinator.metrics.jobsCoalesced = UInt64.ofNat p.coalesced.length

/-- A worker leaves its loop only after shutdown, and the last one found nothing ready. -/
structure Draining (p : Pool) : Prop where
  closed : .exited ∈ p.workers → p.coordinator.shutdown = true
  empty : p.workers ≠ [] → (∀ worker ∈ p.workers, worker = .exited) → p.coordinator.ready = []

theorem LatestKept.step {p : Pool} (ok : Owned p) (kept : LatestKept p) (op : Op) :
    LatestKept (p.step op) := by
  have effect := step_effect p ok op
  generalize p.step op = q at effect
  have admits (job : ParseJob) (active : Finset String) (ready : List String) (metrics : Metrics)
      (coalesced : List ParseJob) (activated : Nat) : LatestKept { p with
        coordinator := ⟨p.coordinator.pending.insert job.normalizedUri job, ready, active,
          p.coordinator.shutdown, metrics⟩
        admitted := job :: p.admitted
        coalesced := coalesced
        activated := activated } := by
    intro uri last found
    simp only [latestJob, find?_cons] at found
    rw [getElem?_insert]
    by_cases same : job.normalizedUri = uri
    · simp only [same, beq_self_eq_true] at found
      exact .inl (by rw [if_pos same, found])
    · simp only [beq_eq_false_iff_ne.mpr same] at found
      rw [if_neg same]
      exact kept uri last found
  cases effect with
  | activated job metrics serving fresh nothing counted
  | queuedBehind job metrics serving owned counted => exact admits job _ _ _ _ _
  | taken worker uri rest job idle front present =>
    intro other last found
    obtain waiting | done := kept other last found
    · by_cases same : uri = other
      · rw [← same, present] at waiting
        exact .inr (Option.some.inj waiting ▸ mem_cons_self)
      · refine .inl ?_
        rw [TreeMap.getElem?_erase, if_neg fun equal => same (Std.compare_eq_iff_eq.mp equal)]
        exact waiting
    · exact .inr (mem_cons_of_mem _ done)
  | _ => exact kept

theorem process_job_counters (metrics : Metrics) (outcome : Outcome) :
    (processJob metrics outcome).jobsEnqueued = metrics.jobsEnqueued ∧
      (processJob metrics outcome).jobsCoalesced = metrics.jobsCoalesced := by
  cases outcome <;> exact ⟨rfl, rfl⟩

section Turns
variable (workers : List Worker) (worker : Nat)

theorem settling_turn (old new : Worker) (here : workers[worker]? = some old)
    (same : new.isSettling = old.isSettling) :
    (workers.set worker new).countP Worker.isSettling = workers.countP Worker.isSettling := by
  obtain ⟨others, before, after⟩ := worker_turn workers worker old new here
  rw [before.countP_eq, after.countP_eq, countP_cons, countP_cons, same]

theorem settling_due (old : Worker) (uri : String) (here : workers[worker]? = some old)
    (idle : old.isSettling = false) : (workers.set worker (.settling uri)).countP Worker.isSettling =
      workers.countP Worker.isSettling + 1 := by
  obtain ⟨others, before, after⟩ := worker_turn workers worker old (.settling uri) here
  rw [before.countP_eq, after.countP_eq, countP_cons_of_pos rfl,
    countP_cons_of_neg (ne_true_of_eq_false idle)]

theorem settling_paid (uri : String) (new : Worker)
    (here : workers[worker]? = some (.settling uri)) (idle : new.isSettling = false) :
    (workers.set worker new).countP Worker.isSettling + 1 = workers.countP Worker.isSettling := by
  obtain ⟨others, before, after⟩ := worker_turn workers worker (.settling uri) new here
  rw [before.countP_eq, after.countP_eq, countP_cons_of_neg (ne_true_of_eq_false idle),
    countP_cons_of_pos rfl]

end Turns

theorem Accounted.step {p : Pool} (ok : Owned p) (acc : Accounted p) (op : Op) : Accounted (p.step op) := by
  have effect := step_effect p ok op
  generalize p.step op = q at effect
  obtain ⟨lifecycles, credits, jobs, enqueued, coalesced⟩ := acc
  cases effect with
  | refused | stopped => exact ⟨lifecycles, credits, jobs, enqueued, coalesced⟩
  | activated job metrics serving fresh nothing counted =>
    refine ⟨?_, credits, ?_, ?_, ?_⟩
    · simp only [Finset.card_insert_of_notMem fresh]
      omega
    · simp only [length_cons, size_insert_absent _ _ job nothing]
      omega
    · rw [counted.1, enqueued]
      exact (UInt64.ofNat_add _ _).symm
    · rw [counted.2, coalesced]
      exact UInt64.add_zero _
  | queuedBehind job metrics serving owned counted =>
    by_cases replaced : job.normalizedUri ∈ p.coordinator.pending
    · obtain ⟨old, present⟩ := Option.isSome_iff_exists.mp (TreeMap.mem_iff_isSome_getElem?.mp replaced)
      refine ⟨lifecycles, credits, ?_, ?_, ?_⟩
      · simp only [length_cons, size_insert_present _ _ job replaced, present,
          toList_some, cons_append, nil_append]
        omega
      · rw [counted.1, enqueued]
        exact (UInt64.ofNat_add _ _).symm
      · rw [counted.2, coalesced, if_pos replaced, present]
        exact (UInt64.ofNat_add _ _).symm
    · have absent := TreeMap.getElem?_eq_none replaced
      refine ⟨lifecycles, credits, ?_, ?_, ?_⟩
      · simp only [length_cons, size_insert_absent _ _ job replaced, absent, toList_none, nil_append]
        omega
      · rw [counted.1, enqueued]
        exact (UInt64.ofNat_add _ _).symm
      · rw [counted.2, coalesced, if_neg replaced, absent]
        exact UInt64.add_zero _
  | taken worker uri rest job idle front present =>
    have turn := settling_turn p.workers worker .idle (.processing uri job) idle rfl
    have held : uri ∈ p.coordinator.pending :=
      TreeMap.mem_iff_isSome_getElem?.mpr (by rw [present]; rfl)
    have left := size_erase_present p.coordinator.pending uri held
    refine ⟨lifecycles, credits.trans (by rw [turn]), ?_, enqueued, coalesced⟩
    simp only [length_cons]
    omega
  | exited worker idle empty closed =>
    have turn := settling_turn p.workers worker .idle .exited idle rfl
    exact ⟨lifecycles, credits.trans (by rw [turn]), jobs, enqueued, coalesced⟩
  | requeued worker uri job outcome busy newer =>
    have turn := settling_turn p.workers worker (.processing uri job) .idle busy rfl
    obtain ⟨first, second⟩ := process_job_counters p.coordinator.metrics outcome
    exact ⟨lifecycles, credits.trans (by rw [turn]), jobs, first.trans enqueued, second.trans coalesced⟩
  | released worker uri job outcome busy last =>
    have turn := settling_due p.workers worker (.processing uri job) uri busy rfl
    obtain ⟨first, second⟩ := process_job_counters p.coordinator.metrics outcome
    have owned : uri ∈ p.coordinator.active := (ok.owners uri).mpr
      (mem_append_right _ (mem_filterMap.mpr ⟨_, mem_of_getElem? busy, rfl⟩))
    have card := Finset.card_erase_add_one owned
    refine ⟨?_, ?_, jobs, first.trans enqueued, second.trans coalesced⟩
    · simp only
      omega
    · simp only
      omega
  | settled worker uri due =>
    have turn := settling_paid p.workers worker uri .idle due rfl
    refine ⟨lifecycles, ?_, jobs, enqueued, coalesced⟩
    simp only
    omega

section
variable (workers : List Worker) (worker : Nat) (old new : Worker) (here : workers[worker]? = some old)
include workers worker old new here

theorem turn_mem (other : Worker) (among : other ∈ workers.set worker new) :
    other = new ∨ other ∈ workers := by
  obtain ⟨others, before, after⟩ := worker_turn workers worker old new here
  exact (mem_cons.mp (after.mem_iff.mp among)).imp_right fun rest =>
    before.mem_iff.mpr (mem_cons_of_mem _ rest)

theorem turn_new_mem : new ∈ workers.set worker new := by
  obtain ⟨others, -, after⟩ := worker_turn workers worker old new here
  exact after.mem_iff.mpr mem_cons_self

end

theorem Draining.turn {p : Pool} (drains : Draining p) (worker : Nat) (old new : Worker)
    (here : p.workers[worker]? = some old) (stays : new ≠ .exited)
    (ready : List String) (pending : TreeMap String ParseJob) (active : Finset String)
    (metrics : Metrics) (admitted taken coalesced : List ParseJob) (activated released settled : Nat) :
    Draining ⟨⟨pending, ready, active, p.coordinator.shutdown, metrics⟩,
      p.workers.set worker new, admitted, taken, coalesced, activated, released, settled⟩ where
  closed among := by
    obtain same | already := turn_mem p.workers worker old new here .exited among
    · exact absurd same.symm stays
    · exact drains.closed already
  empty _ all := absurd (all new (turn_new_mem p.workers worker old new here)) stays

theorem Draining.step {p : Pool} (ok : Owned p) (drains : Draining p) (op : Op) : Draining (p.step op) := by
  have effect := step_effect p ok op
  generalize p.step op = q at effect
  cases effect with
  | refused => exact drains
  | activated job metrics serving fresh nothing counted =>
    refine ⟨drains.closed, fun some' all => ?_⟩
    obtain ⟨worker, among⟩ := exists_mem_of_ne_nil _ some'
    exact absurd (serving.symm.trans (drains.closed (all worker among ▸ among))) (by decide)
  | queuedBehind job metrics serving owned counted => exact ⟨drains.closed, drains.empty⟩
  | taken worker uri rest job idle front present =>
    exact drains.turn worker .idle (.processing uri job) idle nofun rest _ _ _ _ _ _ _ _ _
  | exited worker idle empty closed => exact ⟨fun _ => closed, fun _ _ => empty⟩
  | requeued worker uri job outcome busy newer =>
    exact drains.turn worker _ .idle busy nofun _ _ _ _ _ _ _ _ _ _
  | released worker uri job outcome busy last =>
    exact drains.turn worker _ (.settling uri) busy nofun _ _ _ _ _ _ _ _ _ _
  | settled worker uri due =>
    exact drains.turn worker _ .idle due nofun _ _ _ _ _ _ _ _ _ _
  | stopped => exact ⟨fun _ => rfl, drains.empty⟩

structure QueueSafe (p : Pool) : Prop where
  exclusive : p.processing.Nodup
  active : ∀ uri, uri ∈ p.coordinator.active ↔ uri ∈ p.coordinator.ready ++ p.processing
  distinct : (p.coordinator.ready ++ p.processing).Nodup
  backed : ∀ uri ∈ p.coordinator.ready, ∃ job, p.coordinator.pending[uri]? = some job
  latest : ∀ uri job, p.latestJob uri = some job →
    p.coordinator.pending[uri]? = some job ∨ job ∈ p.taken
  lifecycles : p.activated = p.released + p.coordinator.active.card
  credits : p.released = p.settled + p.workers.countP Worker.isSettling
  jobs : p.admitted.length = p.taken.length + p.coalesced.length + p.coordinator.pending.size
  enqueued : p.coordinator.metrics.jobsEnqueued = UInt64.ofNat p.admitted.length
  coalesced : p.coordinator.metrics.jobsCoalesced = UInt64.ofNat p.coalesced.length
  refused : p.coordinator.shutdown = true →
    ∀ job, p.coordinator.tryEnqueue job = (.error job, p.coordinator)
  stopped : p.coordinator.shutdown = true → ∀ op, (p.step op).coordinator.shutdown = true
  kept : p.coordinator.shutdown = true → ∀ (op : Op) (uri : String) (job : ParseJob),
    p.coordinator.pending[uri]? = some job →
      (p.step op).coordinator.pending[uri]? = some job ∨ job ∈ (p.step op).taken
  drained : p.workers ≠ [] → (∀ worker ∈ p.workers, worker = .exited) →
    p.coordinator.pending.isEmpty = true ∧ p.coordinator.active = ∅ ∧
      p.admitted.length = p.taken.length + p.coalesced.length

section
variable (p : Pool) (ok : Owned p) (op : Op) (closed : p.coordinator.shutdown = true)
include p ok op closed

theorem shutdown_stays : (p.step op).coordinator.shutdown = true := by
  have effect := step_effect p ok op
  generalize p.step op = q at effect
  cases effect with
  | stopped => rfl
  | _ => exact closed

theorem pending_kept (uri : String) (job : ParseJob) (waiting : p.coordinator.pending[uri]? = some job) :
    (p.step op).coordinator.pending[uri]? = some job ∨ job ∈ (p.step op).taken := by
  have effect := step_effect p ok op
  generalize p.step op = q at effect
  cases effect with
  | activated other metrics serving fresh nothing counted
  | queuedBehind other metrics serving owned counted =>
    exact absurd (serving.symm.trans closed) (by decide)
  | taken worker other rest taken idle front present =>
    by_cases same : other = uri
    · rw [← same, present] at waiting
      exact .inr (Option.some.inj waiting ▸ mem_cons_self)
    · refine .inl ?_
      rw [TreeMap.getElem?_erase, if_neg fun equal => same (Std.compare_eq_iff_eq.mp equal)]
      exact waiting
  | _ => exact .inl waiting

end

theorem drained_pool (p : Pool) (ok : Owned p) (acc : Accounted p) (drains : Draining p)
    (some' : p.workers ≠ []) (all : ∀ worker ∈ p.workers, worker = .exited) :
    p.coordinator.pending.isEmpty = true ∧ p.coordinator.active = ∅ ∧
      p.admitted.length = p.taken.length + p.coalesced.length := by
  have ready := drains.empty some' all
  have none' : p.processing = [] := by
    refine filterMap_eq_nil_iff.mpr fun worker among => ?_
    rw [all worker among]
    rfl
  have active : p.coordinator.active = ∅ := by
    refine Finset.eq_empty_of_forall_notMem fun uri among => ?_
    have owned := (ok.owners uri).mp among
    rw [ready, none'] at owned
    cases owned
  have pending : p.coordinator.pending.isEmpty = true := by
    refine TreeMap.isEmpty_iff_forall_not_mem.mpr fun uri waiting => ?_
    have owned := ok.claimed uri waiting
    rw [active] at owned
    exact Finset.notMem_empty uri owned
  have size : p.coordinator.pending.size = 0 := by
    rw [TreeMap.isEmpty_eq_size_eq_zero] at pending
    exact eq_of_beq pending
  exact ⟨pending, active, by rw [acc.jobs, size, Nat.add_zero]⟩

theorem replicate_idle (workers : Nat) : (List.replicate workers Worker.idle).filterMap Worker.uri? = [] ∧
      (List.replicate workers Worker.idle).countP Worker.isSettling = 0 := by
  constructor
  · exact filterMap_eq_nil_iff.mpr fun worker among => by
      rw [eq_of_mem_replicate among]
      rfl
  · exact countP_eq_zero.mpr fun worker among => by
      rw [eq_of_mem_replicate among]
      decide

theorem every_interleaving_safe (workers : Nat) (ops : List Op) :
    Along step QueueSafe (new workers) ops := by
  have along : Along step (fun p => Owned p ∧ LatestKept p ∧ Accounted p ∧ Draining p)
      (new workers) ops := by
    apply along_of_invariant
    · rintro p op ⟨ok, latest, acc, drains⟩
      exact ⟨ok.step op, latest.step ok op, acc.step ok op, drains.step ok op⟩
    · obtain ⟨idle, unsettled⟩ := replicate_idle workers
      refine ⟨⟨fun uri => ?_, ?_, nofun, nofun⟩, nofun, ⟨rfl, ?_, rfl, rfl, rfl⟩, ⟨?_, ?_⟩⟩
      · simp [processing, new, Coordinator.new, idle]
      · simp [processing, new, Coordinator.new, idle]
      · exact (Nat.zero_add _).symm ▸ unsettled.symm
      · exact fun among => absurd (eq_of_mem_replicate among) nofun
      · exact fun _ _ => rfl
  refine along_mono step ?_ _ ops along
  rintro p ⟨ok, latest, acc, drains⟩
  exact {
    exclusive := List.Nodup.of_append_right ok.distinct
    active := ok.owners
    distinct := ok.distinct
    backed := fun uri among => Option.isSome_iff_exists.mp
      (TreeMap.mem_iff_isSome_getElem?.mp (ok.backed uri among))
    latest := latest
    lifecycles := acc.lifecycles
    credits := acc.credits
    jobs := acc.jobs
    enqueued := acc.enqueued
    coalesced := acc.coalesced
    refused := fun closed job => if_pos closed
    stopped := fun closed op => shutdown_stays p ok op closed
    kept := fun closed op => pending_kept p ok op closed
    drained := drained_pool p ok acc drains }

end Pool

end PerlLsp.ParseWorker
