import PerlLsp.Runs
import PerlLsp.UnderWay
import PerlLsp.Workspace

/-! The index coordinator of workspace_index.rs under concurrent `notify_change` and
`notify_parse_complete` calls, with the counter of monitoring/mod.rs. A step is one access to the
counter, to the state or to the index, and the steps of calls under way interleave. A change counts
as notified from its counter update on. -/
namespace PerlLsp.ParseStorm
open Runs UnderWay Workspace List

inductive DegradationReason where
  | cancelled
  | parseStorm (pendingParses : Nat)
  | ioError (message : String)
  | scanTimeout (elapsedMs : Nat)
  | resourceLimit (kind : ResourceKind)
  deriving DecidableEq

inductive IndexPhase where
  | idle | scanning | indexing
  deriving DecidableEq

inductive IndexState where
  | building (phase : IndexPhase) (indexedCount totalCount : Nat)
  | ready (symbolCount fileCount : Nat)
  | degraded (reason : DegradationReason) (availableSymbols : Nat)
  deriving DecidableEq

def IndexState.isStorm : IndexState → Bool
  | .degraded (.parseStorm _) _ => true
  | .degraded .cancelled _ => false
  | .degraded (.ioError _) _ => false
  | .degraded (.scanTimeout _) _ => false
  | .degraded (.resourceLimit _) _ => false
  | .building .. => false
  | .ready .. => false

structure IndexMetrics where
  pendingParses : Nat
  parseStormThreshold : Nat

namespace IndexMetrics

def new : IndexMetrics := ⟨0, 10⟩

variable (metrics : IndexMetrics)

def incrementPendingParses : IndexMetrics :=
  { metrics with pendingParses := metrics.pendingParses + 1 }

def decrementPendingParses : IndexMetrics :=
  { metrics with pendingParses := metrics.pendingParses - 1 }

def isParseStorm : Bool :=
  metrics.parseStormThreshold < metrics.pendingParses

end IndexMetrics

structure IndexCoordinator where
  state : IndexState
  metrics : IndexMetrics
  limits : IndexResourceLimits
  /-- `resource_limit_rejection` of the index. -/
  rejection : Option ResourceKind

namespace IndexCoordinator
variable (coordinator : IndexCoordinator)

def transitionToDegraded (reason : DegradationReason) : IndexCoordinator :=
  let availableSymbols := match coordinator.state with
    | .ready symbolCount _ => symbolCount
    | .degraded _ availableSymbols => availableSymbols
    | .building .. => 0
  { coordinator with state := .degraded reason availableSymbols }

/-- The write of the recovery branch of `notify_parse_complete`. -/
def rebuild : IndexCoordinator :=
  { coordinator with state := .building .idle 0 0 }

/-- `check_limits` on an index of the given size. -/
def checkLimits (fileCount totalSymbols : Nat) : Option ResourceKind :=
  if coordinator.limits.maxFiles < fileCount then some .maxFiles
  else if coordinator.limits.maxTotalSymbols < totalSymbols then some .maxSymbols
  else none

end IndexCoordinator

/-- What a call does next. -/
inductive Stage where
  /-- `notify_change`: the storm test. -/
  | stormTest (pending : Nat)
  | stormWrite (pending : Nat)
  /-- `notify_parse_complete` that found the counter at zero: `state()` first takes a rejection. -/
  | takeRejection
  | rejectionWrite (kind : ResourceKind)
  | readState
  | recoveryWrite
  /-- `enforce_limits`. -/
  | checkLimits
  | limitWrite (kind : ResourceKind)
  deriving DecidableEq

structure Call where
  change : Nat
  stage : Stage
  deriving DecidableEq

def Stage.next (coordinator : IndexCoordinator) (fileCount totalSymbols : Nat) :
    Stage → IndexCoordinator × Option Stage
  | .stormTest pending =>
    (coordinator, if coordinator.metrics.isParseStorm then some (.stormWrite pending) else none)
  | .stormWrite pending => (coordinator.transitionToDegraded (.parseStorm pending), none)
  | .takeRejection =>
    ({ coordinator with rejection := none },
      match coordinator.rejection with
      | some kind => some (.rejectionWrite kind)
      | none => some .readState)
  | .rejectionWrite kind =>
    (coordinator.transitionToDegraded (.resourceLimit kind), some .readState)
  | .readState =>
    (coordinator, if coordinator.state.isStorm then some .recoveryWrite else some .checkLimits)
  | .recoveryWrite => (coordinator.rebuild, some .checkLimits)
  | .checkLimits =>
    (coordinator, (coordinator.checkLimits fileCount totalSymbols).map .limitWrite)
  | .limitWrite kind => (coordinator.transitionToDegraded (.resourceLimit kind), none)

/-- The coordinator with the calls under way. `uncompleted` lists the changes notified and not
completed, `notified` counts all. -/
structure Session where
  coordinator : IndexCoordinator
  calls : List Call
  uncompleted : List Nat
  notified : Nat

def start (state : IndexState) (limits : IndexResourceLimits) : Session where
  coordinator := ⟨state, .new, limits, none⟩
  calls := []
  uncompleted := []
  notified := 0

inductive Op where
  | notifyChange
  | notifyParseComplete (change : Nat)
  /-- The call at the place takes its next step, on an index of the given size. -/
  | goOn (place fileCount totalSymbols : Nat)
  /-- Indexing leaves a rejection behind. -/
  | recordRejection (kind : ResourceKind)

variable (s : Session)

def notifyChange : Session :=
  let metrics := s.coordinator.metrics.incrementPendingParses
  { s with
    coordinator := { s.coordinator with metrics := metrics }
    calls := s.calls ++ [⟨s.notified, .stormTest metrics.pendingParses⟩]
    uncompleted := s.notified :: s.uncompleted
    notified := s.notified + 1 }

def notifyParseComplete (change : Nat) : Session :=
  if change ∈ s.uncompleted then
    let metrics := s.coordinator.metrics.decrementPendingParses
    let stage := if metrics.pendingParses = 0 then Stage.takeRejection else Stage.checkLimits
    { s with
      coordinator := { s.coordinator with metrics := metrics }
      calls := s.calls ++ [⟨change, stage⟩]
      uncompleted := s.uncompleted.erase change }
  else s

def goOn (place fileCount totalSymbols : Nat) : Session :=
  match s.calls[place]? with
  | none => s
  | some call =>
    match call.stage.next s.coordinator fileCount totalSymbols with
    | (coordinator, some stage) =>
      { s with coordinator := coordinator, calls := s.calls.set place { call with stage := stage } }
    | (coordinator, none) =>
      { s with coordinator := coordinator, calls := s.calls.eraseIdx place }

def step : Op → Session
  | .notifyChange => notifyChange s
  | .notifyParseComplete change => notifyParseComplete s change
  | .goOn place fileCount totalSymbols => goOn s place fileCount totalSymbols
  | .recordRejection kind => { s with coordinator := { s.coordinator with rejection := some kind } }

def Recovered : Prop :=
  s.calls = [] → s.coordinator.metrics.pendingParses = 0 → s.coordinator.state.isStorm = false

/-- A completion that found the counter at zero and is not past the state yet. -/
def Stage.looks : Stage → Bool
  | .takeRejection => true
  | .rejectionWrite _ => true
  | .readState => true
  | .recoveryWrite => true
  | .stormTest _ => false
  | .stormWrite _ => false
  | .checkLimits => false
  | .limitWrite _ => false

def Stage.writesStorm : Stage → Bool
  | .stormWrite _ => true
  | .stormTest _ => false
  | .takeRejection => false
  | .rejectionWrite _ => false
  | .readState => false
  | .recoveryWrite => false
  | .checkLimits => false
  | .limitWrite _ => false

theorem writer_looks_not {stage : Stage} (writes : stage.writesStorm = true) : stage.looks = false := by
  cases stage with
  | stormWrite pending => rfl
  | stormTest pending => rfl
  | checkLimits => rfl
  | limitWrite kind => rfl
  | takeRejection | rejectionWrite kind | readState | recoveryWrite => exact Bool.noConfusion writes

/-- Some completion is still to find the counter at zero, or to look at the state then. -/
def Watched (s : Session) : Prop :=
  0 < s.coordinator.metrics.pendingParses ∨ ∃ call ∈ s.calls, call.stage.looks = true

instance (s : Session) : Decidable (Watched s) := inferInstanceAs (Decidable (_ ∨ _))

def InTime (s : Session) : Op → Prop
  | .goOn place _ _ => (s.calls[place]?.any fun call => call.stage.writesStorm) = true → Watched s
  | .notifyChange => True
  | .notifyParseComplete _ => True
  | .recordRejection _ => True

instance (s : Session) : (op : Op) → Decidable (InTime s op)
  | .goOn place _ _ => inferInstanceAs
      (Decidable ((s.calls[place]?.any fun call => call.stage.writesStorm) = true → Watched s))
  | .notifyChange => inferInstanceAs (Decidable True)
  | .notifyParseComplete _ => inferInstanceAs (Decidable True)
  | .recordRejection _ => inferInstanceAs (Decidable True)

def Covered (s : Session) : Prop := s.coordinator.state.isStorm = true → Watched s

variable {s : Session}

theorem Covered.recovered (covered : Covered s) : Recovered s := by
  intro quiet none
  cases storm : s.coordinator.state.isStorm with
  | false => rfl
  | true =>
    rcases covered storm with pending | ⟨call, among, -⟩
    · rw [none] at pending
      exact absurd pending (Nat.lt_irrefl 0)
    · rw [quiet] at among
      exact absurd among not_mem_nil

theorem next_metrics (stage : Stage) (coordinator : IndexCoordinator) (fileCount totalSymbols : Nat) :
    (stage.next coordinator fileCount totalSymbols).1.metrics = coordinator.metrics := by
  cases stage with
  | stormTest pending => rfl
  | stormWrite pending => rfl
  | takeRejection => rfl
  | rejectionWrite kind => rfl
  | readState => rfl
  | recoveryWrite => rfl
  | checkLimits => rfl
  | limitWrite kind => rfl

/-- Who leaves the storm state behind either writes it or leaves it to a step that is still to look.
-/
theorem next_storm (stage : Stage) (coordinator : IndexCoordinator) (fileCount totalSymbols : Nat)
    (storm : (stage.next coordinator fileCount totalSymbols).1.state.isStorm = true) :
    stage.writesStorm = true ∨ coordinator.state.isStorm = true ∧ (stage.looks = true →
      ∃ later, (stage.next coordinator fileCount totalSymbols).2 = some later ∧ later.looks = true) := by
  cases stage with
  | stormTest pending | checkLimits => exact .inr ⟨storm, Bool.noConfusion⟩
  | stormWrite pending => exact .inl rfl
  | takeRejection =>
    refine .inr ⟨storm, fun _ => ?_⟩
    rw [Stage.next]
    cases coordinator.rejection with
    | none => exact ⟨.readState, rfl, rfl⟩
    | some kind => exact ⟨.rejectionWrite kind, rfl, rfl⟩
  | rejectionWrite kind | recoveryWrite | limitWrite kind => exact Bool.noConfusion storm
  | readState =>
    have found : coordinator.state.isStorm = true := storm
    refine .inr ⟨found, fun _ => ⟨.recoveryWrite, ?_, rfl⟩⟩
    rw [Stage.next, if_pos found]

theorem go_on_cases {place : Nat} {call : Call} (fileCount totalSymbols : Nat)
    (stands : s.calls[place]? = some call) :
    let next := call.stage.next s.coordinator fileCount totalSymbols
    let after := goOn s place fileCount totalSymbols
    after.coordinator = next.1 ∧ after.uncompleted = s.uncompleted ∧
      after.notified = s.notified ∧ ∀ other, other ∈ after.calls ↔
        (∃ stage, next.2 = some stage ∧ other = { call with stage := stage }) ∨
          other ∈ s.calls.eraseIdx place := by
  dsimp only
  rw [goOn, stands]
  dsimp only
  cases next : call.stage.next s.coordinator fileCount totalSymbols with
  | mk coordinator stage =>
    cases stage with
    | none => exact ⟨rfl, rfl, rfl, fun other => by simp⟩
    | some stage =>
      refine ⟨rfl, rfl, rfl, fun other => ?_⟩
      rw [mem_set stands]
      simp

theorem go_on_absent {place : Nat} (fileCount totalSymbols : Nat) (absent : s.calls[place]? = none) :
    goOn s place fileCount totalSymbols = s := by
  rw [goOn, absent]

theorem covered_go_on (covered : Covered s) (place fileCount totalSymbols : Nat)
    (inTime : InTime s (.goOn place fileCount totalSymbols)) :
    Covered (goOn s place fileCount totalSymbols) := by
  cases stands : s.calls[place]? with
  | none =>
    rw [go_on_absent fileCount totalSymbols stands]
    exact covered
  | some call =>
    obtain ⟨moved, -, -, calls⟩ := go_on_cases fileCount totalSymbols stands
    intro storm
    rw [moved] at storm
    have watched : Watched s ∧ (call.stage.looks = true →
        ∃ later, (call.stage.next s.coordinator fileCount totalSymbols).2 = some later ∧
          later.looks = true) := by
      rcases next_storm call.stage s.coordinator fileCount totalSymbols storm with
        writes | ⟨found, later⟩
      · refine ⟨inTime (by rw [stands]; exact writes), fun looks => ?_⟩
        rw [writer_looks_not writes] at looks
        exact Bool.noConfusion looks
      · exact ⟨covered found, later⟩
    rcases watched.1 with pending | ⟨looker, among, looks⟩
    · left
      rw [moved, next_metrics]
      exact pending
    right
    rcases mem_or_taken stands among with rfl | other
    · obtain ⟨later, follows, still⟩ := watched.2 looks
      exact ⟨_, (calls _).mpr (.inl ⟨later, follows, rfl⟩), still⟩
    · exact ⟨looker, (calls looker).mpr (.inr other), looks⟩

theorem covered_complete (covered : Covered s) (change : Nat) : Covered (notifyParseComplete s change) := by
  rw [notifyParseComplete]
  split
  · intro _
    by_cases none : s.coordinator.metrics.decrementPendingParses.pendingParses = 0
    · right
      refine ⟨⟨change, .takeRejection⟩, ?_, rfl⟩
      simp [none]
    · exact .inl (Nat.pos_of_ne_zero none)
  · exact covered

theorem step_covered (s : Session) (op : Op) (covered : Covered s) (inTime : InTime s op) :
    Covered (step s op) := by
  cases op with
  | notifyChange => exact fun _ => .inl (Nat.succ_pos _)
  | notifyParseComplete change => exact covered_complete covered change
  | goOn place fileCount totalSymbols =>
    exact covered_go_on covered place fileCount totalSymbols inTime
  | recordRejection kind => exact covered

def Stage.notifies : Stage → Bool
  | .stormTest _ => true
  | .stormWrite _ => true
  | .takeRejection => false
  | .rejectionWrite _ => false
  | .readState => false
  | .recoveryWrite => false
  | .checkLimits => false
  | .limitWrite _ => false

theorem writer_notifies {stage : Stage} (writes : stage.writesStorm = true) : stage.notifies = true := by
  cases stage with
  | stormWrite pending => rfl
  | stormTest pending => rfl
  | takeRejection | rejectionWrite kind | readState | recoveryWrite | checkLimits
  | limitWrite kind => exact Bool.noConfusion writes

/-- A change is completed only when `notify_change` has returned for it. -/
def Returned (s : Session) : Op → Prop
  | .notifyParseComplete change => ∀ call ∈ s.calls, call.change = change → call.stage.notifies = false
  | .notifyChange => True
  | .goOn .. => True
  | .recordRejection _ => True

instance (s : Session) : (op : Op) → Decidable (Returned s op)
  | .notifyParseComplete change => inferInstanceAs (Decidable
      (∀ call ∈ s.calls, call.change = change → call.stage.notifies = false))
  | .notifyChange => inferInstanceAs (Decidable True)
  | .goOn .. => inferInstanceAs (Decidable True)
  | .recordRejection _ => inferInstanceAs (Decidable True)

/-- The counter counts the changes not completed, among them those whose `notify_change` is
still under way. -/
structure Counted (s : Session) : Prop where
  pending : s.coordinator.metrics.pendingParses = s.uncompleted.length
  underWay : ∀ call ∈ s.calls, call.stage.notifies = true → call.change ∈ s.uncompleted

theorem next_notifies {stage later : Stage} {coordinator : IndexCoordinator} {fileCount totalSymbols : Nat}
    (follows : (stage.next coordinator fileCount totalSymbols).2 = some later)
    (notifies : later.notifies = true) : stage.notifies = true := by
  cases stage with
  | stormTest pending => rfl
  | stormWrite pending => rfl
  | takeRejection =>
    rw [Stage.next] at follows
    cases found : coordinator.rejection with
    | none | some kind =>
      rw [found] at follows
      obtain rfl := Option.some.inj follows
      exact notifies
  | rejectionWrite kind | recoveryWrite =>
    obtain rfl := Option.some.inj follows
    exact notifies
  | readState =>
    rw [Stage.next] at follows
    split at follows
    · obtain rfl := Option.some.inj follows
      exact notifies
    · obtain rfl := Option.some.inj follows
      exact notifies
  | checkLimits =>
    obtain ⟨kind, -, rfl⟩ := Option.map_eq_some_iff.mp follows
    exact notifies
  | limitWrite kind => cases follows

theorem Counted.goOn (counted : Counted s) (place fileCount totalSymbols : Nat) :
    Counted (goOn s place fileCount totalSymbols) := by
  cases stands : s.calls[place]? with
  | none =>
    rw [go_on_absent fileCount totalSymbols stands]
    exact counted
  | some call =>
    obtain ⟨moved, same, -, calls⟩ := go_on_cases fileCount totalSymbols stands
    constructor
    · rw [moved, next_metrics, same]
      exact counted.pending
    · intro other among notifies
      rw [same]
      rcases (calls other).mp among with ⟨later, follows, rfl⟩ | stays
      · have taken := mem_of_getElem? stands
        exact counted.underWay call taken (next_notifies follows notifies)
      · exact counted.underWay other (mem_of_mem_eraseIdx stays) notifies

theorem Counted.complete (counted : Counted s) (change : Nat)
    (returned : Returned s (.notifyParseComplete change)) : Counted (notifyParseComplete s change) := by
  rw [notifyParseComplete]
  split
  next among =>
    constructor
    · have fewer := length_erase_of_mem among
      have one : (IndexMetrics.decrementPendingParses s.coordinator.metrics).pendingParses =
          s.coordinator.metrics.pendingParses - 1 := rfl
      rw [one, counted.pending, fewer]
    · intro call standing notifies
      rcases mem_append.mp standing with earlier | new
      · have other : call.change ≠ change := by
          intro same
          rw [returned call earlier same] at notifies
          exact Bool.noConfusion notifies
        exact (mem_erase_of_ne other).mpr (counted.underWay call earlier notifies)
      · obtain rfl := mem_singleton.mp new
        split at notifies
        · exact Bool.noConfusion notifies
        · exact Bool.noConfusion notifies
  next => exact counted

theorem step_counted (s : Session) (op : Op) (counted : Counted s) (returned : Returned s op) :
    Counted (step s op) := by
  cases op with
  | notifyChange =>
    constructor
    · exact congrArg (· + 1) counted.pending
    · intro call standing notifies
      rcases mem_append.mp standing with earlier | new
      · exact mem_cons_of_mem _ (counted.underWay call earlier notifies)
      · obtain rfl := mem_singleton.mp new
        exact mem_cons_self
  | notifyParseComplete change => exact counted.complete change returned
  | goOn place fileCount totalSymbols => exact counted.goOn place fileCount totalSymbols
  | recordRejection kind => exact ⟨counted.pending, counted.underWay⟩

/-- Whoever is to write the storm state holds the counter up. -/
theorem Counted.inTime (counted : Counted s) (op : Op) : InTime s op := by
  cases op with
  | goOn place fileCount totalSymbols =>
    intro writes
    obtain ⟨call, stands, storm⟩ := (Option.any_eq_true _ _).mp writes
    left
    rw [counted.pending]
    exact length_pos_of_mem (counted.underWay call (mem_of_getElem? stands) (writer_notifies storm))
  | notifyChange => trivial
  | notifyParseComplete change => trivial
  | recordRejection kind => trivial

theorem start_covered {state : IndexState} (calm : state.isStorm = false)
    (limits : IndexResourceLimits) : Covered (start state limits) := by
  intro storm
  rw [show (start state limits).coordinator.state = state from rfl, calm] at storm
  exact Bool.noConfusion storm

theorem start_counted (state : IndexState) (limits : IndexResourceLimits) : Counted (start state limits) :=
  ⟨rfl, fun _ among => absurd among not_mem_nil⟩

/-- When no storm is written behind the last look, the storm is over once all is quiet; so it is
when every change is completed after its `notify_change` has returned. -/
theorem storms_end (state : IndexState) (limits : IndexResourceLimits)
    (calm : state.isStorm = false) (ops : List Op) :
    (StepsMeet step InTime (start state limits) ops →
      Along step Recovered (start state limits) ops) ∧
    (StepsMeet step Returned (start state limits) ops →
      Along step Recovered (start state limits) ops) := by
  have ends (inTime : StepsMeet step InTime (start state limits) ops) :
      Along step Recovered (start state limits) ops := by
    have covered : Along step Covered (start state limits) ops :=
      along_of_steps step Covered InTime step_covered _ ops (start_covered calm limits) inTime
    exact along_mono step (fun _ => Covered.recovered) _ ops covered
  refine ⟨ends, fun returned => ends ?_⟩
  have counted : Along step Counted (start state limits) ops :=
    along_of_steps step Counted Returned step_counted _ ops (start_counted state limits) returned
  exact steps_meet_of_along step Counted InTime (fun _ op held => held.inTime op) _ ops counted

def sampleLimits : IndexResourceLimits := ⟨10000, 500000, 268435456⟩

def elevenChanges : List Op :=
  (List.replicate 11 [.notifyChange, .goOn 0 1 1]).flatten

def completes (place change : Nat) : List Op :=
  [.notifyParseComplete change, .goOn place 1 1]

/-- What the completion that finds the counter at zero does besides. -/
def looksOnce (place : Nat) : List Op := [.goOn place 1 1, .goOn place 1 1, .goOn place 1 1]

def stormThatEnds : List Op :=
  elevenChanges ++ [.goOn 0 1 1] ++ (List.range 11).flatMap (completes 0) ++ looksOnce 0

theorem storms_end_eleven :
    Along step Recovered (start (.building .idle 0 0) sampleLimits) stormThatEnds :=
  (storms_end _ _ rfl stormThatEnds).2 (by decide +kernel)

def stormWrittenLate : List Op :=
  elevenChanges ++ (List.range 11).flatMap (completes 1) ++ looksOnce 1 ++ [.goOn 0 1 1]

theorem late_storm_stays :
    ¬ Along step Recovered (start (.building .idle 0 0) sampleLimits) stormWrittenLate := by
  intro along
  have final := (along_iff_prefixes step _ _ _).mp along stormWrittenLate [] (append_nil _).symm
  have storm := final (by decide +kernel) (by decide +kernel)
  exact absurd storm (by decide +kernel)

end PerlLsp.ParseStorm
