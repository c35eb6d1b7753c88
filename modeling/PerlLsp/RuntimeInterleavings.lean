import PerlLsp.Runs
import PerlLsp.RuntimeGeneration
import Mathlib.Data.List.Nodup
import Mathlib.Data.List.Perm.Subperm

/-! The calls of `WorkspaceRuntimeController` interleaved. A call runs in sections,
each atomic under a lock; the sections of different calls mix freely, and only
`shutdown` waits for the calls under way. What holds of a generation that was
superseded or detached, and of the tasks registered under it, holds in every
interleaving. -/
namespace PerlLsp.RuntimeInterleavings
open List hiding getElem?_insert
open Std Runs Tables RuntimeGeneration Nat Controller

/-- A call between its two critical sections, with what it carries from the first. -/
inductive InFlight where
  | beginTransition (prior : RootEntry)
  | registerRootTask (handle : TaskHandle)

/-- The controller, the calls under way, and the history: the handles given out, the tasks
completed, and the generations superseded or detached. -/
structure System where
  controller : Controller
  inFlight : List InFlight
  registered : List TaskHandle
  completed : List Nat
  ended : List Generation

/-- One atomic section of a call. Calls that only read are not steps; what they answer is asked of
every state. -/
inductive Op where
  | beginTransition (rootId : Nat) (reason : TransitionReason) (inputs : Inputs)
  | registerRootTask (generation : Generation) (operationId : Nat)
  | resume (position : Nat)
  | completeTask (handle : TaskHandle)
  | completeTransition (generation : Generation) (resultingState : LifecycleState)
  | detachRoot (generation : Generation) (reason : TerminalReason)
  | shutdown

namespace System

def new (sessionId : Nat) : System where
  controller := .new sessionId
  inFlight := []
  registered := []
  completed := []
  ended := []

def resume (s : System) (position : Nat) : System :=
  match s.inFlight[position]? with
  | none => s
  | some (.beginTransition prior) =>
    { s with
      controller := (s.controller.settlePrior prior).2
      inFlight := s.inFlight.eraseIdx position }
  | some (.registerRootTask handle) =>
    let (result, controller) := s.controller.insertTask handle
    { s with
      controller := controller
      inFlight := s.inFlight.eraseIdx position
      registered := if result.isOk then handle :: s.registered else s.registered }

def step (s : System) : Op → System
  | .beginTransition rootId reason inputs =>
    match s.controller.installReplacement rootId reason inputs with
    | (.error _, controller) => { s with controller := controller }
    | (.ok (prior, _), controller) =>
      { s with
        controller := controller
        inFlight := prior.toList.map .beginTransition ++ s.inFlight
        ended := prior.toList.map RootEntry.generation ++ s.ended }
  | .registerRootTask generation operationId =>
    match s.controller.allocateTask generation operationId with
    | (.error _, controller) => { s with controller := controller }
    | (.ok handle, controller) =>
      { s with controller := controller, inFlight := .registerRootTask handle :: s.inFlight }
  | .resume position => s.resume position
  | .completeTask handle =>
    let (result, controller) := s.controller.completeTask handle
    { s with
      controller := controller
      completed := if result.isOk then handle.id :: s.completed else s.completed }
  | .completeTransition generation resultingState =>
    { s with controller := (s.controller.completeTransition generation resultingState).2 }
  | .detachRoot generation reason =>
    let (result, controller) := s.controller.detachRoot generation reason
    { s with
      controller := controller
      ended := if result.isOk then generation :: s.ended else s.ended }
  | .shutdown =>
    -- the facade's write gate waits until no call is inside its read gate
    if s.inFlight.isEmpty then { s with controller := s.controller.shutDown } else s

/-! Everything one step can do, with the guards under which it does it. -/

def displace (s : System) (rootId : Nat) (entry : RootEntry) : System :=
  let prior := s.controller.roots[rootId]?.toList
  { s with
    controller :=
      { s.controller with
        nextGeneration := s.controller.nextGeneration + 1
        roots := s.controller.roots.insert rootId entry }
    inFlight := prior.map .beginTransition ++ s.inFlight
    ended := prior.map RootEntry.generation ++ s.ended }

inductive Effect (s : System) : Op → System → Prop where
  | refused (op : Op) : Effect s op s
  | installed (rootId : Nat) (reason : TransitionReason) (inputs : Inputs)
      (serving : s.controller.shutdown = false) :
      Effect s (.beginTransition rootId reason inputs)
        (s.displace rootId
          ⟨⟨⟨s.controller.sessionId, rootId, s.controller.nextGeneration⟩, inputs⟩,
            reason.initialState, none, ∅⟩)
  | allocated (generation : Generation) (operationId : Nat)
      (serving : s.controller.shutdown = false) :
      Effect s (.registerRootTask generation operationId)
        { s with
          controller := { s.controller with nextTaskId := s.controller.nextTaskId + 1 }
          inFlight :=
            .registerRootTask ⟨s.controller.nextTaskId, operationId, generation⟩ :: s.inFlight }
  | settled (position : Nat) (prior : RootEntry)
      (waiting : s.inFlight[position]? = some (.beginTransition prior)) :
      Effect s (.resume position)
        { s with
          controller := (s.controller.settlePrior prior).2
          inFlight := s.inFlight.eraseIdx position }
  | rejected (position : Nat) (handle : TaskHandle)
      (waiting : s.inFlight[position]? = some (.registerRootTask handle)) :
      Effect s (.resume position) { s with inFlight := s.inFlight.eraseIdx position }
  | inserted (position : Nat) (handle : TaskHandle) (entry : RootEntry)
      (waiting : s.inFlight[position]? = some (.registerRootTask handle))
      (current : s.controller.Current handle.generation entry)
      (accepts : entry.lifecycleState.acceptsTaskRegistration = true) :
      Effect s (.resume position)
        { s with
          controller := s.controller.putEntry handle.generation.rootId
            { entry with tasks := entry.tasks.insert handle.id handle.operationId }
            s.controller.raised
          inFlight := s.inFlight.eraseIdx position
          registered := handle :: s.registered }
  | completed (handle : TaskHandle) (entry : RootEntry)
      (current : s.controller.Current handle.generation entry) :
      Effect s (.completeTask handle)
        { s with
          controller := s.controller.putEntry handle.generation.rootId
            { entry with tasks := entry.tasks.erase handle.id } s.controller.raised
          completed := handle.id :: s.completed }
  | transitioned (generation : Generation) (state : LifecycleState) (entry : RootEntry)
      (serving : s.controller.shutdown = false) (working : state.isTerminal = false)
      (keeping : state ≠ .removing) (current : s.controller.Current generation entry) :
      Effect s (.completeTransition generation state)
        { s with
          controller := s.controller.putEntry generation.rootId
            { entry with lifecycleState := state, terminalReason := none } s.controller.raised }
  | detached (generation : Generation) (reason : TerminalReason) (entry : RootEntry)
      (serving : s.controller.shutdown = false) (current : s.controller.Current generation entry) :
      Effect s (.detachRoot generation reason)
        { s with
          controller := s.controller.putEntry generation.rootId
            (entry.terminate .detached reason) (entry.tasks.keys ++ s.controller.raised)
          ended := generation :: s.ended }
  | shutDown (serving : s.controller.shutdown = false) (idle : s.inFlight = []) :
      Effect s .shutdown { s with controller := s.controller.shutDown }

theorem step_effect (s : System) (op : Op) : Effect s op (s.step op) := by
  cases op with
  | beginTransition rootId reason inputs =>
    obtain ⟨failure, refused⟩ | ⟨serving, done⟩ :=
      install_replacement_cases s.controller rootId reason inputs
    · simp only [step, refused]
      exact .refused _
    · simp only [step, done]
      exact .installed rootId reason inputs serving
  | registerRootTask generation operationId =>
    obtain ⟨failure, refused⟩ | ⟨serving, done⟩ :=
      allocate_task_cases s.controller generation operationId
    · simp only [step, refused]
      exact .refused _
    · simp only [step, done]
      exact .allocated generation operationId serving
  | resume position =>
    simp only [step, resume]
    cases waiting : s.inFlight[position]? with
    | none => exact .refused _
    | some call =>
      cases call with
      | beginTransition prior => exact .settled position prior waiting
      | registerRootTask handle =>
        obtain ⟨failure, refused⟩ | ⟨entry, current, accepts, done⟩ :=
          insert_task_cases s.controller handle
        · simp only [refused, Except.toBool]
          exact .rejected position handle waiting
        · simp only [done, Except.toBool]
          exact .inserted position handle entry waiting current accepts
  | completeTask handle =>
    obtain ⟨failure, refused⟩ | ⟨entry, current, done⟩ :=
      complete_task_cases s.controller handle
    · simp only [step, refused, Except.toBool]
      exact .refused _
    · simp only [step, done, Except.toBool]
      exact .completed handle entry current
  | completeTransition generation state =>
    obtain ⟨failure, refused⟩ | ⟨entry, serving, working, keeping, current, done⟩ :=
      complete_transition_cases s.controller generation state
    · simp only [step, refused]
      exact .refused _
    · simp only [step, done]
      exact .transitioned generation state entry serving working keeping current
  | detachRoot generation reason =>
    obtain ⟨failure, refused⟩ | ⟨entry, view, serving, current, done⟩ :=
      detach_root_cases s.controller generation reason
    · simp only [step, refused, Except.toBool]
      exact .refused _
    · simp only [step, done, Except.toBool]
      exact .detached generation reason entry serving current
  | shutdown =>
    by_cases idle : s.inFlight = []
    · by_cases closed : s.controller.shutdown = true
      · have same : s.controller.shutDown = s.controller := if_pos closed
        simp only [step, same]
        split <;> exact .refused _
      · simp only [step, idle, isEmpty_nil]
        rw [← idle]
        exact .shutDown (by simpa using closed) idle
    · have busy : s.inFlight.isEmpty = false := by simpa using idle
      simp only [step, busy]
      exact .refused _

structure RowOk (sessionId nextGeneration : Nat) (ended : List Generation) (rootId : Nat)
    (entry : RootEntry) : Prop where
  root : entry.generation.rootId = rootId
  session : entry.generation.sessionId = sessionId
  minted : entry.generation.sequence < nextGeneration
  terminalIdle : entry.lifecycleState.isTerminal = true → entry.tasks.isEmpty = true
  detachedEnded : entry.lifecycleState = .detached → entry.generation ∈ ended
  endedKept : entry.generation ∈ ended → entry.lifecycleState ≠ .removing

structure Consistent (s : System) : Prop where
  rows : ∀ (rootId : Nat) (entry : RootEntry), s.controller.roots[rootId]? = some entry →
    RowOk s.controller.sessionId s.controller.nextGeneration s.ended rootId entry
  endedOld : ∀ generation ∈ s.ended, generation.sequence < s.controller.nextGeneration
  stoppedIdle : s.controller.shutdown = true → s.inFlight = []
  stoppedRows : ∀ (rootId : Nat) (entry : RootEntry), s.controller.roots[rootId]? = some entry →
    (entry.lifecycleState = .shutdown ↔ s.controller.shutdown = true)

theorem consistent_new (sessionId : Nat) : Consistent (new sessionId) where
  rows rootId entry found := by simp [new, Controller.new] at found
  endedOld generation among := by cases among
  stoppedIdle closed := by cases closed
  stoppedRows rootId entry found := by simp [new, Controller.new] at found

/-- Rows other than the one rewritten keep to the rules when only the rewritten root's generations
are newly ended. -/
theorem Consistent.rows_insert (ok : Consistent s) (nextGeneration : Nat) (ended : List Generation)
    (rootId : Nat) (entry : RootEntry) (later : s.controller.nextGeneration ≤ nextGeneration)
    (grown : ∀ generation ∈ ended, generation.rootId = rootId ∨ generation ∈ s.ended)
    (kept : ∀ generation ∈ s.ended, generation ∈ ended)
    (added : RowOk s.controller.sessionId nextGeneration ended rootId entry) :
    ∀ other row, (s.controller.roots.insert rootId entry)[other]? = some row →
      RowOk s.controller.sessionId nextGeneration ended other row := by
  apply forall_insert _ (RowOk s.controller.sessionId nextGeneration ended) rootId entry _ added
  intro other row different found
  have before := ok.rows other row found
  refine ⟨before.root, before.session, Nat.lt_of_lt_of_le before.minted later,
    before.terminalIdle, fun detached => kept _ (before.detachedEnded detached), ?_⟩
  intro among
  obtain elsewhere | already := grown _ among
  · exact absurd (elsewhere.symm.trans before.root) different
  · exact before.endedKept already

theorem Consistent.put (ok : Consistent s) (generation : Generation) (entry after : RootEntry)
    (raised : Flags) (current : s.controller.Current generation entry)
    (same : after.generation = entry.generation) (ended : List Generation)
    (grown : ∀ g ∈ ended, g = generation ∨ g ∈ s.ended) (kept : ∀ g ∈ s.ended, g ∈ ended)
    (inFlight : List InFlight) (idle : after.lifecycleState.isTerminal = true → after.tasks.isEmpty = true)
    (detached : after.lifecycleState = .detached → generation ∈ ended)
    (steady : generation ∈ ended → after.lifecycleState ≠ .removing)
    (halted : s.controller.shutdown = true → inFlight = [])
    (stopped : after.lifecycleState = .shutdown ↔ s.controller.shutdown = true)
    (registered : List TaskHandle) (completed : List Nat) :
    Consistent ⟨s.controller.putEntry generation.rootId after raised, inFlight, registered,
      completed, ended⟩ := by
  obtain ⟨session, found, named⟩ := current
  have row := ok.rows generation.rootId entry found
  have carried : after.generation = generation := same.trans named
  refine ⟨?_, ?_, halted, ?_⟩
  · apply ok.rows_insert s.controller.nextGeneration ended generation.rootId after (Nat.le_refl _)
    · intro g among
      exact (grown g among).imp (congrArg Generation.rootId) id
    · exact kept
    · exact ⟨congrArg Generation.rootId carried, carried ▸ session, same ▸ row.minted, idle,
        carried ▸ detached, carried ▸ steady⟩
  · intro g among
    obtain rfl | already := grown g among
    · exact named ▸ row.minted
    · exact ok.endedOld g already
  · exact forall_insert _ (fun _ row => row.lifecycleState = .shutdown ↔ _) _ _
      (fun other row _ => ok.stoppedRows other row) stopped

theorem not_shutdown_iff {c : Controller} {state : LifecycleState} (serving : c.shutdown = false)
    (working : state ≠ .shutdown) : state = .shutdown ↔ c.shutdown = true :=
  ⟨fun same => absurd same working, fun closed => absurd (serving.symm.trans closed) (by decide)⟩

section
variable {s : System} (ok : Consistent s)
include s ok

theorem displaced_ended (rootId : Nat) (entry : RootEntry)
    (generation : Generation) (among : generation ∈ (s.displace rootId entry).ended) :
    (generation.rootId = rootId ∨ generation ∈ s.ended) ∧
      generation.sequence < s.controller.nextGeneration := by
  obtain displaced | already := mem_append.mp among
  · obtain ⟨prior, present, rfl⟩ := mem_map.mp displaced
    have row := ok.rows rootId prior (Option.mem_toList.mp present)
    exact ⟨.inl row.root, row.minted⟩
  · exact ⟨.inr already, ok.endedOld generation already⟩

theorem Consistent.installed
    (serving : s.controller.shutdown = false) (rootId : Nat) (reason : TransitionReason)
    (inputs : Inputs) : Consistent (s.displace rootId
      ⟨s.controller.nextContext rootId inputs, reason.initialState, none, ∅⟩) := by
  have working := reason.initialState.ne_terminal_of_working reason.initial_state_open
  refine ⟨?_, ?_, ?_, ?_⟩
  · apply ok.rows_insert (s.controller.nextGeneration + 1) _ rootId _ (le_succ _)
    · exact fun generation among => (displaced_ended ok rootId _ generation among).1
    · exact fun generation already => mem_append_right _ already
    · refine ⟨rfl, rfl, lt_succ_self _, fun _ => TreeMap.isEmpty_emptyc,
        fun detached => absurd detached working.1, fun among => ?_⟩
      -- the generation minted here is later than every ended one
      exact absurd (displaced_ended ok rootId _ _ among).2 (Nat.lt_irrefl _)
  · exact fun generation among =>
      lt_succ_of_lt (displaced_ended ok rootId _ generation among).2
  · exact fun closed => absurd (serving.symm.trans closed) (by decide)
  · apply forall_insert _ (fun _ row => row.lifecycleState = .shutdown ↔ _) rootId _
      (fun other row _ => ok.stoppedRows other row)
    exact not_shutdown_iff serving working.2

theorem Consistent.shutDown (serving : s.controller.shutdown = false) (idle : s.inFlight = []) :
    Consistent { s with controller := s.controller.shutDown } := by
  have shape := s.controller.shut_down_serving serving
  have session : s.controller.shutDown.sessionId = s.controller.sessionId := by rw [shape]
  have counter : s.controller.shutDown.nextGeneration = s.controller.nextGeneration := by
    rw [shape]
  refine ⟨?_, ?_, fun _ => idle, ?_⟩
  · intro rootId entry found
    obtain ⟨before, present, rfl⟩ := s.controller.shut_down_row serving rootId entry found
    have kept := ok.rows rootId before present
    exact ⟨kept.root, kept.session.trans session.symm, counter ▸ kept.minted,
      fun _ => TreeMap.isEmpty_emptyc, nofun, nofun⟩
  · exact fun generation among => counter ▸ ok.endedOld generation among
  · intro rootId entry found
    obtain ⟨before, -, rfl⟩ := s.controller.shut_down_row serving rootId entry found
    exact ⟨fun _ => by rw [shape], fun _ => rfl⟩

theorem serving_of_waiting (position : Nat) (call : InFlight)
    (waiting : s.inFlight[position]? = some call) : s.controller.shutdown = false := by
  cases closed : s.controller.shutdown with
  | false => rfl
  | true =>
    rw [ok.stoppedIdle closed] at waiting
    cases waiting

theorem Consistent.step (op : Op) : Consistent (s.step op) := by
  have effect := step_effect s op
  generalize s.step op = t at effect
  cases effect with
  | refused => exact ok
  | installed rootId reason inputs serving => exact ok.installed serving rootId reason inputs
  | allocated generation operationId serving =>
    exact ⟨ok.rows, ok.endedOld, fun closed => absurd (serving.symm.trans closed) (by decide),
      ok.stoppedRows⟩
  | settled position prior waiting | rejected position handle waiting =>
    have serving := serving_of_waiting ok position _ waiting
    exact ⟨ok.rows, ok.endedOld, fun closed => absurd (serving.symm.trans closed) (by decide),
      ok.stoppedRows⟩
  | inserted position handle entry waiting current accepts =>
    have serving := serving_of_waiting ok position _ waiting
    have row := ok.rows _ entry current.2.1
    refine ok.put handle.generation entry _ _ current ?_ s.ended (fun _ => .inr) (fun _ => id)
      _ ?_ ?_ ?_ (fun closed => absurd (serving.symm.trans closed) (by decide)) ?_ _ _
    · rfl
    · intro terminal
      rw [(entry.lifecycleState.closed_of_terminal terminal).1] at accepts
      cases accepts
    · exact fun detached => current.2.2 ▸ row.detachedEnded detached
    · exact fun among => row.endedKept (current.2.2 ▸ among)
    · exact ok.stoppedRows _ entry current.2.1
  | completed handle entry current =>
    have row := ok.rows _ entry current.2.1
    refine ok.put handle.generation entry _ _ current ?_ s.ended (fun _ => .inr) (fun _ => id)
      _ ?_ ?_ ?_ ok.stoppedIdle ?_ _ _
    · rfl
    · intro terminal
      rw [TreeMap.isEmpty_erase, row.terminalIdle terminal]
      rfl
    · exact fun detached => current.2.2 ▸ row.detachedEnded detached
    · exact fun among => row.endedKept (current.2.2 ▸ among)
    · exact ok.stoppedRows _ entry current.2.1
  | transitioned generation state entry serving working keeping current =>
    refine ok.put generation entry _ _ current ?_ s.ended (fun _ => .inr) (fun _ => id)
      _ ?_ ?_ ?_ (fun closed => absurd (serving.symm.trans closed) (by decide)) ?_ _ _
    · rfl
    · exact fun terminal => absurd (working.symm.trans terminal) (by decide)
    · exact fun detached => absurd detached (state.ne_terminal_of_working working).1
    · exact fun _ => keeping
    · exact not_shutdown_iff serving (state.ne_terminal_of_working working).2
  | detached generation reason entry serving current =>
    refine ok.put generation entry _ _ current ?_ (generation :: s.ended)
      (fun _ => mem_cons.mp) (fun _ => mem_cons_of_mem _) _ ?_ ?_ ?_
      (fun closed => absurd (serving.symm.trans closed) (by decide)) ?_ _ _
    · rfl
    · exact fun _ => TreeMap.isEmpty_emptyc
    · exact fun _ => mem_cons_self
    · exact fun _ => nofun
    · exact not_shutdown_iff serving nofun
  | shutDown serving idle => exact ok.shutDown serving idle

end

structure Closed (c : Controller) (generation : Generation) : Prop where
  publication : c.acceptPublication generation ≠ .ok ()
  admission : ∀ handle, handle.generation = generation → (c.insertTask handle).1 ≠ .ok ()
  registration : ∀ operationId handle, (c.registerRootTask generation operationId).1 ≠ .ok handle
  exactUse : c.exactUseAvailable generation ≠ .ok true
  active : ∀ view, c.currentRootContext generation.rootId = some view →
    view.context.generation = generation → view.lifecycleState ≠ .activeCurrent

def EndedClosed (s : System) : Prop :=
  ∀ generation ∈ s.ended, Closed s.controller generation

/-- A late `complete_transition` for a root that was detached in the meantime. -/
def RevivesDetached (s : System) : Op → Prop
  | .completeTransition generation state =>
    s.controller.shutdown = false ∧ state.isTerminal = false ∧ state ≠ .removing ∧
      ∃ entry, s.controller.Current generation entry ∧ entry.lifecycleState = .detached
  | _ => False

def Sealed (s : System) : Prop :=
  ∀ (rootId : Nat) (entry : RootEntry), s.controller.roots[rootId]? = some entry →
    entry.generation ∈ s.ended → entry.lifecycleState.isTerminal = true

theorem closed_of_terminal (s : System) (ok : Consistent s) (generation : Generation)
    (terminal : ∀ entry, s.controller.Current generation entry →
      entry.lifecycleState.isTerminal = true) : Closed s.controller generation := by
  have shut : ∀ entry, s.controller.Current generation entry →
      entry.lifecycleState.acceptsTaskRegistration = false ∧
        entry.lifecycleState.acceptsPublication = false ∧
        entry.lifecycleState.exactUseAvailable = false :=
    fun entry current => entry.lifecycleState.closed_of_terminal (terminal entry current)
  refine ⟨?_, ?_, ?_, ?_, ?_⟩
  · intro accepted
    obtain ⟨-, entry, current, accepts⟩ :=
      accept_publication_accepted s.controller generation accepted
    exact absurd ((shut entry current).2.1.symm.trans accepts) (by decide)
  · rintro handle rfl accepted
    obtain ⟨entry, current, accepts⟩ :=
      (insert_task_accepted s.controller handle).mp accepted
    exact absurd ((shut entry current).1.symm.trans accepts) (by decide)
  · intro operationId handle accepted
    obtain ⟨entry, current, accepts⟩ :=
      register_root_task_accepted s.controller generation operationId handle accepted
    exact absurd ((shut entry current).1.symm.trans accepts) (by decide)
  · intro accepted
    obtain ⟨-, entry, current, accepts⟩ :=
      exact_use_available_accepted s.controller generation accepted
    exact absurd ((shut entry current).2.2.symm.trans accepts) (by decide)
  · intro view seen carried active
    obtain ⟨entry, found, rfl⟩ := Option.map_eq_some_iff.mp seen
    have session := (ok.rows generation.rootId entry found).session
    have named : entry.generation = generation := carried
    have open' := (shut entry ⟨named ▸ session, found, named⟩).2.2
    rw [show entry.lifecycleState = .activeCurrent from active] at open'
    cases open'

theorem ended_closed_iff_sealed (s : System) (ok : Consistent s) : EndedClosed s ↔ Sealed s := by
  constructor
  · intro closed rootId entry found among
    have row := ok.rows rootId entry found
    have current : s.controller.Current entry.generation entry :=
      ⟨row.session, row.root.symm ▸ found, rfl⟩
    have shut := (closed entry.generation among).admission ⟨0, 0, entry.generation⟩ rfl
    have refused : entry.lifecycleState.acceptsTaskRegistration ≠ true := fun accepts =>
      shut ((insert_task_accepted s.controller _).mpr ⟨entry, current, accepts⟩)
    have kept := row.endedKept among
    cases state : entry.lifecycleState <;> rw [state] at refused kept <;>
      first | rfl | exact absurd rfl refused | exact absurd rfl kept
  · intro sealedRows generation among
    apply closed_of_terminal s ok generation
    rintro entry ⟨-, found, rfl⟩
    exact sealedRows _ entry found among

theorem sealed_put (ok : Consistent s) (before : Sealed s) (generation : Generation)
    (after : RootEntry) (raised : Flags) (ended : List Generation)
    (grown : ∀ g ∈ ended, g = generation ∨ g ∈ s.ended) (inFlight : List InFlight)
    (registered : List TaskHandle) (completed : List Nat)
    (shut : after.generation ∈ ended → after.lifecycleState.isTerminal = true) :
    Sealed ⟨s.controller.putEntry generation.rootId after raised, inFlight, registered,
      completed, ended⟩ := by
  refine forall_insert s.controller.roots
    (fun _ row => row.generation ∈ ended → row.lifecycleState.isTerminal = true) _ _ ?_ shut
  intro other row different found among
  obtain same | already := grown row.generation among
  · have root := (ok.rows other row found).root
    exact absurd ((congrArg Generation.rootId same).symm.trans root) different
  · exact before other row found already

/-- A revival leaves an ended generation in a state that admits tasks. -/
theorem revived_not_sealed (s : System) (ok : Consistent s) (op : Op)
    (revives : RevivesDetached s op) : ¬ Sealed (s.step op) := by
  cases op with
  | completeTransition generation state =>
    obtain ⟨serving, working, keeping, entry, current, detached⟩ := revives
    have done := complete_transition_done s.controller generation state entry serving working keeping current
    intro sealedRows
    have terminal := sealedRows generation.rootId
      { entry with lifecycleState := state, terminalReason := none }
      (by simp only [step, done, putEntry, getElem?_insert, if_true])
      ((ok.rows _ entry current.2.1).detachedEnded detached)
    exact absurd (working.symm.trans terminal) (by decide)
  | _ => exact revives.elim

theorem sealed_step (s : System) (ok : Consistent s) (before : Sealed s) (op : Op)
    (steady : ¬ RevivesDetached s op) : Sealed (s.step op) := by
  have effect := step_effect s op
  generalize s.step op = t at effect
  cases effect with
  | refused => exact before
  | installed rootId reason inputs serving =>
    refine forall_insert s.controller.roots (fun _ row => row.generation ∈ _ →
      row.lifecycleState.isTerminal = true) _ _ ?_ fun among => ?_
    · intro other row different found among
      obtain elsewhere | already := (displaced_ended ok rootId _ _ among).1
      · exact absurd (elsewhere.symm.trans (ok.rows other row found).root) different
      · exact before other row found already
    · exact absurd (displaced_ended ok rootId _ _ among).2 (Nat.lt_irrefl _)
  | allocated => exact before
  | settled => exact before
  | rejected => exact before
  | inserted position handle entry waiting current accepts | completed handle entry current =>
    exact sealed_put ok before handle.generation _ _ s.ended (fun _ => .inr) _ _ _
      (before _ entry current.2.1)
  | transitioned generation state entry serving working keeping current =>
    refine sealed_put ok before generation _ _ s.ended (fun _ => .inr) _ _ _ fun among => ?_
    have terminal := before _ entry current.2.1 among
    have running : entry.lifecycleState ≠ .shutdown := fun stopped =>
      absurd (serving.symm.trans ((ok.stoppedRows _ entry current.2.1).mp stopped)) (by decide)
    have detached := (entry.lifecycleState.terminal_cases terminal).resolve_right running
    exact absurd ⟨serving, working, keeping, entry, current, detached⟩ steady
  | detached generation reason entry serving current =>
    exact sealed_put ok before generation _ _ (generation :: s.ended) (fun _ => mem_cons.mp)
      _ _ _ fun _ => rfl
  | shutDown serving idle =>
    intro rootId entry found _
    obtain ⟨prior, -, rfl⟩ := s.controller.shut_down_row serving rootId entry found
    rfl

/-- Along every run, an ended generation stays closed exactly as long as no late
`complete_transition` names a detached root. -/
theorem ended_generation_stays_closed (sessionId : Nat) (ops : List Op) :
    Along step EndedClosed (new sessionId) ops ↔
      StepsMeet step (fun s op => ¬ RevivesDetached s op) (new sessionId) ops := by
  have first := consistent_new sessionId
  have kept : ∀ s op, Consistent s → Consistent (s.step op) := fun _ op ok => ok.step op
  calc Along step EndedClosed (new sessionId) ops
      ↔ Along step (fun s => Consistent s ∧ Sealed s) (new sessionId) ops :=
        along_iff_of_invariant step Consistent _ _ kept
          (fun s ok => (ended_closed_iff_sealed s ok).trans (and_iff_right ok).symm) _ ops first
    _ ↔ StepsMeet step (fun s op => ¬ RevivesDetached s op) (new sessionId) ops := by
        apply along_iff_steps
        · rintro s op ⟨ok, before⟩
          exact ⟨fun after revives => revived_not_sealed s ok op revives after.2,
            fun steady => ⟨ok.step op, sealed_step s ok before op steady⟩⟩
        · exact ⟨first, fun rootId entry found => by simp [new, Controller.new] at found⟩

/-- A root is added, its generation detached, and the completion of the phase still under way
arrives afterwards. -/
def lateCompletion : List Op :=
  [.beginTransition 7 .addRoot ⟨1, 1, 1, 1, 1, 1, 1⟩, .detachRoot ⟨0, 7, 1⟩ .removed,
    .completeTransition ⟨0, 7, 1⟩ .activeCurrent]

theorem late_completion_not_closed :
    (run step (new 0) lateCompletion).controller.acceptPublication ⟨0, 7, 1⟩ = .ok () ∧
      ¬ Along step EndedClosed (new 0) lateCompletion := by
  have published : (run step (new 0) lateCompletion).controller.acceptPublication ⟨0, 7, 1⟩ =
      .ok () := by decide
  refine ⟨published, fun along => ?_⟩
  have last := (along_iff_prefixes step EndedClosed (new 0) lateCompletion).mp along
    lateCompletion [] rfl
  exact (last ⟨0, 7, 1⟩ (by decide)).publication published

def InFlight.task? : InFlight → Option Nat
  | .beginTransition _ => none
  | .registerRootTask handle => some handle.id

def taskIds (s : System) : List Nat :=
  s.inFlight.filterMap InFlight.task? ++ s.registered.map TaskHandle.id

/-- An entry of the task's generation still owns it: the root's own entry, or one displaced by a
`begin_transition` and not yet settled. -/
def Held (s : System) (handle : TaskHandle) : Prop :=
  ∃ entry : RootEntry, entry.generation = handle.generation ∧ handle.id ∈ entry.tasks ∧
    (.beginTransition entry ∈ s.inFlight ∨
      s.controller.roots[handle.generation.rootId]? = some entry)

def Accounted (s : System) : Prop :=
  ∀ handle ∈ s.registered,
    handle.id ∈ s.completed ∨ handle.id ∈ s.controller.raised ∨ Held s handle

structure Identified (s : System) : Prop where
  distinct : s.taskIds.Nodup
  allocated : ∀ id ∈ s.taskIds, id < s.controller.nextTaskId

theorem taken_perm {calls : List InFlight} (position : Nat) (call : InFlight)
    (waiting : calls[position]? = some call) : (call :: calls.eraseIdx position).Perm calls := by
  obtain ⟨within, rfl⟩ := List.getElem?_eq_some_iff.mp waiting
  exact getElem_cons_eraseIdx_perm within

theorem Identified.of_subperm {t : System} (ok : Identified s) (known : t.taskIds.Subperm s.taskIds)
    (counter : s.controller.nextTaskId = t.controller.nextTaskId) : Identified t where
  distinct := by
    obtain ⟨same, perm, sub⟩ := known
    exact perm.nodup_iff.mp (ok.distinct.sublist sub)
  allocated id among := counter ▸ ok.allocated id (known.subset among)

theorem Identified.step (ok : Identified s) (op : Op) : Identified (s.step op) := by
  have effect := step_effect s op
  generalize s.step op = t at effect
  cases effect with
  | refused => exact ok
  | installed rootId reason inputs serving =>
    refine ok.of_subperm (List.Perm.subperm (.of_eq ?_)) rfl
    simp [taskIds, displace, InFlight.task?, Function.comp_def]
  | allocated generation operationId serving =>
    have known : ∀ id ∈ s.taskIds, id < s.controller.nextTaskId := ok.allocated
    refine ⟨nodup_cons.mpr ⟨fun among => ?_, ok.distinct⟩, fun id among => ?_⟩
    · exact Nat.lt_irrefl _ (known _ among)
    · obtain rfl | already := mem_cons.mp among
      · exact lt_succ_self _
      · exact lt_succ_of_lt (known id already)
  | settled position prior waiting =>
    have taken := (taken_perm position _ waiting).filterMap InFlight.task?
    exact ok.of_subperm (taken.append_right _).subperm rfl
  | rejected position handle waiting =>
    have taken := (taken_perm position _ waiting).filterMap InFlight.task?
    refine ok.of_subperm (List.Subperm.trans ?_ (taken.append_right _).subperm) rfl
    exact (sublist_cons_self handle.id _).subperm
  | inserted position handle entry waiting current accepts =>
    have taken := (taken_perm position _ waiting).filterMap InFlight.task?
    refine ok.of_subperm (List.Perm.subperm ?_) rfl
    exact perm_middle.trans (taken.append_right _)
  | completed | transitioned | detached => exact ok.of_subperm (.refl _) rfl
  | shutDown serving idle =>
    refine ok.of_subperm (.refl _) ?_
    rw [s.controller.shut_down_serving serving]

theorem accounted_of {t : System} (before : Accounted s)
    (admitted : ∀ handle ∈ t.registered, handle ∈ s.registered ∨ Held t handle)
    (settled : ∀ id ∈ s.completed, id ∈ t.completed)
    (raised : ∀ id ∈ s.controller.raised, id ∈ t.controller.raised)
    (carried : ∀ handle, Held s handle → handle.id ∈ t.completed ∨ handle.id ∈ t.controller.raised ∨
      Held t handle) : Accounted t := by
  intro handle among
  obtain already | held := admitted handle among
  · obtain done | cancelled | held := before handle already
    · exact .inl (settled _ done)
    · exact .inr (.inl (raised _ cancelled))
    · exact carried handle held
  · exact .inr (.inr held)

theorem begin_still_waiting {calls : List InFlight} (position : Nat) (call : InFlight)
    (waiting : calls[position]? = some call) (entry : RootEntry) (among : .beginTransition entry ∈ calls) :
    call = .beginTransition entry ∨ .beginTransition entry ∈ calls.eraseIdx position :=
  (mem_cons.mp ((taken_perm position call waiting).mem_iff.mpr among)).imp Eq.symm id

/-- Rewriting the row of a generation that may act carries every held task the new row still holds.
-/
theorem held_put (generation : Generation) (entry after : RootEntry) (raised : Flags)
    (current : s.controller.Current generation entry) (same : after.generation = entry.generation)
    (inFlight : List InFlight)
    (waiting : ∀ call, .beginTransition call ∈ s.inFlight → .beginTransition call ∈ inFlight)
    (registered : List TaskHandle) (completed : List Nat) (ended : List Generation)
    (handle : TaskHandle) (held : Held s handle) : (handle.id ∈ entry.tasks ∧ handle.id ∉ after.tasks) ∨
      Held ⟨s.controller.putEntry generation.rootId after raised, inFlight, registered, completed,
        ended⟩ handle := by
  obtain ⟨holder, named, owns, displaced | rooted⟩ := held
  · exact .inr ⟨holder, named, owns, .inl (waiting holder displaced)⟩
  by_cases root : generation.rootId = handle.generation.rootId
  · have here : entry = holder := by
      rw [← root, current.2.1] at rooted
      exact Option.some.inj rooted
    subst here
    by_cases kept : handle.id ∈ after.tasks
    · refine .inr ⟨after, same.trans named, kept, .inr ?_⟩
      exact (getElem?_insert _ _ _ _).trans (if_pos root)
    · exact .inl ⟨owns, kept⟩
  · refine .inr ⟨holder, named, owns, .inr ?_⟩
    exact ((getElem?_insert _ _ _ _).trans (if_neg root)).trans rooted

theorem Accounted.step (before : Accounted s) (op : Op) : Accounted (s.step op) := by
  have effect := step_effect s op
  generalize s.step op = t at effect
  cases effect with
  | refused => exact before
  | installed rootId reason inputs serving =>
    refine accounted_of before (fun _ => .inl) (fun _ => id) (fun _ => id) fun handle held => ?_
    obtain ⟨holder, named, owns, displaced | rooted⟩ := held
    · exact .inr (.inr ⟨holder, named, owns, .inl (mem_append_right _ displaced)⟩)
    refine .inr (.inr ⟨holder, named, owns, ?_⟩)
    by_cases root : rootId = handle.generation.rootId
    · refine .inl (mem_append_left _ (mem_map_of_mem ?_))
      exact Option.mem_toList.mpr (root ▸ rooted)
    · exact .inr (((getElem?_insert _ _ _ _).trans (if_neg root)).trans rooted)
  | allocated generation operationId serving =>
    refine accounted_of before (fun _ => .inl) (fun _ => id) (fun _ => id) fun handle held => ?_
    obtain ⟨holder, named, owns, place⟩ := held
    exact .inr (.inr ⟨holder, named, owns, place.imp_left (mem_cons_of_mem _)⟩)
  | settled position prior waiting =>
    refine accounted_of before (fun _ => .inl) (fun _ => id)
      (fun _ => mem_append_right _) fun handle held => ?_
    obtain ⟨holder, named, owns, displaced | rooted⟩ := held
    · obtain same | still := begin_still_waiting position _ waiting holder displaced
      · cases same
        exact .inr (.inl (mem_append_left _ (TreeMap.mem_keys.mpr owns)))
      · exact .inr (.inr ⟨holder, named, owns, .inl still⟩)
    · exact .inr (.inr ⟨holder, named, owns, .inr rooted⟩)
  | rejected position handle waiting =>
    refine accounted_of before (fun _ => .inl) (fun _ => id) (fun _ => id) fun handle held => ?_
    obtain ⟨holder, named, owns, place⟩ := held
    refine .inr (.inr ⟨holder, named, owns, place.imp_left fun displaced => ?_⟩)
    exact (begin_still_waiting position _ waiting holder displaced).resolve_left nofun
  | inserted position handle entry waiting current accepts =>
    have still : ∀ call, .beginTransition call ∈ s.inFlight →
        .beginTransition call ∈ s.inFlight.eraseIdx position := fun call displaced =>
      (begin_still_waiting position _ waiting call displaced).resolve_left nofun
    let after := { entry with tasks := entry.tasks.insert handle.id handle.operationId }
    refine accounted_of before (fun task among => ?_) (fun _ => id) (fun _ => id) fun task held => ?_
    · obtain rfl | already := mem_cons.mp among
      · refine .inr ⟨after, current.2.2, TreeMap.mem_insert_self, .inr ?_⟩
        exact (getElem?_insert _ _ _ _).trans (if_pos rfl)
      · exact .inl already
    · obtain ⟨owns, dropped⟩ | held := held_put handle.generation entry after
        s.controller.raised current rfl _ still (handle :: s.registered) s.completed s.ended
        task held
      · exact absurd (TreeMap.mem_insert.mpr (.inr owns)) dropped
      · exact .inr (.inr held)
  | completed handle entry current =>
    refine accounted_of before (fun _ => .inl) (fun _ => mem_cons_of_mem _) (fun _ => id) fun task held => ?_
    obtain ⟨owns, dropped⟩ | held := held_put handle.generation entry
      { entry with tasks := entry.tasks.erase handle.id } s.controller.raised current rfl
      s.inFlight (fun _ => id) s.registered (handle.id :: s.completed) s.ended task held
    · refine .inl (mem_cons.mpr (.inl ?_))
      by_contra different
      exact dropped (TreeMap.mem_erase.mpr ⟨by simpa using Ne.symm different, owns⟩)
    · exact .inr (.inr held)
  | transitioned generation state entry serving working keeping current =>
    refine accounted_of before (fun _ => .inl) (fun _ => id) (fun _ => id) fun task held => ?_
    obtain ⟨owns, dropped⟩ | held := held_put generation entry
      { entry with lifecycleState := state, terminalReason := none } s.controller.raised current
      rfl s.inFlight (fun _ => id) s.registered s.completed s.ended task held
    · exact absurd owns dropped
    · exact .inr (.inr held)
  | detached generation reason entry serving current =>
    refine accounted_of before (fun _ => .inl) (fun _ => id)
      (fun _ => mem_append_right _) fun task held => ?_
    obtain ⟨owns, -⟩ | held := held_put generation entry (entry.terminate .detached reason)
      (entry.tasks.keys ++ s.controller.raised) current rfl s.inFlight (fun _ => id)
      s.registered s.completed (generation :: s.ended) task held
    · exact .inr (.inl (mem_append_left _ (TreeMap.mem_keys.mpr owns)))
    · exact .inr (.inr held)
  | shutDown serving idle =>
    have shape := s.controller.shut_down_serving serving
    refine accounted_of before (fun _ => .inl) (fun _ => id) (fun id already => ?_) fun task held => ?_
    · rw [shape]
      exact (mem_cancelled _ _ _).mpr (.inr already)
    · obtain ⟨holder, named, owns, displaced | rooted⟩ := held
      · rw [idle] at displaced
        cases displaced
      · refine .inr (.inl ?_)
        rw [shape]
        exact (mem_cancelled _ _ _).mpr (.inl ⟨holder, mem_rows _ _ _ rooted, owns⟩)

def currentGeneration (c : Controller) (rootId : Nat) : Option Generation :=
  c.roots[rootId]?.map RootEntry.generation

structure Serialized (s : System) : Prop where
  advancing : ∀ op rootId before, currentGeneration s.controller rootId = some before →
    ∃ after, currentGeneration (s.step op).controller rootId = some after ∧
      (after = before ∨ before.sequence < after.sequence)
  replaced : ∀ rootId reason inputs context before,
    (s.controller.beginTransition rootId reason inputs).1 = .ok context →
    currentGeneration s.controller rootId = some before →
    currentGeneration (s.controller.beginTransition rootId reason inputs).2 rootId =
        some context.generation ∧
      before.sequence < context.generation.sequence
  exclusive : ∀ left right, left.rootId = right.rootId →
    s.controller.acceptPublication left = .ok () →
    s.controller.acceptPublication right = .ok () → left = right
  identified : Identified s
  accounted : Accounted s
  cancelled : ∀ handle ∈ s.registered, handle.id ∉ s.completed →
    s.controller.isCurrent handle.generation = false →
    (∀ prior, .beginTransition prior ∈ s.inFlight → prior.generation ≠ handle.generation) →
    handle.id ∈ s.controller.raised
  cancelledForGood : ∀ op id, id ∈ s.controller.raised → id ∈ (s.step op).controller.raised
  stoppedForGood : s.controller.shutdown = true →
    s.inFlight = [] ∧ ∀ op, (s.step op).controller.shutdown = true
  stopped : s.controller.shutdown = true →
    (∀ rootId reason inputs,
      (s.controller.beginTransition rootId reason inputs).1 = .error .controllerShutdown) ∧
    ∀ generation,
      (∀ operationId,
        (s.controller.registerRootTask generation operationId).1 = .error .controllerShutdown) ∧
      s.controller.acceptPublication generation = .error .controllerShutdown ∧
      s.controller.exactUseAvailable generation = .error .controllerShutdown ∧
      (∀ state, (s.controller.completeTransition generation state).1 = .error .controllerShutdown) ∧
      ∀ reason, (s.controller.detachRoot generation reason).1 = .error .controllerShutdown

theorem current_generation_put (c : Controller) (generation : Generation)
    (entry after : RootEntry) (raised : Flags) (current : c.Current generation entry)
    (same : after.generation = entry.generation) (rootId : Nat) :
    currentGeneration (c.putEntry generation.rootId after raised) rootId = currentGeneration c rootId := by
  unfold currentGeneration putEntry
  rw [getElem?_insert]
  by_cases root : generation.rootId = rootId
  · rw [if_pos root, ← root, current.2.1]
    exact congrArg some same
  · rw [if_neg root]

theorem generation_advances (s : System) (ok : Consistent s) (op : Op) (rootId : Nat)
    (before : Generation) (known : currentGeneration s.controller rootId = some before) :
    ∃ after, currentGeneration (s.step op).controller rootId = some after ∧
      (after = before ∨ before.sequence < after.sequence) := by
  have effect := step_effect s op
  generalize s.step op = t at effect
  cases effect with
  | refused | allocated | settled | rejected => exact ⟨before, known, .inl rfl⟩
  | installed root reason inputs serving =>
    by_cases same : root = rootId
    · obtain ⟨entry, found, rfl⟩ := Option.map_eq_some_iff.mp known
      refine ⟨(s.controller.nextContext root inputs).generation, ?_,
        .inr (ok.rows rootId entry found).minted⟩
      exact congrArg (Option.map RootEntry.generation) ((getElem?_insert _ _ _ _).trans (if_pos same))
    · refine ⟨before, ?_, .inl rfl⟩
      rw [← known]
      exact congrArg (Option.map RootEntry.generation) ((getElem?_insert _ _ _ _).trans (if_neg same))
  | inserted position handle entry waiting current accepts | completed handle entry current
  | transitioned generation state entry serving working keeping current
  | detached generation reason entry serving current =>
    refine ⟨before, (current_generation_put _ _ entry _ _ current ?_ _).trans known, .inl rfl⟩
    rfl
  | shutDown serving idle =>
    refine ⟨before, ?_, .inl rfl⟩
    rw [← known]
    simp [currentGeneration, s.controller.shut_down_serving serving, TreeMap.getElem?_map, Function.comp_def]

theorem replacement_is_later (s : System) (ok : Consistent s) (rootId : Nat)
    (reason : TransitionReason) (inputs : Inputs) (context : Context) (before : Generation)
    (minted : (s.controller.beginTransition rootId reason inputs).1 = .ok context)
    (known : currentGeneration s.controller rootId = some before) :
    currentGeneration (s.controller.beginTransition rootId reason inputs).2 rootId =
        some context.generation ∧
      before.sequence < context.generation.sequence := by
  obtain ⟨entry, found, rfl⟩ := Option.map_eq_some_iff.mp known
  unfold beginTransition at minted ⊢
  obtain ⟨failure, refused⟩ | ⟨-, done⟩ :=
    install_replacement_cases s.controller rootId reason inputs
  · rw [refused] at minted
    cases minted
  simp only [done, found] at minted ⊢
  cases minted
  refine ⟨?_, (ok.rows rootId entry found).minted⟩
  exact congrArg (Option.map RootEntry.generation) ((getElem?_insert _ _ _ _).trans (if_pos rfl))

theorem accepted_generation_unique (c : Controller) (left right : Generation)
    (root : left.rootId = right.rootId) (one : c.acceptPublication left = .ok ())
    (two : c.acceptPublication right = .ok ()) : left = right := by
  obtain ⟨-, first, current, -⟩ := c.accept_publication_accepted left one
  obtain ⟨-, second, other, -⟩ := c.accept_publication_accepted right two
  have here := current.2.1
  rw [root, other.2.1] at here
  cases here
  exact current.2.2.symm.trans other.2.2

theorem ended_task_cancelled (s : System) (ok : Consistent s) (accounted : Accounted s)
    (handle : TaskHandle) (among : handle ∈ s.registered) (open' : handle.id ∉ s.completed)
    (ended : s.controller.isCurrent handle.generation = false)
    (settled : ∀ prior, .beginTransition prior ∈ s.inFlight →
      prior.generation ≠ handle.generation) : handle.id ∈ s.controller.raised := by
  obtain done | cancelled | ⟨entry, named, owns, displaced | rooted⟩ := accounted handle among
  · exact absurd done open'
  · exact cancelled
  · exact absurd named (settled entry displaced)
  · have terminal : entry.view.lifecycleState.isTerminal = true := by
      have seen : s.controller.currentRootContext handle.generation.rootId = some entry.view :=
        congrArg (Option.map RootEntry.view) rooted
      simp only [isCurrent, seen] at ended
      have same : entry.view.context.generation = handle.generation := named
      simpa only [same, beq_self_eq_true, Bool.true_and, Bool.not_eq_false'] using ended
    have idle := (ok.rows _ entry rooted).terminalIdle terminal
    exact absurd owns (TreeMap.not_mem_of_isEmpty idle)

theorem raised_for_good (s : System) (op : Op) (id : Nat) (raised : id ∈ s.controller.raised) :
    id ∈ (s.step op).controller.raised := by
  have effect := step_effect s op
  generalize s.step op = t at effect
  cases effect with
  | settled | detached => exact mem_append_right _ raised
  | shutDown serving idle =>
    rw [s.controller.shut_down_serving serving]
    exact (mem_cancelled _ _ _).mpr (.inr raised)
  | _ => exact raised

theorem shutdown_for_good (s : System) (op : Op) (closed : s.controller.shutdown = true) :
    (s.step op).controller.shutdown = true := by
  have effect := step_effect s op
  generalize s.step op = t at effect
  cases effect with
  | shutDown serving idle => rw [s.controller.shut_down_serving serving]
  | _ => exact closed

theorem stopped_refuses (c : Controller) (closed : c.shutdown = true) :
    (∀ rootId reason inputs, (c.beginTransition rootId reason inputs).1 = .error .controllerShutdown) ∧
    ∀ generation,
      (∀ operationId, (c.registerRootTask generation operationId).1 = .error .controllerShutdown) ∧
      c.acceptPublication generation = .error .controllerShutdown ∧
      c.exactUseAvailable generation = .error .controllerShutdown ∧
      (∀ state, (c.completeTransition generation state).1 = .error .controllerShutdown) ∧
      ∀ reason, (c.detachRoot generation reason).1 = .error .controllerShutdown := by
  have stopped : c.ensureNotShutdown = .error .controllerShutdown := if_pos closed
  refine ⟨fun rootId reason inputs => ?_, fun generation =>
    ⟨fun operationId => ?_, ?_, ?_, fun state => ?_, fun reason => ?_⟩⟩
  · simp only [beginTransition, installReplacement, closed, if_true]
  · simp only [registerRootTask, allocateTask, stopped]
  · rw [acceptPublication, stopped]
    rfl
  · rw [exactUseAvailable, stopped]
    rfl
  · simp only [completeTransition, stopped]
  · simp only [detachRoot, stopped]

theorem every_interleaving_serialized (sessionId : Nat) (ops : List Op) :
    Along step Serialized (new sessionId) ops := by
  have along : Along step (fun s => Consistent s ∧ Identified s ∧ Accounted s) (new sessionId) ops := by
    apply along_of_invariant
    · rintro s op ⟨ok, identified, accounted⟩
      exact ⟨ok.step op, identified.step op, accounted.step op⟩
    · exact ⟨consistent_new sessionId, ⟨nodup_nil, nofun⟩, nofun⟩
  refine along_mono step ?_ _ ops along
  rintro s ⟨ok, identified, accounted⟩
  exact {
    advancing := generation_advances s ok
    replaced := replacement_is_later s ok
    exclusive := accepted_generation_unique s.controller
    identified := identified
    accounted := accounted
    cancelled := ended_task_cancelled s ok accounted
    cancelledForGood := raised_for_good s
    stoppedForGood := fun closed =>
      ⟨ok.stoppedIdle closed, fun op => shutdown_for_good s op closed⟩
    stopped := stopped_refuses s.controller }

end System

end PerlLsp.RuntimeInterleavings
