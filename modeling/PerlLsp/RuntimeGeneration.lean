import PerlLsp.Tables

/-! `WorkspaceRuntimeController` of workspace/runtime_generation.rs and the core it wraps,
runtime_generation/core.rs. The identities are natural numbers; the two counters stop at the largest
u64. A task's cancellation flag is shared, so the raised flags form a store of their own, keyed by
the task's identity. The window of observations is read by no operation; it is left out, with the
publication's class. -/
namespace PerlLsp.RuntimeGeneration
open Std Tables

def u64Max : Nat := 18446744073709551615

structure Inputs where
  workspaceId : Nat
  workspaceFolderGeneration : Nat
  configurationGeneration : Nat
  trustGeneration : Nat
  environmentIdentity : Nat
  hostProfile : Nat
  sourceAuthorityVersion : Nat
  deriving DecidableEq

structure Generation where
  sessionId : Nat
  rootId : Nat
  sequence : Nat
  deriving DecidableEq

inductive LifecycleState where
  | creating
  | initializingLocalAuthority
  | loadingSnapshotCandidate
  | indexingOrRecomputing
  | activeCurrent
  | reconfiguring
  | trustTransition
  | removing
  | detached
  | shutdown
  | failedOrLimited
  deriving DecidableEq

namespace LifecycleState

def acceptsTaskRegistration : LifecycleState → Bool
  | removing | detached | shutdown => false
  | _ => true

def acceptsPublication : LifecycleState → Bool
  | creating | removing | detached | shutdown => false
  | _ => true

def exactUseAvailable : LifecycleState → Bool
  | activeCurrent => true
  | _ => false

def isTerminal : LifecycleState → Bool
  | detached | shutdown => true
  | _ => false

variable (state : LifecycleState)

/-- A terminal state admits nothing. -/
theorem closed_of_terminal (terminal : state.isTerminal = true) :
    state.acceptsTaskRegistration = false ∧ state.acceptsPublication = false ∧
      state.exactUseAvailable = false := by
  cases state <;> first | exact ⟨rfl, rfl, rfl⟩ | cases terminal

theorem terminal_cases (terminal : state.isTerminal = true) : state = .detached ∨ state = .shutdown := by
  cases state <;> first | exact .inl rfl | exact .inr rfl | cases terminal

theorem ne_terminal_of_working (working : state.isTerminal = false) :
    state ≠ .detached ∧ state ≠ .shutdown := by
  constructor
  · rintro rfl
    cases working
  · rintro rfl
    cases working

end LifecycleState

inductive TransitionReason where
  | addRoot
  | workspaceFoldersChanged
  | configurationChanged
  | trustChanged
  | environmentChanged
  | replaceRoot
  | removeRoot
  | restart
  | recover
  deriving DecidableEq

def TransitionReason.initialState : TransitionReason → LifecycleState
  | addRoot | restart | recover => .creating
  | workspaceFoldersChanged | configurationChanged | environmentChanged | replaceRoot =>
    .reconfiguring
  | trustChanged => .trustTransition
  | removeRoot => .removing

theorem TransitionReason.initial_state_open (reason : TransitionReason) :
    reason.initialState.isTerminal = false := by
  cases reason <;> rfl

inductive TerminalReason where
  | superseded
  | removed
  | replaced
  | shutdown
  | failed
  deriving DecidableEq

inductive Error where
  | unknownRoot (rootId : Nat)
  | staleGeneration (current attempted : Generation)
  | wrongSession (current attempted : Nat)
  | taskRegistrationRejected (state : LifecycleState)
  | publicationRejected (state : LifecycleState)
  | unknownTask (taskId : Nat)
  | generationExhausted
  | taskIdentityExhausted
  | controllerShutdown
  | terminalStateRequiresExplicitDisposition (state : LifecycleState)
  deriving DecidableEq

structure Context where
  generation : Generation
  inputs : Inputs
  deriving DecidableEq

structure View where
  context : Context
  lifecycleState : LifecycleState
  terminalReason : Option TerminalReason
  activeTaskCount : Nat
  deriving DecidableEq

structure TaskHandle where
  id : Nat
  operationId : Nat
  generation : Generation
  deriving DecidableEq

abbrev Flags := List Nat

/-- `tasks` maps a task's identity to its operation. -/
structure RootEntry where
  context : Context
  lifecycleState : LifecycleState
  terminalReason : Option TerminalReason
  tasks : TreeMap Nat Nat

namespace RootEntry

def generation (entry : RootEntry) : Generation := entry.context.generation

def view (entry : RootEntry) : View where
  context := entry.context
  lifecycleState := entry.lifecycleState
  terminalReason := entry.terminalReason
  activeTaskCount := entry.tasks.size

def cancelAllTasks (entry : RootEntry) (raised : Flags) : RootEntry × Flags :=
  ({ entry with tasks := ∅ }, entry.tasks.keys ++ raised)

/-- What `begin_transition`, `detach_root` and `shutdown` do to an entry. -/
def terminate (entry : RootEntry) (state : LifecycleState) (reason : TerminalReason) : RootEntry :=
  { entry with tasks := ∅, lifecycleState := state, terminalReason := some reason }

variable (entry : RootEntry)
variable (state : LifecycleState)
variable (reason : TerminalReason)

@[simp] theorem terminate_generation : (entry.terminate state reason).generation = entry.generation := rfl

@[simp] theorem terminate_state : (entry.terminate state reason).lifecycleState = state := rfl

@[simp] theorem terminate_tasks : (entry.terminate state reason).tasks = ∅ := rfl

end RootEntry

structure Controller where
  sessionId : Nat
  nextGeneration : Nat
  nextTaskId : Nat
  shutdown : Bool
  roots : TreeMap Nat RootEntry
  raised : Flags

-- `fetch_update` with `checked_add(1)`: the value handed out and the counter left behind
def allocateSequence (counter : Nat) (exhausted : Error) : Except Error (Nat × Nat) :=
  if counter < u64Max then .ok (counter, counter + 1) else .error exhausted

namespace Controller

def new (sessionId : Nat) : Controller where
  sessionId := sessionId
  nextGeneration := 1
  nextTaskId := 1
  shutdown := false
  roots := ∅
  raised := []

def ensureNotShutdown (c : Controller) : Except Error Unit :=
  if c.shutdown then .error .controllerShutdown else .ok ()

/-- The lookup and the checks with which `with_current_entry` begins. -/
def currentEntry (c : Controller) (generation : Generation) : Except Error RootEntry :=
  if generation.sessionId ≠ c.sessionId then
    .error (.wrongSession c.sessionId generation.sessionId)
  else
    match c.roots[generation.rootId]? with
    | none => .error (.unknownRoot generation.rootId)
    | some entry =>
      if entry.generation ≠ generation then
        .error (.staleGeneration entry.generation generation)
      else .ok entry

def putEntry (c : Controller) (rootId : Nat) (entry : RootEntry) (raised : Flags) : Controller :=
  { c with roots := c.roots.insert rootId entry, raised := raised }

def withCurrentEntry {Result : Type} (c : Controller) (generation : Generation)
    (operation : RootEntry → Flags → Except Error (Result × RootEntry × Flags)) :
    Except Error Result × Controller :=
  match c.currentEntry generation with
  | .error failure => (.error failure, c)
  | .ok entry =>
    match operation entry c.raised with
    | .error failure => (.error failure, c)
    | .ok (result, entry, raised) =>
      (.ok result, c.putEntry generation.rootId entry raised)

/-- The part of `begin_transition` under the root map's write guard; it returns the displaced entry.
-/
def installReplacement (c : Controller) (rootId : Nat) (reason : TransitionReason)
    (inputs : Inputs) : Except Error (Option RootEntry × Context) × Controller :=
  if c.shutdown then (.error .controllerShutdown, c)
  else
    match allocateSequence c.nextGeneration .generationExhausted with
    | .error failure => (.error failure, c)
    | .ok (sequence, next) =>
      let context : Context := ⟨⟨c.sessionId, rootId, sequence⟩, inputs⟩
      let replacement : RootEntry := ⟨context, reason.initialState, none, ∅⟩
      (.ok (c.roots[rootId]?, context),
        { c with nextGeneration := next, roots := c.roots.insert rootId replacement })

/-- The part of `begin_transition` under the displaced entry's own lock; the root map no longer
holds it. -/
def settlePrior (c : Controller) (prior : RootEntry) : RootEntry × Controller :=
  let (prior, raised) := prior.cancelAllTasks c.raised
  (prior.terminate .detached .superseded, { c with raised := raised })

def beginTransition (c : Controller) (rootId : Nat) (reason : TransitionReason)
    (inputs : Inputs) : Except Error Context × Controller :=
  match c.installReplacement rootId reason inputs with
  | (.error failure, c) => (.error failure, c)
  | (.ok (none, context), c) => (.ok context, c)
  | (.ok (some prior, context), c) => (.ok context, (c.settlePrior prior).2)

def currentRootContext (c : Controller) (rootId : Nat) : Option View :=
  c.roots[rootId]?.map RootEntry.view

/-- The facade's `is_current`. -/
def isCurrent (c : Controller) (generation : Generation) : Bool :=
  match c.currentRootContext generation.rootId with
  | none => false
  | some view => view.context.generation == generation && !view.lifecycleState.isTerminal

/-- The first part of `register_root_task`, up to the allocation. -/
def allocateTask (c : Controller) (generation : Generation) (operationId : Nat) :
    Except Error TaskHandle × Controller :=
  match c.ensureNotShutdown with
  | .error failure => (.error failure, c)
  | .ok () =>
    match allocateSequence c.nextTaskId .taskIdentityExhausted with
    | .error failure => (.error failure, c)
    | .ok (taskId, next) => (.ok ⟨taskId, operationId, generation⟩, { c with nextTaskId := next })

/-- The second part of `register_root_task`, under the root's lock. -/
def insertTask (c : Controller) (handle : TaskHandle) : Except Error Unit × Controller :=
  c.withCurrentEntry handle.generation fun entry raised =>
    if entry.lifecycleState.acceptsTaskRegistration then
      .ok ((), { entry with tasks := entry.tasks.insert handle.id handle.operationId }, raised)
    else .error (.taskRegistrationRejected entry.lifecycleState)

def registerRootTask (c : Controller) (generation : Generation) (operationId : Nat) :
    Except Error TaskHandle × Controller :=
  match c.allocateTask generation operationId with
  | (.error failure, c) => (.error failure, c)
  | (.ok handle, c) =>
    match c.insertTask handle with
    | (.error failure, c) => (.error failure, c)
    | (.ok (), c) => (.ok handle, c)

def completeTask (c : Controller) (handle : TaskHandle) : Except Error Unit × Controller :=
  c.withCurrentEntry handle.generation fun entry raised =>
    match entry.tasks[handle.id]? with
    | none => .error (.unknownTask handle.id)
    | some operationId =>
      if operationId ≠ handle.operationId then .error (.unknownTask handle.id)
      else .ok ((), { entry with tasks := entry.tasks.erase handle.id }, raised)

def acceptPublication (c : Controller) (generation : Generation) : Except Error Unit := do
  c.ensureNotShutdown
  let entry ← c.currentEntry generation
  if entry.lifecycleState.acceptsPublication then .ok ()
  else .error (.publicationRejected entry.lifecycleState)

def completeTransition (c : Controller) (generation : Generation)
    (resultingState : LifecycleState) : Except Error View × Controller :=
  match c.ensureNotShutdown with
  | .error failure => (.error failure, c)
  | .ok () =>
    if resultingState.isTerminal || resultingState = .removing then
      (.error (.terminalStateRequiresExplicitDisposition resultingState), c)
    else
      c.withCurrentEntry generation fun entry raised =>
        let entry := { entry with lifecycleState := resultingState, terminalReason := none }
        .ok (entry.view, entry, raised)

def exactUseAvailable (c : Controller) (generation : Generation) : Except Error Bool := do
  c.ensureNotShutdown
  let entry ← c.currentEntry generation
  return entry.lifecycleState.exactUseAvailable

def detachRoot (c : Controller) (generation : Generation) (reason : TerminalReason) :
    Except Error View × Controller :=
  match c.ensureNotShutdown with
  | .error failure => (.error failure, c)
  | .ok () =>
    c.withCurrentEntry generation fun entry raised =>
      let (entry, raised) := entry.cancelAllTasks raised
      let entry := { entry with lifecycleState := .detached, terminalReason := some reason }
      .ok (entry.view, entry, raised)

def shutDown (c : Controller) : Controller :=
  if c.shutdown then c
  else
    { c with
      shutdown := true
      raised := (rows c.roots).foldl (fun raised entry => (entry.cancelAllTasks raised).2) c.raised
      roots := c.roots.map fun _ entry => entry.terminate .shutdown .shutdown }

end Controller

namespace Controller

def Current (c : Controller) (generation : Generation) (entry : RootEntry) : Prop :=
  generation.sessionId = c.sessionId ∧ c.roots[generation.rootId]? = some entry ∧
    entry.generation = generation

variable (c : Controller)

theorem current_entry_ok (generation : Generation) (entry : RootEntry) :
    c.currentEntry generation = .ok entry ↔ c.Current generation entry := by
  unfold currentEntry Current
  by_cases session : generation.sessionId = c.sessionId
  · cases found : c.roots[generation.rootId]? with
    | none => simp [session]
    | some candidate =>
      by_cases same : candidate.generation = generation
      · simp only [session, ne_eq, not_true_eq_false, if_false, same, Except.ok.injEq,
          Option.some.injEq, true_and]
        constructor
        · rintro rfl
          exact ⟨rfl, same⟩
        · exact fun both => both.1
      · simp only [session, ne_eq, not_true_eq_false, if_false, same, not_false_eq_true, if_true,
          Option.some.injEq, true_and, reduceCtorEq, false_iff, not_and]
        rintro rfl
        exact same
  · simp [session]

theorem with_current_entry_cases {Result : Type} (generation : Generation)
    (operation : RootEntry → Flags → Except Error (Result × RootEntry × Flags)) :
    (∃ failure, c.withCurrentEntry generation operation = (.error failure, c)) ∨
    ∃ entry result after raised, c.Current generation entry ∧
      operation entry c.raised = .ok (result, after, raised) ∧
      c.withCurrentEntry generation operation = (.ok result, c.putEntry generation.rootId after raised) := by
  unfold withCurrentEntry
  cases looked : c.currentEntry generation with
  | error failure => exact .inl ⟨failure, rfl⟩
  | ok entry =>
    have current := (current_entry_ok c generation entry).mp looked
    cases answer : operation entry c.raised with
    | error failure => exact .inl ⟨failure, by simp only [answer]⟩
    | ok outcome =>
      obtain ⟨result, after, raised⟩ := outcome
      exact .inr ⟨entry, result, after, raised, current, answer, by simp only [answer]⟩

theorem ensure_not_shutdown_cases : (c.shutdown = true ∧ c.ensureNotShutdown = .error .controllerShutdown) ∨
      (c.shutdown = false ∧ c.ensureNotShutdown = .ok ()) := by
  unfold ensureNotShutdown
  cases c.shutdown with
  | true => exact .inl ⟨rfl, rfl⟩
  | false => exact .inr ⟨rfl, rfl⟩

theorem allocate_sequence_cases (counter : Nat) (exhausted : Error) :
    allocateSequence counter exhausted = .error exhausted ∨
      (counter < u64Max ∧ allocateSequence counter exhausted = .ok (counter, counter + 1)) := by
  unfold allocateSequence
  by_cases room : counter < u64Max
  · exact .inr ⟨room, if_pos room⟩
  · exact .inl (if_neg room)

/-- The context `begin_transition` mints next. -/
def nextContext (c : Controller) (rootId : Nat) (inputs : Inputs) : Context :=
  ⟨⟨c.sessionId, rootId, c.nextGeneration⟩, inputs⟩

section

include c

theorem install_replacement_cases (rootId : Nat) (reason : TransitionReason) (inputs : Inputs) :
    (∃ failure, c.installReplacement rootId reason inputs = (.error failure, c)) ∨
    (c.shutdown = false ∧ c.installReplacement rootId reason inputs =
        (.ok (c.roots[rootId]?, c.nextContext rootId inputs), { c with
            nextGeneration := c.nextGeneration + 1
            roots := c.roots.insert rootId
              ⟨c.nextContext rootId inputs, reason.initialState, none, ∅⟩ })) := by
  unfold installReplacement
  by_cases closed : c.shutdown = true
  · exact .inl ⟨_, if_pos closed⟩
  rw [if_neg closed]
  obtain full | ⟨-, room⟩ := allocate_sequence_cases c.nextGeneration .generationExhausted
  · exact .inl ⟨_, by rw [full]⟩
  · exact .inr ⟨by simpa using closed, by rw [room]; rfl⟩

theorem allocate_task_cases (generation : Generation) (operationId : Nat) :
    (∃ failure, c.allocateTask generation operationId = (.error failure, c)) ∨
    (c.shutdown = false ∧ c.allocateTask generation operationId =
        (.ok ⟨c.nextTaskId, operationId, generation⟩, { c with nextTaskId := c.nextTaskId + 1 })) := by
  unfold allocateTask
  obtain ⟨-, stopped⟩ | ⟨serving, running⟩ := ensure_not_shutdown_cases c
  · exact .inl ⟨_, by rw [stopped]⟩
  · obtain full | ⟨-, room⟩ := allocate_sequence_cases c.nextTaskId .taskIdentityExhausted
    · exact .inl ⟨_, by rw [running, full]⟩
    · exact .inr ⟨serving, by rw [running, room]⟩

theorem insert_task_cases (handle : TaskHandle) : (∃ failure, c.insertTask handle = (.error failure, c)) ∨
    ∃ entry, c.Current handle.generation entry ∧ entry.lifecycleState.acceptsTaskRegistration = true ∧
      c.insertTask handle = (.ok (), c.putEntry handle.generation.rootId
        { entry with tasks := entry.tasks.insert handle.id handle.operationId } c.raised) := by
  obtain refused | ⟨entry, result, after, raised, current, answer, done⟩ :=
    with_current_entry_cases c handle.generation fun entry raised =>
      if entry.lifecycleState.acceptsTaskRegistration then
        .ok ((), { entry with tasks := entry.tasks.insert handle.id handle.operationId }, raised)
      else .error (.taskRegistrationRejected entry.lifecycleState)
  · exact .inl refused
  by_cases accepts : entry.lifecycleState.acceptsTaskRegistration = true
  · rw [if_pos accepts] at answer
    cases answer
    exact .inr ⟨entry, current, accepts, done⟩
  · rw [if_neg accepts] at answer
    cases answer

theorem complete_task_cases (handle : TaskHandle) :
    (∃ failure, c.completeTask handle = (.error failure, c)) ∨ ∃ entry, c.Current handle.generation entry ∧
      c.completeTask handle = (.ok (), c.putEntry handle.generation.rootId
        { entry with tasks := entry.tasks.erase handle.id } c.raised) := by
  obtain refused | ⟨entry, result, after, raised, current, answer, done⟩ :=
    with_current_entry_cases c handle.generation fun entry raised =>
      match entry.tasks[handle.id]? with
      | none => .error (.unknownTask handle.id)
      | some operationId =>
        if operationId ≠ handle.operationId then .error (.unknownTask handle.id)
        else .ok ((), { entry with tasks := entry.tasks.erase handle.id }, raised)
  · exact .inl refused
  cases owned : entry.tasks[handle.id]? with
  | none => simp only [owned, reduceCtorEq] at answer
  | some operationId =>
    simp only [owned] at answer
    by_cases same : operationId = handle.operationId
    · rw [if_neg (not_not_intro same)] at answer
      cases answer
      exact .inr ⟨entry, current, done⟩
    · rw [if_pos same] at answer
      cases answer

variable (generation : Generation)

theorem complete_transition_cases (state : LifecycleState) :
    (∃ failure, c.completeTransition generation state = (.error failure, c)) ∨
    ∃ entry, c.shutdown = false ∧ state.isTerminal = false ∧ state ≠ .removing ∧ c.Current generation entry ∧
      (c.completeTransition generation state).2 = c.putEntry generation.rootId
        { entry with lifecycleState := state, terminalReason := none } c.raised := by
  unfold completeTransition
  obtain ⟨-, stopped⟩ | ⟨serving, running⟩ := ensure_not_shutdown_cases c
  · exact .inl ⟨_, by rw [stopped]⟩
  rw [running]
  by_cases explicit : (state.isTerminal || decide (state = .removing)) = true
  · exact .inl ⟨_, if_pos explicit⟩
  simp only [if_neg explicit]
  have allowed : state.isTerminal = false ∧ state ≠ .removing := by simpa using explicit
  obtain refused | ⟨entry, result, after, raised, current, answer, done⟩ :=
    with_current_entry_cases c generation fun entry raised =>
      let entry := { entry with lifecycleState := state, terminalReason := none }
      .ok (entry.view, entry, raised)
  · exact .inl refused
  · cases answer
    exact .inr ⟨entry, serving, allowed.1, allowed.2, current, by rw [done]⟩

theorem complete_transition_done (state : LifecycleState) (entry : RootEntry) (serving : c.shutdown = false)
    (working : state.isTerminal = false) (keeping : state ≠ .removing)
    (current : c.Current generation entry) :
    (c.completeTransition generation state).2 = c.putEntry generation.rootId
      { entry with lifecycleState := state, terminalReason := none } c.raised := by
  have looked := (current_entry_ok c generation entry).mpr current
  simp [completeTransition, ensureNotShutdown, serving, working, keeping, withCurrentEntry, looked]

theorem detach_root_cases (reason : TerminalReason) :
    (∃ failure, c.detachRoot generation reason = (.error failure, c)) ∨
    ∃ entry view, c.shutdown = false ∧ c.Current generation entry ∧
      c.detachRoot generation reason = (.ok view, c.putEntry generation.rootId
        (entry.terminate .detached reason) (entry.tasks.keys ++ c.raised)) := by
  unfold detachRoot
  obtain ⟨-, stopped⟩ | ⟨serving, running⟩ := ensure_not_shutdown_cases c
  · exact .inl ⟨_, by rw [stopped]⟩
  rw [running]
  obtain refused | ⟨entry, result, after, raised, current, answer, done⟩ :=
    with_current_entry_cases c generation fun entry raised =>
      let (entry, raised) := entry.cancelAllTasks raised
      let entry := { entry with lifecycleState := .detached, terminalReason := some reason }
      .ok (entry.view, entry, raised)
  · exact .inl refused
  · cases answer
    exact .inr ⟨entry, _, serving, current, done⟩

end

/-! The four questions a generation can ask, answered from its row alone. -/

theorem insert_task_accepted (handle : TaskHandle) :
    (c.insertTask handle).1 = .ok () ↔ ∃ entry, c.Current handle.generation entry ∧
      entry.lifecycleState.acceptsTaskRegistration = true := by
  constructor
  · intro accepted
    obtain ⟨failure, refused⟩ | ⟨entry, current, accepts, -⟩ := insert_task_cases c handle
    · rw [refused] at accepted
      cases accepted
    · exact ⟨entry, current, accepts⟩
  · rintro ⟨entry, current, accepts⟩
    have looked := (current_entry_ok c handle.generation entry).mpr current
    simp only [insertTask, withCurrentEntry, looked, accepts, if_true]

section
variable (generation : Generation)
include c generation

theorem register_root_task_accepted (operationId : Nat) (handle : TaskHandle)
    (accepted : (c.registerRootTask generation operationId).1 = .ok handle) :
    ∃ entry, c.Current generation entry ∧ entry.lifecycleState.acceptsTaskRegistration = true := by
  unfold registerRootTask at accepted
  obtain ⟨failure, refused⟩ | ⟨-, allocated⟩ := allocate_task_cases c generation operationId
  · rw [refused] at accepted
    cases accepted
  simp only [allocated] at accepted
  obtain ⟨failure, refused⟩ | ⟨entry, current, accepts, -⟩ :=
    insert_task_cases { c with nextTaskId := c.nextTaskId + 1 } ⟨c.nextTaskId, operationId, generation⟩
  · simp only [refused, reduceCtorEq] at accepted
  · exact ⟨entry, current, accepts⟩

theorem accept_publication_accepted (accepted : c.acceptPublication generation = .ok ()) :
    c.shutdown = false ∧ ∃ entry, c.Current generation entry ∧
      entry.lifecycleState.acceptsPublication = true := by
  unfold acceptPublication at accepted
  obtain ⟨-, stopped⟩ | ⟨serving, running⟩ := ensure_not_shutdown_cases c
  · rw [stopped] at accepted
    cases accepted
  rw [running] at accepted
  cases looked : c.currentEntry generation with
  | error failure =>
    rw [looked] at accepted
    cases accepted
  | ok entry =>
    rw [looked] at accepted
    have current := (current_entry_ok c generation entry).mp looked
    by_cases accepts : entry.lifecycleState.acceptsPublication = true
    · exact ⟨serving, entry, current, accepts⟩
    · simp [bind, Except.bind, accepts] at accepted

theorem exact_use_available_accepted (accepted : c.exactUseAvailable generation = .ok true) :
    c.shutdown = false ∧ ∃ entry, c.Current generation entry ∧
      entry.lifecycleState.exactUseAvailable = true := by
  unfold exactUseAvailable at accepted
  obtain ⟨-, stopped⟩ | ⟨serving, running⟩ := ensure_not_shutdown_cases c
  · rw [stopped] at accepted
    cases accepted
  rw [running] at accepted
  cases looked : c.currentEntry generation with
  | error failure =>
    rw [looked] at accepted
    cases accepted
  | ok entry =>
    rw [looked] at accepted
    exact ⟨serving, entry, (current_entry_ok c generation entry).mp looked, Except.ok.inj accepted⟩

end

theorem mem_cancelled (entries : List RootEntry) (raised : Flags) (id : Nat) :
    id ∈ entries.foldl (fun raised entry => (entry.cancelAllTasks raised).2) raised ↔
      (∃ entry ∈ entries, id ∈ entry.tasks) ∨ id ∈ raised := by
  induction entries generalizing raised with
  | nil => simp
  | cons entry rest ih =>
    rw [List.foldl_cons, ih]
    simp only [RootEntry.cancelAllTasks, List.mem_append, TreeMap.mem_keys, List.mem_cons,
      exists_eq_or_imp, or_assoc, or_left_comm]

theorem shut_down_serving (c : Controller) (serving : c.shutdown = false) :
    c.shutDown = { c with
        shutdown := true
        raised := (rows c.roots).foldl (fun raised entry => (entry.cancelAllTasks raised).2) c.raised
        roots := c.roots.map fun _ entry => entry.terminate .shutdown .shutdown } :=
  if_neg (ne_true_of_eq_false serving)

theorem shut_down_row (c : Controller) (serving : c.shutdown = false) (rootId : Nat)
    (entry : RootEntry) (found : c.shutDown.roots[rootId]? = some entry) :
    ∃ before, c.roots[rootId]? = some before ∧ before.terminate .shutdown .shutdown = entry := by
  rw [shut_down_serving c serving, TreeMap.getElem?_map] at found
  exact Option.map_eq_some_iff.mp found

end Controller

end PerlLsp.RuntimeGeneration
