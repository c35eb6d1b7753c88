import PerlLsp.ParseStorm

/-! The synchronous fallback of `handle_did_change_with_version_policy` in runtime/text_sync.rs,
from `notify_change` on, with `run_post_parse_side_effects`, as far as they notify the index
coordinator. Every notification is one step here; `PerlLsp.ParseStorm` has its single steps. What
the handler finds in shared state is part of the change. -/
namespace PerlLsp.SynchronousChange
open Runs Workspace ParseStorm

section Notifications

structure IndexSize where
  fileCount : Nat
  totalSymbols : Nat
  rejection : Option ResourceKind

variable (coordinator : IndexCoordinator)

def notifyChange : IndexCoordinator :=
  let metrics := coordinator.metrics.incrementPendingParses
  let coordinator := { coordinator with metrics := metrics }
  if metrics.isParseStorm then coordinator.transitionToDegraded (.parseStorm metrics.pendingParses)
  else coordinator

/-- `state()` takes a rejection before it reads the state. -/
def readState : IndexCoordinator :=
  match coordinator.rejection with
  | some kind => { coordinator with rejection := none }.transitionToDegraded (.resourceLimit kind)
  | none => coordinator

def enforceLimits (index : IndexSize) : IndexCoordinator :=
  match coordinator.checkLimits index.fileCount index.totalSymbols with
  | some kind => coordinator.transitionToDegraded (.resourceLimit kind)
  | none => coordinator

def notifyParseComplete (index : IndexSize) : IndexCoordinator :=
  let metrics := coordinator.metrics.decrementPendingParses
  let coordinator := { coordinator with metrics := metrics }
  let coordinator :=
    if metrics.pendingParses = 0 then
      let coordinator := readState coordinator
      if coordinator.state.isStorm then coordinator.rebuild else coordinator
    else coordinator
  enforceLimits coordinator index

def finish (fileCount totalSymbols : Nat) : Nat → IndexCoordinator → Option Stage → IndexCoordinator
  | _, coordinator, none => coordinator
  | 0, coordinator, some _ => coordinator
  | steps + 1, coordinator, some stage =>
    let next := stage.next coordinator fileCount totalSymbols
    finish fileCount totalSymbols steps next.1 next.2

end Notifications

section Handler

inductive ParseOutcome (Ast ParseError : Type) where
  | parsed (ast : Ast) (errors : List ParseError)
  | cancelled
  | failed (error : ParseError)

structure Change (Ast ParseError : Type) where
  uri : List Char
  nextGen : UInt32
  targetVersion : Int32
  allowSameVersion : Bool
  outcome : ParseOutcome Ast ParseError
  /-- Generation and version of the stored document behind the parse. -/
  existing : Option (UInt32 × Int32)
  /-- `document_generation_still_current` when the side effects begin. -/
  stillCurrent : Bool
  /-- `url::Url::parse(&ticket.uri).is_ok()` -/
  urlParses : Bool
  /-- `tokio::runtime::Handle::try_current().is_ok()` -/
  runtimeCurrent : Bool
  /-- The index when the handler completes the change. -/
  index : IndexSize

inductive Notification where
  | change (uri : List Char)
  | parseComplete (uri : List Char)
deriving DecidableEq

/-- The coordinator, if there is one, the index tasks spawned and not run, and the notifications so
far. -/
structure Server where
  coordinator : Option IndexCoordinator
  tasks : List (List Char)
  notified : List Notification

def Server.notifyChange (server : Server) (uri : List Char) : Server :=
  match server.coordinator with
  | none => server
  | some coordinator =>
    { server with
      coordinator := some (SynchronousChange.notifyChange coordinator)
      notified := server.notified ++ [.change uri] }

def Server.notifyParseComplete (server : Server) (uri : List Char) (index : IndexSize) : Server :=
  match server.coordinator with
  | none => server
  | some coordinator =>
    let coordinator := { coordinator with rejection := index.rejection.or coordinator.rejection }
    { server with
      coordinator := some (SynchronousChange.notifyParseComplete coordinator index)
      notified := server.notified ++ [.parseComplete uri] }

variable {Ast ParseError : Type}

/-- A newer change arrived while the handler was parsing. -/
def superseded (change : Change Ast ParseError) : Bool :=
  match change.existing with
  | some (generation, version) => generation != change.nextGen || change.targetVersion < version
  | none => false

variable (server : Server)
variable (change : Change Ast ParseError)

def runPostParseSideEffects (ast : Option Ast) : Server :=
  if change.stillCurrent = false then server.notifyParseComplete change.uri change.index
  else if ast.isSome ∧ server.coordinator.isSome ∧ change.urlParses = true then
    -- the task indexes the file and then completes the change
    if change.allowSameVersion then server.notifyParseComplete change.uri change.index
    else if change.runtimeCurrent then { server with tasks := server.tasks ++ [change.uri] }
    else server.notifyParseComplete change.uri change.index
  else server.notifyParseComplete change.uri change.index

def publish (ast : Option Ast) : Server :=
  if superseded change then server.notifyParseComplete change.uri change.index
  else runPostParseSideEffects server change ast

def handleSynchronously : Server :=
  let server := server.notifyChange change.uri
  match change.outcome with
  | .parsed ast _ => publish server change (some ast)
  | .cancelled => server
  | .failed _ => publish server change none

def taskEnds (place : Nat) (index : IndexSize) : Server :=
  match server.tasks[place]? with
  | none => server
  | some uri => { server with tasks := server.tasks.eraseIdx place }.notifyParseComplete uri index

inductive Op (Ast ParseError : Type) where
  | change (change : Change Ast ParseError)
  | taskEnds (place : Nat) (index : IndexSize)

def step (server : Server) : Op Ast ParseError → Server
  | .change change => handleSynchronously server change
  | .taskEnds place index => taskEnds server place index

end Handler

section Counting
variable {Ast ParseError : Type}

def Server.pending (server : Server) : Nat :=
  (server.coordinator.map fun coordinator => coordinator.metrics.pendingParses).getD 0

def Server.inStorm (server : Server) : Bool :=
  server.coordinator.any fun coordinator => coordinator.state.isStorm

section
variable (coordinator : IndexCoordinator)
include coordinator

theorem enforce_limits_kept (index : IndexSize) :
    (enforceLimits coordinator index).metrics = coordinator.metrics ∧
      ((enforceLimits coordinator index).state.isStorm = true → coordinator.state.isStorm = true) := by
  unfold enforceLimits
  split
  · exact ⟨rfl, Bool.noConfusion⟩
  · exact ⟨rfl, id⟩

theorem notify_change_pending :
    (notifyChange coordinator).metrics.pendingParses = coordinator.metrics.pendingParses + 1 := by
  unfold notifyChange
  dsimp only
  split <;> rfl

theorem notify_parse_complete_pending (index : IndexSize) :
    (notifyParseComplete coordinator index).metrics.pendingParses =
      coordinator.metrics.pendingParses - 1 := by
  unfold notifyParseComplete
  rw [(enforce_limits_kept _ index).1]
  dsimp only
  split
  · unfold readState
    split <;> split <;> rfl
  · rfl

theorem notify_parse_complete_recovers (index : IndexSize)
    (drained : (notifyParseComplete coordinator index).metrics.pendingParses = 0) :
    (notifyParseComplete coordinator index).state.isStorm = false := by
  rw [notify_parse_complete_pending] at drained
  have none : coordinator.metrics.decrementPendingParses.pendingParses = 0 := drained
  by_contra stays
  rw [Bool.not_eq_false] at stays
  have before := (enforce_limits_kept _ index).2 stays
  dsimp only at before
  rw [if_pos none] at before
  split at before
  next => cases before
  next calm => exact calm before

end

/-- The handler leaves the completion to an index task. -/
def Deferred (change : Change Ast ParseError) : Prop :=
  superseded change = false ∧ change.stillCurrent = true ∧
    (∃ ast errors, change.outcome = .parsed ast errors) ∧ change.urlParses = true ∧
    change.allowSameVersion = false ∧ change.runtimeCurrent = true

def CompletesHere (change : Change Ast ParseError) : Prop :=
  change.outcome ≠ .cancelled ∧ ¬ Deferred change

theorem handle_cases (server : Server) (change : Change Ast ParseError)
    (coordinated : server.coordinator.isSome = true) :
    (change.outcome = .cancelled ∧ handleSynchronously server change = server.notifyChange change.uri) ∨
    (Deferred change ∧ handleSynchronously server change =
      { server.notifyChange change.uri with tasks := server.tasks ++ [change.uri] }) ∨
    (CompletesHere change ∧ handleSynchronously server change =
      (server.notifyChange change.uri).notifyParseComplete change.uri change.index) := by
  obtain ⟨coordinator, tasks, notified⟩ := server
  obtain ⟨coordinator, rfl⟩ := Option.isSome_iff_exists.mp coordinated
  unfold handleSynchronously
  dsimp only [Server.notifyChange]
  cases outcome : change.outcome with
  | cancelled => exact .inl ⟨rfl, rfl⟩
  | failed error =>
    have here : CompletesHere change := by
      refine ⟨by simp [outcome], ?_⟩
      rintro ⟨-, -, ⟨ast, errors, parsed⟩, -⟩
      rw [outcome] at parsed
      cases parsed
    refine .inr (.inr ⟨here, ?_⟩)
    dsimp only [publish, runPostParseSideEffects]
    simp
  | parsed ast errors =>
    by_cases deferred : Deferred change
    · refine .inr (.inl ⟨deferred, ?_⟩)
      obtain ⟨fresh, current, -, url, ordinary, runtime⟩ := deferred
      simp [publish, runPostParseSideEffects, fresh, current, url, ordinary, runtime]
    refine .inr (.inr ⟨⟨by simp [outcome], deferred⟩, ?_⟩)
    dsimp only
    rw [publish]
    split
    next => rfl
    next fresh =>
      rw [runPostParseSideEffects]
      split
      next => rfl
      next current =>
        split
        next indexed =>
          split
          next => rfl
          next ordinary =>
            split
            next runtime =>
              exact absurd ⟨by simpa using fresh, by simpa using current, ⟨ast, errors, outcome⟩,
                indexed.2.2, by simpa using ordinary, runtime⟩ deferred
            next => rfl
        next => rfl

/-- The change is notified and then completed once, and what is pending is as it was. Without a
coordinator nothing is notified. -/
def Balanced (before after : Server) (uri : List Char) : Prop :=
  after.pending = before.pending ∧ after.notified = before.notified ++
    if before.coordinator.isSome then [.change uri, .parseComplete uri] else []

variable (server : Server)
variable (change : Change Ast ParseError)

theorem handle_uncoordinated (absent : server.coordinator = none) :
    handleSynchronously server change = server := by
  obtain ⟨coordinator, tasks, notified⟩ := server
  subst absent
  unfold handleSynchronously
  cases change.outcome with
  | cancelled => rfl
  | failed error => simp [publish, runPostParseSideEffects, Server.notifyChange, Server.notifyParseComplete]
  | parsed ast errors =>
    simp [publish, runPostParseSideEffects, Server.notifyChange, Server.notifyParseComplete]

theorem handle_balanced_iff : Balanced server (handleSynchronously server change) change.uri ↔
      server.coordinator = none ∨ CompletesHere change := by
  by_cases absent : server.coordinator = none
  · refine iff_of_true ?_ (.inl absent)
    rw [handle_uncoordinated server change absent]
    simp [Balanced, absent]
  have coordinated := Option.isSome_iff_ne_none.mpr absent
  have cases := handle_cases server change coordinated
  obtain ⟨coordinator, tasks, notified⟩ := server
  obtain ⟨coordinator, rfl⟩ := Option.isSome_iff_exists.mp coordinated
  have grown := notify_change_pending coordinator
  rcases cases with ⟨cancelled, after⟩ | ⟨deferred, after⟩ | ⟨here, after⟩
  · refine iff_of_false ?_ ?_
    · rw [after]
      rintro ⟨pending, -⟩
      simp [Server.pending, Server.notifyChange, grown] at pending
    · rintro (none | here)
      · exact absent none
      · exact here.1 cancelled
  · refine iff_of_false ?_ ?_
    · rw [after]
      rintro ⟨pending, -⟩
      simp [Server.pending, Server.notifyChange, grown] at pending
    · rintro (none | here)
      · exact absent none
      · exact here.2 deferred
  · refine iff_of_true ?_ (.inr here)
    rw [after]
    simp [Balanced, Server.pending, Server.notifyChange, Server.notifyParseComplete, grown,
      notify_parse_complete_pending]

theorem complete_recovers (uri : List Char) (index : IndexSize)
    (drained : (server.notifyParseComplete uri index).pending = 0)
    (coordinated : server.coordinator.isSome = true) :
    (server.notifyParseComplete uri index).inStorm = false := by
  obtain ⟨coordinator, tasks, notified⟩ := server
  obtain ⟨coordinator, rfl⟩ := Option.isSome_iff_exists.mp coordinated
  exact notify_parse_complete_recovers _ index drained

/-- A call that completes its change leaves no storm where it leaves nothing pending. -/
theorem handle_recovers (change : Change Ast ParseError)
    (here : CompletesHere change) (drained : (handleSynchronously server change).pending = 0) :
    (handleSynchronously server change).inStorm = false := by
  by_cases absent : server.coordinator = none
  · rw [handle_uncoordinated server change absent, Server.inStorm, absent]
    rfl
  rcases handle_cases server change (Option.isSome_iff_ne_none.mpr absent) with
    ⟨cancelled, -⟩ | ⟨deferred, -⟩ | ⟨-, after⟩
  · exact absurd cancelled here.1
  · exact absurd deferred here.2
  · rw [after] at drained ⊢
    apply complete_recovers _ _ _ drained
    obtain ⟨coordinator, tasks, notified⟩ := server
    obtain ⟨coordinator, rfl⟩ := Option.isSome_iff_exists.mp (Option.isSome_iff_ne_none.mpr absent)
    rfl

theorem run_pending (start : Server) (changes : List (Change Ast ParseError))
    (here : ∀ change ∈ changes, CompletesHere change) :
    (run handleSynchronously start changes).pending = start.pending := by
  induction changes generalizing start with
  | nil => rfl
  | cons change rest ih =>
    rw [run_cons, ih _ fun other member => here other (List.mem_cons_of_mem _ member)]
    exact ((handle_balanced_iff start change).mpr (.inr (here change List.mem_cons_self))).1

/-- A call on the synchronous path completes its change exactly when the parser is not cancelled and
no index task takes the completion over. A run of such calls is balanced, nothing stays pending, and
no storm outlives a call. -/
theorem synchronous_changes_balanced (Ast ParseError : Type) :
    (∀ (server : Server) (change : Change Ast ParseError),
      Balanced server (handleSynchronously server change) change.uri ↔
        server.coordinator = none ∨ CompletesHere change) ∧
    ∀ (start : Server) (changes : List (Change Ast ParseError)),
      (∀ change ∈ changes, CompletesHere change) →
      ∀ before change after, changes = before ++ change :: after →
        let reached := run handleSynchronously start before
        let left := handleSynchronously reached change
        Balanced reached left change.uri ∧ left.pending = start.pending ∧
          (start.pending = 0 → left.inStorm = false) := by
  refine ⟨handle_balanced_iff, ?_⟩
  rintro start changes here before change after rfl
  have own := here change (by simp)
  have front : (run handleSynchronously start before).pending = start.pending :=
    run_pending start before fun other member => here other (List.mem_append_left _ member)
  have balanced := (handle_balanced_iff (run handleSynchronously start before) change).mpr (.inr own)
  refine ⟨balanced, balanced.1.trans front, ?_⟩
  intro nothing
  exact handle_recovers _ change own (balanced.1.trans (front.trans nothing))

def cancels : Op Ast ParseError → Bool
  | .change change =>
    match change.outcome with
    | .cancelled => true
    | .parsed _ _ => false
    | .failed _ => false
  | .taskEnds _ _ => false

def freshServer : Server where
  coordinator := some ⟨.ready 0 0, .new, ⟨10, 10, 10⟩, none⟩
  tasks := []
  notified := []

def cancelledChange : Change Unit Unit where
  uri := ['a']
  nextGen := 1
  targetVersion := 2
  allowSameVersion := false
  outcome := .cancelled
  existing := some (1, 1)
  stillCurrent := true
  urlParses := true
  runtimeCurrent := false
  index := ⟨1, 1, none⟩

/-- A cancelled parse leaves its change pending; eleven of them leave the index in a storm. -/
theorem cancelled_changes_leak :
    ¬ Balanced freshServer (handleSynchronously freshServer cancelledChange) cancelledChange.uri ∧
      (run handleSynchronously freshServer (List.replicate 11 cancelledChange)).inStorm = true := by
  refine ⟨?_, by decide⟩
  rintro ⟨pending, -⟩
  exact absurd pending (by decide)

def parsedChange : Change Unit Unit := { cancelledChange with outcome := .parsed () [] }

theorem parsed_changes_balanced :
    (run handleSynchronously freshServer [parsedChange, parsedChange]).pending = 0 ∧
      (run handleSynchronously freshServer [parsedChange, parsedChange]).inStorm = false := by
  have here : ∀ change ∈ [parsedChange, parsedChange], CompletesHere change := by
    intro change member
    have same : change = parsedChange := by simpa using member
    rw [same]
    exact ⟨by simp [parsedChange], fun deferred => absurd deferred.2.2.2.2.2 (by decide)⟩
  obtain ⟨-, pending, calm⟩ := (synchronous_changes_balanced Unit Unit).2 freshServer
    [parsedChange, parsedChange] here [parsedChange] parsedChange [] rfl
  exact ⟨pending, calm rfl⟩

end Counting

end PerlLsp.SynchronousChange
