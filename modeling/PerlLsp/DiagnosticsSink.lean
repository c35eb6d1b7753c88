import PerlLsp.Runs

/-! The push-diagnostics sink of runtime/diagnostics_sink.rs: the last committed publication of each
document URI, compared and updated together with the outbound enqueue. The authorities an attempt
reads under its locks are part of the state; what it samples before the locks is part of the
attempt. Readiness effects and traces are left out. JSON values, their text, the hasher and
`perl_uri::uri_key` stand in `Env`. -/
namespace PerlLsp.DiagnosticsSink
open Runs Option
variable {Json Critic : Type} [DecidableEq Critic]

structure Env (Json : Type) where
  get : Json → String → Option Json
  null : Json
  toText : Json → String
  hashText : String → UInt64
  uriKey : String → String

structure AcceptedCriticSnapshot (Critic : Type) where
  state : Critic
  owningRoot : Option String

def AcceptedCriticSnapshot.isCurrent (snapshot : AcceptedCriticSnapshot Critic)
    (effectiveCriticState : Option String → Critic) : Bool :=
  effectiveCriticState snapshot.owningRoot == snapshot.state

/-- `documentInstance` names the allocation the source compares by pointer. -/
structure PushDiagnosticIdentity (Critic : Type) where
  normalizedUri : String
  documentInstance : Nat
  generation : Nat
  parseErrorsOnly : Bool
  workspaceGeneration : Nat
  folderConfigGeneration : Option Nat
  acceptedCriticSnapshot : Option (AcceptedCriticSnapshot Critic)
  acceptedTopologyGeneration : Option Nat

inductive PushDiagnosticsDisposition where
  | replacement
  | clear
  deriving DecidableEq

inductive PushDiagnosticsCommitOutcome where
  | committedCurrent
  | safeClearCommitted
  | rejectedDocumentClosed
  | rejectedWrongDocumentInstance
  | rejectedSupersededGeneration
  | rejectedSupersededPhase
  | rejectedSupersededCriticPolicy
  | outboundFailure
  deriving DecidableEq

namespace PushDiagnosticsCommitOutcome

def committed : PushDiagnosticsCommitOutcome → Bool
  | committedCurrent => true
  | safeClearCommitted => true
  | _ => false

end PushDiagnosticsCommitOutcome

inductive DiagnosticSubjectRejection where
  | documentClosed
  | wrongDocumentInstance
  | supersededGeneration
  | supersededCriticPolicy

structure DiagnosticSubject (Critic : Type) where
  uri : String
  documentInstance : Nat
  generation : Nat
  workspaceGeneration : Option Nat
  acceptedFolderConfigGeneration : Option Nat
  acceptedCriticSnapshot : Option (AcceptedCriticSnapshot Critic)
  acceptedTopologyGeneration : Option Nat

structure CommittedPushDiagnostic where
  documentInstance : Nat
  generation : Nat
  parseErrorsOnly : Bool
  sequence : Nat
  payloadHash : UInt64

def diagnosticsOf (env : Env Json) (payload : Json) : Json :=
  (env.get payload "diagnostics").getD env.null

def diagnosticsPayloadHash (env : Env Json) (payload : Json) : UInt64 :=
  env.hashText (env.toText (diagnosticsOf env payload))

structure DocumentState where
  documentInstance : Nat
  generation : Nat

structure Authorities (Critic : Type) where
  workspaceTopologyStable : Bool
  workspaceIdentityGeneration : Nat
  workspaceTopologyGeneration : Nat
  documents : String → Option DocumentState
  effectiveCriticState : Option String → Critic

/-- What an attempt reads before it takes the locks. -/
structure Sample where
  folderConfigGeneration : Option Nat
  topology : Nat
  liveRoot : Option String

def commitIfDiagnosticSubjectCurrent {T : Type} (env : Env Json) (live : Authorities Critic)
    (sample : Sample) (subject : DiagnosticSubject Critic) (commit : T) :
    Except DiagnosticSubjectRejection T :=
  if !live.workspaceTopologyStable then .error .supersededCriticPolicy
  else if subject.acceptedCriticSnapshot.any fun snapshot =>
      sample.liveRoot != snapshot.owningRoot then .error .supersededCriticPolicy
  else if subject.workspaceGeneration.any fun generation =>
      live.workspaceIdentityGeneration != generation ||
        sample.folderConfigGeneration != subject.acceptedFolderConfigGeneration then
    .error .supersededGeneration
  else if sample.topology != live.workspaceTopologyGeneration ||
      subject.acceptedTopologyGeneration.any fun accepted =>
        accepted != live.workspaceTopologyGeneration then .error .supersededCriticPolicy
  else
    match live.documents (env.uriKey subject.uri) with
    | none => .error .documentClosed
    | some document =>
      if document.documentInstance ≠ subject.documentInstance then .error .wrongDocumentInstance
      else if document.generation ≠ subject.generation then .error .supersededGeneration
      else if subject.acceptedCriticSnapshot.any fun snapshot =>
          sample.liveRoot != snapshot.owningRoot ||
            !snapshot.isCurrent live.effectiveCriticState then .error .supersededCriticPolicy
      else .ok commit

abbrev Ledger := String → Option CommittedPushDiagnostic

namespace Ledger
variable (committed : Ledger)

def insert (uri : String) (entry : CommittedPushDiagnostic) : Ledger :=
  fun other => if other = uri then some entry else committed other

def remove (uri : String) : Ledger :=
  fun other => if other = uri then none else committed other

@[simp] theorem insert_same (uri : String) (entry : CommittedPushDiagnostic) :
    committed.insert uri entry uri = some entry := if_pos rfl

theorem insert_other (uri other : String) (entry : CommittedPushDiagnostic)
    (apart : other ≠ uri) : committed.insert uri entry other = committed other := if_neg apart

end Ledger

/-- The ledger, and the payloads the transport accepted under each URI, newest first. -/
structure Sink (Json : Type) where
  committed : Ledger
  sent : List (String × Json)

def recordOf (identity : PushDiagnosticIdentity Critic) (sequence : Nat) (payloadHash : UInt64) :
    CommittedPushDiagnostic :=
  ⟨identity.documentInstance, identity.generation, identity.parseErrorsOnly, sequence, payloadHash⟩

namespace Sink

def own (sink : Sink Json) (identity : PushDiagnosticIdentity Critic) :
    Option CommittedPushDiagnostic :=
  (sink.committed identity.normalizedUri).filter fun entry =>
    entry.documentInstance == identity.documentInstance

/-- `delivered` says whether the transport accepts the frame. -/
def enqueueCommittedPushDiagnostic (sink : Sink Json) (identity : PushDiagnosticIdentity Critic)
    (payload : Json) (disposition : PushDiagnosticsDisposition) (payloadHash : UInt64)
    (delivered : Bool) : PushDiagnosticsCommitOutcome × Sink Json :=
  let uri := identity.normalizedUri
  if (sink.own identity).any fun entry => identity.generation < entry.generation then
    (.rejectedSupersededGeneration, sink)
  else if identity.parseErrorsOnly && (sink.own identity).any fun entry =>
      identity.generation == entry.generation && !entry.parseErrorsOnly then
    (.rejectedSupersededPhase, sink)
  else
    let identical := (sink.own identity).filter fun entry =>
      disposition == .replacement && entry.parseErrorsOnly == identity.parseErrorsOnly &&
        entry.payloadHash == payloadHash && entry.generation ≤ identity.generation
    match identical with
    | some entry =>
      let record := recordOf identity (entry.sequence + 1) payloadHash
      (.committedCurrent, { sink with committed := sink.committed.insert uri record })
    | none =>
      let previous := sink.committed uri
      let sequence := (previous.map fun entry => entry.sequence + 1).getD 1
      let recorded := sink.committed.insert uri (recordOf identity sequence payloadHash)
      if delivered then
        let outcome :=
          match disposition with
          | .replacement => PushDiagnosticsCommitOutcome.committedCurrent
          | .clear => PushDiagnosticsCommitOutcome.safeClearCommitted
        (outcome, { committed := recorded, sent := (uri, payload) :: sink.sent })
      else
        let rolledBack :=
          match previous with
          | some restored => recorded.insert uri restored
          | none => recorded.remove uri
        (.outboundFailure, { sink with committed := rolledBack })

def commitPushDiagnostics (env : Env Json) (live : Authorities Critic) (sink : Sink Json)
    (sample : Sample) (identity : PushDiagnosticIdentity Critic) (payload : Json)
    (disposition : PushDiagnosticsDisposition) (delivered : Bool) :
    PushDiagnosticsCommitOutcome × Sink Json :=
  let subject : DiagnosticSubject Critic :=
    ⟨identity.normalizedUri, identity.documentInstance, identity.generation,
      some identity.workspaceGeneration, identity.folderConfigGeneration,
      identity.acceptedCriticSnapshot, identity.acceptedTopologyGeneration⟩
  let commit := sink.enqueueCommittedPushDiagnostic identity payload disposition
    (diagnosticsPayloadHash env payload) delivered
  match commitIfDiagnosticSubjectCurrent env live sample subject commit with
  | .ok result => result
  | .error .documentClosed => (.rejectedDocumentClosed, sink)
  | .error .wrongDocumentInstance => (.rejectedWrongDocumentInstance, sink)
  | .error .supersededGeneration => (.rejectedSupersededGeneration, sink)
  | .error .supersededCriticPolicy => (.rejectedSupersededCriticPolicy, sink)

def lastSent (sink : Sink Json) (uri : String) : Option Json :=
  (sink.sent.find? fun frame => frame.1 == uri).map Prod.snd

end Sink

structure Attempted (Json Critic : Type) where
  identity : PushDiagnosticIdentity Critic
  payload : Json
  outcome : PushDiagnosticsCommitOutcome

structure Server (Json Critic : Type) where
  live : Authorities Critic
  sink : Sink Json
  attempts : List (Attempted Json Critic)

inductive Op (Json Critic : Type) where
  | attempt (sample : Sample) (identity : PushDiagnosticIdentity Critic) (payload : Json)
      (disposition : PushDiagnosticsDisposition) (delivered : Bool)
  | move (live : Authorities Critic)

namespace Server

def start (live : Authorities Critic) (sink : Sink Json) : Server Json Critic := ⟨live, sink, []⟩

def step (env : Env Json) (s : Server Json Critic) : Op Json Critic → Server Json Critic
  | .attempt sample identity payload disposition delivered =>
    let (outcome, sink) :=
      s.sink.commitPushDiagnostics env s.live sample identity payload disposition delivered
    { s with sink := sink, attempts := ⟨identity, payload, outcome⟩ :: s.attempts }
  | .move live => { s with live := live }

end Server

/-- The last committed publication of the document instance does not stand against the candidate. -/
def Admits (sink : Sink Json) (identity : PushDiagnosticIdentity Critic) : Prop :=
  ∀ entry, sink.committed identity.normalizedUri = some entry →
    entry.documentInstance = identity.documentInstance →
      entry.generation ≤ identity.generation ∧
        (identity.parseErrorsOnly = true → entry.generation = identity.generation →
          entry.parseErrorsOnly = true)

inductive Effect (sink : Sink Json) (identity : PushDiagnosticIdentity Critic) (payload : Json)
    (payloadHash : UInt64) : PushDiagnosticsCommitOutcome × Sink Json → Prop where
  | rejected (outcome : PushDiagnosticsCommitOutcome) (refused : outcome.committed = false) :
      Effect sink identity payload payloadHash (outcome, sink)
  | suppressed (admits : Admits sink identity) (entry : CommittedPushDiagnostic)
      (recorded : sink.committed identity.normalizedUri = some entry)
      (same : entry.documentInstance = identity.documentInstance)
      (identical : entry.payloadHash = payloadHash) :
      Effect sink identity payload payloadHash (.committedCurrent,
        ⟨sink.committed.insert identity.normalizedUri
          (recordOf identity (entry.sequence + 1) payloadHash), sink.sent⟩)
  | enqueued (admits : Admits sink identity) (outcome : PushDiagnosticsCommitOutcome)
      (accepted : outcome.committed = true) (sequence : Nat) :
      Effect sink identity payload payloadHash (outcome,
        ⟨sink.committed.insert identity.normalizedUri (recordOf identity sequence payloadHash),
          (identity.normalizedUri, payload) :: sink.sent⟩)

omit [DecidableEq Critic] in
theorem own_eq_some (sink : Sink Json) (identity : PushDiagnosticIdentity Critic)
    (entry : CommittedPushDiagnostic) :
    sink.own identity = some entry ↔ sink.committed identity.normalizedUri = some entry ∧
      entry.documentInstance = identity.documentInstance := by
  rw [Sink.own, filter_eq_some_iff, beq_iff_eq]

theorem rolled_back (committed : Ledger) (uri : String) (entry : CommittedPushDiagnostic) :
    (match committed uri with
      | some restored => (committed.insert uri entry).insert uri restored
      | none => (committed.insert uri entry).remove uri) = committed := by
  funext other
  by_cases same : other = uri
  · subst same
    cases before : committed other with
    | none | some restored => exact if_pos rfl
  cases committed uri with
  | none => exact (if_neg same).trans (Ledger.insert_other committed uri other entry same)
  | some restored =>
    exact (Ledger.insert_other _ uri other restored same).trans
      (Ledger.insert_other committed uri other entry same)

omit [DecidableEq Critic] in
theorem enqueue_effect (sink : Sink Json) (identity : PushDiagnosticIdentity Critic)
    (payload : Json) (disposition : PushDiagnosticsDisposition) (payloadHash : UInt64)
    (delivered : Bool) : Effect sink identity payload payloadHash
      (sink.enqueueCommittedPushDiagnostic identity payload disposition payloadHash delivered) := by
  unfold Sink.enqueueCommittedPushDiagnostic
  simp only
  by_cases older : (sink.own identity).any fun entry => identity.generation < entry.generation
  · rw [if_pos older]
    exact .rejected _ rfl
  by_cases early : (identity.parseErrorsOnly && (sink.own identity).any fun entry =>
      identity.generation == entry.generation && !entry.parseErrorsOnly) = true
  · rw [if_neg older, if_pos early]
    exact .rejected _ rfl
  rw [if_neg older, if_neg early]
  have admits : Admits sink identity := by
    intro entry recorded same
    rw [(own_eq_some sink identity entry).mpr ⟨recorded, same⟩] at older early
    simp only [any_some, decide_eq_true_eq, Nat.not_lt, Bool.and_eq_true, beq_iff_eq,
      Bool.not_eq_true', not_and, Bool.not_eq_false] at older early
    exact ⟨older, fun fast equal => early fast equal.symm⟩
  split
  case h_1 entry identical =>
      obtain ⟨owned, alike⟩ := Option.filter_eq_some_iff.mp identical
      obtain ⟨recorded, same⟩ := (own_eq_some sink identity entry).mp owned
      simp only [Bool.and_eq_true, beq_iff_eq] at alike
      exact .suppressed admits entry recorded same alike.1.2
  case h_2 =>
      cases delivered with
      | true =>
        cases disposition with
        | replacement => exact .enqueued admits .committedCurrent rfl _
        | clear => exact .enqueued admits .safeClearCommitted rfl _
      | false =>
        have restored := rolled_back sink.committed identity.normalizedUri
          (recordOf identity (((sink.committed identity.normalizedUri).map fun entry =>
            entry.sequence + 1).getD 1) payloadHash)
        simp only [Bool.false_eq_true, if_false, restored]
        exact .rejected .outboundFailure rfl

theorem subject_current_commits {T : Type} (env : Env Json) (live : Authorities Critic)
    (sample : Sample) (subject : DiagnosticSubject Critic) (commit result : T)
    (current : commitIfDiagnosticSubjectCurrent env live sample subject commit = .ok result) :
    result = commit := by
  unfold commitIfDiagnosticSubjectCurrent at current
  split at current
  · cases current
  split at current
  · cases current
  split at current
  · cases current
  split at current
  · cases current
  split at current
  · cases current
  split at current
  · cases current
  split at current
  · cases current
  split at current
  · cases current
  · cases current
    rfl

theorem commit_effect (env : Env Json) (live : Authorities Critic) (sink : Sink Json)
    (sample : Sample) (identity : PushDiagnosticIdentity Critic) (payload : Json)
    (disposition : PushDiagnosticsDisposition) (delivered : Bool) :
    Effect sink identity payload (diagnosticsPayloadHash env payload)
      (sink.commitPushDiagnostics env live sample identity payload disposition delivered) := by
  unfold Sink.commitPushDiagnostics
  simp only
  generalize validated : commitIfDiagnosticSubjectCurrent env live sample _ _ = result
  cases result with
  | error rejection => cases rejection <;> exact .rejected _ rfl
  | ok result =>
    rw [subject_current_commits _ _ _ _ _ _ validated]
    exact enqueue_effect sink identity payload disposition _ delivered

section Document
variable (env : Env Json) (uri : String) (documentInstance : Nat) (offered : Json → Prop)

def Op.Within : Op Json Critic → Prop
  | .attempt _ identity payload _ _ =>
    offered payload ∧ (identity.normalizedUri = uri → identity.documentInstance = documentInstance)
  | .move _ => True

def Attempted.committedAt (attempted : Attempted Json Critic) : Bool :=
  attempted.identity.normalizedUri == uri && attempted.outcome.committed

/-- The instance's ledger entry is an image of what the client holds, and of the reports committed
so far. -/
structure Mirror (s : Server Json Critic) : Prop where
  image : ∀ entry, s.sink.committed uri = some entry → entry.documentInstance = documentInstance →
    ∃ payload, offered payload ∧ s.sink.lastSent uri = some payload ∧
      entry.payloadHash = diagnosticsPayloadHash env payload
  latest : ∀ attempted, s.attempts.find? (Attempted.committedAt uri) = some attempted →
    (s.sink.lastSent uri).map (diagnosticsOf env) = some (diagnosticsOf env attempted.payload)
  full : ∀ attempted ∈ s.attempts, attempted.committedAt uri = true →
    attempted.identity.parseErrorsOnly = false →
      ∃ entry, s.sink.committed uri = some entry ∧ entry.documentInstance = documentInstance ∧
        attempted.identity.generation ≤ entry.generation ∧
        (entry.generation = attempted.identity.generation → entry.parseErrorsOnly = false)

variable {env uri documentInstance offered}
variable {s : Server Json Critic}

omit [DecidableEq Critic] in
theorem Mirror.aside (ok : Mirror env uri documentInstance offered s)
    (attempted : Attempted Json Critic) (sink : Sink Json) (skipped : attempted.committedAt uri = false)
    (ledger : sink.committed uri = s.sink.committed uri)
    (client : sink.lastSent uri = s.sink.lastSent uri) : Mirror env uri documentInstance offered
      { s with sink := sink, attempts := attempted :: s.attempts } where
  image := by
    intro entry
    simp only [ledger, client]
    exact ok.image entry
  latest := by
    intro last found
    simp only [client]
    rw [List.find?_cons_of_neg (Bool.eq_false_iff.mp skipped)] at found
    exact ok.latest last found
  full := by
    intro other member committed
    simp only [ledger]
    rcases List.mem_cons.mp member with rfl | earlier
    · exact absurd committed (Bool.eq_false_iff.mp skipped)
    · exact ok.full other earlier committed

omit [DecidableEq Critic] in
/-- A committed attempt under the URI, whose payload the client holds up to its envelope. -/
theorem Mirror.commit (ok : Mirror env uri documentInstance offered s)
    (attempted : Attempted Json Critic) (sink : Sink Json) (sequence : Nat) (held : Json)
    (known : offered held) (here : attempted.identity.normalizedUri = uri)
    (own : attempted.identity.documentInstance = documentInstance)
    (admits : Admits s.sink attempted.identity) (ledger : sink.committed uri =
      some (recordOf attempted.identity sequence (diagnosticsPayloadHash env attempted.payload)))
    (client : sink.lastSent uri = some held)
    (same : diagnosticsOf env held = diagnosticsOf env attempted.payload)
    (committed : attempted.outcome.committed = true) : Mirror env uri documentInstance offered
      { s with sink := sink, attempts := attempted :: s.attempts } where
  image := by
    intro entry recorded _
    have entryIs := Option.some.inj (ledger.symm.trans recorded)
    refine ⟨held, known, client, ?_⟩
    rw [← entryIs]
    exact congrArg (fun shown => env.hashText (env.toText shown)) same.symm
  latest := by
    intro last found
    have counted : attempted.committedAt uri = true := by
      rw [Attempted.committedAt, here, committed]
      simp
    rw [List.find?_cons_of_pos counted] at found
    cases found
    simp only [client, map_some, same]
  full := by
    intro other member counted thorough
    refine ⟨_, ledger, own, ?_⟩
    rcases List.mem_cons.mp member with rfl | earlier
    · exact ⟨Nat.le_refl _, fun _ => thorough⟩
    obtain ⟨entry, recorded, sameInstance, notNewer, fullThere⟩ :=
      ok.full other earlier counted thorough
    obtain ⟨advances, keepsFull⟩ :=
      admits entry (here ▸ recorded) (sameInstance.trans own.symm)
    refine ⟨Nat.le_trans notNewer advances, fun equal => ?_⟩
    have level : entry.generation = other.identity.generation :=
      Nat.le_antisymm (Nat.le_trans advances (Nat.le_of_eq equal)) notNewer
    refine Bool.eq_false_iff.mpr fun fast => ?_
    have early := keepsFull fast (level.trans equal.symm)
    exact Bool.eq_false_iff.mp (fullThere level) early

theorem last_sent_same (frames : List (String × Json)) (committed : Ledger) (payload : Json) :
    Sink.lastSent ⟨committed, (uri, payload) :: frames⟩ uri = some payload := by
  rw [Sink.lastSent, List.find?_cons_of_pos (by simp)]
  rfl

theorem last_sent_other (frames : List (String × Json)) (committed previous : Ledger)
    (payload : Json) (other : String) (apart : other ≠ uri) :
    Sink.lastSent ⟨committed, (other, payload) :: frames⟩ uri = Sink.lastSent ⟨previous, frames⟩ uri := by
  rw [Sink.lastSent, List.find?_cons_of_neg (by simpa using apart)]
  rfl

section
variable (collisionFree : ∀ first second, offered first → offered second →
  diagnosticsPayloadHash env first = diagnosticsPayloadHash env second →
    diagnosticsOf env first = diagnosticsOf env second)
include collisionFree

omit [DecidableEq Critic] in
theorem Mirror.attempt (ok : Mirror env uri documentInstance offered s)
    (identity : PushDiagnosticIdentity Critic) (payload : Json) (known : offered payload)
    (sole : identity.normalizedUri = uri → identity.documentInstance = documentInstance)
    (result : PushDiagnosticsCommitOutcome × Sink Json)
    (effect : Effect s.sink identity payload (diagnosticsPayloadHash env payload) result) :
    Mirror env uri documentInstance offered
      { s with sink := result.2, attempts := ⟨identity, payload, result.1⟩ :: s.attempts } := by
  cases effect with
  | rejected outcome refused =>
    refine ok.aside _ _ ?_ rfl rfl
    rw [Attempted.committedAt, refused, Bool.and_false]
  | suppressed admits entry recorded same identical =>
    by_cases here : identity.normalizedUri = uri
    · subst here
      obtain ⟨held, heldKnown, client, hashed⟩ := ok.image entry recorded (same.trans (sole rfl))
      refine ok.commit _ _ (entry.sequence + 1) held heldKnown rfl (sole rfl) admits
        (Ledger.insert_same _ _ _) client ?_ rfl
      exact collisionFree held payload heldKnown known (hashed.symm.trans identical)
    · refine ok.aside _ _ ?_ (Ledger.insert_other _ _ _ _ (Ne.symm here)) rfl
      rw [Attempted.committedAt, beq_false_of_ne here, Bool.false_and]
  | enqueued admits outcome accepted sequence =>
    by_cases here : identity.normalizedUri = uri
    · subst here
      exact ok.commit _ _ sequence payload known rfl (sole rfl) admits
        (Ledger.insert_same _ _ _) (last_sent_same _ _ _) rfl accepted
    · refine ok.aside _ _ ?_ (Ledger.insert_other _ _ _ _ (Ne.symm here)) (last_sent_other _ _ _ _ _ here)
      rw [Attempted.committedAt, beq_false_of_ne here, Bool.false_and]

theorem Mirror.step (ok : Mirror env uri documentInstance offered s)
    (op : Op Json Critic) (within : op.Within uri documentInstance offered) :
    Mirror env uri documentInstance offered (s.step env op) := by
  cases op with
  | attempt sample identity payload disposition delivered =>
    exact ok.attempt collisionFree identity payload within.1 within.2 _
      (commit_effect env s.live s.sink sample identity payload disposition delivered)
  | move live => exact ⟨ok.image, ok.latest, ok.full⟩

end

omit [DecidableEq Critic] in
theorem Mirror.early_kept (ok : Mirror env uri documentInstance offered s)
    (attempted : Attempted Json Critic) (member : attempted ∈ s.attempts)
    (counted : attempted.committedAt uri = true) (thorough : attempted.identity.parseErrorsOnly = false)
    (identity : PushDiagnosticIdentity Critic) (here : identity.normalizedUri = uri)
    (own : identity.documentInstance = documentInstance) (fast : identity.parseErrorsOnly = true)
    (level : identity.generation = attempted.identity.generation) : ¬ Admits s.sink identity := by
  intro admits
  obtain ⟨entry, recorded, sameInstance, notNewer, fullThere⟩ :=
    ok.full attempted member counted thorough
  obtain ⟨advances, keepsFull⟩ := admits entry (here ▸ recorded) (sameInstance.trans own.symm)
  have equal : entry.generation = identity.generation :=
    Nat.le_antisymm advances (level ▸ notNewer)
  exact Bool.eq_false_iff.mp (fullThere (equal.trans level)) (keepsFull fast equal)

section

omit [DecidableEq Critic]
variable {sink : Sink Json} {identity : PushDiagnosticIdentity Critic} {payload : Json}
  {payloadHash : UInt64} {result : PushDiagnosticsCommitOutcome × Sink Json}
  (effect : Effect sink identity payload payloadHash result)
include effect

/-- No attempt drops an entry or takes its generation back for the same instance. -/
theorem effect_forward (key : String) (entry : CommittedPushDiagnostic) (recorded : sink.committed key = some entry)
    (same : identity.normalizedUri = key → identity.documentInstance = entry.documentInstance) :
    ∃ after, result.2.committed key = some after ∧
      after.documentInstance = entry.documentInstance ∧ entry.generation ≤ after.generation := by
  have inserted : Admits sink identity → ∀ sequence, ∃ after,
      sink.committed.insert identity.normalizedUri (recordOf identity sequence payloadHash) key =
          some after ∧
        after.documentInstance = entry.documentInstance ∧ entry.generation ≤ after.generation := by
    intro admits sequence
    by_cases here : identity.normalizedUri = key
    · subst here
      exact ⟨_, Ledger.insert_same _ _ _, same rfl, (admits entry recorded (same rfl).symm).1⟩
    · exact ⟨entry, (Ledger.insert_other _ _ _ _ (Ne.symm here)).trans recorded, rfl, Nat.le_refl _⟩
  cases effect with
  | rejected outcome refused => exact ⟨entry, recorded, rfl, Nat.le_refl _⟩
  | suppressed admits entry recorded same identical | enqueued admits outcome accepted sequence =>
    exact inserted admits _

theorem effect_restored (notCommitted : result.1.committed = false) : result.2 = sink := by
  cases effect with
  | rejected outcome refused => rfl
  | suppressed admits entry recorded same identical => cases notCommitted
  | enqueued admits outcome accepted sequence =>
    exact absurd accepted (Bool.eq_false_iff.mp notCommitted)

theorem effect_not_admitted (barred : ¬ Admits sink identity) : result.2 = sink := by
  cases effect with
  | rejected outcome refused => rfl
  | suppressed admits entry recorded same identical | enqueued admits outcome accepted sequence =>
    exact absurd admits barred

end

variable (env uri documentInstance) in
structure Faithful (s : Server Json Critic) : Prop where
  shown : ∀ attempted, s.attempts.find? (Attempted.committedAt uri) = some attempted →
    (s.sink.lastSent uri).map (diagnosticsOf env) = some (diagnosticsOf env attempted.payload)
  earlyKept : ∀ attempted ∈ s.attempts, attempted.committedAt uri = true →
    attempted.identity.parseErrorsOnly = false →
      ∀ sample identity payload disposition delivered, identity.normalizedUri = uri →
        identity.documentInstance = documentInstance → identity.parseErrorsOnly = true →
        identity.generation = attempted.identity.generation →
          (s.sink.commitPushDiagnostics env s.live sample identity payload disposition
            delivered).2 = s.sink
  forward : ∀ sample identity payload disposition delivered key entry,
    s.sink.committed key = some entry →
      (identity.normalizedUri = key → identity.documentInstance = entry.documentInstance) →
        ∃ after, (s.sink.commitPushDiagnostics env s.live sample identity payload disposition
            delivered).2.committed key = some after ∧
          after.documentInstance = entry.documentInstance ∧ entry.generation ≤ after.generation
  restored : ∀ sample identity payload disposition delivered,
    (s.sink.commitPushDiagnostics env s.live sample identity payload disposition delivered).1 =
      .outboundFailure →
        (s.sink.commitPushDiagnostics env s.live sample identity payload disposition
          delivered).2 = s.sink

theorem Mirror.faithful (ok : Mirror env uri documentInstance offered s) :
    Faithful env uri documentInstance s where
  shown := ok.latest
  earlyKept := by
    intro attempted member counted thorough sample identity payload disposition delivered here own fast level
    exact effect_not_admitted (commit_effect env s.live s.sink sample identity payload disposition delivered)
      (ok.early_kept attempted member counted thorough identity here own fast level)
  forward := fun sample identity payload disposition delivered =>
    effect_forward (commit_effect env s.live s.sink sample identity payload disposition delivered)
  restored := by
    intro sample identity payload disposition delivered failed
    refine effect_restored (commit_effect env s.live s.sink sample identity payload disposition delivered) ?_
    rw [failed]
    rfl

/-- Attempts on one document instance, among attempts on other documents and any movement of the
authorities, from a ledger that has not seen it. -/
theorem every_sequence_faithful (env : Env Json) (uri : String) (documentInstance : Nat)
    (offered : Json → Prop)
    (collisionFree : ∀ first second, offered first → offered second →
      diagnosticsPayloadHash env first = diagnosticsPayloadHash env second →
        diagnosticsOf env first = diagnosticsOf env second)
    (live : Authorities Critic) (sink : Sink Json)
    (unseen : ∀ entry, sink.committed uri = some entry → entry.documentInstance ≠ documentInstance)
    (ops : List (Op Json Critic)) (within : ∀ op ∈ ops, op.Within uri documentInstance offered) :
    Along (Server.step env) (Faithful env uri documentInstance) (Server.start live sink) ops := by
  have first : Mirror env uri documentInstance offered (Server.start live sink) :=
    ⟨fun entry recorded same => absurd same (unseen entry recorded),
      (fun _ found => nomatch found), (fun _ member => nomatch member)⟩
  have mirror : Along (Server.step env) (Mirror env uri documentInstance offered)
      (Server.start live sink) ops :=
    along_of_steps (Server.step env) (Mirror env uri documentInstance offered)
      (fun _ op => op.Within uri documentInstance offered)
      (fun s op ok held => ok.step collisionFree op held) _ ops first
      (steps_meet_of_forall _ _ _ _ within)
  exact along_mono (Server.step env) (fun s ok => ok.faithful) _ ops mirror

end Document

section Session

def messageEnv : Env (List String) where
  get := fun payload _ => some payload
  null := []
  toText := fun payload => "[" ++ ",".intercalate payload ++ "]"
  hashText := fun text => UInt64.ofNat text.length
  uriKey := id

def liveAt (generation : Nat) : Authorities Unit where
  workspaceTopologyStable := true
  workspaceIdentityGeneration := 0
  workspaceTopologyGeneration := 0
  documents := fun uri => if uri = "file:///a.pl" then some ⟨7, generation⟩ else none
  effectiveCriticState := fun _ => ()

def candidate (generation : Nat) (parseErrorsOnly : Bool) : PushDiagnosticIdentity Unit :=
  ⟨"file:///a.pl", 7, generation, parseErrorsOnly, 0, none, none, none⟩

def messages (payload : List String) : Prop := payload = [] ∨ payload = ["unexpected brace"]

/-- An early and a full report, a late early one, the same report after an edit, and a clear that is
refused. -/
def editSession : List (Op (List String) Unit) :=
  let sample : Sample := ⟨none, 0, none⟩
  [.attempt sample (candidate 1 true) [] .replacement true,
    .attempt sample (candidate 1 false) ["unexpected brace"] .replacement true,
    .attempt sample (candidate 1 true) [] .replacement true, .move (liveAt 2),
    .attempt sample (candidate 2 false) ["unexpected brace"] .replacement true,
    .attempt sample (candidate 2 false) [] .clear false]

theorem edit_session_faithful :
    (∀ op ∈ editSession, op.Within "file:///a.pl" 7 messages) ∧
      Along (Server.step messageEnv) (Faithful messageEnv "file:///a.pl" 7)
        (Server.start (liveAt 1) ⟨fun _ => none, []⟩) editSession := by
  have within : ∀ op ∈ editSession, op.Within "file:///a.pl" 7 messages := by
    simp [editSession, Op.Within, messages, candidate]
  refine ⟨within, every_sequence_faithful messageEnv "file:///a.pl" 7 messages ?_ (liveAt 1) _
    (by rintro entry ⟨⟩) editSession within⟩
  rintro first second (rfl | rfl) (rfl | rfl) same
  · rfl
  · exact absurd same (by decide)
  · exact absurd same (by decide)
  · rfl

end Session

end PerlLsp.DiagnosticsSink
