import PerlLsp.ClientRequests
import PerlLsp.RequestLives

/-! `IncomingRequestRegistry` of runtime/dispatch/request_lifecycle.rs: the requests the client
sends, from their admission over one terminal to the cleanup of the response. All state is under one
lock; a shutdown takes the ids under it once and then selects for each in a step of its own. An
instant is a number of clock ticks. -/
namespace PerlLsp.IncomingRequests
open Std Runs Tables List
open TextSync (Value)
open ClientRequests (JsonRpcId boundedText saturatingSucc u64Max)
open RequestLives

def defaultIncomingRequestCapacity : Nat := 256
def maxIncomingRequestCapacity : Nat := 8192
def maxRecentTerminals : Nat := 512
def maxAnomalies : Nat := 128
def maxMethodBytes : Nat := 160
def maxDiagnosticBytes : Nat := 384

/-- The same two identities, in the same order, as on the way out. -/
abbrev IncomingRequestKey := ClientRequests.ServerRequestKey

inductive IncomingRequestPhase where
  | accepted
  | queued
  | running
  | terminalSelected
  deriving DecidableEq

namespace IncomingRequestPhase

def rank : IncomingRequestPhase → Nat
  | accepted => 0
  | queued => 1
  | running => 2
  | terminalSelected => 3

def debug : IncomingRequestPhase → String
  | accepted => "Accepted"
  | queued => "Queued"
  | running => "Running"
  | terminalSelected => "TerminalSelected"

end IncomingRequestPhase

inductive IncomingTerminalKind where
  | result
  | error
  | shutdown
  | transportLost
  deriving DecidableEq

def IncomingTerminalKind.debug : IncomingTerminalKind → String
  | result => "Result"
  | error => "Error"
  | shutdown => "Shutdown"
  | transportLost => "TransportLost"

structure JsonRpcError where
  code : Int
  message : String
  data : Option Value

inductive IncomingTerminalOutcome where
  | result (value : Value)
  | error (error : JsonRpcError)

def IncomingTerminalOutcome.kind : IncomingTerminalOutcome → IncomingTerminalKind
  | result _ => .result
  | error _ => .error

structure SelectedIncomingTerminal where
  id : JsonRpcId
  method : String
  acceptedAt : Nat
  selectedAt : Nat
  outcome : IncomingTerminalOutcome

structure IncomingRequestHandle where
  id : JsonRpcId
  method : String

inductive PhaseTransitionDisposition where
  | advanced
  | unchanged
  | alreadyTerminal
  | unknown
  deriving DecidableEq

inductive TerminalSelectionDisposition where
  | selected
  | alreadyTerminal
  | unknown
  deriving DecidableEq

inductive ResponseWriteDisposition where
  | writtenAndCleaned
  | writeFailedAndCleaned
  | terminalNotSelected
  | alreadyCleaned
  | unknown
  deriving DecidableEq

inductive IncomingRequestAnomalyKind where
  | duplicateAdmission
  | invalidPhaseRegression
  | unknownRequest
  | unsupportedId
  | duplicateTerminal
  | responseBeforeTerminal
  | responseAfterCleanup
  | responseWriteFailed
  | transportCleanup
  deriving DecidableEq

structure IncomingRequestAnomaly where
  kind : IncomingRequestAnomalyKind
  id : Option JsonRpcId
  method : Option String
  detail : String
  observedAt : Nat

/-- The counters the registry keeps; those for the phases are counted when asked for. -/
structure IncomingRequestCounters where
  admittedTotal : Nat
  notificationsBypassed : Nat
  capacityRejected : Nat
  duplicateAdmission : Nat
  phaseAdvanced : Nat
  terminalSelectedTotal : Nat
  resultSelected : Nat
  errorSelected : Nat
  shutdownSelected : Nat
  duplicateTerminal : Nat
  responsesWritten : Nat
  responseWriteFailed : Nat
  transportCleaned : Nat
  unknownRequest : Nat
  unsupportedId : Nat
  anomaliesDropped : Nat

def IncomingRequestCounters.zero : IncomingRequestCounters :=
  ⟨0, 0, 0, 0, 0, 0, 0, 0, 0, 0, 0, 0, 0, 0, 0, 0⟩

inductive IncomingRequestRegistryError where
  | invalidCapacity (requested maximum : Nat)
  | capacityExhausted (capacity : Nat)
  | duplicateId (id : String)
  | unsupportedId (id : String)

structure IncomingRequestEntry where
  method : String
  acceptedAt : Nat
  phaseChangedAt : Nat
  phase : IncomingRequestPhase
  terminalKind : Option IncomingTerminalKind

structure RecentTerminal where
  id : IncomingRequestKey
  method : String
  terminalKind : IncomingTerminalKind
  cleanedAt : Nat
  responseWritten : Bool

structure Registry where
  capacity : Nat
  active : TreeMap IncomingRequestKey IncomingRequestEntry
  recent : List RecentTerminal
  anomalies : List IncomingRequestAnomaly
  counters : IncomingRequestCounters

open Registry

namespace Registry

def withValidCapacity (capacity : Nat) : Registry := ⟨capacity, ∅, [], [], .zero⟩

def new (capacity : Nat) : Except IncomingRequestRegistryError Registry :=
  if capacity = 0 ∨ maxIncomingRequestCapacity < capacity then
    .error (.invalidCapacity capacity maxIncomingRequestCapacity)
  else .ok (withValidCapacity capacity)

def pushAnomaly (s : Registry) (kind : IncomingRequestAnomalyKind) (id : Option IncomingRequestKey)
    (method : Option String) (detail : String) (observedAt : Nat) : Registry :=
  let full := s.anomalies.length = maxAnomalies
  let anomaly : IncomingRequestAnomaly :=
    ⟨kind, id.map (·.toJsonRpcId), method.map (boundedText · maxMethodBytes),
      boundedText detail maxDiagnosticBytes, observedAt⟩
  { s with
    anomalies := (if full then s.anomalies.drop 1 else s.anomalies) ++ [anomaly]
    counters :=
      if full then
        { s.counters with anomaliesDropped := saturatingSucc s.counters.anomaliesDropped }
      else s.counters }

def pushRecent (s : Registry) (terminal : RecentTerminal) : Registry :=
  let recent := s.recent ++ [terminal]
  { s with recent := recent.drop (recent.length - maxRecentTerminals) }

def recordUnknown (s : Registry) (id : IncomingRequestKey) (operation : String) (observedAt : Nat) :
    Registry :=
  { s with counters :=
    { s.counters with unknownRequest := saturatingSucc s.counters.unknownRequest } }.pushAnomaly
      .unknownRequest (some id) none (operation ++ " referenced an unknown request") observedAt

def recordUnsupportedId (idText : JsonRpcId → String) (s : Registry) (id : JsonRpcId)
    (operation : String) (observedAt : Nat) : String × Registry :=
  let rendered := boundedText (idText id) maxDiagnosticBytes
  (rendered, { s with counters :=
    { s.counters with unsupportedId := saturatingSucc s.counters.unsupportedId } }.pushAnomaly
      .unsupportedId none none
      (operation ++ " referenced an unsupported request identity " ++ rendered) observedAt)

variable (idText : JsonRpcId → String)
variable (s : Registry)

def admitRequest (id : JsonRpcId) (method : String) (now : Nat) :
    Except IncomingRequestRegistryError IncomingRequestHandle × Registry :=
  let method := boundedText method maxMethodBytes
  match ClientRequests.ServerRequestKey.fromJsonRpcId id with
  | none =>
    let (rendered, s) := s.recordUnsupportedId idText id "admission" now
    (.error (.unsupportedId rendered), s)
  | some key =>
    if s.capacity ≤ s.active.size then
      (.error (.capacityExhausted s.capacity), { s with counters :=
        { s.counters with capacityRejected := saturatingSucc s.counters.capacityRejected } })
    else if s.active.contains key then
      (.error (.duplicateId key.diagnosticIdentity), { s with counters :=
        { s.counters with
          duplicateAdmission := saturatingSucc s.counters.duplicateAdmission } }.pushAnomaly
            .duplicateAdmission (some key) (some method) "request ID is already active" now)
    else
      (.ok ⟨id, method⟩, { s with
        active := s.active.insert key ⟨method, now, now, .accepted, none⟩
        counters :=
          { s.counters with admittedTotal := saturatingSucc s.counters.admittedTotal } })

def admitOptional (id : Option JsonRpcId) (method : String) (now : Nat) :
    Except IncomingRequestRegistryError (Option IncomingRequestHandle) × Registry :=
  match id with
  | none =>
    (.ok none, { s with counters :=
      { s.counters with
        notificationsBypassed := saturatingSucc s.counters.notificationsBypassed } })
  | some id =>
    let (admitted, s) := s.admitRequest idText id method now
    (admitted.map some, s)

def advancePhase (id : JsonRpcId) (target : IncomingRequestPhase) (now : Nat) :
    PhaseTransitionDisposition × Registry :=
  match ClientRequests.ServerRequestKey.fromJsonRpcId id with
  | none => (.unknown, (s.recordUnsupportedId idText id "phase transition" now).2)
  | some key =>
    match s.active[key]? with
    | none => (.unknown, s.recordUnknown key "phase transition" now)
    | some entry =>
      let s := { s with active := s.active.erase key }
      let (disposition, entry, s) :=
        if entry.phase = .terminalSelected then
          (PhaseTransitionDisposition.alreadyTerminal, entry, s)
        else if target.rank < entry.phase.rank then
          (.unchanged, entry, s.pushAnomaly .invalidPhaseRegression (some key)
            (some entry.method)
            ("phase regression " ++ entry.phase.debug ++ " -> " ++ target.debug) now)
        else if target = entry.phase then (.unchanged, entry, s)
        else
          (.advanced, { entry with phase := target, phaseChangedAt := now },
            { s with counters :=
              { s.counters with phaseAdvanced := saturatingSucc s.counters.phaseAdvanced } })
      (disposition, { s with active := s.active.insert key entry })

def markQueued (id : JsonRpcId) (now : Nat) : PhaseTransitionDisposition × Registry :=
  s.advancePhase idText id .queued now

def markRunning (id : JsonRpcId) (now : Nat) : PhaseTransitionDisposition × Registry :=
  s.advancePhase idText id .running now

def countTerminal (counters : IncomingRequestCounters) (outcome : IncomingTerminalOutcome)
    (shutdown : Bool) : IncomingRequestCounters :=
  let counters :=
    { counters with terminalSelectedTotal := saturatingSucc counters.terminalSelectedTotal }
  if shutdown then
    { counters with shutdownSelected := saturatingSucc counters.shutdownSelected }
  else
    match outcome with
    | .result _ => { counters with resultSelected := saturatingSucc counters.resultSelected }
    | .error _ => { counters with errorSelected := saturatingSucc counters.errorSelected }

variable (instantText : Nat → String)
variable (s : Registry)
variable (id : JsonRpcId)

def selectTerminal (outcome : IncomingTerminalOutcome) (shutdown : Bool) (now : Nat) :
    TerminalSelectionDisposition × Option SelectedIncomingTerminal × Registry :=
  match ClientRequests.ServerRequestKey.fromJsonRpcId id with
  | none => (.unknown, none, (s.recordUnsupportedId idText id "terminal selection" now).2)
  | some key =>
    match s.active[key]? with
    | none =>
      match s.recent.find? fun recent => recent.id == key with
      | some recent =>
        (.alreadyTerminal, none, { s with counters :=
          { s.counters with
            duplicateTerminal := saturatingSucc s.counters.duplicateTerminal } }.pushAnomaly
              .duplicateTerminal (some key) (some recent.method)
              ("terminal already cleaned kind=" ++ recent.terminalKind.debug ++
                " response_written=" ++ toString recent.responseWritten ++
                " cleaned_at=" ++ instantText recent.cleanedAt) now)
      | none => (.unknown, none, s.recordUnknown key "terminal selection" now)
    | some entry =>
      let s := { s with active := s.active.erase key }
      if entry.phase = .terminalSelected then
        let s := { s with counters :=
          { s.counters with
            duplicateTerminal := saturatingSucc s.counters.duplicateTerminal } }.pushAnomaly
              .duplicateTerminal (some key) (some entry.method)
              "second terminal selection rejected" now
        (.alreadyTerminal, none, { s with active := s.active.insert key entry })
      else
        let terminalKind := if shutdown then .shutdown else outcome.kind
        (.selected, some ⟨id, entry.method, entry.acceptedAt, now, outcome⟩,
          { s with
            active := s.active.insert key
              { entry with
                phase := .terminalSelected
                phaseChangedAt := now
                terminalKind := some terminalKind }
            counters := countTerminal s.counters outcome shutdown })

def selectResult (result : Value)
    (now : Nat) : TerminalSelectionDisposition × Option SelectedIncomingTerminal × Registry :=
  s.selectTerminal idText instantText id (.result result) false now

def selectError (error : JsonRpcError)
    (now : Nat) : TerminalSelectionDisposition × Option SelectedIncomingTerminal × Registry :=
  s.selectTerminal idText instantText id (.error error) false now

/-- The ids `select_shutdown_errors` takes down before it selects for them. -/
def shutdownIds : List JsonRpcId :=
  s.active.toList.filterMap fun row =>
    if row.2.phase ≠ .terminalSelected then some row.1.toJsonRpcId else none

/-- One round of its loop. -/
def selectShutdownError (instantText : Nat → String) (s : Registry) (id : JsonRpcId)
    (errorCode : Int) (message : String) (now : Nat) :
    TerminalSelectionDisposition × Option SelectedIncomingTerminal × Registry :=
  s.selectTerminal idText instantText id
    (.error ⟨errorCode, boundedText message maxDiagnosticBytes, none⟩) true now

def finishResponse (s : Registry) (id : JsonRpcId) (written : Bool) (failureDetail : Option String)
    (now : Nat) : ResponseWriteDisposition × Registry :=
  match ClientRequests.ServerRequestKey.fromJsonRpcId id with
  | none => (.unknown, (s.recordUnsupportedId idText id "response completion" now).2)
  | some key =>
    match s.active[key]? with
    | none =>
      match s.recent.find? fun recent => recent.id == key with
      | some recent =>
        (.alreadyCleaned, s.pushAnomaly .responseAfterCleanup (some key) (some recent.method)
          "response completion repeated after cleanup" now)
      | none => (.unknown, s.recordUnknown key "response completion" now)
    | some entry =>
      let s := { s with active := s.active.erase key }
      match entry.terminalKind with
      | none =>
        (.terminalNotSelected, { s with active := s.active.insert key entry }.pushAnomaly
          .responseBeforeTerminal (some key) (some entry.method)
          "response write attempted before terminal selection" now)
      | some terminalKind =>
        let s := s.pushRecent ⟨key, entry.method, terminalKind, now, written⟩
        if written then
          (.writtenAndCleaned, { s with counters :=
            { s.counters with
              responsesWritten := saturatingSucc s.counters.responsesWritten } })
        else
          (.writeFailedAndCleaned, { s with counters :=
            { s.counters with
              responseWriteFailed :=
                saturatingSucc s.counters.responseWriteFailed } }.pushAnomaly
                  .responseWriteFailed (some key) (some entry.method)
                  (boundedText (failureDetail.getD "response write failed")
                    maxDiagnosticBytes) now)

def responseWritten (s : Registry) (id : JsonRpcId) (now : Nat) : ResponseWriteDisposition × Registry :=
  s.finishResponse idText id true none now

def responseWriteFailed (s : Registry) (id : JsonRpcId) (detail : String) (now : Nat) :
    ResponseWriteDisposition × Registry :=
  s.finishResponse idText id false (some detail) now

def cleanLost (now : Nat) (s : Registry) (row : IncomingRequestKey × IncomingRequestEntry) : Registry :=
  let s := { s with counters :=
    { s.counters with transportCleaned := saturatingSucc s.counters.transportCleaned } }
  (s.pushRecent
    ⟨row.1, row.2.method, row.2.terminalKind.getD .transportLost, now, false⟩).pushAnomaly
      .transportCleanup (some row.1) (some row.2.method)
      ("transport lost while phase=" ++ row.2.phase.debug) now

def transportLost (s : Registry) (now : Nat) : Nat × Registry :=
  let active := s.active
  (active.size, active.toList.foldl (cleanLost now) { s with active := ∅ })

end Registry

abbrev Event := RequestLives.Event IncomingRequestKey IncomingTerminalKind
abbrev EventKind := RequestLives.EventKind IncomingTerminalKind

def keyOf : JsonRpcId → IncomingRequestKey
  | .integer value => .integer value
  | .string value => .string value

@[simp] theorem from_json_rpc_id (id : JsonRpcId) :
    ClientRequests.ServerRequestKey.fromJsonRpcId id = some (keyOf id) := by
  cases id <;> rfl

variable (key : IncomingRequestKey)

/-- What the results of the operations report to their callers. -/
def admissionEvents {Handle : Type} : Except IncomingRequestRegistryError Handle → List Event
  | .ok _ => [⟨key, .admitted⟩]
  | .error _ => []

def phaseEvents (target : IncomingRequestPhase) : PhaseTransitionDisposition → List Event
  | .advanced => [⟨key, .advanced target.rank⟩]
  | _ => []

def selectionEvents (kind : IncomingTerminalKind) : TerminalSelectionDisposition → List Event
  | .selected => [⟨key, .selected kind⟩]
  | _ => []

def completionEvents : ResponseWriteDisposition → List Event
  | .writtenAndCleaned => [⟨key, .written⟩]
  | .writeFailedAndCleaned => [⟨key, .writeFailed⟩]
  | _ => []

def lostOf (rows : List (IncomingRequestKey × IncomingRequestEntry)) : List Event :=
  rows.map fun row => ⟨row.1, .lost⟩

inductive Account where
  | admitted
  | selected
  | result
  | error
  | shutdown
  | written
  | writeFailed
  | lost

def IncomingRequestCounters.read (counters : IncomingRequestCounters) : Account → Nat
  | .admitted => counters.admittedTotal
  | .selected => counters.terminalSelectedTotal
  | .result => counters.resultSelected
  | .error => counters.errorSelected
  | .shutdown => counters.shutdownSelected
  | .written => counters.responsesWritten
  | .writeFailed => counters.responseWriteFailed
  | .lost => counters.transportCleaned

def Account.counts : Account → EventKind → Bool
  | .admitted, .admitted => true
  | .selected, .selected _ => true
  | .result, .selected .result => true
  | .error, .selected .error => true
  | .shutdown, .selected .shutdown => true
  | .written, .written => true
  | .writeFailed, .writeFailed => true
  | .lost, .lost => true
  | _, _ => false

def occurrences (account : Account) (trace : List Event) : Nat :=
  trace.countP fun event => account.counts event.kind

/-- Every account shows how often it was called upon, up to its saturation. -/
def Counted (counters : IncomingRequestCounters) (trace : List Event) : Prop :=
  ∀ account, counters.read account = min (occurrences account trace) u64Max

def statusOf (entry : IncomingRequestEntry) : Status :=
  if entry.phase = .terminalSelected then .chosen else .waiting entry.phase.rank

def Registry.status (s : Registry) (key : IncomingRequestKey) : Option Status :=
  s.active[key]?.map statusOf

def Registry.Kinds (s : Registry) : Prop :=
  ∀ (key : IncomingRequestKey) (entry : IncomingRequestEntry), s.active[key]? = some entry →
    (entry.phase = .terminalSelected ↔ entry.terminalKind.isSome = true)

structure Acts (s t : Registry) (events : List Event) : Prop where
  capacity : t.capacity = s.capacity
  status : ∀ key, follow (s.status key) (eventsOf key events) = some (t.status key)
  size : t.active.size + (cleanedKeys events).length =
    s.active.size + occurrences .admitted events
  bounded : s.active.size ≤ s.capacity → t.active.size ≤ s.capacity
  forward : ∀ (key : IncomingRequestKey) (before after : IncomingRequestEntry),
    s.active[key]? = some before → t.active[key]? = some after →
    before.phase.rank ≤ after.phase.rank
  kinds : s.Kinds → t.Kinds
  recent : t.recent.map RecentTerminal.id =
    lastOf maxRecentTerminals (s.recent.map RecentTerminal.id ++ cleanedKeys events)
  counted : ∀ trace, Counted s.counters trace → Counted t.counters (trace ++ events)
  real : ∀ event ∈ events, event.kind ≠ .selected .transportLost

structure Same (s t : Registry) : Prop where
  capacity : t.capacity = s.capacity
  active : ∀ key : IncomingRequestKey, t.active[key]? = s.active[key]?
  size : t.active.size = s.active.size
  recent : t.recent = s.recent
  counters : ∀ account, t.counters.read account = s.counters.read account

theorem recent_kept {s : Registry} (ring : s.recent.length ≤ maxRecentTerminals) :
    s.recent.map RecentTerminal.id = lastOf maxRecentTerminals (s.recent.map RecentTerminal.id ++ []) := by
  rw [append_nil, last_of_short (by rw [length_map]; exact ring)]

variable {t : Registry} {key : IncomingRequestKey} {entry : IncomingRequestEntry}

theorem Same.acts {s : Registry} (same : Same s t) (ring : s.recent.length ≤ maxRecentTerminals) :
    Acts s t [] where
  capacity := same.capacity
  status key := by
    rw [Registry.status, Registry.status, same.active]
    rfl
  size := by rw [same.size]; rfl
  bounded fits := by rw [same.size]; exact fits
  forward key before after was is := by
    rw [same.active, was] at is
    cases is
    exact Nat.le_refl _
  kinds kinds key entry found := kinds key entry (by rw [← same.active, found])
  recent := by
    rw [same.recent]
    exact recent_kept ring
  counted trace counted account := by
    rw [append_nil, same.counters]
    exact counted account
  real := nofun

section
variable (s : Registry) (kind : IncomingRequestAnomalyKind) (id : Option IncomingRequestKey)
    (method : Option String) (detail : String) (observedAt : Nat)
include s kind id method detail observedAt

theorem push_anomaly_same : Same s (s.pushAnomaly kind id method detail observedAt) := by
  refine ⟨rfl, fun _ => rfl, rfl, rfl, fun account => ?_⟩
  simp only [pushAnomaly]
  split
  · cases account <;> rfl
  · rfl

theorem push_anomaly_read (account : Account) :
    (s.pushAnomaly kind id method detail observedAt).counters.read account =
      s.counters.read account := (push_anomaly_same s kind id method detail observedAt).counters account

end

theorem Same.refl (s : Registry) : Same s s := ⟨rfl, fun _ => rfl, rfl, rfl, fun _ => rfl⟩

theorem Same.trans {s u : Registry} (first : Same s t) (second : Same t u) : Same s u where
  capacity := second.capacity.trans first.capacity
  active key := (second.active key).trans (first.active key)
  size := second.size.trans first.size
  recent := second.recent.trans first.recent
  counters account := (second.counters account).trans (first.counters account)

theorem record_unknown_same (s : Registry) (id : IncomingRequestKey) (operation : String)
    (observedAt : Nat) : Same s (s.recordUnknown id operation observedAt) := by
  refine Same.trans ?_ (push_anomaly_same _ _ _ _ _ _)
  exact ⟨rfl, fun _ => rfl, rfl, rfl, fun account => by cases account <;> rfl⟩

theorem bump_duplicate_terminal_same (s : Registry) :
    Same s { s with counters :=
      { s.counters with duplicateTerminal := saturatingSucc s.counters.duplicateTerminal } } :=
  ⟨rfl, fun _ => rfl, rfl, rfl, fun account => by cases account <;> rfl⟩

theorem size_reinsert {s : Registry} (found : s.active[key]? = some entry)
    (fresh : IncomingRequestEntry) : ((s.active.erase key).insert key fresh).size = s.active.size := by
  have present : key ∈ s.active := mem_of_found s.active key entry found
  have erased := size_erase_present s.active key present
  have absent : key ∉ s.active.erase key := by simp
  rw [size_insert_absent _ _ _ absent]
  exact erased

theorem getElem?_reinsert (s : Registry) (key other : IncomingRequestKey)
    (fresh : IncomingRequestEntry) : ((s.active.erase key).insert key fresh)[other]? =
      if key = other then some fresh else s.active[other]? := by
  rw [Tables.getElem?_insert]
  split
  · rfl
  · next different =>
      rw [TreeMap.getElem?_erase, if_neg (by simpa using different)]

theorem put_back_same {s : Registry} (found : s.active[key]? = some entry)
    (between : Same { s with active := s.active.erase key } t)
    (active : t.active = s.active.erase key) :
    Same s { t with active := t.active.insert key entry } := by
  have capacity : t.capacity = s.capacity := between.capacity
  refine ⟨capacity, fun other => ?_, ?_, between.recent, between.counters⟩
  · rw [active, getElem?_reinsert]
    split
    · next same => rw [← same, found]
    · rfl
  · rw [active, size_reinsert found]

theorem min_succ (count : Nat) : saturatingSucc (min count u64Max) = min (count + 1) u64Max := by
  unfold saturatingSucc
  split <;> omega

def Ticked (kind : EventKind) (before after : IncomingRequestCounters) : Prop :=
  ∀ account, after.read account = if account.counts kind = true
    then saturatingSucc (before.read account) else before.read account

theorem counted_one {counters after : IncomingRequestCounters} {kind : EventKind}
    (moved : Ticked kind counters after) (trace : List Event) (counted : Counted counters trace) :
    Counted after (trace ++ [⟨key, kind⟩]) := by
  intro account
  have before := counted account
  rw [moved account, occurrences, countP_append, countP_singleton]
  change _ = min (occurrences account trace + _) u64Max
  split
  · rw [before, min_succ]
  · exact before

theorem acts_one {s : Registry} {kind : EventKind} (capacity : t.capacity = s.capacity)
    (others : ∀ other : IncomingRequestKey, key ≠ other → t.active[other]? = s.active[other]?)
    (moves : next (s.status key) kind = some (t.status key))
    (size : t.active.size + (if kind.cleans then 1 else 0) = s.active.size + (if kind.admits then 1 else 0))
    (bounded : s.active.size ≤ s.capacity → t.active.size ≤ s.capacity)
    (forward : ∀ before after : IncomingRequestEntry, s.active[key]? = some before →
      t.active[key]? = some after → before.phase.rank ≤ after.phase.rank)
    (kinds : ∀ entry : IncomingRequestEntry, t.active[key]? = some entry →
      (entry.phase = .terminalSelected ↔ entry.terminalKind.isSome = true))
    (recent : t.recent.map RecentTerminal.id = lastOf maxRecentTerminals
      (s.recent.map RecentTerminal.id ++ if kind.cleans then [key] else []))
    (counted : Ticked kind s.counters t.counters) (real : kind ≠ .selected .transportLost) :
    Acts s t [⟨key, kind⟩] where
  capacity := capacity
  status other := by
    by_cases same : key = other
    · subst same
      have alone : eventsOf key [(⟨key, kind⟩ : Event)] = [kind] := by simp [eventsOf]
      rw [alone]
      change (next (s.status key) kind).bind some = _
      rw [moves]
      rfl
    · have nothing : eventsOf other [(⟨key, kind⟩ : Event)] = [] := by simp [eventsOf, same]
      rw [nothing, Registry.status, Registry.status, others other same]
      rfl
  size := by
    have cleaned : (cleanedKeys [(⟨key, kind⟩ : Event)]).length = if kind.cleans then 1 else 0 := by
      cases kind <;> rfl
    have admitted : occurrences .admitted [(⟨key, kind⟩ : Event)] = if kind.admits then 1 else 0 := by
      cases kind <;> rfl
    rw [cleaned, admitted, size]
  bounded := bounded
  forward other before after was is := by
    by_cases same : key = other
    · subst same
      exact forward before after was is
    · rw [others other same, was] at is
      cases is
      exact Nat.le_refl _
  kinds kept other entry found := by
    by_cases same : key = other
    · subst same
      exact kinds entry found
    · exact kept other entry (by rw [← others other same, found])
  recent := by
    have cleaned : cleanedKeys [(⟨key, kind⟩ : Event)] = if kind.cleans then [key] else [] := by
      cases kind <;> rfl
    rw [recent, cleaned]
  counted := counted_one counted
  real event among := by
    rw [mem_singleton.mp among]
    exact real

section
variable (idText : JsonRpcId → String) (s : Registry) (id : JsonRpcId) (method : String) (now : Nat)
    (ring : s.recent.length ≤ maxRecentTerminals)
include idText s id method now ring

theorem admit_acts : Acts s (s.admitRequest idText id method now).2
      (admissionEvents (keyOf id) (s.admitRequest idText id method now).1) := by
  simp only [admitRequest, from_json_rpc_id]
  split
  · refine Same.acts ?_ ring
    exact ⟨rfl, fun _ => rfl, rfl, rfl, fun account => by cases account <;> rfl⟩
  rename_i room
  split
  · refine Same.acts (Same.trans ?_ (push_anomaly_same _ _ _ _ _ _)) ring
    exact ⟨rfl, fun _ => rfl, rfl, rfl, fun account => by cases account <;> rfl⟩
  rename_i fresh
  have absent : keyOf id ∉ s.active := fun present =>
    fresh (TreeMap.contains_iff_mem.mpr present)
  have nothing : s.active[keyOf id]? = none := by
    simpa using absent
  refine acts_one rfl ?_ ?_ ?_ ?_ ?_ ?_ ?_ ?_ nofun
  · intro other different
    change (s.active.insert _ _)[other]? = _
    rw [Tables.getElem?_insert, if_neg different]
  · simp [Registry.status, nothing, RequestLives.next, statusOf, IncomingRequestPhase.rank]
  · exact size_insert_absent _ _ _ absent
  · intro fits
    change (s.active.insert _ _).size ≤ _
    rw [size_insert_absent _ _ _ absent]
    omega
  · intro before after was
    rw [nothing] at was
    cases was
  · intro entry found
    change (s.active.insert _ _)[keyOf id]? = _ at found
    rw [Tables.getElem?_insert, if_pos rfl] at found
    cases found
    simp
  · exact recent_kept ring
  · intro account
    cases account <;> rfl

theorem admit_optional_acts : Acts s (s.admitOptional idText (some id) method now).2
      (admissionEvents (keyOf id) (s.admitOptional idText (some id) method now).1) := by
  have admitted := admit_acts idText s id method now ring
  simp only [admitOptional]
  cases result : (s.admitRequest idText id method now).1 with
  | ok handle | error failure =>
    rw [result] at admitted
    exact admitted

end

theorem bypass_same (idText : JsonRpcId → String) (s : Registry) (method : String) (now : Nat) :
    Same s (s.admitOptional idText none method now).2 :=
  ⟨rfl, fun _ => rfl, rfl, rfl, fun account => by cases account <;> rfl⟩

theorem acts_replaced {s : Registry} {kind : EventKind} {fresh : IncomingRequestEntry}
    (found : s.active[key]? = some entry) (capacity : t.capacity = s.capacity)
    (active : t.active = (s.active.erase key).insert key fresh) (recentSame : t.recent = s.recent)
    (plain : kind.cleans = false ∧ kind.admits = false)
    (moves : next (some (statusOf entry)) kind = some (some (statusOf fresh)))
    (forward : entry.phase.rank ≤ fresh.phase.rank)
    (kinds : fresh.phase = .terminalSelected ↔ fresh.terminalKind.isSome = true)
    (counted : Ticked kind s.counters t.counters)
    (real : kind ≠ .selected .transportLost) (ring : s.recent.length ≤ maxRecentTerminals) :
    Acts s t [⟨key, kind⟩] := by
  have here : t.active[key]? = some fresh := by rw [active, getElem?_reinsert, if_pos rfl]
  have size : t.active.size = s.active.size := by rw [active, size_reinsert found]
  refine acts_one capacity ?_ ?_ ?_ ?_ ?_ ?_ ?_ counted real
  · intro other different
    rw [active, getElem?_reinsert, if_neg different]
  · rw [Registry.status, Registry.status, found, here]
    exact moves
  · rw [plain.1, plain.2, size]
  · intro fits
    rw [size]
    exact fits
  · intro before after was is
    rw [found] at was
    rw [here] at is
    cases was
    cases is
    exact forward
  · intro entry is
    rw [here] at is
    cases is
    exact kinds
  · rw [plain.1, recentSame]
    exact recent_kept ring

theorem rank_lt {target phase : IncomingRequestPhase} (different : target ≠ phase)
    (below : phase.rank ≤ target.rank) : phase.rank < target.rank := by
  cases target <;> cases phase <;>
    first | exact absurd rfl different | (simp only [IncomingRequestPhase.rank] at below ⊢; omega)

theorem advance_phase_acts (idText : JsonRpcId → String) (s : Registry) (id : JsonRpcId)
    (target : IncomingRequestPhase) (now : Nat) (early : target ≠ .terminalSelected)
    (kinds : s.Kinds) (ring : s.recent.length ≤ maxRecentTerminals) :
    Acts s (s.advancePhase idText id target now).2
      (phaseEvents (keyOf id) target (s.advancePhase idText id target now).1) := by
  simp only [advancePhase, from_json_rpc_id]
  split
  · exact (record_unknown_same _ _ _ _).acts ring
  rename_i entry found
  by_cases terminal : entry.phase = .terminalSelected
  · simp only [if_pos terminal]
    exact (put_back_same found (Same.refl _) rfl).acts ring
  simp only [if_neg terminal]
  by_cases back : target.rank < entry.phase.rank
  · simp only [if_pos back]
    exact (put_back_same found (push_anomaly_same _ _ _ _ _ _) rfl).acts ring
  simp only [if_neg back]
  by_cases same : target = entry.phase
  · simp only [if_pos same]
    exact (put_back_same found (Same.refl _) rfl).acts ring
  simp only [if_neg same]
  refine acts_replaced found rfl rfl rfl ⟨rfl, rfl⟩ ?_ ?_ ?_ ?_ nofun ring
  · rw [statusOf, if_neg terminal, statusOf, if_neg early]
    exact if_pos (rank_lt same (Nat.le_of_not_lt back))
  · exact Nat.le_of_not_lt back
  · exact iff_of_false early (mt (kinds _ _ found).mpr terminal)
  · intro account
    cases account <;> rfl

variable (outcome : IncomingTerminalOutcome)

def selectionKind (shutdown : Bool) : IncomingTerminalKind :=
  if shutdown then .shutdown else outcome.kind

theorem selection_kind_real (shutdown : Bool) : selectionKind outcome shutdown ≠ .transportLost := by
  cases shutdown with
  | true => exact nofun
  | false => cases outcome <;> exact nofun

theorem count_terminal_read (counters : IncomingRequestCounters) (outcome : IncomingTerminalOutcome)
    (shutdown : Bool) (account : Account) : (countTerminal counters outcome shutdown).read account =
      if account.counts (.selected (selectionKind outcome shutdown)) = true then
        saturatingSucc (counters.read account)
      else counters.read account := by
  cases shutdown with
  | true => cases account <;> rfl
  | false =>
    cases outcome with
    | result value | error failure => cases account <;> rfl

theorem select_terminal_acts (idText : JsonRpcId → String) (instantText : Nat → String)
    (s : Registry) (id : JsonRpcId) (outcome : IncomingTerminalOutcome) (shutdown : Bool) (now : Nat)
    (ring : s.recent.length ≤ maxRecentTerminals) :
    Acts s (s.selectTerminal idText instantText id outcome shutdown now).2.2
      (selectionEvents (keyOf id) (selectionKind outcome shutdown)
        (s.selectTerminal idText instantText id outcome shutdown now).1) := by
  simp only [selectTerminal, from_json_rpc_id]
  split
  · split
    · exact ((bump_duplicate_terminal_same s).trans (push_anomaly_same _ _ _ _ _ _)).acts ring
    · exact (record_unknown_same _ _ _ _).acts ring
  rename_i entry found
  by_cases terminal : entry.phase = .terminalSelected
  · simp only [if_pos terminal]
    exact (put_back_same found
      ((bump_duplicate_terminal_same _).trans (push_anomaly_same _ _ _ _ _ _)) rfl).acts ring
  simp only [if_neg terminal]
  refine acts_replaced found rfl rfl rfl ⟨rfl, rfl⟩ ?_ ?_ ?_ ?_ ?_ ring
  · rw [statusOf, if_neg terminal, statusOf, if_pos rfl]
    rfl
  · exact (by cases entry.phase <;> decide :
      entry.phase.rank ≤ IncomingRequestPhase.terminalSelected.rank)
  · exact iff_of_true rfl rfl
  · exact count_terminal_read s.counters outcome shutdown
  · intro same
    exact selection_kind_real outcome shutdown (EventKind.selected.inj same)

@[simp] theorem push_recent_counters (s : Registry) (terminal : RecentTerminal) :
    (s.pushRecent terminal).counters = s.counters := by simp only [pushRecent]

theorem push_recent_ids (s : Registry) (terminal : RecentTerminal) :
    (s.pushRecent terminal).recent.map RecentTerminal.id =
      lastOf maxRecentTerminals (s.recent.map RecentTerminal.id ++ [terminal.id]) := by
  simp only [pushRecent, lastOf, map_drop, map_append, length_append,
    length_map, map_cons, map_nil, length_singleton]

theorem acts_cleaned {s : Registry} {kind : EventKind} (found : s.active[key]? = some entry)
    (capacity : t.capacity = s.capacity) (active : t.active = s.active.erase key)
    (recent : t.recent.map RecentTerminal.id =
      lastOf maxRecentTerminals (s.recent.map RecentTerminal.id ++ [key]))
    (cleans : kind.cleans = true) (moves : next (some (statusOf entry)) kind = some none)
    (counted : Ticked kind s.counters t.counters) : Acts s t [⟨key, kind⟩] := by
  have gone : t.active[key]? = none := by rw [active]; simp
  have plain : kind.admits = false := by cases kind <;> first | rfl | cases cleans
  have erased : t.active.size + 1 = s.active.size := by
    rw [active]
    exact size_erase_present s.active key (mem_of_found s.active key entry found)
  refine acts_one capacity ?_ ?_ ?_ ?_ ?_ ?_ ?_ counted (by rintro rfl; cases cleans)
  · intro other different
    rw [active, TreeMap.getElem?_erase, if_neg (by simpa using different)]
  · rw [Registry.status, Registry.status, found, gone]
    exact moves
  · rw [cleans, plain]
    exact erased
  · omega
  · intro before after _ is
    rw [gone] at is
    cases is
  · intro entry is
    rw [gone] at is
    cases is
  · rw [cleans]
    exact recent

theorem finish_response_acts (idText : JsonRpcId → String) (s : Registry) (id : JsonRpcId)
    (written : Bool) (failureDetail : Option String) (now : Nat) (kinds : s.Kinds)
    (ring : s.recent.length ≤ maxRecentTerminals) :
    Acts s (s.finishResponse idText id written failureDetail now).2
      (completionEvents (keyOf id) (s.finishResponse idText id written failureDetail now).1) := by
  simp only [finishResponse, from_json_rpc_id]
  split
  · split
    · exact (push_anomaly_same _ _ _ _ _ _).acts ring
    · exact (record_unknown_same _ _ _ _).acts ring
  rename_i entry found
  split
  · exact ((put_back_same found (Same.refl _) rfl).trans (push_anomaly_same _ _ _ _ _ _)).acts ring
  rename_i kind selected
  have chosen : statusOf entry = .chosen := by
    rw [statusOf, if_pos ((kinds _ _ found).mpr (by rw [selected]; rfl))]
  have recent := push_recent_ids { s with active := s.active.erase (keyOf id) }
    ⟨keyOf id, entry.method, kind, now, written⟩
  cases written with
  | true =>
    refine acts_cleaned found rfl rfl ?_ rfl (by rw [chosen]; rfl) fun account => ?_
    · simp only [if_true]
      exact recent
    · simp only [if_true, push_recent_counters]
      cases account <;> rfl
  | false =>
    refine acts_cleaned found rfl rfl ?_ rfl (by rw [chosen]; rfl) fun account => ?_
    · simp only [Bool.false_eq_true, if_false, (push_anomaly_same _ _ _ _ _ _).recent]
      exact recent
    · simp only [Bool.false_eq_true, if_false, push_anomaly_read, push_recent_counters]
      cases account <;> rfl

section
variable (now : Nat) (s : Registry) (row : IncomingRequestKey × IncomingRequestEntry)
include now s row

theorem clean_lost_counted (trace : List Event) (counted : Counted s.counters trace) :
    Counted (cleanLost now s row).counters (trace ++ lostOf [row]) := by
  refine counted_one (fun account => ?_) trace counted
  rw [cleanLost, push_anomaly_read, push_recent_counters]
  cases account <;> rfl

theorem clean_lost_recent : (cleanLost now s row).recent.map RecentTerminal.id =
      lastOf maxRecentTerminals (s.recent.map RecentTerminal.id ++ [row.1]) := by
  rw [cleanLost, (push_anomaly_same _ _ _ _ _ _).recent]
  exact push_recent_ids _ _

theorem clean_lost_frame :
    (cleanLost now s row).active = s.active ∧ (cleanLost now s row).capacity = s.capacity := by
  simp only [cleanLost, pushAnomaly, pushRecent, and_self]

end

structure Swept (rows : List (IncomingRequestKey × IncomingRequestEntry)) (s t : Registry) : Prop where
  capacity : t.capacity = s.capacity
  active : t.active = s.active
  recent : lastOf maxRecentTerminals (t.recent.map RecentTerminal.id) =
    lastOf maxRecentTerminals (s.recent.map RecentTerminal.id ++ rows.map Prod.fst)
  ring : s.recent.length ≤ maxRecentTerminals → t.recent.length ≤ maxRecentTerminals
  counted : ∀ trace, Counted s.counters trace → Counted t.counters (trace ++ lostOf rows)

theorem swept (now : Nat) (rows : List (IncomingRequestKey × IncomingRequestEntry)) (s : Registry) :
    Swept rows s (rows.foldl (cleanLost now) s) := by
  induction rows generalizing s with
  | nil =>
    refine ⟨rfl, rfl, ?_, id, fun trace counted => ?_⟩
    · rw [map_nil, append_nil]
      rfl
    · rw [lostOf, map_nil, append_nil]
      exact counted
  | cons row rest ih =>
    have tail := ih (cleanLost now s row)
    obtain ⟨active, capacity⟩ := clean_lost_frame now s row
    rw [foldl_cons]
    refine ⟨tail.capacity.trans capacity, tail.active.trans active, ?_, fun _ => ?_, fun trace counted => ?_⟩
    · have first := clean_lost_recent now s row
      have ends := tail.recent
      rw [first, last_of_append, append_assoc] at ends
      exact ends
    · refine tail.ring ?_
      have ids := congrArg List.length (clean_lost_recent now s row)
      rw [length_map] at ids
      rw [ids]
      exact last_of_length _ _
    · have first := clean_lost_counted now s row trace counted
      have rest := tail.counted _ first
      rw [append_assoc] at rest
      exact rest

theorem lost_of_key (rows : List (IncomingRequestKey × IncomingRequestEntry))
    (distinct : (rows.map Prod.fst).Nodup) (key : IncomingRequestKey) :
    eventsOf key (lostOf rows) = if key ∈ rows.map Prod.fst then [.lost] else [] := by
  induction rows with
  | nil => rfl
  | cons row rest ih =>
    obtain ⟨fresh, others⟩ := nodup_cons.mp distinct
    have tail := ih others
    by_cases same : row.1 = key
    · subst same
      rw [if_neg fresh] at tail
      simp only [eventsOf, lostOf, map_cons, filter_cons, decide_true, if_true, mem_cons, true_or] at tail ⊢
      rw [tail]
    · have different : ¬ key = row.1 := fun again => same again.symm
      simp only [eventsOf, lostOf, map_cons, filter_cons, same, decide_false, mem_cons, different,
        false_or] at tail ⊢
      exact tail

theorem mem_active_keys (s : Registry) (key : IncomingRequestKey) :
    key ∈ s.active.toList.map Prod.fst ↔ ∃ entry, s.active[key]? = some entry := by
  constructor
  · intro among
    obtain ⟨⟨_, entry⟩, row, rfl⟩ := mem_map.mp among
    exact ⟨entry, TreeMap.mem_toList_iff_getElem?_eq_some.mp row⟩
  · rintro ⟨entry, found⟩
    exact mem_map.mpr ⟨(key, entry), TreeMap.mem_toList_iff_getElem?_eq_some.mpr found, rfl⟩

variable (rows : List (IncomingRequestKey × IncomingRequestEntry))

theorem lost_of_cleaned : cleanedKeys (lostOf rows) = rows.map Prod.fst := by
  induction rows with
  | nil => rfl
  | cons row rest ih =>
    rw [map_cons, ← ih]
    rfl

theorem lost_of_admits : occurrences .admitted (lostOf rows) = 0 := by
  induction rows with
  | nil => rfl
  | cons row rest ih => exact ih

theorem transport_lost_acts (s : Registry) (now : Nat) (ring : s.recent.length ≤ maxRecentTerminals) :
    Acts s (s.transportLost now).2 (lostOf s.active.toList) := by
  have sweep := swept now s.active.toList { s with active := ∅ }
  have gone : (s.transportLost now).2.active = ∅ := sweep.active
  have empty : ∀ key : IncomingRequestKey, (s.transportLost now).2.active[key]? = none := by
    intro key
    rw [gone]
    exact TreeMap.getElem?_emptyc
  refine ⟨sweep.capacity, fun key => ?_, ?_, fun _ => ?_, ?_, ?_, ?_, sweep.counted, fun event among => ?_⟩
  · rw [lost_of_key _ (keys_nodup s.active), Registry.status, Registry.status, empty]
    cases found : s.active[key]? with
    | none =>
      rw [if_neg fun among => by simpa [found] using (mem_active_keys s key).mp among]
      rfl
    | some entry =>
      rw [if_pos ((mem_active_keys s key).mpr ⟨entry, found⟩)]
      simp only [Option.map_some, statusOf]
      split <;> rfl
  · rw [gone, lost_of_cleaned, lost_of_admits, length_map]
    simp
  · rw [gone]
    exact Nat.zero_le _
  · intro key before after _ is
    rw [empty] at is
    cases is
  · intro kinds key entry is
    rw [empty] at is
    cases is
  · have kept := last_of_short (by
      rw [length_map]
      exact sweep.ring ring : ((s.transportLost now).2.recent.map RecentTerminal.id).length ≤
        maxRecentTerminals)
    rw [← kept, lost_of_cleaned]
    exact sweep.recent
  · obtain ⟨row, -, rfl⟩ := mem_map.mp among
    exact nofun

structure Balanced (s : Registry) : Prop where
  admitted : s.counters.admittedTotal < u64Max →
    s.counters.admittedTotal = s.active.size + s.counters.responsesWritten +
      s.counters.responseWriteFailed + s.counters.transportCleaned
  terminals : s.counters.terminalSelectedTotal < u64Max →
    s.counters.terminalSelectedTotal =
      s.counters.resultSelected + s.counters.errorSelected + s.counters.shutdownSelected

structure Shutdown where
  ids : List JsonRpcId
  errorCode : Int
  message : String

structure System where
  registry : Registry
  shutdowns : List Shutdown
  trace : List Event

inductive Op where
  | admitRequest (id : JsonRpcId) (method : String) (now : Nat)
  | admitOptional (id : Option JsonRpcId) (method : String) (now : Nat)
  | markQueued (id : JsonRpcId) (now : Nat)
  | markRunning (id : JsonRpcId) (now : Nat)
  | selectResult (id : JsonRpcId) (result : Value) (now : Nat)
  | selectError (id : JsonRpcId) (error : JsonRpcError) (now : Nat)
  | shutdownSnapshot (errorCode : Int) (message : String)
  | shutdownSelect (index : Nat) (now : Nat)
  | responseWritten (id : JsonRpcId) (now : Nat)
  | responseWriteFailed (id : JsonRpcId) (detail : String) (now : Nat)
  | transportLost (now : Nat)

namespace System

def start (capacity : Nat) : System := ⟨.withValidCapacity capacity, [], []⟩

def tell (t : System) (registry : Registry) (events : List Event) : System :=
  { t with registry := registry, trace := t.trace ++ events }

section Step
variable (idText : JsonRpcId → String) (instantText : Nat → String)

def shutdownSelect (t : System) (index : Nat) (now : Nat) : System :=
  match t.shutdowns[index]? with
  | none => t
  | some shutdown =>
    match shutdown.ids with
    | [] => { t with shutdowns := t.shutdowns.eraseIdx index }
    | id :: rest =>
      let selected := t.registry.selectShutdownError idText instantText id shutdown.errorCode
        shutdown.message now
      { t with shutdowns := t.shutdowns.set index { shutdown with ids := rest } }.tell
        selected.2.2 (selectionEvents (keyOf id) .shutdown selected.1)

def step (t : System) : Op → System
  | .admitRequest id method now =>
    let admitted := t.registry.admitRequest idText id method now
    t.tell admitted.2 (admissionEvents (keyOf id) admitted.1)
  | .admitOptional none method now =>
    t.tell (t.registry.admitOptional idText none method now).2 []
  | .admitOptional (some id) method now =>
    let admitted := t.registry.admitOptional idText (some id) method now
    t.tell admitted.2 (admissionEvents (keyOf id) admitted.1)
  | .markQueued id now =>
    let marked := t.registry.markQueued idText id now
    t.tell marked.2 (phaseEvents (keyOf id) .queued marked.1)
  | .markRunning id now =>
    let marked := t.registry.markRunning idText id now
    t.tell marked.2 (phaseEvents (keyOf id) .running marked.1)
  | .selectResult id result now =>
    let selected := t.registry.selectResult idText instantText id result now
    t.tell selected.2.2 (selectionEvents (keyOf id) .result selected.1)
  | .selectError id error now =>
    let selected := t.registry.selectError idText instantText id error now
    t.tell selected.2.2 (selectionEvents (keyOf id) .error selected.1)
  | .shutdownSnapshot errorCode message =>
    { t with shutdowns := t.shutdowns ++ [⟨t.registry.shutdownIds, errorCode, message⟩] }
  | .shutdownSelect index now => t.shutdownSelect idText instantText index now
  | .responseWritten id now =>
    let finished := t.registry.responseWritten idText id now
    t.tell finished.2 (completionEvents (keyOf id) finished.1)
  | .responseWriteFailed id detail now =>
    let finished := t.registry.responseWriteFailed idText id detail now
    t.tell finished.2 (completionEvents (keyOf id) finished.1)
  | .transportLost now =>
    t.tell (t.registry.transportLost now).2 (lostOf t.registry.active.toList)

end Step

structure Sound (limit : Nat) (t : System) : Prop where
  capacity : t.registry.capacity = limit
  bounded : t.registry.active.size ≤ limit
  kinds : t.registry.Kinds
  lives : ∀ key, follow none (eventsOf key t.trace) = some (t.registry.status key)
  balance : t.registry.active.size + (cleanedKeys t.trace).length = occurrences .admitted t.trace
  recent : t.registry.recent.map RecentTerminal.id =
    lastOf maxRecentTerminals (cleanedKeys t.trace)
  counted : Counted t.registry.counters t.trace
  real : ∀ event ∈ t.trace, event.kind ≠ .selected .transportLost

variable {limit : Nat}

theorem Sound.ring {t : System} (sound : Sound limit t) : t.registry.recent.length ≤ maxRecentTerminals := by
  have ids := congrArg List.length sound.recent
  rw [length_map] at ids
  rw [ids]
  exact last_of_length _ _

theorem start_sound (capacity : Nat) : Sound capacity (start capacity) where
  capacity := rfl
  bounded := Nat.zero_le capacity
  kinds key entry found := by cases found
  lives key := rfl
  balance := rfl
  recent := (last_of_short (Nat.zero_le _)).symm
  counted account := by cases account <;> rfl
  real := nofun

theorem occurrences_append (account : Account) (before after : List Event) :
    occurrences account (before ++ after) = occurrences account before + occurrences account after :=
  countP_append

theorem Sound.tell {t : System} (sound : Sound limit t) {registry : Registry} {events : List Event}
    (acts : Acts t.registry registry events) : Sound limit (t.tell registry events) where
  capacity := acts.capacity.trans sound.capacity
  bounded := sound.capacity ▸ acts.bounded (sound.capacity.symm ▸ sound.bounded)
  kinds := acts.kinds sound.kinds
  lives key := by
    change follow none (eventsOf key (t.trace ++ events)) = _
    rw [events_of_append, follow_append, sound.lives key]
    exact acts.status key
  balance := by
    change registry.active.size + (cleanedKeys (t.trace ++ events)).length =
      occurrences .admitted (t.trace ++ events)
    have moved := acts.size
    have before := sound.balance
    rw [cleaned_keys_append, length_append, occurrences_append]
    omega
  recent := by
    change registry.recent.map RecentTerminal.id =
      lastOf maxRecentTerminals (cleanedKeys (t.trace ++ events))
    rw [acts.recent, sound.recent, last_of_append, cleaned_keys_append]
  counted := acts.counted t.trace sound.counted
  real event among := by
    rcases mem_append.mp among with old | new
    · exact sound.real event old
    · exact acts.real event new

/-- Every step is an action of the registry, told to the trace. -/
theorem step_acts (idText : JsonRpcId → String) (instantText : Nat → String) {t : System}
    (sound : Sound limit t) (op : Op) :
    ∃ events shutdowns, Acts t.registry (step idText instantText t op).registry events ∧
      step idText instantText t op =
        { t with shutdowns := shutdowns }.tell (step idText instantText t op).registry events := by
  have ring := sound.ring
  have kinds := sound.kinds
  cases op with
  | admitRequest id method now => exact ⟨_, _, admit_acts idText _ id method now ring, rfl⟩
  | admitOptional id method now =>
    cases id with
    | none => exact ⟨[], _, (bypass_same idText _ method now).acts ring, rfl⟩
    | some id => exact ⟨_, _, admit_optional_acts idText _ id method now ring, rfl⟩
  | markQueued id now | markRunning id now =>
    exact ⟨_, _, advance_phase_acts idText _ id _ now nofun kinds ring, rfl⟩
  | selectResult id result now =>
    exact ⟨_, _, select_terminal_acts idText instantText _ id (.result result) false now ring, rfl⟩
  | selectError id error now =>
    exact ⟨_, _, select_terminal_acts idText instantText _ id (.error error) false now ring, rfl⟩
  | shutdownSnapshot errorCode message =>
    refine ⟨[], t.shutdowns ++ [⟨t.registry.shutdownIds, errorCode, message⟩], (Same.refl _).acts ring, ?_⟩
    simp only [step, tell, append_nil]
  | shutdownSelect index now =>
    simp only [step, shutdownSelect]
    split
    · refine ⟨[], t.shutdowns, (Same.refl _).acts ring, ?_⟩
      simp only [tell, append_nil]
    split
    · refine ⟨[], t.shutdowns.eraseIdx index, (Same.refl _).acts ring, ?_⟩
      simp only [tell, append_nil]
    · exact ⟨_, _, select_terminal_acts idText instantText _ _ (.error _) true now ring, rfl⟩
  | responseWritten id now =>
    exact ⟨_, _, finish_response_acts idText _ id true none now kinds ring, rfl⟩
  | responseWriteFailed id detail now =>
    exact ⟨_, _, finish_response_acts idText _ id false (some detail) now kinds ring, rfl⟩
  | transportLost now => exact ⟨_, _, transport_lost_acts _ now ring, rfl⟩

theorem step_sound (idText : JsonRpcId → String) (instantText : Nat → String) (t : System) (op : Op)
    (sound : Sound limit t) : Sound limit (step idText instantText t op) := by
  obtain ⟨events, shutdowns, acts, told⟩ := step_acts idText instantText sound op
  rw [told]
  have moved : Sound limit { t with shutdowns := shutdowns } :=
    ⟨sound.capacity, sound.bounded, sound.kinds, sound.lives, sound.balance, sound.recent,
      sound.counted, sound.real⟩
  exact moved.tell acts

def tally (account : Account) (kind : EventKind) : Nat := if account.counts kind = true then 1 else 0

theorem occurrences_cons (account : Account) (event : Event) (rest : List Event) :
    occurrences account (event :: rest) = occurrences account rest + tally account event.kind :=
  countP_cons

theorem cleaned_keys_cons (event : Event) (rest : List Event) : (cleanedKeys (event :: rest)).length =
      (cleanedKeys rest).length + if event.kind.cleans = true then 1 else 0 := by
  rw [cleanedKeys, length_map, filter_cons]
  split <;> simp [cleanedKeys]

theorem cleans_tally (kind : EventKind) : (if kind.cleans = true then 1 else 0) =
      tally .written kind + tally .writeFailed kind + tally .lost kind := by
  cases kind with
  | selected terminal => cases terminal <;> rfl
  | admitted => rfl
  | advanced rank => rfl
  | written => rfl
  | writeFailed => rfl
  | lost => rfl

theorem selects_tally (kind : EventKind) (real : kind ≠ .selected .transportLost) :
    tally .selected kind = tally .result kind + tally .error kind + tally .shutdown kind := by
  cases kind with
  | selected terminal =>
    cases terminal with
    | transportLost => exact absurd rfl real
    | result => rfl
    | error => rfl
    | shutdown => rfl
  | admitted => rfl
  | advanced rank => rfl
  | written => rfl
  | writeFailed => rfl
  | lost => rfl

theorem cleaned_occurrences (trace : List Event) : (cleanedKeys trace).length =
      occurrences .written trace + occurrences .writeFailed trace + occurrences .lost trace := by
  induction trace with
  | nil => rfl
  | cons event rest ih =>
    rw [cleaned_keys_cons, cleans_tally, occurrences_cons, occurrences_cons, occurrences_cons, ih]
    omega

theorem selected_occurrences (trace : List Event)
    (real : ∀ event ∈ trace, event.kind ≠ .selected .transportLost) : occurrences .selected trace =
      occurrences .result trace + occurrences .error trace + occurrences .shutdown trace := by
  induction trace with
  | nil => rfl
  | cons event rest ih =>
    obtain ⟨first, others⟩ := forall_mem_cons.mp real
    rw [occurrences_cons, occurrences_cons, occurrences_cons, occurrences_cons, ih others,
      selects_tally event.kind first]
    omega

theorem Sound.balanced {t : System} (sound : Sound limit t) : Balanced t.registry := by
  have admitted : t.registry.counters.admittedTotal = _ := sound.counted .admitted
  have written : t.registry.counters.responsesWritten = _ := sound.counted .written
  have failed : t.registry.counters.responseWriteFailed = _ := sound.counted .writeFailed
  have lost : t.registry.counters.transportCleaned = _ := sound.counted .lost
  have selected : t.registry.counters.terminalSelectedTotal = _ := sound.counted .selected
  have results : t.registry.counters.resultSelected = _ := sound.counted .result
  have errors : t.registry.counters.errorSelected = _ := sound.counted .error
  have shutdowns : t.registry.counters.shutdownSelected = _ := sound.counted .shutdown
  have balance := sound.balance
  have cleaned := cleaned_occurrences t.trace
  have kinds := selected_occurrences t.trace sound.real
  constructor
  · omega
  · omega

theorem recent_find (s : Registry) (key : IncomingRequestKey) :
    (∃ recent, s.recent.find? (fun recent => recent.id == key) = some recent) ↔
      key ∈ s.recent.map RecentTerminal.id := by
  rw [← Option.isSome_iff_exists, find?_isSome]
  simp only [beq_iff_eq, mem_map]

theorem late_selection (idText : JsonRpcId → String) (instantText : Nat → String) (s : Registry)
    (id : JsonRpcId) (outcome : IncomingTerminalOutcome) (shutdown : Bool) (now : Nat)
    (absent : s.active[keyOf id]? = none) : (s.selectTerminal idText instantText id outcome shutdown now).1 =
      if keyOf id ∈ s.recent.map RecentTerminal.id then .alreadyTerminal else .unknown := by
  have finds := recent_find s (keyOf id)
  simp only [selectTerminal, from_json_rpc_id, absent]
  split
  · next recent found => rw [if_pos (finds.mp ⟨recent, found⟩)]
  · next none => rw [if_neg fun among => by simpa [none] using finds.mpr among]

theorem late_completion (idText : JsonRpcId → String) (s : Registry) (id : JsonRpcId)
    (written : Bool) (detail : Option String) (now : Nat) (absent : s.active[keyOf id]? = none) :
    (s.finishResponse idText id written detail now).1 =
      if keyOf id ∈ s.recent.map RecentTerminal.id then .alreadyCleaned else .unknown := by
  have finds := recent_find s (keyOf id)
  simp only [finishResponse, from_json_rpc_id, absent]
  split
  · next recent found => rw [if_pos (finds.mp ⟨recent, found⟩)]
  · next none => rw [if_neg fun among => by simpa [none] using finds.mpr among]

end System

structure LateCalls (idText : JsonRpcId → String) (instantText : Nat → String) (s : Registry)
    (cleaned : List IncomingRequestKey) : Prop where
  selection : ∀ id outcome shutdown now, s.active[keyOf id]? = none →
    ((s.selectTerminal idText instantText id outcome shutdown now).1 = .alreadyTerminal ↔
      keyOf id ∈ lastOf maxRecentTerminals cleaned)
  completion : ∀ id written detail now, s.active[keyOf id]? = none →
    ((s.finishResponse idText id written detail now).1 = .alreadyCleaned ↔
      keyOf id ∈ lastOf maxRecentTerminals cleaned)

/-- The registry after any calls: one life for each admission, phases that only move on, bounded
admission, balanced accounts, and late calls told apart. -/
theorem registry_accounts (idText : JsonRpcId → String) (instantText : Nat → String)
    (capacity : Nat) (ops : List Op) :
    let t := run (System.step idText instantText) (.start capacity) ops
    (∀ key before during after, eventsOf key t.trace = before ++ .admitted :: (during ++ after) →
      (∀ event ∈ during, event.admits = false) → OneLife during) ∧
    (∀ key before after, eventsOf key t.trace = before ++ after →
      (∀ event ∈ before, event.admits = false) → before = []) ∧
    (∀ op (key : IncomingRequestKey) (before after : IncomingRequestEntry),
      t.registry.active[key]? = some before →
      (System.step idText instantText t op).registry.active[key]? = some after →
      before.phase.rank ≤ after.phase.rank) ∧
    t.registry.active.size ≤ capacity ∧ Balanced t.registry ∧
    LateCalls idText instantText t.registry (cleanedKeys t.trace) := by
  intro t
  have sound : System.Sound capacity t := run_invariant _ _
    (fun state op => System.step_sound idText instantText state op) _ ops
    (System.start_sound capacity)
  refine ⟨?_, ?_, ?_, sound.bounded, sound.balanced, ?_, ?_⟩
  · intro key before during after split fresh
    exact one_life (sound.lives key) split fresh
  · intro key before after split fresh
    have follows := sound.lives key
    rw [split, follow_append] at follows
    obtain ⟨middle, first, -⟩ := Option.bind_eq_some_iff.mp follows
    exact follow_absent first fresh
  · intro op key before after was is
    obtain ⟨events, shutdowns, acts, -⟩ := System.step_acts idText instantText sound op
    exact acts.forward key before after was is
  · intro id outcome shutdown now absent
    rw [System.late_selection idText instantText _ _ _ _ _ absent, sound.recent]
    split <;> simp [*]
  · intro id written detail now absent
    rw [System.late_completion idText _ _ _ _ _ absent, sound.recent]
    split <;> simp [*]

end PerlLsp.IncomingRequests
