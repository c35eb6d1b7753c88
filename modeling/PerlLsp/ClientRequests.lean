import PerlLsp.Tables
import PerlLsp.TextSync
import Mathlib.Data.List.Nodup
import Mathlib.Data.List.Perm.Subperm
import Mathlib.Data.List.Range

/-! `ServerRequestRegistry` of runtime/client_requests/registry.rs: the requests the server sends to
the client and their one terminal outcome. All state is under one lock. An instant is a number of
clock ticks; the channel a registration returns is known by its number, and a receiver may be
dropped at any time. -/
namespace PerlLsp.ClientRequests
open Std Runs Tables List
open TextSync (Number Value)

def defaultServerRequestCapacity : Nat := 64
def maxServerRequestCapacity : Nat := 4096
def maxServerRequestId : Int := 2147483647
def maxRecentTerminals : Nat := 256
def maxServerRequestIdBytes : Nat := 128
def maxAnomalies : Nat := 64
def maxMethodBytes : Nat := 128
def maxDebugIdentityBytes : Nat := 256
def maxDiagnosticBytes : Nat := 384
def u64Max : Nat := 18446744073709551615

def saturatingSucc (counter : Nat) : Nat := if counter < u64Max then counter + 1 else counter

inductive JsonRpcId where
  | integer (value : Int)
  | string (value : String)
  deriving DecidableEq

/-- What the platform and serde_json decide: whether a deadline is representable, and how instants,
ids and numbers print. -/
structure Env where
  checkedAdd : Nat → Nat → Option Nat
  instantText : Nat → String
  idText : JsonRpcId → String
  numberText : Number → String

def textOf (value : List Char) : String := String.ofList value

def boundedText (value : String) (maximumBytes : Nat) : String :=
  if value.utf8ByteSize ≤ maximumBytes then value
  else
    let stop := Utf8.floorBoundary value.toList (maximumBytes - 3)
    textOf ((Utf8.slice value.toList 0 stop).getD []) ++ "..."

def jsonTypeName : Value → String
  | .null => "null"
  | .bool _ => "boolean"
  | .number _ => "number"
  | .string _ => "string"
  | .array _ => "array"
  | .object _ => "object"

def boundedValueSummary (env : Env) : Value → String
  | .null => "null"
  | .bool value => "boolean:" ++ toString value
  | .number value => "number:" ++ env.numberText value
  | .string value => "string(len=" ++ toString (Utf8.size value) ++ ")"
  | .array values => "array(len=" ++ toString values.length ++ ")"
  | .object fields =>
    let keys := ",".intercalate ((fields.take 8).map fun field => boundedText field.1 48)
    "object(len=" ++ toString fields.length ++ ",keys=[" ++ keys ++ "])"

structure MalformedResult where
  expected : String
  observed : String
  summary : String
  deriving DecidableEq

inductive TerminalOutcome where
  | successNull
  | successValue (value : Value)
  | clientError (code : Int) (message : String) (dataSummary : Option String)
  | malformedResult (malformed : MalformedResult)
  | timedOut
  | cancelled
  | shutdown
  | transportLost

inductive TerminalKind where
  | successNull
  | successValue
  | clientError
  | malformedResult
  | timedOut
  | cancelled
  | shutdown
  | transportLost
  deriving DecidableEq

def TerminalKind.debug : TerminalKind → String
  | successNull => "SuccessNull"
  | successValue => "SuccessValue"
  | clientError => "ClientError"
  | malformedResult => "MalformedResult"
  | timedOut => "TimedOut"
  | cancelled => "Cancelled"
  | shutdown => "Shutdown"
  | transportLost => "TransportLost"

def TerminalOutcome.kind : TerminalOutcome → TerminalKind
  | successNull => .successNull
  | successValue _ => .successValue
  | clientError .. => .clientError
  | malformedResult _ => .malformedResult
  | timedOut => .timedOut
  | cancelled => .cancelled
  | shutdown => .shutdown
  | transportLost => .transportLost

inductive ResultDecoder where
  | any
  | null
  | boolean
  | object
  | array
  deriving DecidableEq

namespace ResultDecoder

def expected : ResultDecoder → String
  | any => "any JSON value"
  | null => "null"
  | boolean => "boolean"
  | object => "object"
  | array => "array"

def fits : ResultDecoder → Value → Bool
  | any, _ => true
  | null, .null => true
  | boolean, .bool _ => true
  | object, .object _ => true
  | array, .array _ => true
  | _, _ => false

def decode (env : Env) (decoder : ResultDecoder) (value : Value) :
    Except MalformedResult TerminalOutcome :=
  if decoder.fits value then
    match value with
    | .null => .ok .successNull
    | value => .ok (.successValue value)
  else .error ⟨decoder.expected, jsonTypeName value, boundedValueSummary env value⟩

end ResultDecoder

inductive ServerRequestKey where
  | integer (value : Int)
  | string (value : String)
  deriving DecidableEq

open ServerRequestKey

namespace ServerRequestKey

instance : Ord ServerRequestKey where
  compare
    | integer left, integer right => compare left right
    | integer _, string _ => .lt
    | string _, integer _ => .gt
    | string left, string right => compare left right

instance : TransOrd ServerRequestKey where
  eq_swap {left right} := by
    cases left with
    | integer left =>
      cases right with
      | integer right => exact OrientedOrd.eq_swap (α := Int)
      | string right => rfl
    | string left =>
      cases right with
      | integer right => rfl
      | string right => exact OrientedOrd.eq_swap (α := String)
  isLE_trans {left middle right} first second := by
    cases left with
    | integer left =>
      cases right with
      | integer right =>
        cases middle with
        | integer middle => exact TransOrd.isLE_trans (α := Int) first second
        | string middle => cases second
      | string right => rfl
    | string left =>
      cases middle with
      | integer middle => cases first
      | string middle =>
        cases right with
        | integer right => cases second
        | string right => exact TransOrd.isLE_trans (α := String) first second

instance : LawfulEqOrd ServerRequestKey where
  compare_self {key} := by
    cases key with
    | integer value => exact ReflOrd.compare_self (α := Int)
    | string value => exact ReflOrd.compare_self (α := String)
  eq_of_compare {left right} same := by
    cases left with
    | integer left =>
      cases right with
      | integer right => exact congrArg integer (LawfulEqOrd.eq_of_compare (α := Int) same)
      | string right => cases same
    | string left =>
      cases right with
      | integer right => cases same
      | string right => exact congrArg string (LawfulEqOrd.eq_of_compare (α := String) same)

def fromJsonRpcId : JsonRpcId → Option ServerRequestKey
  | .integer value => some (integer value)
  | .string value => some (string value)

def toJsonRpcId : ServerRequestKey → JsonRpcId
  | integer value => .integer value
  | string value => .string value

def diagnosticIdentity : ServerRequestKey → String
  | integer value => "integer:" ++ toString value
  | string value => "string:" ++ boundedText value maxDiagnosticBytes

def stringBytes : ServerRequestKey → Nat
  | integer _ => 0
  | string value => value.utf8ByteSize

end ServerRequestKey

structure Completion where
  id : JsonRpcId
  method : String
  debugIdentity : String
  createdAt : Nat
  completedAt : Nat
  outcome : TerminalOutcome

structure Registration where
  id : JsonRpcId
  completion : Nat
  deriving DecidableEq

inductive CompletionDisposition where
  | completed
  | unknown
  | alreadyTerminal
  deriving DecidableEq

inductive AnomalyKind where
  | unknownResponse
  | lateOrDuplicateResponse
  | completionReceiverDropped
  | idSpaceExhausted
  deriving DecidableEq

structure Anomaly where
  kind : AnomalyKind
  id : Option JsonRpcId
  method : Option String
  detail : String
  observedAt : Nat

structure Counters where
  registered : Nat
  completedTotal : Nat
  successNull : Nat
  successValue : Nat
  clientError : Nat
  malformedResult : Nat
  timedOut : Nat
  cancelled : Nat
  shutdown : Nat
  transportLost : Nat
  capacityRejected : Nat
  idTooLongRejected : Nat
  unsupportedIdRejected : Nat
  idSpaceExhausted : Nat
  unknownResponse : Nat
  lateOrDuplicateResponse : Nat
  completionReceiverDropped : Nat
  anomaliesDropped : Nat
  deriving DecidableEq

namespace Counters

def zero : Counters := ⟨0, 0, 0, 0, 0, 0, 0, 0, 0, 0, 0, 0, 0, 0, 0, 0, 0, 0⟩

def ofKind (counters : Counters) : TerminalKind → Nat
  | .successNull => counters.successNull
  | .successValue => counters.successValue
  | .clientError => counters.clientError
  | .malformedResult => counters.malformedResult
  | .timedOut => counters.timedOut
  | .cancelled => counters.cancelled
  | .shutdown => counters.shutdown
  | .transportLost => counters.transportLost

def bumpKind (counters : Counters) : TerminalKind → Counters
  | .successNull => { counters with successNull := saturatingSucc counters.successNull }
  | .successValue => { counters with successValue := saturatingSucc counters.successValue }
  | .clientError => { counters with clientError := saturatingSucc counters.clientError }
  | .malformedResult =>
    { counters with malformedResult := saturatingSucc counters.malformedResult }
  | .timedOut => { counters with timedOut := saturatingSucc counters.timedOut }
  | .cancelled => { counters with cancelled := saturatingSucc counters.cancelled }
  | .shutdown => { counters with shutdown := saturatingSucc counters.shutdown }
  | .transportLost => { counters with transportLost := saturatingSucc counters.transportLost }

def kindSum (counters : Counters) : Nat :=
  counters.successNull + counters.successValue + counters.clientError +
    counters.malformedResult + counters.timedOut + counters.cancelled + counters.shutdown +
    counters.transportLost

end Counters

inductive RegistryError where
  | invalidCapacity (requested maximum : Nat)
  | capacityExhausted (capacity : Nat)
  | idUnavailable (id : String)
  | idTooLong (bytes maximum : Nat)
  | unsupportedId (id : String)
  | idSpaceExhausted
  | deadlineOverflow
  deriving DecidableEq

structure PendingRequest where
  method : String
  debugIdentity : String
  createdAt : Nat
  deadline : Nat
  decoder : ResultDecoder
  completion : Nat
  deriving DecidableEq

structure RecentTerminal where
  id : ServerRequestKey
  method : String
  kind : TerminalKind
  completedAt : Nat

/-- `channels` counts the channels created so far; the next one takes its number. -/
structure Registry where
  capacity : Nat
  nextNumericId : Int
  pending : TreeMap ServerRequestKey PendingRequest
  recentTerminals : List RecentTerminal
  anomalies : List Anomaly
  counters : Counters
  channels : Nat

open Registry

structure Delivery where
  sender : Nat
  completion : Completion

namespace Registry

def withValidCapacity (capacity : Nat) : Registry where
  capacity := capacity
  nextNumericId := 1
  pending := ∅
  recentTerminals := []
  anomalies := []
  counters := .zero
  channels := 0

def new (capacity : Nat) : Except RegistryError Registry :=
  if capacity = 0 ∨ maxServerRequestCapacity < capacity then
    .error (.invalidCapacity capacity maxServerRequestCapacity)
  else .ok (withValidCapacity capacity)

def default : Registry := withValidCapacity defaultServerRequestCapacity

example : new defaultServerRequestCapacity = .ok default := rfl

def pushAnomaly (s : Registry) (kind : AnomalyKind) (id : Option ServerRequestKey)
    (method : Option String) (detail : String) (observedAt : Nat) : Registry :=
  let full := s.anomalies.length = maxAnomalies
  let anomaly : Anomaly :=
    ⟨kind, id.map (·.toJsonRpcId), method.map (boundedText · maxMethodBytes),
      boundedText detail maxDiagnosticBytes, observedAt⟩
  { s with
    anomalies := (if full then s.anomalies.drop 1 else s.anomalies) ++ [anomaly]
    counters :=
      if full then
        { s.counters with anomaliesDropped := saturatingSucc s.counters.anomaliesDropped }
      else s.counters }

def isTaken (s : Registry) (key : ServerRequestKey) : Bool :=
  s.pending.contains key || s.recentTerminals.any fun terminal => terminal.id == key

/-- `none` when there is room. -/
def rejectIfFull (s : Registry) : Option (RegistryError × Registry) :=
  if s.pending.size < s.capacity then none
  else
    some (.capacityExhausted s.capacity,
      { s with counters :=
        { s.counters with capacityRejected := saturatingSucc s.counters.capacityRejected } })

def clampNumericId (next : Int) : Int := max 1 (min next maxServerRequestId)

def followingNumericId (candidate : Int) : Int :=
  if candidate = maxServerRequestId then 1 else candidate + 1

/-- The scan of `allocate_numeric_id`: the id found, and the id to continue with. -/
def scanNumericIds (taken : ServerRequestKey → Bool) : Nat → Int → Option ServerRequestKey × Int
  | 0, next => (none, next)
  | attempts + 1, next =>
    let candidate := clampNumericId next
    if taken (.integer candidate) then
      scanNumericIds taken attempts (followingNumericId candidate)
    else (some (.integer candidate), followingNumericId candidate)

def allocateNumericId (s : Registry) (now : Nat) : Except RegistryError ServerRequestKey × Registry :=
  let attempts := s.capacity + maxRecentTerminals + 1
  match scanNumericIds s.isTaken attempts s.nextNumericId with
  | (some key, next) => (.ok key, { s with nextNumericId := next })
  | (none, next) =>
    let s := { s with
      nextNumericId := next
      counters :=
        { s.counters with idSpaceExhausted := saturatingSucc s.counters.idSpaceExhausted } }
    (.error .idSpaceExhausted,
      s.pushAnomaly .idSpaceExhausted none none "numeric request-id scan found no available id" now)

def registerLocked (env : Env) (s : Registry) (key : ServerRequestKey)
    (method debugIdentity : String) (timeout : Nat) (decoder : ResultDecoder) (now : Nat) :
    Except RegistryError Registration × Registry :=
  match env.checkedAdd now timeout with
  | none => (.error .deadlineOverflow, s)
  | some deadline =>
    let request : PendingRequest :=
      ⟨boundedText method maxMethodBytes, boundedText debugIdentity maxDebugIdentityBytes, now,
        deadline, decoder, s.channels⟩
    (.ok ⟨key.toJsonRpcId, s.channels⟩,
      { s with
        pending := s.pending.insert key request
        counters := { s.counters with registered := saturatingSucc s.counters.registered }
        channels := s.channels + 1 })

def register (env : Env) (s : Registry) (method debugIdentity : String) (timeout : Nat)
    (decoder : ResultDecoder) (now : Nat) : Except RegistryError Registration × Registry :=
  match s.rejectIfFull with
  | some (failure, s) => (.error failure, s)
  | none =>
    match s.allocateNumericId now with
    | (.error failure, s) => (.error failure, s)
    | (.ok key, s) => s.registerLocked env key method debugIdentity timeout decoder now

def registerWithId (env : Env) (s : Registry) (id : JsonRpcId) (method debugIdentity : String)
    (timeout : Nat) (decoder : ResultDecoder) (now : Nat) :
    Except RegistryError Registration × Registry :=
  match s.rejectIfFull with
  | some (failure, s) => (.error failure, s)
  | none =>
    match fromJsonRpcId id with
    | none =>
      (.error (.unsupportedId (boundedText (env.idText id) maxDiagnosticBytes)), { s with counters :=
        { s.counters with
          unsupportedIdRejected := saturatingSucc s.counters.unsupportedIdRejected } })
    | some key =>
      if maxServerRequestIdBytes < key.stringBytes then
        (.error (.idTooLong key.stringBytes maxServerRequestIdBytes), { s with counters :=
          { s.counters with
            idTooLongRejected := saturatingSucc s.counters.idTooLongRejected } })
      else if s.isTaken key then (.error (.idUnavailable key.diagnosticIdentity), s)
      else s.registerLocked env key method debugIdentity timeout decoder now

def finalizeLocked (s : Registry) (id : ServerRequestKey) (pending : PendingRequest)
    (outcome : TerminalOutcome) (completedAt : Nat) : Delivery × Registry :=
  let terminal : RecentTerminal := ⟨id, pending.method, outcome.kind, completedAt⟩
  let terminals := s.recentTerminals ++ [terminal]
  (⟨pending.completion,
    ⟨id.toJsonRpcId, pending.method, pending.debugIdentity, pending.createdAt, completedAt, outcome⟩⟩,
    { s with
      counters :=
        { s.counters with
          completedTotal := saturatingSucc s.counters.completedTotal }.bumpKind outcome.kind
      recentTerminals := terminals.drop (terminals.length - maxRecentTerminals) })

def recordMissingResponse (env : Env) (s : Registry) (id : ServerRequestKey) (detail : String)
    (observedAt : Nat) : CompletionDisposition × Registry :=
  match s.recentTerminals.find? fun terminal => terminal.id == id with
  | some terminal =>
    let s := { s with counters :=
      { s.counters with
        lateOrDuplicateResponse := saturatingSucc s.counters.lateOrDuplicateResponse } }
    let terminalDetail := detail ++ "; prior terminal=" ++ terminal.kind.debug ++
      " completed_at=" ++ env.instantText terminal.completedAt
    (.alreadyTerminal, s.pushAnomaly .lateOrDuplicateResponse (some id) (some terminal.method)
      terminalDetail observedAt)
  | none =>
    let s := { s with counters :=
      { s.counters with unknownResponse := saturatingSucc s.counters.unknownResponse } }
    (.unknown, s.pushAnomaly .unknownResponse (some id) none detail observedAt)

def recordUnsupportedResponse (env : Env) (s : Registry) (id : JsonRpcId) (detail : String)
    (observedAt : Nat) : CompletionDisposition × Registry :=
  let s := { s with counters :=
    { s.counters with unknownResponse := saturatingSucc s.counters.unknownResponse } }
  (.unknown, s.pushAnomaly .unknownResponse none none
    ("unsupported id " ++ boundedText (env.idText id) 96 ++ "; " ++ detail) observedAt)

/-- The common body of the three completions: they differ in the outcome of a pending request and in
the detail without one. -/
def completeWith (env : Env) (s : Registry) (id : JsonRpcId)
    (outcome : PendingRequest → TerminalOutcome) (detail : String) (now : Nat) :
    CompletionDisposition × Option Delivery × Registry :=
  match fromJsonRpcId id with
  | none =>
    let (disposition, s) := s.recordUnsupportedResponse env id detail now
    (disposition, none, s)
  | some key =>
    match s.pending[key]? with
    | none =>
      let (disposition, s) := s.recordMissingResponse env key detail now
      (disposition, none, s)
    | some pending =>
      let (delivery, s) := { s with pending := s.pending.erase key }.finalizeLocked key pending
        (outcome pending) now
      (.completed, some delivery, s)

def successOutcome (env : Env) (result : Value) (pending : PendingRequest) : TerminalOutcome :=
  match pending.decoder.decode env result with
  | .ok outcome => outcome
  | .error malformed => .malformedResult malformed

def completeSuccess (env : Env) (s : Registry) (id : JsonRpcId) (result : Value) (now : Nat) :
    CompletionDisposition × Option Delivery × Registry :=
  s.completeWith env id (successOutcome env result)
    ("success result " ++ boundedValueSummary env result) now

def completeClientError (env : Env) (s : Registry) (id : JsonRpcId) (code : Int)
    (message : String) (data : Option Value) (now : Nat) :
    CompletionDisposition × Option Delivery × Registry :=
  s.completeWith env id
    (fun _ => .clientError code (boundedText message maxDiagnosticBytes)
      (data.map (boundedValueSummary env)))
    ("client error code=" ++ toString code ++ " message=" ++ boundedText message maxDiagnosticBytes)
    now

def completeWithTerminal (env : Env) (s : Registry) (id : JsonRpcId) (outcome : TerminalOutcome)
    (now : Nat) : CompletionDisposition × Option Delivery × Registry :=
  s.completeWith env id (fun _ => outcome) ("terminal outcome " ++ outcome.kind.debug) now

def cancel (env : Env) (s : Registry) (id : JsonRpcId) (now : Nat) :
    CompletionDisposition × Option Delivery × Registry :=
  s.completeWithTerminal env id .cancelled now

def expireEach (now : Nat) : List ServerRequestKey → Registry → List Delivery × Registry
  | [], s => ([], s)
  | id :: rest, s =>
    match s.pending[id]? with
    | none => expireEach now rest s
    | some pending =>
      let (delivery, s) :=
        { s with pending := s.pending.erase id }.finalizeLocked id pending .timedOut now
      let (deliveries, s) := expireEach now rest s
      (delivery :: deliveries, s)

def expireDeadlines (s : Registry) (now : Nat) : List Delivery × Registry :=
  let expired := s.pending.toList.filterMap fun entry =>
    if entry.2.deadline ≤ now then some entry.1 else none
  expireEach now expired s

def finalizeAll (outcome : TerminalOutcome) (now : Nat) :
    List (ServerRequestKey × PendingRequest) → Registry → List Delivery × Registry
  | [], s => ([], s)
  | (id, request) :: rest, s =>
    let (delivery, s) := s.finalizeLocked id request outcome now
    let (deliveries, s) := finalizeAll outcome now rest s
    (delivery :: deliveries, s)

def drain (s : Registry) (outcome : TerminalOutcome) (now : Nat) : List Delivery × Registry :=
  finalizeAll outcome now s.pending.toList { s with pending := ∅ }

def shutdown (s : Registry) (now : Nat) : List Delivery × Registry := s.drain .shutdown now

def transportLost (s : Registry) (now : Nat) : List Delivery × Registry :=
  s.drain .transportLost now

/-- `deliver` finds the receiver gone. -/
def receiverDropped (s : Registry) (completion : Completion) : Registry :=
  let s := { s with counters :=
    { s.counters with
      completionReceiverDropped := saturatingSucc s.counters.completionReceiverDropped } }
  s.pushAnomaly .completionReceiverDropped (fromJsonRpcId completion.id)
    (some completion.method) "completion receiver was dropped before terminal delivery"
    completion.completedAt

end Registry

/-- The registry, the registrations and terminal completions it handed out, newest first, and the
channels without a receiver. -/
structure System where
  registry : Registry
  registrations : List Registration
  completions : List Delivery
  dropped : List Nat

inductive Op where
  | register (method debugIdentity : String) (timeout : Nat) (decoder : ResultDecoder) (now : Nat)
  | registerWithId (id : JsonRpcId) (method debugIdentity : String) (timeout : Nat)
      (decoder : ResultDecoder) (now : Nat)
  | completeSuccess (id : JsonRpcId) (result : Value) (now : Nat)
  | completeClientError (id : JsonRpcId) (code : Int) (message : String) (data : Option Value)
      (now : Nat)
  | cancel (id : JsonRpcId) (now : Nat)
  | expireDeadlines (now : Nat)
  | shutdown (now : Nat)
  | transportLost (now : Nat)
  | dropReceiver (channel : Nat)

namespace System

def start (registry : Registry) : System := ⟨registry, [], [], []⟩

def adopt (t : System) : Except RegistryError Registration × Registry → System
  | (.ok registration, registry) =>
    { t with registry := registry, registrations := registration :: t.registrations }
  | (.error _, registry) => { t with registry := registry }

def deliver (t : System) (delivery : Delivery) : System :=
  { t with
    registry :=
      if delivery.sender ∈ t.dropped then t.registry.receiverDropped delivery.completion
      else t.registry
    completions := delivery :: t.completions }

def settle (t : System) (deliveries : List Delivery) (registry : Registry) : System :=
  deliveries.foldl deliver { t with registry := registry }

def step (env : Env) (t : System) : Op → System
  | .register method debugIdentity timeout decoder now =>
    t.adopt (t.registry.register env method debugIdentity timeout decoder now)
  | .registerWithId id method debugIdentity timeout decoder now =>
    t.adopt (t.registry.registerWithId env id method debugIdentity timeout decoder now)
  | .completeSuccess id result now =>
    let (_, delivery, registry) := t.registry.completeSuccess env id result now
    t.settle delivery.toList registry
  | .completeClientError id code message data now =>
    let (_, delivery, registry) := t.registry.completeClientError env id code message data now
    t.settle delivery.toList registry
  | .cancel id now =>
    let (_, delivery, registry) := t.registry.cancel env id now
    t.settle delivery.toList registry
  | .expireDeadlines now =>
    let (deliveries, registry) := t.registry.expireDeadlines now
    t.settle deliveries registry
  | .shutdown now =>
    let (deliveries, registry) := t.registry.shutdown now
    t.settle deliveries registry
  | .transportLost now =>
    let (deliveries, registry) := t.registry.transportLost now
    t.settle deliveries registry
  | .dropReceiver channel => { t with dropped := channel :: t.dropped }

end System

variable (counter : Nat)

theorem saturating_succ_below (below : counter < u64Max) :
    saturatingSucc counter = counter + 1 := if_pos below

theorem below_of_saturating_succ (below : saturatingSucc counter < u64Max) : counter < u64Max := by
  unfold saturatingSucc at below
  split at below
  · assumption
  · exact below

section
variable (counters : Counters) (kind : TerminalKind)
include counters kind

theorem of_kind_le_sum : counters.ofKind kind ≤ counters.kindSum := by
  cases kind <;> simp only [Counters.ofKind, Counters.kindSum] <;> omega

theorem bump_kind_sum (below : counters.kindSum < u64Max) :
    (counters.bumpKind kind).kindSum = counters.kindSum + 1 := by
  have small := Nat.lt_of_le_of_lt (of_kind_le_sum counters kind) below
  cases kind <;>
    simp only [Counters.ofKind] at small <;>
    simp only [Counters.bumpKind, Counters.kindSum, saturating_succ_below _ small] <;> omega

theorem bump_kind_totals : (counters.bumpKind kind).registered = counters.registered ∧
      (counters.bumpKind kind).completedTotal = counters.completedTotal := by
  cases kind <;> exact ⟨rfl, rfl⟩

end

abbrev Entry := ServerRequestKey × PendingRequest

def Delivery.registration (delivery : Delivery) : Registration :=
  ⟨delivery.completion.id, delivery.sender⟩

def registrationOf (entry : Entry) : Registration := ⟨entry.1.toJsonRpcId, entry.2.completion⟩

/-- A queue that keeps its last entries, written newest first. -/
theorem keep_last {Item : Type} (newest : List Item) (item : Item) (limit : Nat) :
    ((newest.take limit).reverse ++ [item]).drop (((newest.take limit).reverse ++ [item]).length - limit) =
      ((item :: newest).take limit).reverse := by
  have written : (newest.take limit).reverse ++ [item] = (item :: newest.take limit).reverse :=
    reverse_cons.symm
  rw [written, length_reverse, ← reverse_take]
  congr 1
  cases limit with
  | zero => rfl
  | succ limit => simp [take_take]

/-- The registry in the middle of an operation: `held` are the requests taken out of the table,
`finished` the completions so far. -/
structure Sound (limit : Nat) (s : Registry) (registrations : List Registration) (held : List Entry)
    (finished : List Delivery) : Prop where
  capacity : s.capacity = limit
  distinct : ((held ++ s.pending.toList).map Prod.fst ++
    s.recentTerminals.map RecentTerminal.id).Nodup
  bounded : (held ++ s.pending.toList).length ≤ limit
  retained : (s.recentTerminals.map RecentTerminal.id).map toJsonRpcId =
    ((finished.map fun delivery => delivery.completion.id).take maxRecentTerminals).reverse
  balanced : s.counters.registered < u64Max →
    s.counters.registered = s.counters.completedTotal + (held ++ s.pending.toList).length
  summed : s.counters.completedTotal < u64Max → s.counters.completedTotal = s.counters.kindSum
  numbered : registrations.map Registration.completion = (List.range s.channels).reverse
  once : (finished.map Delivery.registration ++
    (held ++ s.pending.toList).map registrationOf).Perm registrations

variable {held : List Entry}

theorem Sound.ring {s : Registry} (ok : Sound limit s registrations held finished) :
    s.recentTerminals.length ≤ maxRecentTerminals := by
  have lengths := congrArg List.length ok.retained
  simp only [length_map, length_reverse] at lengths
  rw [lengths]
  exact length_take_le _ _

structure SameTables (s t : Registry) : Prop where
  capacity : t.capacity = s.capacity
  pending : t.pending = s.pending
  recentTerminals : t.recentTerminals = s.recentTerminals
  registered : t.counters.registered = s.counters.registered
  completedTotal : t.counters.completedTotal = s.counters.completedTotal
  kindSum : t.counters.kindSum = s.counters.kindSum
  channels : t.channels = s.channels

theorem SameTables.trans {s t u : Registry} (first : SameTables s t) (second : SameTables t u) :
    SameTables s u where
  capacity := second.capacity.trans first.capacity
  pending := second.pending.trans first.pending
  recentTerminals := second.recentTerminals.trans first.recentTerminals
  registered := second.registered.trans first.registered
  completedTotal := second.completedTotal.trans first.completedTotal
  kindSum := second.kindSum.trans first.kindSum
  channels := second.channels.trans first.channels

theorem Sound.same {s t : Registry} (ok : Sound limit s registrations held finished)
    (same : SameTables s t) : Sound limit t registrations held finished where
  capacity := by rw [same.capacity]; exact ok.capacity
  distinct := by rw [same.pending, same.recentTerminals]; exact ok.distinct
  bounded := by rw [same.pending]; exact ok.bounded
  retained := by rw [same.recentTerminals]; exact ok.retained
  balanced := by rw [same.registered, same.completedTotal, same.pending]; exact ok.balanced
  summed := by rw [same.completedTotal, same.kindSum]; exact ok.summed
  numbered := by rw [same.channels]; exact ok.numbered
  once := by rw [same.pending]; exact ok.once

theorem Sound.regroup {s : Registry} {moved : List Entry}
    (ok : Sound limit s registrations held finished) (pending : TreeMap ServerRequestKey PendingRequest)
    (perm : (held ++ s.pending.toList).Perm (moved ++ pending.toList)) :
    Sound limit { s with pending := pending } registrations moved finished where
  capacity := ok.capacity
  distinct := ((perm.map Prod.fst).append_right _).nodup_iff.mp ok.distinct
  bounded := perm.length_eq ▸ ok.bounded
  retained := ok.retained
  balanced := perm.length_eq ▸ ok.balanced
  summed := ok.summed
  numbered := ok.numbered
  once := ((perm.map registrationOf).symm.append_left _).trans ok.once

theorem push_anomaly_same (s : Registry) (kind : AnomalyKind) (id : Option ServerRequestKey)
    (method : Option String) (detail : String) (observedAt : Nat) :
    SameTables s (s.pushAnomaly kind id method detail observedAt) := by
  unfold pushAnomaly
  by_cases full : s.anomalies.length = maxAnomalies
  · simp only [full]
    exact ⟨rfl, rfl, rfl, rfl, rfl, rfl, rfl⟩
  · simp only [full]
    exact ⟨rfl, rfl, rfl, rfl, rfl, rfl, rfl⟩

section
variable (s : Registry) (id : ServerRequestKey) (request : PendingRequest)
    (outcome : TerminalOutcome) (completedAt : Nat)
include s id request outcome completedAt

theorem finalize_locked_tables :
    let done := s.finalizeLocked id request outcome completedAt
    done.1.sender = request.completion ∧ done.1.completion.id = id.toJsonRpcId ∧
      done.2.capacity = s.capacity ∧ done.2.pending = s.pending ∧ done.2.channels = s.channels ∧
      done.2.counters.registered = s.counters.registered ∧
      done.2.counters.completedTotal = saturatingSucc s.counters.completedTotal ∧
      (s.counters.kindSum < u64Max → done.2.counters.kindSum = s.counters.kindSum + 1) := by
  obtain ⟨registered, total⟩ := bump_kind_totals
    { s.counters with completedTotal := saturatingSucc s.counters.completedTotal } outcome.kind
  have summed := bump_kind_sum
    { s.counters with completedTotal := saturatingSucc s.counters.completedTotal } outcome.kind
  simp only [finalizeLocked]
  exact ⟨trivial, trivial, trivial, trivial, trivial, registered, total, summed⟩

theorem finalize_locked_terminals :
    (s.finalizeLocked id request outcome completedAt).2.recentTerminals.map RecentTerminal.id =
      let ids := s.recentTerminals.map RecentTerminal.id ++ [id]
      ids.drop (ids.length - maxRecentTerminals) := by
  simp only [finalizeLocked, map_drop, map_append, map_cons, map_nil,
    length_append, length_map, length_cons, length_nil]

end

theorem Sound.finalize {s : Registry} {id : ServerRequestKey} {request : PendingRequest}
    (ok : Sound limit s registrations ((id, request) :: held) finished) (outcome : TerminalOutcome)
    (completedAt : Nat) : Sound limit (s.finalizeLocked id request outcome completedAt).2 registrations held
      ((s.finalizeLocked id request outcome completedAt).1 :: finished) := by
  obtain ⟨sender, named, capacity, pending, channels, registered, total, summed⟩ :=
    finalize_locked_tables s id request outcome completedAt
  have terminals := finalize_locked_terminals s id request outcome completedAt
  have distinct := ok.distinct
  have retained := ok.retained
  have balanced := ok.balanced
  generalize s.finalizeLocked id request outcome completedAt = done at *
  generalize s.recentTerminals.map RecentTerminal.id = ids at *
  constructor
  case capacity => rw [capacity]; exact ok.capacity
  case bounded =>
      rw [pending]
      exact Nat.le_of_succ_le ok.bounded
  case distinct =>
      rw [pending, terminals]
      have moved : ((((id, request) :: held) ++ s.pending.toList).map Prod.fst ++ ids).Perm
          ((held ++ s.pending.toList).map Prod.fst ++ (ids ++ [id])) := by
        rw [cons_append, map_cons, ← append_assoc]
        exact (perm_append_singleton id _).symm
      exact (moved.nodup_iff.mp distinct).sublist ((drop_sublist _ _).append_left _)
  case retained =>
      have length : (ids ++ [id]).length = (ids.map toJsonRpcId ++ [id.toJsonRpcId]).length := by
        simp only [length_append, length_map, length_singleton]
      rw [terminals, map_drop, map_append, map_singleton, length, retained, keep_last, map_cons, named]
  case balanced =>
      rw [registered, total, pending]
      intro below
      have whole := balanced below
      simp only [cons_append, length_cons] at whole
      rw [saturating_succ_below _ (by omega)]
      omega
  case summed =>
      rw [total]
      intro below
      have small := below_of_saturating_succ _ below
      have old := ok.summed small
      rw [saturating_succ_below _ small, summed (old ▸ small), old]
  case numbered => rw [channels]; exact ok.numbered
  case once =>
      have written : done.1.registration = registrationOf (id, request) := by
        rw [Delivery.registration, sender, named]; rfl
      rw [pending, map_cons, written]
      exact perm_middle.symm.trans ok.once

theorem Sound.release {s : Registry} (ok : Sound limit s registrations held finished)
    (key : ServerRequestKey) (request : PendingRequest) (present : s.pending[key]? = some request) :
    Sound limit { s with pending := s.pending.erase key } registrations ((key, request) :: held)
      finished := by
  refine ok.regroup _ ?_
  exact ((erase_perm s.pending key request present).append_left held).trans perm_middle

open Registry (clampNumericId followingNumericId scanNumericIds)

def numericCandidate (next : Int) (k : Nat) : ServerRequestKey :=
  .integer ((clampNumericId next - 1 + k) % maxServerRequestId + 1)

variable (taken : ServerRequestKey → Bool) (attempts : Nat) (next : Int)

theorem clamp_following : clampNumericId (followingNumericId (clampNumericId next)) =
      followingNumericId (clampNumericId next) := by
  simp only [clampNumericId, followingNumericId, maxServerRequestId]
  omega

theorem numeric_candidate_first : numericCandidate next 0 = .integer (clampNumericId next) := by
  simp only [numericCandidate, clampNumericId, maxServerRequestId, ServerRequestKey.integer.injEq]
  omega

theorem numeric_candidate_following (k : Nat) :
    numericCandidate (followingNumericId (clampNumericId next)) k = numericCandidate next (k + 1) := by
  simp only [numericCandidate, clamp_following, ServerRequestKey.integer.injEq]
  simp only [followingNumericId, maxServerRequestId]
  omega

theorem numeric_candidate_injective (i j : Nat) (iSmall : i < maxServerRequestId)
    (jSmall : j < maxServerRequestId) (same : numericCandidate next i = numericCandidate next j) :
    i = j := by
  simp only [numericCandidate, ServerRequestKey.integer.injEq] at same
  simp only [maxServerRequestId] at iSmall jSmall same
  omega

variable (following : Int)

theorem scan_finds_free (key : ServerRequestKey)
    (found : scanNumericIds taken attempts next = (some key, following)) : taken key = false := by
  induction attempts generalizing next with
  | zero => cases found
  | succ attempts ih =>
    simp only [scanNumericIds] at found
    split at found
    case isTrue busy => exact ih _ found
    case isFalse free =>
        cases found
        exact Bool.eq_false_iff.mpr free

theorem scan_exhausted (failed : scanNumericIds taken attempts next = (none, following)) (k : Nat)
    (within : k < attempts) : taken (numericCandidate next k) = true := by
  induction attempts generalizing next k with
  | zero => cases within
  | succ attempts ih =>
    simp only [scanNumericIds] at failed
    split at failed
    case isTrue busy =>
        cases k with
        | zero => rw [numeric_candidate_first]; exact busy
        | succ k =>
          rw [← numeric_candidate_following]
          exact ih _ failed k (Nat.lt_of_succ_lt_succ within)
    case isFalse free => cases failed

def usedIds (s : Registry) : List ServerRequestKey :=
  s.pending.toList.map Prod.fst ++ s.recentTerminals.map RecentTerminal.id

theorem taken_iff_used (s : Registry) (key : ServerRequestKey) : s.isTaken key = true ↔ key ∈ usedIds s := by
  have pending : s.pending.contains key = true ↔ key ∈ s.pending.toList.map Prod.fst := by
    rw [TreeMap.map_fst_toList_eq_keys, TreeMap.mem_keys, TreeMap.contains_iff_mem]
  have terminal : (s.recentTerminals.any fun terminal => terminal.id == key) = true ↔
      key ∈ s.recentTerminals.map RecentTerminal.id := by
    rw [any_eq_true, mem_map]
    exact exists_congr fun entry => and_congr_right fun _ => beq_iff_eq
  rw [isTaken, Bool.or_eq_true, pending, terminal, usedIds, mem_append]

/-- More attempts than ids in use always find a free one. -/
theorem scan_succeeds (s : Registry) (attempts : Nat) (next : Int)
    (many : (usedIds s).length < attempts) (short : (attempts : Int) ≤ maxServerRequestId) :
    (scanNumericIds s.isTaken attempts next).1 ≠ none := by
  intro failed
  have exhausted := scan_exhausted s.isTaken attempts next
    (scanNumericIds s.isTaken attempts next).2 (Prod.ext failed rfl)
  have candidates : ((List.range attempts).map (numericCandidate next)).Nodup := by
    refine List.Nodup.map_on ?_ nodup_range
    intro i iWithin j jWithin same
    have iSmall := mem_range.mp iWithin
    have jSmall := mem_range.mp jWithin
    exact numeric_candidate_injective next i j (by omega) (by omega) same
  have subset : (List.range attempts).map (numericCandidate next) ⊆ usedIds s := by
    intro key among
    obtain ⟨k, within, rfl⟩ := mem_map.mp among
    exact (taken_iff_used s _).mp (exhausted k (mem_range.mp within))
  have fewer := (List.Nodup.subperm candidates subset).length_le
  rw [length_map, length_range] at fewer
  omega

/-- What a registration returns and leaves: a failure that touches no table, or a new row under a
free id, while there was room. -/
inductive Registered (s : Registry) : Except RegistryError Registration × Registry → Prop where
  | refused (failure : RegistryError) (t : Registry) (same : SameTables s t) :
      Registered s (.error failure, t)
  | admitted (key : ServerRequestKey) (request : PendingRequest) (t : Registry)
      (same : SameTables s t) (room : s.pending.size < s.capacity) (free : s.isTaken key = false)
      (numbered : request.completion = t.channels) :
      Registered s (.ok ⟨key.toJsonRpcId, t.channels⟩,
        { t with
          pending := t.pending.insert key request
          counters := { t.counters with registered := saturatingSucc t.counters.registered }
          channels := t.channels + 1 })

theorem reject_if_full_cases (s : Registry) : (s.rejectIfFull = none ∧ s.pending.size < s.capacity) ∨
      ∃ t, s.rejectIfFull = some (.capacityExhausted s.capacity, t) ∧ SameTables s t := by
  unfold rejectIfFull
  by_cases room : s.pending.size < s.capacity
  · exact .inl ⟨if_pos room, room⟩
  · exact .inr ⟨_, if_neg room, ⟨rfl, rfl, rfl, rfl, rfl, rfl, rfl⟩⟩

theorem allocate_numeric_id_cases (s : Registry) (now : Nat) :
    (∃ key t, s.allocateNumericId now = (.ok key, t) ∧ SameTables s t ∧ s.isTaken key = false) ∨
      ∃ t, s.allocateNumericId now = (.error .idSpaceExhausted, t) ∧ SameTables s t ∧
        (scanNumericIds s.isTaken (s.capacity + maxRecentTerminals + 1) s.nextNumericId).1 =
          none := by
  simp only [allocateNumericId]
  cases scanned : scanNumericIds s.isTaken (s.capacity + maxRecentTerminals + 1) s.nextNumericId with
  | mk found next =>
    cases found with
    | some key =>
      exact .inl ⟨key, _, rfl, ⟨rfl, rfl, rfl, rfl, rfl, rfl, rfl⟩, scan_finds_free _ _ _ _ key scanned⟩
    | none =>
      refine .inr ⟨_, rfl, SameTables.trans ?_ (push_anomaly_same _ _ _ _ _ _), rfl⟩
      exact ⟨rfl, rfl, rfl, rfl, rfl, rfl, rfl⟩

variable (env : Env)

theorem register_locked_outcome (s t : Registry) (key : ServerRequestKey)
    (method debugIdentity : String) (timeout : Nat) (decoder : ResultDecoder) (now : Nat)
    (same : SameTables s t) (room : s.pending.size < s.capacity) (free : s.isTaken key = false) :
    Registered s (t.registerLocked env key method debugIdentity timeout decoder now) := by
  unfold registerLocked
  cases env.checkedAdd now timeout with
  | none => exact .refused _ _ same
  | some deadline => exact .admitted key _ _ same room free rfl

theorem register_outcome (s : Registry) (method debugIdentity : String) (timeout : Nat)
    (decoder : ResultDecoder) (now : Nat) :
    Registered s (s.register env method debugIdentity timeout decoder now) := by
  unfold Registry.register
  rcases reject_if_full_cases s with ⟨admits, room⟩ | ⟨t, full, same⟩
  · rw [admits]
    rcases allocate_numeric_id_cases s now with ⟨key, t, found, same, free⟩ | ⟨t, failed, same, _⟩
    · rw [found]
      exact register_locked_outcome env s t key method debugIdentity timeout decoder now same room free
    · rw [failed]
      exact .refused _ _ same
  · rw [full]
    exact .refused _ _ same

theorem register_with_id_outcome (s : Registry) (id : JsonRpcId) (method debugIdentity : String)
    (timeout : Nat) (decoder : ResultDecoder) (now : Nat) :
    Registered s (s.registerWithId env id method debugIdentity timeout decoder now) := by
  have untouched : SameTables s s := ⟨rfl, rfl, rfl, rfl, rfl, rfl, rfl⟩
  unfold registerWithId
  rcases reject_if_full_cases s with ⟨admits, room⟩ | ⟨t, full, same⟩
  · rw [admits]
    cases fromJsonRpcId id with
    | none => exact .refused _ _ ⟨rfl, rfl, rfl, rfl, rfl, rfl, rfl⟩
    | some key =>
      simp only
      by_cases long : maxServerRequestIdBytes < key.stringBytes
      · rw [if_pos long]
        exact .refused _ _ ⟨rfl, rfl, rfl, rfl, rfl, rfl, rfl⟩
      by_cases taken : s.isTaken key = true
      · rw [if_neg long, if_pos taken]
        exact .refused _ _ untouched
      · rw [if_neg long, if_neg taken]
        exact register_locked_outcome env s s key method debugIdentity timeout decoder now
          untouched room (Bool.eq_false_iff.mpr taken)
  · rw [full]
    exact .refused _ _ same

theorem Sound.adopt {s t : Registry} (ok : Sound limit s registrations [] finished)
    (same : SameTables s t) (key : ServerRequestKey) (request : PendingRequest)
    (room : s.pending.size < s.capacity) (free : s.isTaken key = false)
    (numbered : request.completion = t.channels) :
    Sound limit { t with
        pending := t.pending.insert key request
        counters := { t.counters with registered := saturatingSucc t.counters.registered }
        channels := t.channels + 1 }
      (⟨key.toJsonRpcId, t.channels⟩ :: registrations) [] finished := by
  have fresh : key ∉ usedIds s := fun used =>
    Bool.eq_false_iff.mp free ((taken_iff_used s key).mpr used)
  have absent : key ∉ s.pending := fun present =>
    Bool.eq_false_iff.mp free (Bool.or_eq_true_iff.mpr (.inl (TreeMap.contains_iff_mem.mpr present)))
  have added := insert_perm s.pending key request absent
  have before := ok.same same
  rw [← same.pending] at added
  constructor
  case capacity => exact before.capacity
  case distinct =>
      have ids : (((t.pending.insert key request).toList).map Prod.fst ++
          t.recentTerminals.map RecentTerminal.id).Perm (key :: usedIds s) := by
        rw [usedIds, ← same.pending, ← same.recentTerminals]
        exact (added.map Prod.fst).append_right _
      exact ids.nodup_iff.mpr (nodup_cons.mpr ⟨fresh, ok.distinct⟩)
  case bounded =>
      show (t.pending.insert key request).toList.length ≤ limit
      rw [added.length_eq, length_cons, TreeMap.length_toList, same.pending, ← ok.capacity]
      exact room
  case retained => exact before.retained
  case balanced =>
      show saturatingSucc t.counters.registered < u64Max → saturatingSucc t.counters.registered =
          t.counters.completedTotal + (t.pending.insert key request).toList.length
      intro below
      have small := below_of_saturating_succ _ below
      have whole := before.balanced small
      rw [nil_append] at whole
      rw [saturating_succ_below _ small, added.length_eq, length_cons, whole, Nat.add_assoc]
  case summed => exact before.summed
  case numbered =>
      show t.channels :: registrations.map Registration.completion = (List.range (t.channels + 1)).reverse
      rw [range_succ, reverse_append, reverse_singleton, before.numbered]
      rfl
  case once =>
      have written : registrationOf (key, request) = ⟨key.toJsonRpcId, t.channels⟩ := by
        rw [registrationOf, numbered]
      have rows := (added.map registrationOf).append_left (finished.map Delivery.registration)
      rw [map_cons, written] at rows
      exact rows.trans (perm_middle.trans (before.once.cons _))

theorem complete_with_cases (s : Registry) (id : JsonRpcId)
    (outcome : PendingRequest → TerminalOutcome) (detail : String) (now : Nat) :
    (∃ disposition t, s.completeWith env id outcome detail now = (disposition, none, t) ∧ SameTables s t) ∨
      ∃ key request, s.pending[key]? = some request ∧
        let done := { s with pending := s.pending.erase key }.finalizeLocked key request
          (outcome request) now
        s.completeWith env id outcome detail now = (.completed, some done.1, done.2) := by
  unfold completeWith
  cases fromJsonRpcId id with
  | none =>
    refine .inl ⟨_, _, rfl, SameTables.trans ?_ (push_anomaly_same _ _ _ _ _ _)⟩
    exact ⟨rfl, rfl, rfl, rfl, rfl, rfl, rfl⟩
  | some key =>
    simp only
    cases found : s.pending[key]? with
    | some request => exact .inr ⟨key, request, found, rfl⟩
    | none =>
      refine .inl ⟨(s.recordMissingResponse env key detail now).1,
        (s.recordMissingResponse env key detail now).2, ?_, ?_⟩
      · rfl
      · unfold recordMissingResponse
        cases s.recentTerminals.find? fun terminal => terminal.id == key with
        | some terminal | none =>
          refine SameTables.trans ?_ (push_anomaly_same _ _ _ _ _ _)
          exact ⟨rfl, rfl, rfl, rfl, rfl, rfl, rfl⟩

section
variable {limit : Nat} {s : Registry} {registrations : List Registration} {finished : List Delivery}
include limit s registrations finished

theorem Sound.complete (ok : Sound limit s registrations [] finished) (env : Env)
    (id : JsonRpcId) (outcome : PendingRequest → TerminalOutcome) (detail : String) (now : Nat) :
    let result := s.completeWith env id outcome detail now
    Sound limit result.2.2 registrations [] (result.2.1.toList.reverse ++ finished) := by
  rcases complete_with_cases env s id outcome detail now with
    ⟨disposition, t, missed, same⟩ | ⟨key, request, present, completed⟩
  · rw [missed]
    exact ok.same same
  · rw [completed]
    exact (ok.release key request present).finalize (outcome request) now

theorem Sound.expire (now : Nat) (expired : List ServerRequestKey)
    (ok : Sound limit s registrations [] finished) :
    let result := expireEach now expired s
    Sound limit result.2 registrations [] (result.1.reverse ++ finished) := by
  induction expired generalizing s finished with
  | nil => exact ok
  | cons id rest ih =>
    simp only [expireEach]
    cases found : s.pending[id]? with
    | none => exact ih ok
    | some pending =>
      have next := ih ((ok.release id pending found).finalize .timedOut now)
      simp only [reverse_cons, append_assoc]
      exact next

theorem Sound.finalize_all (outcome : TerminalOutcome) (now : Nat) (entries : List Entry)
    (ok : Sound limit s registrations entries finished) :
    let result := finalizeAll outcome now entries s
    Sound limit result.2 registrations [] (result.1.reverse ++ finished) := by
  induction entries generalizing s finished with
  | nil => exact ok
  | cons entry rest ih =>
    have next := ih (ok.finalize outcome now)
    simp only [finalizeAll, reverse_cons, append_assoc]
    exact next

theorem Sound.drain (ok : Sound limit s registrations [] finished) (outcome : TerminalOutcome) (now : Nat) :
    let result := s.drain outcome now
    Sound limit result.2 registrations [] (result.1.reverse ++ finished) := by
  refine Sound.finalize_all outcome now s.pending.toList (ok.regroup ∅ ?_)
  have empty : (∅ : TreeMap ServerRequestKey PendingRequest).toList = [] := rfl
  rw [empty, append_nil]
  exact List.Perm.refl _

end

theorem drain_pending (s : Registry) (outcome : TerminalOutcome) (now : Nat) :
    (s.drain outcome now).2.pending = ∅ := by
  have kept : ∀ (entries : List Entry) (t : Registry),
      (finalizeAll outcome now entries t).2.pending = t.pending := by
    intro entries
    induction entries with
    | nil => exact fun t => rfl
    | cons entry rest ih => exact fun t => (ih _).trans rfl
  exact kept _ _

theorem missing_classified (s : Registry) (id : JsonRpcId)
    (outcome : PendingRequest → TerminalOutcome) (detail : String) (now : Nat)
    (key : ServerRequestKey) (named : fromJsonRpcId id = some key) (absent : s.pending[key]? = none) :
    (s.completeWith env id outcome detail now).1 = .alreadyTerminal ↔
      key ∈ s.recentTerminals.map RecentTerminal.id := by
  simp only [completeWith, named, absent, recordMissingResponse]
  cases found : s.recentTerminals.find? fun terminal => terminal.id == key with
  | some terminal =>
    have named := find?_some found
    have same : terminal.id = key := beq_iff_eq.mp named
    exact iff_of_true rfl (mem_map.mpr ⟨terminal, mem_of_find?_eq_some found, same⟩)
  | none =>
    refine iff_of_false (fun alike => nomatch alike) ?_
    intro among
    obtain ⟨terminal, member, same⟩ := mem_map.mp among
    exact find?_eq_none.mp found terminal member (beq_iff_eq.mpr same)

variable {t : System} {result : Except RegistryError Registration × Registry}

theorem registered_fresh {s : Registry} (outcome : Registered s result)
    (registration : Registration) (success : result.1 = .ok registration) :
    ∃ key, registration.id = key.toJsonRpcId ∧ key ∉ usedIds s := by
  cases outcome with
  | refused failure t same => cases success
  | admitted key request t same room free numbered =>
    cases success
    exact ⟨key, rfl, fun used => Bool.eq_false_iff.mp free ((taken_iff_used s key).mpr used)⟩

theorem Sound.never_exhausted {s : Registry} (ok : Sound limit s registrations [] finished)
    (small : limit ≤ maxServerRequestCapacity) (env : Env) (method debugIdentity : String)
    (timeout : Nat) (decoder : ResultDecoder) (now : Nat) :
    (s.register env method debugIdentity timeout decoder now).1 ≠ .error .idSpaceExhausted := by
  intro failed
  unfold Registry.register at failed
  rcases reject_if_full_cases s with ⟨admits, room⟩ | ⟨t, full, _⟩
  · rw [admits] at failed
    rcases allocate_numeric_id_cases s now with ⟨key, t, found, _⟩ | ⟨t, _, _, scanned⟩
    · rw [found] at failed
      simp only [registerLocked] at failed
      split at failed <;> cases failed
    have used : (usedIds s).length < s.capacity + maxRecentTerminals + 1 := by
      have ring := ok.ring
      rw [usedIds, length_append, length_map, length_map, TreeMap.length_toList]
      omega
    refine scan_succeeds s _ _ used ?_ scanned
    rw [ok.capacity]
    simp only [maxServerRequestCapacity, maxServerRequestId, maxRecentTerminals] at small ⊢
    omega
  · rw [full] at failed
    cases failed

namespace System

theorem receiver_dropped_same (s : Registry) (completion : Completion) :
    SameTables s (s.receiverDropped completion) := by
  refine SameTables.trans ?_ (push_anomaly_same _ _ _ _ _ _)
  exact ⟨rfl, rfl, rfl, rfl, rfl, rfl, rfl⟩

theorem deliver_same (t : System) (delivery : Delivery) :
    SameTables t.registry (t.deliver delivery).registry := by
  by_cases gone : delivery.sender ∈ t.dropped
  · simp only [deliver, if_pos gone]
    exact receiver_dropped_same _ _
  · simp only [deliver, if_neg gone]
    exact ⟨rfl, rfl, rfl, rfl, rfl, rfl, rfl⟩

theorem settle_spec (t : System) (deliveries : List Delivery) (registry : Registry) :
    SameTables registry (t.settle deliveries registry).registry ∧
      (t.settle deliveries registry).completions = deliveries.reverse ++ t.completions ∧
      (t.settle deliveries registry).registrations = t.registrations := by
  unfold settle
  induction deliveries generalizing t registry with
  | nil => exact ⟨⟨rfl, rfl, rfl, rfl, rfl, rfl, rfl⟩, rfl, rfl⟩
  | cons delivery rest ih =>
    have next := deliver_same { t with registry := registry } delivery
    obtain ⟨same, completions, registrations⟩ :=
      ih (deliver { t with registry := registry } delivery)
        (deliver { t with registry := registry } delivery).registry
    refine ⟨next.trans same, completions.trans ?_, registrations⟩
    rw [reverse_cons, append_assoc]
    rfl

def Holds (limit : Nat) (t : System) : Prop := Sound limit t.registry t.registrations [] t.completions

theorem Holds.settle {deliveries : List Delivery} {registry : Registry}
    (ok : Sound limit registry t.registrations [] (deliveries.reverse ++ t.completions)) :
    Holds limit (t.settle deliveries registry) := by
  obtain ⟨same, completions, registrations⟩ := settle_spec t deliveries registry
  rw [Holds, completions, registrations]
  exact ok.same same

theorem Holds.adopt (ok : Holds limit t) (outcome : Registered t.registry result) :
    Holds limit (t.adopt result) := by
  cases outcome with
  | refused failure registry same => exact ok.same same
  | admitted key request registry same room free numbered =>
    exact Sound.adopt ok same key request room free numbered

theorem Holds.step (ok : Holds limit t) (env : Env) (op : Op) : Holds limit (step env t op) := by
  cases op with
  | register method debugIdentity timeout decoder now =>
    exact ok.adopt (register_outcome env t.registry method debugIdentity timeout decoder now)
  | registerWithId id method debugIdentity timeout decoder now =>
    exact ok.adopt (register_with_id_outcome env t.registry id method debugIdentity timeout decoder now)
  | completeSuccess id result now | cancel id now | completeClientError id code message data now =>
    exact .settle (Sound.complete ok env id _ _ now)
  | expireDeadlines now => exact .settle (Sound.expire now _ ok)
  | shutdown now => exact .settle (Sound.drain ok .shutdown now)
  | transportLost now => exact .settle (Sound.drain ok .transportLost now)
  | dropReceiver channel => exact ok

theorem holds_start (capacity : Nat) : Holds capacity (start (withValidCapacity capacity)) where
  capacity := rfl
  distinct := nodup_nil
  bounded := Nat.zero_le _
  retained := rfl
  balanced := fun _ => rfl
  summed := fun _ => rfl
  numbered := rfl
  once := List.Perm.refl _

/-- The registry between two operations, and what the next operation answers there. -/
structure Correct (env : Env) (limit : Nat) (t : System) : Prop where
  exactlyOnce : (t.completions.map Delivery.registration ++
    t.registry.pending.toList.map registrationOf).Perm t.registrations
  separate : (t.registrations.map Registration.completion).Nodup
  drained : ∀ op now, op = .shutdown now ∨ op = .transportLost now →
    (step env t op).registry.pending = ∅ ∧ (step env t op).registrations = t.registrations ∧
      ((step env t op).completions.map Delivery.registration).Perm t.registrations
  distinct : (usedIds t.registry).Nodup
  retained : (t.registry.recentTerminals.map RecentTerminal.id).map toJsonRpcId =
    ((t.completions.map fun delivery => delivery.completion.id).take maxRecentTerminals).reverse
  fresh : ∀ method debugIdentity timeout decoder now registration,
    (t.registry.register env method debugIdentity timeout decoder now).1 = .ok registration →
      ∃ key, registration.id = key.toJsonRpcId ∧ key ∉ usedIds t.registry
  freshWithId : ∀ id method debugIdentity timeout decoder now registration,
    (t.registry.registerWithId env id method debugIdentity timeout decoder now).1 =
      .ok registration → ∃ key, registration.id = key.toJsonRpcId ∧ key ∉ usedIds t.registry
  bounded : t.registry.pending.size ≤ limit
  balanced : t.registry.counters.registered < u64Max →
    t.registry.counters.registered = t.registry.counters.completedTotal + t.registry.pending.size
  summed : t.registry.counters.completedTotal < u64Max →
    t.registry.counters.completedTotal = t.registry.counters.kindSum
  neverExhausted : ∀ method debugIdentity timeout decoder now,
    (t.registry.register env method debugIdentity timeout decoder now).1 ≠
      .error .idSpaceExhausted
  classified : ∀ id key now, fromJsonRpcId id = some key →
    t.registry.pending[key]? = none →
      (∀ result, (t.registry.completeSuccess env id result now).1 = .alreadyTerminal ↔
        key ∈ t.registry.recentTerminals.map RecentTerminal.id) ∧
      (∀ code message data,
        (t.registry.completeClientError env id code message data now).1 = .alreadyTerminal ↔
          key ∈ t.registry.recentTerminals.map RecentTerminal.id) ∧
      ((t.registry.cancel env id now).1 = .alreadyTerminal ↔
        key ∈ t.registry.recentTerminals.map RecentTerminal.id)

theorem Holds.drained (ok : Holds limit t) (outcome : TerminalOutcome) (now : Nat) :
    let after := t.settle (t.registry.drain outcome now).1 (t.registry.drain outcome now).2
    after.registry.pending = ∅ ∧ after.registrations = t.registrations ∧
      (after.completions.map Delivery.registration).Perm t.registrations := by
  obtain ⟨same, completions, registrations⟩ :=
    settle_spec t (t.registry.drain outcome now).1 (t.registry.drain outcome now).2
  have emptied := drain_pending t.registry outcome now
  have once := (Sound.drain ok outcome now).once
  have noneLeft : (∅ : TreeMap ServerRequestKey PendingRequest).toList = [] := rfl
  rw [emptied, noneLeft, append_nil, map_nil, append_nil] at once
  refine ⟨same.pending.trans emptied, registrations, ?_⟩
  rw [completions]
  exact once

theorem Holds.correct (ok : Holds limit t) (small : limit ≤ maxServerRequestCapacity) (env : Env) :
    Correct env limit t where
  exactlyOnce := ok.once
  separate := by
    rw [ok.numbered]
    exact nodup_reverse.mpr nodup_range
  drained := by
    rintro op now (rfl | rfl)
    · exact ok.drained .shutdown now
    · exact ok.drained .transportLost now
  distinct := ok.distinct
  retained := ok.retained
  fresh := fun method debugIdentity timeout decoder now registration =>
    registered_fresh (register_outcome env t.registry method debugIdentity timeout decoder now) registration
  freshWithId := fun id method debugIdentity timeout decoder now registration =>
    registered_fresh (register_with_id_outcome env t.registry id method debugIdentity timeout decoder now)
      registration
  bounded := by
    rw [← TreeMap.length_toList]
    exact ok.bounded
  balanced := by
    rw [← TreeMap.length_toList]
    exact ok.balanced
  summed := ok.summed
  neverExhausted := Sound.never_exhausted ok small env
  classified := by
    intro id key now named absent
    refine ⟨fun result => ?_, fun code message data => ?_, ?_⟩
    · exact missing_classified env t.registry id _ _ now key named absent
    · exact missing_classified env t.registry id _ _ now key named absent
    · exact missing_classified env t.registry id _ _ now key named absent

def plainEnv : Env where
  checkedAdd := fun now timeout => some (now + timeout)
  instantText := fun instant => toString instant
  idText
    | .integer value => "Integer(" ++ toString value ++ ")"
    | .string value => "String(" ++ value ++ ")"
  numberText := fun _ => "0"

/-- One request completed twice, then its id refused and a second request shut down. -/
def shortSession : List Op :=
  [.register "workspace/configuration" "test" 5 .any 0, .completeSuccess (.integer 1) .null 1,
    .completeSuccess (.integer 1) .null 2,
    .registerWithId (.integer 1) "window/showMessage" "test" 5 .any 3,
    .register "window/showMessage" "test" 5 .any 4, .shutdown 5]

end System

end PerlLsp.ClientRequests
