import Mathlib.Algebra.Ring.Int.Defs
import Mathlib.Algebra.Ring.Nat
import PerlLsp.MutationLane
import PerlLsp.UnderWay

/-! Freshness of reads in scheduler.rs. A read takes a snapshot of its document (the allocation of
its generation counter and the generation) when it is sent, or again after the mutations before it,
and the snapshot is compared with the document when the read is dispatched, before its handler and
when its response is delivered. Mutations of the document come in between. -/
namespace PerlLsp.Scheduler
open Runs UnderWay Nat Option

inductive RequestPriority where
  | hover
  | completion
  | references
  | other
deriving DecidableEq

def RequestPriority.value : RequestPriority → Nat
  | .hover => 0
  | .completion => 1
  | .references => 2
  | .other => 3

def requestPriority (method : String) : RequestPriority :=
  if method = "textDocument/hover" then .hover
  else if method ∈ ["textDocument/completion", "completionItem/resolve",
      "textDocument/inlineCompletion"] then .completion
  else if method ∈ ["textDocument/references", "textDocument/definition",
      "textDocument/declaration", "textDocument/typeDefinition",
      "textDocument/implementation"] then .references
  else .other

structure RequestDedupKey where
  method : String
  uri : String
  line : Nat
  character : Nat
deriving DecidableEq

def extractDedupKey (method : String) (params : Option RequestParams)
    (priority : RequestPriority) : Option RequestDedupKey :=
  if priority = .other then none
  else do
    let params ← params
    let uri ← params.uri
    let line ← params.line
    let character ← params.character
    some ⟨method, uri, line, character⟩

/-- An open document: where its generation counter is allocated, what it holds, and how often it was
advanced. -/
structure Document where
  allocation : Nat
  generation : Nat
  version : Int
  fullSyncRequired : Bool
  bumps : Nat
deriving DecidableEq

structure Documents where
  entries : String → Option Document
  allocated : Nat

/-- The keys of a document: `normalize_uri_key` and `uri_key_variants`. -/
structure UriKeys where
  normalize : String → String
  variants : String → List String

def firstAcceptedDocumentGeneration : Nat := 1

def generationCount : Nat := 2 ^ 32

namespace Documents

def new : Documents := ⟨fun _ => none, 0⟩

def insert (d : Documents) (key : String) (document : Document) : Documents :=
  { d with entries := fun other => if other = key then some document else d.entries other }

/-- `handle_did_open`; a guarded document is not parsed and starts at generation zero. -/
def didOpen (keys : UriKeys) (d : Documents) (uri : String) (version : Int) (guarded : Bool) :
    Documents :=
  let generation := if guarded then 0 else firstAcceptedDocumentGeneration
  { d.insert (keys.normalize uri) ⟨d.allocated, generation, version, false, 0⟩ with
    allocated := d.allocated + 1 }

end Documents

/-- What `handle_did_change` reads of a notification: its version, whether every change has a range,
whether they are admitted as full replacements. -/
structure ContentChange where
  version : Option Int
  allRanged : Bool
  admitted : Bool
  allowSameVersion : Bool

namespace Document
variable (document : Document)

def outdates (change : ContentChange) : Bool :=
  match change.version with
  | some version =>
    version < document.version || (!change.allowSameVersion && version == document.version)
  | none => false

def observeChangeVersion (incoming : Option Int) : Document :=
  match incoming with
  | some incoming =>
    if document.version < incoming then { document with version := incoming } else document
  | none => document

/-- `generation.fetch_add(1)`. -/
def advance : Document :=
  { document with
    generation := (document.generation + 1) % generationCount
    bumps := document.bumps + 1 }

def markFullSyncRequired : Document :=
  if document.fullSyncRequired then document
  else { document.advance with fullSyncRequired := true }

def i32Max : Int := 2 ^ 31 - 1

def replaceText (document : Document) (incoming : Option Int) : Document :=
  { document.advance with
    fullSyncRequired := false
    version := incoming.getD (min (document.version + 1) i32Max) }

end Document

namespace Documents

def didChange (keys : UriKeys) (d : Documents) (uri : String) (change : ContentChange) : Documents :=
  let key := keys.normalize uri
  match d.entries key with
  | none =>
    if change.allRanged then d
    else
      let document : Document := ⟨d.allocated, 0, change.version.getD 0, false, 0⟩
      if document.outdates change || !change.admitted then d
      else
        { d.insert key (document.replaceText change.version) with
          allocated := d.allocated + 1 }
  | some document =>
    if document.outdates change then d
    else if change.admitted then d.insert key (document.replaceText change.version)
    else d.insert key (document.observeChangeVersion change.version).markFullSyncRequired

/-- `evict_open_document_session_state`. -/
def didClose (keys : UriKeys) (d : Documents) (uri : String) : Documents :=
  { d with entries := fun other => if other ∈ keys.variants uri then none else d.entries other }

end Documents

structure ReadFreshness where
  uri : String
  documentGeneration : Option Nat
  documentInstance : Option Nat
deriving DecidableEq

structure QueuedRead (Id : Type) where
  request : JsonRpcRequest Id
  waitForSeq : Nat
  priority : RequestPriority
  arrivalSeq : Nat
  dedupKey : Option RequestDedupKey
  freshness : Option ReadFreshness
deriving DecidableEq

inductive StaleReason where
  | positionSuperseded
  | documentGenerationAdvanced (captured current : Nat)
  | documentInstanceChanged
deriving DecidableEq

def requestCancelled : Int := -32800

variable {Id Value : Type}

/-- `document_freshness` put into a snapshot. -/
def Documents.snapshot (keys : UriKeys) (d : Documents) (uri : String) : ReadFreshness :=
  let document := d.entries (keys.normalize uri)
  ⟨uri, document.map Document.generation, document.map Document.allocation⟩

def extractFreshness (keys : UriKeys) (d : Documents) (params : Option RequestParams)
    (priority : RequestPriority) : Option ReadFreshness :=
  if priority = .other then none
  else do
    let params ← params
    let uri ← params.uri
    some (d.snapshot keys uri)

def Documents.documentGeneration (keys : UriKeys) (d : Documents) (uri : String) : Option Nat :=
  (d.entries (keys.normalize uri)).map Document.generation

def isReadStale (freshness : ReadFreshness) (currentGeneration : Option Nat) : Option (Nat × Nat) := do
  let captured ← freshness.documentGeneration
  let current ← currentGeneration
  if current > captured then some (captured, current) else none

def refreshAfterMutationBarrier (queued : QueuedRead Id) : Bool :=
  0 < queued.waitForSeq &&
    (queued.request.method == "textDocument/completion" ||
      queued.freshness.any fun freshness => freshness.documentGeneration.isNone)

def staleReadReason (keys : UriKeys) (d : Documents) (freshness : Option ReadFreshness) :
    Option StaleReason := do
  let freshness ← freshness
  let (captured, current) ← isReadStale freshness (d.documentGeneration keys freshness.uri)
  some (.documentGenerationAdvanced captured current)

def refreshReadFreshness (keys : UriKeys) (d : Documents) (freshness : Option ReadFreshness) :
    Option ReadFreshness :=
  freshness.map fun freshness => d.snapshot keys freshness.uri

/-- Sends the response (`none`) or says why not; `null` tells the JSON value null. -/
def sendResponseIfFresh (keys : UriKeys) (null : Value → Bool) (d : Documents)
    (freshness : Option ReadFreshness) (response : JsonRpcResponse Id Value) : Option StaleReason :=
  match freshness with
  | none => none
  | some freshness =>
    match freshness.documentGeneration with
    | none =>
      match d.entries (keys.normalize freshness.uri) with
      | some _ => if response.result.any null then none else some .documentInstanceChanged
      | none => none
    | some captured =>
      match freshness.documentInstance with
      | none => some .documentInstanceChanged
      | some captureInstance =>
        match d.entries (keys.normalize freshness.uri) with
        | none => some .documentInstanceChanged
        | some document =>
          if document.allocation ≠ captureInstance then some .documentInstanceChanged
          else if document.generation ≠ captured then
            some (.documentGenerationAdvanced captured document.generation)
          else none

def StaleReason.message (method : String) : StaleReason → String
  | .positionSuperseded => "Request superseded by newer " ++ method ++ " request"
  | .documentGenerationAdvanced captured current =>
    "Request superseded: document moved from generation " ++ toString captured ++ " to " ++
      toString current ++ " while " ++ method ++ " was in flight"
  | .documentInstanceChanged =>
    "Request superseded: document was closed or replaced while " ++ method ++ " was running"

/-- The response of `send_cancellation`. -/
def cancellation (id : Option Id) (method : String) (reason : StaleReason) : JsonRpcResponse Id Value :=
  ⟨id, none, some ⟨requestCancelled, reason.message method⟩⟩

def JsonRpcResponse.isCancelled (response : JsonRpcResponse Id Value) : Bool :=
  response.error.any fun error => error.code == requestCancelled

def answerRead (keys : UriKeys) (null : Value → Bool) (d : Documents) (read : QueuedRead Id)
    (freshness : Option ReadFreshness) (outcome : HandlerOutcome Id Value) :
    Option (JsonRpcResponse Id Value) :=
  match outcome with
  | .panicked response => some response
  | .response response =>
    if response.isCancelled then some response
    else
      match sendResponseIfFresh keys null d freshness response with
      | none => some response
      | some reason => some (cancellation read.request.id read.request.method reason)
  | .empty => none

inductive DocumentState where
  | closed
  | opened (allocation generation : Nat)
deriving DecidableEq

def Documents.state (keys : UriKeys) (d : Documents) (uri : String) : DocumentState :=
  match d.entries (keys.normalize uri) with
  | none => .closed
  | some document => .opened document.allocation document.generation

def JsonRpcRequest.readUri (request : JsonRpcRequest Id) : Option String :=
  if requestPriority request.method = .other then none
  else request.params.bind RequestParams.uri

inductive ReadStage (Id Value : Type) where
  | queued
  | dispatched
  | released
  | running
  | returned (outcome : HandlerOutcome Id Value)

/-- A read with its snapshot; `seen` lists the states its document was in while the
handler ran. -/
structure ReadTask (Id Value : Type) where
  read : QueuedRead Id
  freshness : Option ReadFreshness
  stage : ReadStage Id Value
  seen : List DocumentState

/-- A response that was sent, with what its handler could see and the state of the document at that
moment. -/
structure Delivery (Id Value : Type) where
  request : JsonRpcRequest Id
  response : JsonRpcResponse Id Value
  seen : List DocumentState
  now : DocumentState

structure ReadSession (Id Value : Type) where
  documents : Documents
  tasks : List (ReadTask Id Value)
  outbox : List (JsonRpcResponse Id Value)
  delivered : List (Delivery Id Value)

open ReadSession

def Documents.observed (keys : UriKeys) (d : Documents) (request : JsonRpcRequest Id) : DocumentState :=
  match request.readUri with
  | none => .closed
  | some uri => d.state keys uri

def ReadTask.observe (keys : UriKeys) (d : Documents) (task : ReadTask Id Value) : ReadTask Id Value :=
  match task.stage with
  | .running => { task with seen := task.seen ++ [d.observed keys task.read.request] }
  | .queued => task
  | .dispatched => task
  | .released => task
  | .returned _ => task

namespace ReadSession

def new : ReadSession Id Value := ⟨.new, [], [], []⟩

def mutate (keys : UriKeys) (s : ReadSession Id Value) (documents : Documents) : ReadSession Id Value :=
  { s with documents := documents, tasks := s.tasks.map (ReadTask.observe keys documents) }

def sendRead (keys : UriKeys) (s : ReadSession Id Value) (request : JsonRpcRequest Id)
    (waitForSeq arrivalSeq : Nat) : ReadSession Id Value :=
  let priority := requestPriority request.method
  let freshness := extractFreshness keys s.documents request.params priority
  let read : QueuedRead Id :=
    { request := request
      waitForSeq := waitForSeq
      priority := priority
      arrivalSeq := arrivalSeq
      dedupKey := extractDedupKey request.method request.params priority
      freshness := freshness }
  { s with tasks := s.tasks ++ [⟨read, freshness, .queued, []⟩] }

def cancel (s : ReadSession Id Value) (place : Nat) (read : QueuedRead Id)
    (reason : StaleReason) : ReadSession Id Value :=
  { s with
    tasks := s.tasks.eraseIdx place
    outbox := s.outbox ++ [cancellation read.request.id read.request.method reason] }

def advance (s : ReadSession Id Value) (place : Nat) (task : ReadTask Id Value) :
    ReadSession Id Value :=
  { s with tasks := s.tasks.set place task }

/-- The checks of `dispatch_one` before the read gets its permit. -/
def dispatch (keys : UriKeys) (s : ReadSession Id Value) (place : Nat)
    (task : ReadTask Id Value) (superseded : Bool) : ReadSession Id Value :=
  if superseded then s.cancel place task.read .positionSuperseded
  else
    match if refreshAfterMutationBarrier task.read then none
      else staleReadReason keys s.documents task.read.freshness with
    | some reason => s.cancel place task.read reason
    | none => s.advance place { task with stage := .dispatched }

def release (keys : UriKeys) (s : ReadSession Id Value) (place : Nat)
    (task : ReadTask Id Value) : ReadSession Id Value :=
  let freshness :=
    if refreshAfterMutationBarrier task.read then
      refreshReadFreshness keys s.documents task.freshness
    else task.freshness
  s.advance place { task with freshness := freshness, stage := .released }

def start (keys : UriKeys) (s : ReadSession Id Value) (place : Nat)
    (task : ReadTask Id Value) : ReadSession Id Value :=
  match staleReadReason keys s.documents task.freshness with
  | some reason => s.cancel place task.read reason
  | none =>
    s.advance place
      { task with stage := .running, seen := [s.documents.observed keys task.read.request] }

def finish (s : ReadSession Id Value) (place : Nat) (task : ReadTask Id Value)
    (ended : HandlerEnd Id Value) : ReadSession Id Value :=
  let outcome := runHandler ended task.read.request.id task.read.request.method
  s.advance place { task with stage := .returned outcome }

def record (keys : UriKeys) (s : ReadSession Id Value) (task : ReadTask Id Value)
    (response : JsonRpcResponse Id Value) : List (Delivery Id Value) :=
  s.delivered ++
    [⟨task.read.request, response, task.seen, s.documents.observed keys task.read.request⟩]

def deliver (keys : UriKeys) (null : Value → Bool) (s : ReadSession Id Value) (place : Nat)
    (task : ReadTask Id Value) (outcome : HandlerOutcome Id Value) : ReadSession Id Value :=
  { s with
    tasks := s.tasks.eraseIdx place
    outbox := s.outbox ++
      (answerRead keys null s.documents task.read task.freshness outcome).toList
    delivered :=
      match outcome with
      | .response response =>
        if response.isCancelled then s.record keys task response
        else
          match sendResponseIfFresh keys null s.documents task.freshness response with
          | none => s.record keys task response
          | some _ => s.delivered
      | .panicked _ => s.delivered
      | .empty => s.delivered }

/-- The read at a place goes one step further: `superseded` is the answer of the
dispatcher's map, `ended` how its handler ends. -/
def stepRead (keys : UriKeys) (null : Value → Bool) (s : ReadSession Id Value) (place : Nat)
    (superseded : Bool) (ended : HandlerEnd Id Value) : ReadSession Id Value :=
  match s.tasks[place]? with
  | none => s
  | some task =>
    match task.stage with
    | .queued => s.dispatch keys place task superseded
    | .dispatched => s.release keys place task
    | .released => s.start keys place task
    | .running => s.finish place task ended
    | .returned outcome => s.deliver keys null place task outcome

end ReadSession

inductive ReadOp (Id Value : Type) where
  | didOpen (uri : String) (version : Int) (guarded : Bool)
  | didChange (uri : String) (change : ContentChange)
  | didClose (uri : String)
  | sendRead (request : JsonRpcRequest Id) (waitForSeq arrivalSeq : Nat)
  | stepRead (place : Nat) (superseded : Bool) (ended : HandlerEnd Id Value)

def ReadSession.step (keys : UriKeys) (null : Value → Bool) (s : ReadSession Id Value) :
    ReadOp Id Value → ReadSession Id Value
  | .didOpen uri version guarded => s.mutate keys (s.documents.didOpen keys uri version guarded)
  | .didChange uri change => s.mutate keys (s.documents.didChange keys uri change)
  | .didClose uri => s.mutate keys (s.documents.didClose keys uri)
  | .sendRead request waitForSeq arrivalSeq => s.sendRead keys request waitForSeq arrivalSeq
  | .stepRead place superseded ended => s.stepRead keys null place superseded ended

/-- How the entry under one key changes when documents opened by the step get allocations
from `floor` on, below `top`. -/
inductive EntryMoves (floor top : Nat) : Option Document → Option Document → Prop where
  | stays (entry : Option Document) : EntryMoves floor top entry entry
  | closes (document : Document) : EntryMoves floor top (some document) none
  | opens (entry : Option Document) (document : Document) (fresh : floor ≤ document.allocation)
      (allocated : document.allocation < top) (small : document.generation < generationCount)
      (new : document.bumps ≤ 1) : EntryMoves floor top entry (some document)
  | advances (before after : Document) (steps : Nat)
      (allocation : after.allocation = before.allocation)
      (generation : after.generation = (before.generation + steps) % generationCount)
      (bumps : after.bumps = before.bumps + steps) (few : steps ≤ 1) :
      EntryMoves floor top (some before) (some after)

structure Documents.WellFormed (d : Documents) : Prop where
  allocated : ∀ key document, d.entries key = some document → document.allocation < d.allocated
  small : ∀ key document, d.entries key = some document → document.generation < generationCount

structure Documents.Mutates (before after : Documents) : Prop where
  allocated : before.allocated ≤ after.allocated
  entry : ∀ key, EntryMoves before.allocated after.allocated (before.entries key)
    (after.entries key)

theorem new_formed : Documents.new.WellFormed where
  allocated := fun _ _ stored => absurd stored (some_ne_none _).symm
  small := fun _ _ stored => absurd stored (some_ne_none _).symm

variable {task : ReadTask Id Value} {s : ReadSession Id Value} (document : Document)
  {null : Value → Bool} (d : Documents)

theorem Documents.Mutates.same : d.Mutates d :=
  ⟨Nat.le_refl _, fun key => .stays (d.entries key)⟩

variable {before after : Documents}

theorem Documents.Mutates.well_formed (mutates : before.Mutates after) (formed : before.WellFormed) :
    after.WellFormed := by
  have grown := mutates.allocated
  constructor
  · intro key document stored
    have moves := mutates.entry key
    rw [stored] at moves
    cases entry : before.entries key with
    | none =>
      rw [entry] at moves
      cases moves with
      | opens _ _ _ allocated _ _ => exact allocated
    | some old =>
      rw [entry] at moves
      have held := formed.allocated key old entry
      cases moves with
      | stays => exact Nat.lt_of_lt_of_le held grown
      | opens _ _ _ allocated _ _ => exact allocated
      | advances _ _ steps allocation =>
        rw [allocation]
        exact Nat.lt_of_lt_of_le held grown
  · intro key document stored
    have moves := mutates.entry key
    rw [stored] at moves
    cases entry : before.entries key with
    | none =>
      rw [entry] at moves
      cases moves with
      | opens _ _ _ _ small _ => exact small
    | some old =>
      rw [entry] at moves
      cases moves with
      | stays => exact formed.small key document entry
      | opens _ _ _ _ small _ => exact small
      | advances _ _ steps _ generation =>
        rw [generation]
        exact mod_lt _ (Nat.two_pow_pos 32)

/-- A mutation advances no document more than once. -/
theorem Documents.Mutates.bumps (mutates : before.Mutates after) {bound : Nat}
    (below : ∀ key document, before.entries key = some document → document.bumps ≤ bound)
    (key : String) (document : Document) (stored : after.entries key = some document) :
    document.bumps ≤ bound + 1 := by
  have moves := mutates.entry key
  rw [stored] at moves
  generalize entry : before.entries key = old at moves
  cases moves with
  | stays => exact le_succ_of_le (below key document entry)
  | opens _ _ _ _ _ new => exact Nat.le_trans new (Nat.le_add_left 1 bound)
  | advances old _ steps _ _ bumps few =>
    rw [bumps]
    exact Nat.add_le_add (below key old entry) few

variable (key : String)

theorem insert_opens (document : Document) (here : document.allocation = d.allocated)
    (small : document.generation < generationCount) (new : document.bumps ≤ 1) :
    d.Mutates { d.insert key document with allocated := d.allocated + 1 } := by
  refine ⟨le_succ _, fun other => ?_⟩
  rw [Documents.insert]
  dsimp only
  split
  · apply EntryMoves.opens _ document (Nat.le_of_eq here.symm)
    · rw [here]
      exact Nat.lt_succ_self _
    · exact small
    · exact new
  · exact .stays _

theorem insert_advances (before after : Document) (stored : d.entries key = some before)
    (moves : EntryMoves d.allocated d.allocated (some before) (some after)) :
    d.Mutates (d.insert key after) := by
  refine ⟨Nat.le_refl _, fun other => ?_⟩
  rw [Documents.insert]
  dsimp only
  split
  next same =>
    rw [same, stored]
    exact moves
  · exact .stays _

theorem did_open_mutates (keys : UriKeys) (d : Documents) (uri : String) (version : Int)
    (guarded : Bool) : d.Mutates (d.didOpen keys uri version guarded) := by
  apply insert_opens
  · rfl
  · cases guarded with
    | true => exact Nat.two_pow_pos 32
    | false => exact Nat.one_lt_two_pow (by omega)
  · exact Nat.zero_le _

theorem did_close_mutates (keys : UriKeys) (d : Documents) (uri : String) :
    d.Mutates (d.didClose keys uri) := by
  refine ⟨Nat.le_refl _, fun key => ?_⟩
  rw [Documents.didClose]
  dsimp only
  split
  · cases d.entries key with
    | none => exact .stays none
    | some document => exact .closes document
  · exact .stays _

theorem observe_change_version_keeps (incoming : Option Int) :
    (document.observeChangeVersion incoming).allocation = document.allocation ∧
      (document.observeChangeVersion incoming).generation = document.generation ∧
      (document.observeChangeVersion incoming).bumps = document.bumps := by
  cases incoming with
  | none => exact ⟨rfl, rfl, rfl⟩
  | some incoming =>
    rw [Document.observeChangeVersion]
    split
    · exact ⟨rfl, rfl, rfl⟩
    · exact ⟨rfl, rfl, rfl⟩

theorem mark_full_sync_required_advances (small : document.generation < generationCount) :
    ∃ steps, document.markFullSyncRequired.allocation = document.allocation ∧
      document.markFullSyncRequired.generation = (document.generation + steps) % generationCount ∧
      document.markFullSyncRequired.bumps = document.bumps + steps ∧ steps ≤ 1 := by
  rw [Document.markFullSyncRequired]
  split
  · exact ⟨0, rfl, (mod_eq_of_lt small).symm, rfl, Nat.zero_le _⟩
  · exact ⟨1, rfl, rfl, rfl, Nat.le_refl _⟩

theorem did_change_mutates (keys : UriKeys) (d : Documents) (formed : d.WellFormed)
    (uri : String) (change : ContentChange) : d.Mutates (d.didChange keys uri change) := by
  rw [Documents.didChange]
  cases stored : d.entries (keys.normalize uri) with
  | none =>
    dsimp only
    split
    · exact .same d
    split
    · exact .same d
    apply insert_opens
    · rfl
    · exact mod_lt _ (Nat.two_pow_pos 32)
    · exact Nat.le_refl _
  | some document =>
    dsimp only
    split
    · exact .same d
    split
    · apply insert_advances d _ document _ stored
      exact .advances _ _ 1 rfl rfl rfl (Nat.le_refl _)
    obtain ⟨allocation, generation, bumps⟩ :=
      observe_change_version_keeps document change.version
    have small := formed.small _ _ stored
    rw [← generation] at small
    obtain ⟨steps, home, reached, counted, few⟩ :=
      mark_full_sync_required_advances _ small
    apply insert_advances d _ document _ stored
    apply EntryMoves.advances _ _ steps
    · rw [home, allocation]
    · rw [reached, generation]
    · rw [counted, bumps]
    · exact few

theorem insert_closes_none (other : String) (document : Document)
    (gone : (d.insert key document).entries other = none) : d.entries other = none := by
  rw [Documents.insert] at gone
  dsimp only at gone
  split at gone
  · cases gone
  · exact gone

theorem did_change_closes_none (keys : UriKeys) (d : Documents) (uri other : String)
    (change : ContentChange) (gone : (d.didChange keys uri change).entries other = none) :
    d.entries other = none := by
  rw [Documents.didChange] at gone
  cases stored : d.entries (keys.normalize uri) with
  | none =>
    rw [stored] at gone
    dsimp only at gone
    split at gone
    · exact gone
    · split at gone
      · exact gone
      · exact insert_closes_none d _ other _ gone
  | some document =>
    rw [stored] at gone
    dsimp only at gone
    split at gone
    · exact gone
    · split at gone
      · exact insert_closes_none d _ other _ gone
      · exact insert_closes_none d _ other _ gone

/-- How a snapshot stands to the document now and to what was seen since: an instance is gone for
good or still there, advanced by some steps; with none, nothing else was seen. A closed document
that is still closed was never seen open. -/
inductive Baseline (keys : UriKeys) (d : Documents) (seen : List DocumentState) :
    ReadFreshness → Prop where
  | closed (uri : String)
      (unopened : d.entries (keys.normalize uri) = none → ∀ state ∈ seen, state = .closed) :
      Baseline keys d seen ⟨uri, none, none⟩
  | opened (uri : String) (generation allocation : Nat) (past : allocation < d.allocated)
      (small : generation < generationCount)
      (since : ∀ document, d.entries (keys.normalize uri) = some document →
        document.allocation = allocation →
        ∃ steps ≤ document.bumps, document.generation = (generation + steps) % generationCount ∧
          (steps = 0 → ∀ state ∈ seen, state = .opened allocation generation)) :
      Baseline keys d seen ⟨uri, some generation, some allocation⟩

theorem snapshot_baseline (keys : UriKeys) (d : Documents) (formed : d.WellFormed)
    (uri : String) : Baseline keys d [] (d.snapshot keys uri) := by
  rw [Documents.snapshot]
  cases stored : d.entries (keys.normalize uri) with
  | none => exact .closed uri fun _ _ none => absurd none List.not_mem_nil
  | some document =>
    have small := formed.small _ _ stored
    apply Baseline.opened uri document.generation document.allocation
    · exact formed.allocated _ _ stored
    · exact small
    · intro now again _
      rw [stored, Option.some.injEq] at again
      subst again
      refine ⟨0, Nat.zero_le _, (mod_eq_of_lt small).symm, ?_⟩
      intro _ _ none
      exact absurd none List.not_mem_nil

variable {freshness : ReadFreshness} {seen : List DocumentState}

theorem Baseline.sees {d : Documents} (baseline : Baseline keys d seen freshness) :
    Baseline keys d (seen ++ [d.state keys freshness.uri]) freshness := by
  cases baseline with
  | closed uri unopened =>
    apply Baseline.closed
    intro gone state among
    rcases List.mem_append.mp among with before | last
    · exact unopened gone state before
    · rw [List.mem_singleton.mp last, Documents.state, gone]
  | opened uri generation allocation past small since =>
    apply Baseline.opened uri generation allocation past small
    intro document stored here
    obtain ⟨steps, within, reached, unmoved⟩ := since document stored here
    refine ⟨steps, within, reached, fun none state among => ?_⟩
    rcases List.mem_append.mp among with before | last
    · exact unmoved none state before
    rw [none, Nat.add_zero, mod_eq_of_lt small] at reached
    rw [List.mem_singleton.mp last, Documents.state, stored]
    dsimp only
    rw [here, reached]

/-- A mutation that does not close a document after it was seen open. -/
theorem Baseline.mutated (baseline : Baseline keys before seen freshness)
    (mutates : before.Mutates after) (unseen : freshness.documentGeneration = none →
      before.entries (keys.normalize freshness.uri) ≠ none →
      after.entries (keys.normalize freshness.uri) = none → ∀ state ∈ seen, state = .closed) :
    Baseline keys after seen freshness := by
  cases baseline with
  | closed uri unopened =>
    apply Baseline.closed
    intro gone
    by_cases closed : before.entries (keys.normalize uri) = none
    · exact unopened closed
    · exact unseen rfl closed gone
  | opened uri generation allocation past small since =>
    apply Baseline.opened uri generation allocation (Nat.lt_of_lt_of_le past mutates.allocated) small
    intro document stored here
    have moves := mutates.entry (keys.normalize uri)
    rw [stored] at moves
    generalize entry : before.entries (keys.normalize uri) = old at moves
    cases moves with
    | stays => exact since document entry here
    | opens _ _ fresh =>
      rw [here] at fresh
      exact absurd past (Nat.not_lt.mpr fresh)
    | advances old _ steps home generations bumps =>
      obtain ⟨taken, within, reached, unmoved⟩ := since old entry (home.symm.trans here)
      refine ⟨taken + steps, ?_, ?_, fun none => unmoved (Nat.eq_zero_of_add_eq_zero_right none)⟩
      · rw [bumps]
        exact Nat.add_le_add_right within steps
      · rw [generations, reached, mod_add_mod, Nat.add_assoc]

def ReadStage.observing : ReadStage Id Value → Bool
  | .queued => false
  | .dispatched => false
  | .released => false
  | .running => true
  | .returned _ => true

structure ReadTask.Sound (keys : UriKeys) (d : Documents) (task : ReadTask Id Value) : Prop where
  about : task.freshness.map ReadFreshness.uri = task.read.request.readUri
  unseen : task.stage.observing = false → task.seen = []
  baseline : ∀ freshness, task.freshness = some freshness →
    Baseline keys d task.seen freshness

def ReadTask.closesUnder (keys : UriKeys) (d : Documents) (uri : String)
    (task : ReadTask Id Value) : Bool :=
  task.freshness.any fun freshness =>
    freshness.documentGeneration.isNone &&
      decide (keys.normalize freshness.uri ∈ keys.variants uri) &&
      (d.entries (keys.normalize freshness.uri)).isSome

def ClosesUnseen (keys : UriKeys) (s : ReadSession Id Value) : ReadOp Id Value → Prop
  | .didClose uri => ∀ task ∈ s.tasks, task.closesUnder keys s.documents uri = true →
      ∀ state ∈ task.seen, state = .closed
  | .didOpen .. => True
  | .didChange .. => True
  | .sendRead .. => True
  | .stepRead .. => True

theorem observed_of_about (keys : UriKeys) (d : Documents) (task : ReadTask Id Value)
    (about : task.freshness.map ReadFreshness.uri = task.read.request.readUri)
    (freshness : ReadFreshness) (found : task.freshness = some freshness) :
    d.observed keys task.read.request = d.state keys freshness.uri := by
  rw [found, map_some] at about
  rw [Documents.observed, ← about]

theorem ReadTask.Sound.mutated (sound : task.Sound keys before) (mutates : before.Mutates after)
    (unseen : ∀ freshness, task.freshness = some freshness → freshness.documentGeneration = none →
      before.entries (keys.normalize freshness.uri) ≠ none →
      after.entries (keys.normalize freshness.uri) = none → ∀ state ∈ task.seen, state = .closed) :
    (task.observe keys after).Sound keys after := by
  have still (freshness : ReadFreshness) (found : task.freshness = some freshness) :
      Baseline keys after task.seen freshness :=
    (sound.baseline freshness found).mutated mutates (unseen freshness found)
  have waits : task.Sound keys after := ⟨sound.about, sound.unseen, still⟩
  rw [ReadTask.observe]
  cases stands : task.stage with
  | running =>
    constructor
    · exact sound.about
    · nofun
    · intro freshness found
      rw [observed_of_about keys after task sound.about freshness found]
      exact (still freshness found).sees
  | queued => exact waits
  | dispatched => exact waits
  | released => exact waits
  | returned outcome => exact waits

/-- What the client gets is about the document as it is. -/
def NoStale (null : Value → Bool) (s : ReadSession Id Value) : Prop :=
  ∀ delivery ∈ s.delivered, delivery.request.readUri ≠ none →
    delivery.response.result.any null = false → delivery.response.isCancelled = false →
    ∀ state ∈ delivery.seen, state = delivery.now

structure ReadSession.Sound (keys : UriKeys) (null : Value → Bool) (s : ReadSession Id Value) :
    Prop where
  formed : s.documents.WellFormed
  tasks : ∀ task ∈ s.tasks, task.Sound keys s.documents
  delivered : NoStale null s

def FewBumps (s : ReadSession Id Value) : Prop :=
  ∀ key document, s.documents.entries key = some document → document.bumps < generationCount

theorem new_sound (keys : UriKeys) (null : Value → Bool) :
    (.new : ReadSession Id Value).Sound keys null where
  formed := new_formed
  tasks := fun _ none => absurd none List.not_mem_nil
  delivered := fun _ none => absurd none List.not_mem_nil

section
variable {keys : UriKeys} (sound : s.Sound keys null)
include keys null s sound

theorem mutate_sound (documents : Documents) (mutates : s.documents.Mutates documents)
    (unseen : ∀ task ∈ s.tasks, ∀ freshness, task.freshness = some freshness →
      freshness.documentGeneration = none →
      s.documents.entries (keys.normalize freshness.uri) ≠ none →
      documents.entries (keys.normalize freshness.uri) = none →
      ∀ state ∈ task.seen, state = .closed) : (s.mutate keys documents).Sound keys null := by
  constructor
  · exact mutates.well_formed sound.formed
  · intro task among
    obtain ⟨before, held, rfl⟩ := List.mem_map.mp among
    exact (sound.tasks before held).mutated mutates (unseen before held)
  · exact sound.delivered

theorem advance_sound {place : Nat} {taken : ReadTask Id Value}
    (stands : s.tasks[place]? = some taken) (task : ReadTask Id Value)
    (next : task.Sound keys s.documents) : (s.advance place task).Sound keys null := by
  constructor
  · exact sound.formed
  · intro other among
    rcases (mem_set stands).mp among with same | kept
    · rw [same]
      exact next
    · exact sound.tasks other (List.mem_of_mem_eraseIdx kept)
  · exact sound.delivered

theorem cancel_sound (place : Nat) (read : QueuedRead Id) (reason : StaleReason) :
    (s.cancel place read reason).Sound keys null where
  formed := sound.formed
  tasks := fun task among => sound.tasks task (List.mem_of_mem_eraseIdx among)
  delivered := sound.delivered

end

theorem extract_freshness_about (keys : UriKeys) (d : Documents) (request : JsonRpcRequest Id) :
    (extractFreshness keys d request.params (requestPriority request.method)).map
      ReadFreshness.uri = request.readUri := by
  rw [extractFreshness, JsonRpcRequest.readUri]
  split
  · rfl
  cases request.params with
  | none => rfl
  | some params =>
    cases named : params.uri with
    | none => simp [named]
    | some uri => simp [named, Documents.snapshot]

theorem extract_freshness_baseline (keys : UriKeys) (d : Documents) (formed : d.WellFormed)
    (params : Option RequestParams) (priority : RequestPriority) (freshness : ReadFreshness)
    (found : extractFreshness keys d params priority = some freshness) : Baseline keys d [] freshness := by
  rw [extractFreshness] at found
  split at found
  · cases found
  cases params with
  | none => cases found
  | some params =>
    cases named : params.uri with
    | none => simp [named] at found
    | some uri =>
      simp only [bind_eq_bind, bind_some, named, Option.some.injEq] at found
      rw [← found]
      exact snapshot_baseline keys d formed uri

theorem send_read_sound (sound : s.Sound keys null) (request : JsonRpcRequest Id)
    (waitForSeq arrivalSeq : Nat) : (s.sendRead keys request waitForSeq arrivalSeq).Sound keys null := by
  constructor
  · exact sound.formed
  · intro task among
    rcases List.mem_append.mp among with held | new
    · exact sound.tasks task held
    rw [List.mem_singleton.mp new]
    constructor
    · exact extract_freshness_about keys s.documents request
    · exact fun _ => rfl
    · intro freshness found
      exact extract_freshness_baseline keys s.documents sound.formed _ _ freshness found
  · exact sound.delivered

section
variable {keys : UriKeys} (sound : s.Sound keys null) {place : Nat}
  (stands : s.tasks[place]? = some task)
include keys null s sound place task stands

theorem release_sound (dispatched : task.stage = .dispatched) :
    (s.release keys place task).Sound keys null := by
  have before := sound.tasks task (List.mem_of_getElem? stands)
  have nothing := before.unseen (by rw [dispatched]; rfl)
  apply advance_sound sound stands
  split
  · constructor
    · rw [← before.about, refreshReadFreshness, Option.map_map]
      rfl
    · exact fun _ => nothing
    · intro freshness found
      rw [refreshReadFreshness, map_eq_some_iff] at found
      obtain ⟨old, _, rfl⟩ := found
      rw [nothing]
      exact snapshot_baseline keys s.documents sound.formed old.uri
  · constructor
    · exact before.about
    · exact fun _ => nothing
    · exact before.baseline

theorem start_sound (released : task.stage = .released) : (s.start keys place task).Sound keys null := by
  have before := sound.tasks task (List.mem_of_getElem? stands)
  have nothing := before.unseen (by rw [released]; rfl)
  rw [ReadSession.start]
  split
  · exact cancel_sound sound place _ _
  apply advance_sound sound stands
  constructor
  · exact before.about
  · nofun
  · intro freshness found
    have sees := (before.baseline freshness found).sees
    rw [nothing] at sees
    rw [observed_of_about keys s.documents task before.about freshness found]
    exact sees

theorem dispatch_sound (queued : task.stage = .queued) (superseded : Bool) :
    (s.dispatch keys place task superseded).Sound keys null := by
  have before := sound.tasks task (List.mem_of_getElem? stands)
  rw [dispatch]
  split
  · exact cancel_sound sound place _ _
  split
  · exact cancel_sound sound place _ _
  apply advance_sound sound stands
  constructor
  · exact before.about
  · exact fun _ => before.unseen (by rw [queued]; rfl)
  · exact before.baseline

theorem finish_sound (ended : HandlerEnd Id Value) : (s.finish place task ended).Sound keys null := by
  have before := sound.tasks task (List.mem_of_getElem? stands)
  apply advance_sound sound stands
  constructor
  · exact before.about
  · nofun
  · exact before.baseline

end

/-- A response that passes the last check is about the document as the handler saw it. -/
theorem Baseline.sent {d : Documents} (baseline : Baseline keys d seen freshness)
    (few : ∀ key document, d.entries key = some document → document.bumps < generationCount)
    (response : JsonRpcResponse Id Value) (nonnull : response.result.any null = false)
    (sent : sendResponseIfFresh keys null d (some freshness) response = none) :
    ∀ state ∈ seen, state = d.state keys freshness.uri := by
  intro state among
  cases baseline with
  | closed uri unopened =>
    rw [Documents.state]
    cases stored : d.entries (keys.normalize uri) with
    | none => exact unopened stored state among
    | some document =>
      simp [sendResponseIfFresh, stored, nonnull] at sent
  | opened uri generation allocation past small since =>
    rw [Documents.state]
    cases stored : d.entries (keys.normalize uri) with
    | none => simp [sendResponseIfFresh, stored] at sent
    | some document =>
      simp only [sendResponseIfFresh, stored] at sent
      split at sent
      · cases sent
      next there =>
        split at sent
        · cases sent
        next again =>
          have here := not_not.mp there
          have same := not_not.mp again
          obtain ⟨steps, within, reached, unmoved⟩ := since document stored here
          have none : steps = 0 := by
            have bound : steps < generationCount :=
              Nat.lt_of_le_of_lt within (few _ _ stored)
            rw [generationCount] at *
            omega
          rw [unmoved none state among]
          dsimp only
          rw [here, same]

theorem deliver_sound (sound : s.Sound keys null) (few : FewBumps s) {place : Nat}
    (stands : s.tasks[place]? = some task) (outcome : HandlerOutcome Id Value) :
    (s.deliver keys null place task outcome).Sound keys null := by
  have before := sound.tasks task (List.mem_of_getElem? stands)
  -- The new entry is cancelled or has passed the last check.
  have recorded (response : JsonRpcResponse Id Value) (passed : response.isCancelled = true ∨
        sendResponseIfFresh keys null s.documents task.freshness response = none) :
      ∀ delivery ∈ s.record keys task response, delivery.request.readUri ≠ none →
        delivery.response.result.any null = false → delivery.response.isCancelled = false →
        ∀ state ∈ delivery.seen, state = delivery.now := by
    intro delivery among positioned nonnull live
    rcases List.mem_append.mp among with held | new
    · exact sound.delivered delivery held positioned nonnull live
    rw [List.mem_singleton.mp new] at positioned nonnull live ⊢
    have sent := passed.resolve_left (by rw [live]; exact Bool.false_ne_true)
    cases found : task.freshness with
    | none =>
      have about := before.about
      rw [found] at about
      exact absurd about.symm positioned
    | some freshness =>
      rw [found] at sent
      rw [observed_of_about keys s.documents task before.about freshness found]
      exact (before.baseline freshness found).sent few response nonnull sent
  constructor
  · exact sound.formed
  · exact fun other among => sound.tasks other (List.mem_of_mem_eraseIdx among)
  · cases outcome with
    | panicked response | empty => exact sound.delivered
    | response response =>
      rw [deliver]
      split
      next cancelled => exact recorded response (.inl cancelled)
      · split
        next sent => exact recorded response (.inr sent)
        · exact sound.delivered

theorem step_sound (keys : UriKeys) (null : Value → Bool) (s : ReadSession Id Value)
    (op : ReadOp Id Value) (sound : s.Sound keys null)
    (meets : FewBumps s ∧ ClosesUnseen keys s op) : (s.step keys null op).Sound keys null := by
  obtain ⟨few, unseen⟩ := meets
  cases op with
  | didOpen uri version guarded =>
    apply mutate_sound sound
    · exact did_open_mutates keys s.documents uri version guarded
    · intro task _ freshness _ _ stored gone
      exact absurd (insert_closes_none s.documents _ _ _ gone) stored
  | didChange uri change =>
    apply mutate_sound sound
    · exact did_change_mutates keys s.documents sound.formed uri change
    · intro task _ freshness _ _ stored gone
      exact absurd (did_change_closes_none keys s.documents uri _ change gone) stored
  | didClose uri =>
    apply mutate_sound sound
    · exact did_close_mutates keys s.documents uri
    · intro task among freshness found closed stored gone
      apply unseen task among
      have named : keys.normalize freshness.uri ∈ keys.variants uri := by
        by_contra other
        rw [Documents.didClose] at gone
        dsimp only at gone
        rw [if_neg other] at gone
        exact stored gone
      rw [ReadTask.closesUnder, found, any_some, closed, decide_eq_true named,
        Option.isSome_iff_ne_none.mpr stored]
      rfl
  | sendRead request waitForSeq arrivalSeq =>
    exact send_read_sound sound request waitForSeq arrivalSeq
  | stepRead place superseded ended =>
    rw [step, stepRead]
    split
    · exact sound
    next task stands =>
      split
      next queued => exact dispatch_sound sound stands queued superseded
      next dispatched => exact release_sound sound stands dispatched
      next released => exact start_sound sound stands released
      next running => exact finish_sound sound stands ended
      next outcome returned => exact deliver_sound sound few stands outcome

/-- However reads and mutations interleave: as long as no document is closed after a read that had
found it closed saw it open, every answer is about the document as it is. -/
theorem reads_delivered_fresh (keys : UriKeys) (null : Value → Bool)
    (ops : List (ReadOp Id Value))
    (few : Along (step keys null) FewBumps .new ops)
    (unseen : StepsMeet (step keys null) (ClosesUnseen keys) .new ops) :
    Along (step keys null) (NoStale null) (.new : ReadSession Id Value) ops := by
  have meets := steps_meet_with (step keys null) FewBumps (ClosesUnseen keys) .new ops
    few unseen
  have along := along_of_steps (step keys null) (ReadSession.Sound keys null)
    (fun s op => FewBumps s ∧ ClosesUnseen keys s op) (step_sound keys null) .new ops
    (new_sound keys null) meets
  exact along_mono (step keys null) (fun _ sound => sound.delivered) .new ops along

theorem step_mutates (keys : UriKeys) (null : Value → Bool) (s : ReadSession Id Value)
    (op : ReadOp Id Value) (formed : s.documents.WellFormed) :
    s.documents.Mutates (s.step keys null op).documents := by
  cases op with
  | didOpen uri version guarded => exact did_open_mutates keys s.documents uri version guarded
  | didChange uri change => exact did_change_mutates keys s.documents formed uri change
  | didClose uri => exact did_close_mutates keys s.documents uri
  | sendRead request waitForSeq arrivalSeq => exact .same s.documents
  | stepRead place superseded ended =>
    have same : (s.stepRead keys null place superseded ended).documents = s.documents := by
      rw [stepRead]
      split
      · rfl
      next task _ =>
        split
        · rw [dispatch]
          split
          · rfl
          · split
            · rfl
            · rfl
        · rfl
        · rw [ReadSession.start]
          split
          · rfl
          · rfl
        · rfl
        · rfl
    rw [step, same]
    exact .same s.documents

theorem few_of_short (keys : UriKeys) (null : Value → Bool) (s : ReadSession Id Value)
    (ops : List (ReadOp Id Value)) (bound : Nat) (formed : s.documents.WellFormed)
    (below : ∀ key document, s.documents.entries key = some document → document.bumps ≤ bound)
    (short : bound + ops.length < generationCount) : Along (step keys null) FewBumps s ops := by
  have now : FewBumps s := fun key document stored =>
    Nat.lt_of_le_of_lt (below key document stored) (Nat.lt_of_le_of_lt (Nat.le_add_right _ _) short)
  induction ops generalizing s bound with
  | nil => exact now
  | cons op rest ih =>
    have mutates := step_mutates keys null s op formed
    have next := mutates.bumps below
    refine ⟨now, ih _ (bound + 1) (mutates.well_formed formed) next ?_ ?_⟩
    · rw [List.length_cons] at short
      omega
    · intro key document stored
      have within := next key document stored
      rw [List.length_cons] at short
      omega

def plainKeys : UriKeys := ⟨id, fun uri => [uri]⟩

def hover : JsonRpcRequest Nat :=
  ⟨some 1, "textDocument/hover", some ⟨some "file:///a.pl", some 0, some 0⟩⟩

def hoverReply : HandlerEnd Nat Nat := .returned (some ⟨some 1, some 7, none⟩)

def readSteps (count : Nat) : List (ReadOp Nat Nat) :=
  List.replicate count (.stepRead 0 false hoverReply)

def freshRun : List (ReadOp Nat Nat) :=
  [.sendRead hover 0 0, .didOpen "file:///a.pl" 1 false, .didClose "file:///a.pl",
    .didOpen "file:///a.pl" 1 false] ++ readSteps 5 ++
  [.sendRead hover 2 1] ++ readSteps 5 ++
  [.sendRead hover 2 2] ++ readSteps 4 ++
  [.didChange "file:///a.pl" ⟨some 2, false, true, false⟩, .stepRead 0 false hoverReply]

instance decidableClosesUnseen (keys : UriKeys) (s : ReadSession Id Value) :
    (op : ReadOp Id Value) → Decidable (ClosesUnseen keys s op)
  | .didClose uri => inferInstanceAs (Decidable (∀ task ∈ s.tasks,
      task.closesUnder keys s.documents uri = true → ∀ state ∈ task.seen, state = .closed))
  | .didOpen .. => inferInstanceAs (Decidable True)
  | .didChange .. => inferInstanceAs (Decidable True)
  | .sendRead .. => inferInstanceAs (Decidable True)
  | .stepRead .. => inferInstanceAs (Decidable True)

theorem reads_delivered_fresh_hover :
    Along (step plainKeys fun _ => false) (NoStale fun _ => false) .new freshRun ∧
      (run (step plainKeys fun _ => false) .new freshRun).outbox.map
        JsonRpcResponse.result = [none, some 7, none] :=
  ⟨reads_delivered_fresh plainKeys (fun _ => false) freshRun
    (few_of_short plainKeys (fun _ => false) .new freshRun 0 new_formed
      (fun _ _ stored => absurd stored (some_ne_none _).symm) (by decide))
    (by decide +kernel), by decide +kernel⟩

/-- The document is opened and closed again while a handler of a read runs that found it closed. -/
def staleRun : List (ReadOp Nat Nat) :=
  [.sendRead hover 0 0] ++ readSteps 3 ++
  [.didOpen "file:///a.pl" 1 false, .stepRead 0 false hoverReply, .didClose "file:///a.pl",
    .stepRead 0 false hoverReply]

theorem closed_again_delivered :
    ¬ ∀ (keys : UriKeys) (null : Nat → Bool) (ops : List (ReadOp Nat Nat)),
      Along (step keys null) FewBumps .new ops →
        Along (step keys null) (NoStale null) .new ops := by
  intro every
  have few := few_of_short plainKeys (fun _ : Nat => false) .new staleRun 0 new_formed
    (fun _ _ stored => absurd stored (some_ne_none _).symm) (by decide)
  have along := (along_iff_prefixes _ _ _ staleRun).mp (every plainKeys (fun _ => false) staleRun few)
    staleRun [] (List.append_nil _).symm
  have sent : (run (step plainKeys fun _ => false) .new staleRun).delivered =
      [⟨hover, ⟨some 1, some 7, none⟩, [.closed, .opened 0 1], .closed⟩] := by
    rfl
  have same := along _ (by rw [sent]; exact List.mem_singleton_self _) (by decide) rfl rfl
    (.opened 0 1) (List.mem_cons_of_mem _ (List.mem_singleton_self _))
  cases same

end PerlLsp.Scheduler
