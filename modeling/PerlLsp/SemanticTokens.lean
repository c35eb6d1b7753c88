import PerlLsp.Runs
import PerlLsp.Splice
import Mathlib.Data.List.TakeWhile

/-! Semantic tokens of runtime/language/semantic_tokens.rs: the full, delta and range requests for
one document, the cache entry that the next delta request is compared with, and the client that
keeps what it received last. Handler runs interleave at their locks: the snapshot of the document,
the look at the cache and the store. A document carries the tokens its AST yields. -/
namespace PerlLsp.SemanticTokens
open Runs List

/-- Flat encoded tokens, five numbers each. -/
abbrev Data := List UInt32

structure SemanticTokensEdit where
  start : Nat
  deleteCount : Nat
  data : Data
  deriving DecidableEq

def commonPrefix (old new : Data) : Nat :=
  ((range (min old.length new.length)).takeWhile fun position =>
    old[position]? == new[position]?).length

def commonSuffix (old new : Data) (shared : Nat) : Nat :=
  ((range (min old.length new.length - shared)).takeWhile fun offset =>
    old[old.length - 1 - offset]? == new[new.length - 1 - offset]?).length

def computeSemanticTokensDeltaEdits (old new : Data) : List SemanticTokensEdit :=
  let shared := commonPrefix old new
  let trailing := commonSuffix old new shared
  let deleteCount := old.length - shared - trailing
  let data := (new.drop shared).take (new.length - trailing - shared)
  if deleteCount = 0 ∧ data = [] then [] else [⟨shared, deleteCount, data⟩]

def SemanticTokensEdit.patch (edit : SemanticTokensEdit) : Splice.Patch UInt32 :=
  ⟨edit.start, edit.start + edit.deleteCount, edit.data⟩

def applyEdits (edits : List SemanticTokensEdit) (data : Data) : Data :=
  edits.foldr (fun edit => edit.patch.apply) data

variable (agree : Nat → Bool)

theorem scanned_agrees (bound position : Nat)
    (within : position < ((range bound).takeWhile agree).length) : agree position = true := by
  have leading := takeWhile_prefix (l := range bound) agree
  have here : ((range bound).takeWhile agree)[position] = position := by
    rw [leading.getElem within, getElem_range]
  have among := getElem_mem within
  rw [here] at among
  exact mem_takeWhile_imp among

theorem scanned_le (bound : Nat) : ((range bound).takeWhile agree).length ≤ bound := by
  have shorter := ( takeWhile_prefix (l := range bound) agree).length_le
  rwa [length_range] at shorter

section
variable (old new : Data)
include old new

theorem common_prefix_le : commonPrefix old new ≤ min old.length new.length :=
  scanned_le _ _

theorem common_suffix_le :
    commonPrefix old new + commonSuffix old new (commonPrefix old new) ≤ min old.length new.length := by
  have shared := common_prefix_le old new
  have trailing : commonSuffix old new (commonPrefix old new) ≤
      min old.length new.length - commonPrefix old new := scanned_le _ _
  omega

theorem take_common_prefix : old.take (commonPrefix old new) = new.take (commonPrefix old new) := by
  apply ext_getElem?
  intro position
  rw [getElem?_take, getElem?_take]
  split
  · next within => exact eq_of_beq (scanned_agrees _ _ position within)
  · rfl

theorem drop_common_suffix : old.drop (old.length - commonSuffix old new (commonPrefix old new)) =
      new.drop (new.length - commonSuffix old new (commonPrefix old new)) := by
  have fits := common_suffix_le old new
  generalize trailed : commonSuffix old new (commonPrefix old new) = trailing at fits ⊢
  apply ext_getElem?
  intro position
  rw [getElem?_drop, getElem?_drop]
  by_cases within : position < trailing
  · have agrees := scanned_agrees (fun offset =>
        old[old.length - 1 - offset]? == new[new.length - 1 - offset]?)
      (min old.length new.length - commonPrefix old new) (trailing - 1 - position)
      (by change _ < commonSuffix old new (commonPrefix old new); omega)
    have inOld : old.length - 1 - (trailing - 1 - position) = old.length - trailing + position := by
      omega
    have inNew : new.length - 1 - (trailing - 1 - position) = new.length - trailing + position := by
      omega
    rw [inOld, inNew] at agrees
    exact eq_of_beq agrees
  · rw [getElem?_eq_none (by omega), getElem?_eq_none (by omega)]

/-- The window between the common parts, put in place of the old one. -/
theorem replaced_window (shared trailing : Nat)
    (starts : commonPrefix old new = shared) (ends : commonSuffix old new shared = trailing) :
    old.take shared ++ (new.drop shared).take (new.length - trailing - shared) ++
      old.drop (shared + (old.length - shared - trailing)) = new := by
  subst starts
  have fits := common_suffix_le old new
  rw [ends] at fits
  have stop : commonPrefix old new + (old.length - commonPrefix old new - trailing) =
      old.length - trailing := by omega
  rw [stop, take_common_prefix, ← ends, drop_common_suffix, ends, Splice.take_through new (by omega),
    take_append_drop]

theorem apply_delta_edits : applyEdits (computeSemanticTokensDeltaEdits old new) old = new := by
  have replaced := replaced_window old new _ _ rfl rfl
  simp only [computeSemanticTokensDeltaEdits]
  split
  · next same =>
      rw [same.1, same.2, append_nil, Nat.add_zero, take_append_drop] at replaced
      exact replaced
  · exact replaced

end

structure EncodedToken where
  deltaLine : UInt32
  deltaStart : UInt32
  length : UInt32
  tokenType : UInt32
  modifiers : UInt32
  deriving DecidableEq

structure Token where
  line : UInt32
  start : UInt32
  length : UInt32
  tokenType : UInt32
  modifiers : UInt32
  deriving DecidableEq

structure Range where
  startLine : UInt32
  startChar : UInt32
  endLine : UInt32
  endChar : UInt32

def saturatingAdd (left right : UInt32) : UInt32 :=
  if left.toNat + right.toNat < 2 ^ 32 then left + right else 0xFFFFFFFF

def saturatingSub (left right : UInt32) : UInt32 :=
  if right ≤ left then left - right else 0

def Range.holds (range : Range) (line start : UInt32) : Bool :=
  let startsAfterRangeStart :=
    decide (range.startLine < line) || (line == range.startLine && decide (range.startChar ≤ start))
  let startsBeforeRangeEnd :=
    decide (line < range.endLine) || (line == range.endLine && decide (start < range.endChar))
  startsAfterRangeStart && startsBeforeRangeEnd

def absoluteTokens (range : Range) : UInt32 → UInt32 → List EncodedToken → List Token
  | _, _, [] => []
  | line, start, token :: rest =>
    let (line, start) :=
      if token.deltaLine = 0 then (line, saturatingAdd start token.deltaStart)
      else (saturatingAdd line token.deltaLine, token.deltaStart)
    if range.holds line start then
      ⟨line, start, token.length, token.tokenType, token.modifiers⟩ ::
        absoluteTokens range line start rest
    else absoluteTokens range line start rest

def encodeTokens : UInt32 → UInt32 → List Token → List EncodedToken
  | _, _, [] => []
  | previousLine, previousStart, token :: rest =>
    let deltaLine := saturatingSub token.line previousLine
    let deltaStart :=
      if deltaLine = 0 then saturatingSub token.start previousStart else token.start
    ⟨deltaLine, deltaStart, token.length, token.tokenType, token.modifiers⟩ ::
      encodeTokens token.line token.start rest

def EncodedToken.fields (token : EncodedToken) : Data :=
  [token.deltaLine, token.deltaStart, token.length, token.tokenType, token.modifiers]

def flatten (tokens : List EncodedToken) : Data := tokens.flatMap EncodedToken.fields

def filterEncodedSemanticTokensByRange (tokens : List EncodedToken) (range : Range) : Data :=
  flatten (encodeTokens 0 0 (absoluteTokens range 0 0 tokens))

/-- How a client reads a flat array: five numbers a token, each position relative to the
one before it. -/
def groups : Data → List EncodedToken
  | deltaLine :: deltaStart :: length :: tokenType :: modifiers :: rest =>
    ⟨deltaLine, deltaStart, length, tokenType, modifiers⟩ :: groups rest
  | _ => []

def decodeFrom : UInt32 → UInt32 → List EncodedToken → List Token
  | _, _, [] => []
  | line, start, token :: rest =>
    let nextLine := line + token.deltaLine
    let nextStart := if token.deltaLine = 0 then start + token.deltaStart else token.deltaStart
    ⟨nextLine, nextStart, token.length, token.tokenType, token.modifiers⟩ ::
      decodeFrom nextLine nextStart rest

def decode (data : Data) : List Token := decodeFrom 0 0 (groups data)

/-- The second position does not lie before the first. -/
def Reaches (line start nextLine nextStart : UInt32) : Prop :=
  line < nextLine ∨ line = nextLine ∧ start ≤ nextStart

instance (line start nextLine nextStart : UInt32) : Decidable (Reaches line start nextLine nextStart) :=
  inferInstanceAs (Decidable (_ ∨ _))

def Increasing (tokens : List Token) : Prop :=
  tokens.Pairwise fun left right => Reaches left.line left.start right.line right.start

instance (tokens : List Token) : Decidable (Increasing tokens) :=
  inferInstanceAs (Decidable (List.Pairwise _ _))

variable (range : Range) (tokens : List EncodedToken)

theorem groups_flatten : groups (flatten tokens) = tokens := by
  induction tokens with
  | nil => rfl
  | cons token rest ih => exact congrArg (token :: ·) ih

theorem add_reached {left right : UInt32} (reached : left ≤ left + right) :
    saturatingAdd left right = left + right := by
  have sum := UInt32.toNat_add left right
  have added := right.toNat_lt
  rw [UInt32.le_iff_toNat_le] at reached
  rw [saturatingAdd, if_pos (by omega)]

theorem line_reached {line start nextStart delta : UInt32} (moved : delta ≠ 0)
    (reached : Reaches line start (line + delta) nextStart) : line ≤ line + delta := by
  rcases reached with below | ⟨same, -⟩
  · exact UInt32.le_of_lt below
  · exact absurd (by grind) moved

/-- Where the decoded positions never fall back, no addition saturates. -/
theorem absolute_tokens_decoded (line start : UInt32)
    (reached : ∀ token ∈ decodeFrom line start tokens, Reaches line start token.line token.start)
    (increasing : Increasing (decodeFrom line start tokens)) : absoluteTokens range line start tokens =
      (decodeFrom line start tokens).filter fun token => range.holds token.line token.start := by
  induction tokens generalizing line start with
  | nil => rfl
  | cons token rest ih =>
    obtain ⟨first, others⟩ := pairwise_cons.mp increasing
    have tail := ih _ _ first others
    have here := reached _ mem_cons_self
    have moves : (if token.deltaLine = 0 then (line, saturatingAdd start token.deltaStart)
        else (saturatingAdd line token.deltaLine, token.deltaStart)) =
        (line + token.deltaLine,
          if token.deltaLine = 0 then start + token.deltaStart else token.deltaStart) := by
      by_cases stays : token.deltaLine = 0
      · simp only [stays, if_true, UInt32.add_zero, Prod.mk.injEq, true_and] at here ⊢
        rcases here with below | ⟨-, below⟩
        · exact absurd below (UInt32.lt_irrefl line)
        · exact add_reached below
      · simp only [stays, if_false, Prod.mk.injEq, and_true] at here ⊢
        exact add_reached (line_reached stays here)
    simp only [absoluteTokens, decodeFrom, moves, filter_cons, tail]

theorem decode_encode_tokens (tokens : List Token) (line start : UInt32)
    (reached : ∀ token ∈ tokens, Reaches line start token.line token.start)
    (increasing : Increasing tokens) : decodeFrom line start (encodeTokens line start tokens) = tokens := by
  induction tokens generalizing line start with
  | nil => rfl
  | cons token rest ih =>
    obtain ⟨first, others⟩ := pairwise_cons.mp increasing
    have tail := ih _ _ first others
    have ordered : line ≤ token.line := by
      rcases reached token mem_cons_self with below | ⟨same, -⟩
      · exact UInt32.le_of_lt below
      · exact same ▸ UInt32.le_refl line
    have lines : line + saturatingSub token.line line = token.line := by
      rw [saturatingSub]
      grind
    have starts : (if saturatingSub token.line line = 0 then
        start + (if saturatingSub token.line line = 0 then saturatingSub token.start start
          else token.start)
        else (if saturatingSub token.line line = 0 then saturatingSub token.start start
          else token.start)) = token.start := by
      by_cases stays : saturatingSub token.line line = 0
      · have same : line = token.line := by rw [stays] at lines; grind
        rcases reached token mem_cons_self with below | ⟨-, below⟩
        · rw [same] at below
          exact absurd below (UInt32.lt_irrefl token.line)
        · rw [if_pos stays, if_pos stays, saturatingSub]
          grind
      · rw [if_neg stays, if_neg stays]
    simp only [encodeTokens, decodeFrom, lines, starts, tail]

theorem range_tokens (range : Range) (increasing : Increasing (decode (flatten tokens))) :
    decode (filterEncodedSemanticTokensByRange tokens range) =
      (decode (flatten tokens)).filter fun token => range.holds token.line token.start := by
  have anyReached : ∀ token : Token, Reaches 0 0 token.line token.start := by
    intro token
    by_cases first : token.line = 0
    · exact Or.inr ⟨first.symm, UInt32.zero_le⟩
    · exact Or.inl (UInt32.pos_iff_ne_zero.mpr first)
  rw [decode, groups_flatten] at increasing
  rw [filterEncodedSemanticTokensByRange, decode, decode, groups_flatten, groups_flatten,
    absolute_tokens_decoded range tokens 0 0 (fun token _ => anyReached token) increasing]
  exact decode_encode_tokens _ 0 0 (fun token _ => anyReached token) (increasing.filter _)

structure SemanticTokensCacheEntry where
  resultId : String
  data : Data

/-- `tokens` is what the collector makes of the current AST, if there is one. -/
structure Document where
  tokens : Option Data

structure JsonRpcError where
  code : Int
  message : String

inductive Reply where
  | refused (error : JsonRpcError)
  | full (resultId : Option String) (data : Data)
  | delta (resultId : String) (edits : List SemanticTokensEdit)

inductive Request where
  | full
  | delta (previousResultId : Option String)

/-- How far a request's handler has come. `current` is the token array it has computed. -/
inductive Stage where
  | received
  | collected (current : Data)
  | compared (current : Data) (previous : Option Data)
  | replied (current : Data) (reply : Reply)

structure Handling where
  request : Request
  stage : Stage

structure Kept where
  resultId : Option String
  data : Data

structure State where
  advertised : Bool
  document : Option Document
  cache : Option SemanticTokensCacheEntry
  handlings : List Handling
  kept : Kept

inductive Op where
  | change (document : Option Document)
  | evict
  | requestFull
  | requestDelta
  | snapshot (index : Nat)
  | compare (index : Nat)
  | store (index : Nat)
  | receive (index : Nat)
  | abandon (index : Nat)

def methodNotAdvertised : JsonRpcError :=
  ⟨-32601, "Method not advertised in server capabilities"⟩

def semanticTokensDocumentNotOpen (uri : String) : JsonRpcError :=
  ⟨-32600, "Document not open: " ++ uri ++ ". " ++
    "textDocument/semanticTokens/full requires the editor to send " ++
    "textDocument/didOpen before requesting tokens; " ++
    "resend after the document is open and synchronized."⟩

def takeSnapshot (uri : String) (advertised : Bool) (document : Option Document)
    (request : Request) : Stage :=
  if advertised then
    match document with
    | none => .replied [] (.refused (semanticTokensDocumentNotOpen uri))
    | some ⟨some data⟩ => .collected data
    | some ⟨none⟩ =>
      match request with
      | .full => .replied [] (.full none [])
      | .delta _ => .collected []
  else .replied [] (.refused methodNotAdvertised)

def usablePrevious (cache : Option SemanticTokensCacheEntry) (previousResultId : Option String) :
    Option Data :=
  previousResultId.bind fun named =>
    (cache.filter fun entry => entry.resultId == named).map SemanticTokensCacheEntry.data

def deltaReply (semanticTokensResultId : Data → String) (previous : Option Data)
    (current : Data) : Reply :=
  match previous with
  | some before =>
    .delta (semanticTokensResultId current) (computeSemanticTokensDeltaEdits before current)
  | none => .full (some (semanticTokensResultId current)) current

/-- What the client keeps after a reply. Edits are for the result that the request named; a client
that keeps another one by now cannot use them. -/
def Kept.take (kept : Kept) (request : Request) (reply : Reply) : Option Kept :=
  match reply with
  | .refused _ => none
  | .full resultId data => some ⟨resultId, data⟩
  | .delta resultId edits =>
    match request with
    | .full => none
    | .delta named =>
      if named = kept.resultId then some ⟨some resultId, applyEdits edits kept.data⟩ else none

section System
variable (semanticTokensResultId : Data → String) (uri : String)

def State.storeResult (state : State) (index : Nat) (request : Request) (current : Data)
    (reply : Reply) : State :=
  { state with
    cache := some ⟨semanticTokensResultId current, current⟩
    handlings := state.handlings.set index ⟨request, .replied current reply⟩ }

def step (state : State) : Op → State
  | .change document => { state with document := document }
  | .evict => { state with cache := none }
  | .requestFull => { state with handlings := state.handlings ++ [⟨.full, .received⟩] }
  | .requestDelta =>
    { state with
      handlings := state.handlings ++ [⟨.delta state.kept.resultId, .received⟩] }
  | .snapshot index =>
    match state.handlings[index]? with
    | some ⟨request, .received⟩ =>
      { state with
        handlings := state.handlings.set index
          ⟨request, takeSnapshot uri state.advertised state.document request⟩ }
    | _ => state
  | .compare index =>
    match state.handlings[index]? with
    | some ⟨.delta named, .collected current⟩ =>
      { state with
        handlings := state.handlings.set index
          ⟨.delta named, .compared current (usablePrevious state.cache named)⟩ }
    | _ => state
  | .store index =>
    match state.handlings[index]? with
    | some ⟨.full, .collected current⟩ =>
      state.storeResult semanticTokensResultId index .full current
        (.full (some (semanticTokensResultId current)) current)
    | some ⟨.delta named, .compared current previous⟩ =>
      state.storeResult semanticTokensResultId index (.delta named) current
        (deltaReply semanticTokensResultId previous current)
    | _ => state
  | .receive index =>
    match state.handlings[index]? with
    | some ⟨request, .replied _ reply⟩ =>
      match state.kept.take request reply with
      | some kept =>
        { state with
          handlings := state.handlings.eraseIdx index
          kept := kept }
      | none => { state with handlings := state.handlings.eraseIdx index }
    | _ => state
  | .abandon index => { state with handlings := state.handlings.eraseIdx index }

def start (advertised : Bool) : State := ⟨advertised, none, none, [], ⟨none, []⟩⟩

def Brings (request : Request) (current : Data) : Reply → Prop
  | .refused _ => True
  | .full resultId data =>
    data = current ∧ ∀ id ∈ resultId, id = semanticTokensResultId current
  | .delta resultId edits =>
    resultId = semanticTokensResultId current ∧
      ∃ before, request = .delta (some (semanticTokensResultId before)) ∧
        applyEdits edits before = current

def Handling.Sound (handling : Handling) : Prop :=
  match handling.stage with
  | .received => True
  | .collected _ => True
  | .compared _ previous =>
    ∀ before ∈ previous, handling.request = .delta (some (semanticTokensResultId before))
  | .replied current reply => Brings semanticTokensResultId handling.request current reply

structure Sound (state : State) : Prop where
  cached : ∀ entry ∈ state.cache, entry.resultId = semanticTokensResultId entry.data
  named : ∀ id ∈ state.kept.resultId, id = semanticTokensResultId state.kept.data
  handlings : ∀ handling ∈ state.handlings, handling.Sound semanticTokensResultId

variable {semanticTokensResultId} {uri}

theorem usable_previous_named {cache : Option SemanticTokensCacheEntry} {named : Option String}
    (cached : ∀ entry ∈ cache, entry.resultId = semanticTokensResultId entry.data)
    {before : Data} (usable : before ∈ usablePrevious cache named) :
    named = some (semanticTokensResultId before) := by
  obtain ⟨id, names, found⟩ := Option.bind_eq_some_iff.mp usable
  obtain ⟨entry, kept, rfl⟩ := Option.map_eq_some_iff.mp found
  obtain ⟨held, same⟩ := Option.filter_eq_some_iff.mp kept
  rw [names, ← cached entry held, eq_of_beq same]

theorem take_snapshot_sound (advertised : Bool) (document : Option Document) (request : Request) :
    Handling.Sound semanticTokensResultId ⟨request, takeSnapshot uri advertised document request⟩ := by
  simp only [takeSnapshot]
  split
  · split
    · trivial
    · trivial
    · cases request with
      | full => exact ⟨rfl, by simp⟩
      | delta named => trivial
  · trivial

variable {request : Request}

theorem delta_reply_brings {previous : Option Data} (current : Data)
    (compared : ∀ before ∈ previous, request = .delta (some (semanticTokensResultId before))) :
    Brings semanticTokensResultId request current (deltaReply semanticTokensResultId previous current) := by
  cases previous with
  | none => exact ⟨rfl, fun id among => (Option.some.inj among).symm⟩
  | some before => exact ⟨rfl, before, compared before rfl, apply_delta_edits before current⟩

theorem take_brought (distinct : Function.Injective semanticTokensResultId) {kept next : Kept}
    {current : Data} {reply : Reply} (named : ∀ id ∈ kept.resultId, id = semanticTokensResultId kept.data)
    (brings : Brings semanticTokensResultId request current reply)
    (taken : kept.take request reply = some next) :
    next.data = current ∧ ∀ id ∈ next.resultId, id = semanticTokensResultId current := by
  cases reply with
  | refused error => cases taken
  | full resultId data =>
    obtain rfl := Option.some.inj taken
    exact brings
  | delta resultId edits =>
    obtain ⟨same, before, rfl, applied⟩ := brings
    obtain ⟨names, whole⟩ := Option.ite_none_right_eq_some.mp taken
    obtain rfl := Option.some.inj whole
    have based : before = kept.data := distinct (named _ names.symm)
    constructor
    · rw [← applied, based]
    · intro id among
      rw [← Option.some.inj among, same]

section
variable {state : State} (sound : Sound semanticTokensResultId state)
include state sound

theorem store_result_sound (index : Nat) {request : Request} {current : Data} {reply : Reply}
    (brings : Brings semanticTokensResultId request current reply) : Sound semanticTokensResultId
      (state.storeResult semanticTokensResultId index request current reply) := by
  constructor
  · intro entry stored
    obtain rfl := Option.some.inj stored
    rfl
  · exact sound.named
  · intro handling among
    rcases mem_or_eq_of_mem_set among with old | rfl
    · exact sound.handlings handling old
    · exact brings

theorem set_sound (index : Nat) {handling : Handling} (fresh : handling.Sound semanticTokensResultId) :
    Sound semanticTokensResultId { state with handlings := state.handlings.set index handling } := by
  refine { sound with handlings := ?_ }
  intro other among
  rcases mem_or_eq_of_mem_set among with old | rfl
  · exact sound.handlings other old
  · exact fresh

theorem append_sound (request : Request) : Sound semanticTokensResultId
      { state with handlings := state.handlings ++ [⟨request, .received⟩] } := by
  refine { sound with handlings := ?_ }
  intro handling among
  rcases mem_append.mp among with old | new
  · exact sound.handlings handling old
  · rw [mem_singleton.mp new]
    trivial

theorem erase_sound (index : Nat) :
    Sound semanticTokensResultId { state with handlings := state.handlings.eraseIdx index } :=
  { sound with
    handlings := fun handling among => sound.handlings handling (mem_of_mem_eraseIdx among) }

end

theorem step_sound (distinct : Function.Injective semanticTokensResultId) (state : State) (op : Op)
    (sound : Sound semanticTokensResultId state) :
    Sound semanticTokensResultId (step semanticTokensResultId uri state op) := by
  cases op with
  | change document => exact { sound with }
  | evict => exact { sound with cached := fun entry none => by cases none }
  | requestFull => exact append_sound sound .full
  | requestDelta => exact append_sound sound (.delta state.kept.resultId)
  | snapshot index =>
    simp only [step]
    split
    · exact set_sound sound index (take_snapshot_sound state.advertised state.document _)
    · exact sound
  | compare index =>
    simp only [step]
    split
    · refine set_sound sound index fun before usable => ?_
      exact congrArg Request.delta (usable_previous_named sound.cached usable)
    · exact sound
  | store index =>
    simp only [step]
    split
    · exact store_result_sound sound index ⟨rfl, fun id among => (Option.some.inj among).symm⟩
    · next named current previous found =>
        have compared := sound.handlings _ (mem_of_getElem? found)
        exact store_result_sound sound index (delta_reply_brings current compared)
    · exact sound
  | receive index =>
    simp only [step]
    split
    · next request current reply found =>
        have brings := sound.handlings _ (mem_of_getElem? found)
        have erased := erase_sound sound index
        split
        · next kept taken =>
            obtain ⟨data, id⟩ := take_brought distinct sound.named brings taken
            exact { erased with named := data.symm ▸ id }
        · exact erased
    · exact sound
  | abandon index => exact erase_sound sound index

/-- A reply other than a refusal is of use to a client that asked with its own resultId. -/
theorem take_own {kept : Kept} {current : Data} {reply : Reply}
    (brings : Brings semanticTokensResultId request current reply)
    (own : request = .full ∨ request = .delta kept.resultId)
    (answered : ∀ error, reply ≠ .refused error) : ∃ next, kept.take request reply = some next := by
  cases reply with
  | refused error => exact absurd rfl (answered error)
  | full resultId data => exact ⟨_, rfl⟩
  | delta resultId edits =>
    obtain ⟨-, before, rfl, -⟩ := brings
    rcases own with other | own
    · cases other
    · exact ⟨_, if_pos (Request.delta.inj own)⟩

theorem start_sound (advertised : Bool) : Sound semanticTokensResultId (start advertised) := by
  constructor
  · intro entry none
    cases none
  · intro id none
    cases none
  · intro handling among
    cases among

theorem receive_own (distinct : Function.Injective semanticTokensResultId) {state : State}
    (sound : Sound semanticTokensResultId state) {index : Nat} {current : Data} {reply : Reply}
    (found : state.handlings[index]? = some ⟨request, .replied current reply⟩)
    (own : request = .full ∨ request = .delta state.kept.resultId)
    (answered : ∀ error, reply ≠ .refused error) :
    (step semanticTokensResultId uri state (.receive index)).kept.data = current := by
  have brings := sound.handlings _ (mem_of_getElem? found)
  obtain ⟨next, taken⟩ := take_own brings own answered
  simp only [step, found, taken]
  exact (take_brought distinct sound.named brings taken).1

end System

/-- However the handlers interleave, a client that asked with the resultId it keeps holds the
computed array once it has the reply; and a range reply decodes to the full array's tokens that
start in the range. -/
theorem full_delta_range_agree (semanticTokensResultId : Data → String)
    (distinct : Function.Injective semanticTokensResultId) (uri : String) (advertised : Bool) :
    (∀ (ops : List Op) (index : Nat) (request : Request) (current : Data) (reply : Reply),
      let state := run (step semanticTokensResultId uri) (start advertised) ops
      state.handlings[index]? = some ⟨request, .replied current reply⟩ →
      (request = .full ∨ request = .delta state.kept.resultId) →
      (∀ error, reply ≠ .refused error) →
      (step semanticTokensResultId uri state (.receive index)).kept.data = current) ∧
    ∀ (tokens : List EncodedToken) (range : Range), Increasing (decode (flatten tokens)) →
      decode (filterEncodedSemanticTokensByRange tokens range) =
        (decode (flatten tokens)).filter fun token => range.holds token.line token.start := by
  constructor
  · intro ops index request current reply state found own answered
    have sound := run_invariant (step semanticTokensResultId uri) _ (step_sound distinct) _ ops
      (start_sound advertised)
    exact receive_own distinct sound found own answered
  · exact range_tokens

/-- A stand-in for the hash: the numbers in unary, each closed by a comma. -/
def unaryId (data : Data) : String :=
  String.ofList (data.flatMap fun number => replicate number.toNat '1' ++ [','])

theorem replicate_then (left right : Nat) (before after : List Char)
    (same : replicate left '1' ++ ',' :: before = replicate right '1' ++ ',' :: after) :
    left = right ∧ before = after := by
  induction left generalizing right with
  | zero =>
    cases right with
    | zero => exact ⟨rfl, (cons.inj same).2⟩
    | succ right => exact absurd (cons.inj same).1 (by decide)
  | succ left ih =>
    cases right with
    | zero => exact absurd (cons.inj same).1 (by decide)
    | succ right =>
      obtain ⟨counts, rest⟩ := ih right (cons.inj same).2
      exact ⟨congrArg Nat.succ counts, rest⟩

theorem unary_id_injective : Function.Injective unaryId := by
  intro left right same
  have texts := String.ofList_injective same
  clear same
  induction left generalizing right with
  | nil =>
    cases right with
    | nil => rfl
    | cons number rest => simp at texts
  | cons number rest ih =>
    cases right with
    | nil => simp at texts
    | cons other others =>
      simp only [flatMap_cons, append_assoc] at texts
      obtain ⟨counts, remaining⟩ := replicate_then _ _ _ _ texts
      rw [UInt32.toNat_inj.mp counts, ih remaining]

/-- Three tokens on two lines; the delta after an edit that only lengthens the second. -/
theorem full_delta_range_agree_edited :
    (run (step unaryId "file:///a.pl") (start true)
      [.change (some ⟨some [0, 0, 2, 1, 0, 0, 3, 2, 4, 1, 1, 0, 5, 1, 0]⟩), .requestFull,
        .snapshot 0, .store 0, .receive 0,
        .change (some ⟨some [0, 0, 2, 1, 0, 0, 3, 3, 4, 1, 1, 0, 5, 1, 0]⟩), .requestDelta,
        .snapshot 0, .compare 0, .requestFull, .snapshot 1, .store 1, .store 0,
        .receive 0]).kept.data = [0, 0, 2, 1, 0, 0, 3, 3, 4, 1, 1, 0, 5, 1, 0] ∧
    decode (filterEncodedSemanticTokensByRange
        [⟨0, 0, 2, 1, 0⟩, ⟨0, 3, 2, 4, 1⟩, ⟨1, 0, 5, 1, 0⟩] ⟨0, 1, 1, 4⟩) =
      [⟨0, 3, 2, 4, 1⟩, ⟨1, 0, 5, 1, 0⟩] := by
  have agree := full_delta_range_agree unaryId unary_id_injective "file:///a.pl" true
  constructor
  · exact agree.1
      [.change (some ⟨some [0, 0, 2, 1, 0, 0, 3, 2, 4, 1, 1, 0, 5, 1, 0]⟩), .requestFull,
        .snapshot 0, .store 0, .receive 0,
        .change (some ⟨some [0, 0, 2, 1, 0, 0, 3, 3, 4, 1, 1, 0, 5, 1, 0]⟩), .requestDelta,
        .snapshot 0, .compare 0, .requestFull, .snapshot 1, .store 1, .store 0]
      0 _ _ _ (by rfl) (by right; rfl) (by intro error same; cases same)
  · rw [agree.2 _ _ (by decide)]
    decide

end PerlLsp.SemanticTokens
