import PerlLsp.PositionConvert
import PerlLsp.Runs

/-! `DocumentState` of state/document.rs: the text of one open document, the wrapping generation
counter that names its edits, and the parse result published for it. Every operation is one step
under the documents lock. The parser is outside the model: a snapshot carries the text it was parsed
from, a tree and errors. Of ropey only the division of a text into lines is unknown; it is a
parameter. -/
namespace PerlLsp.Document
open Utf8 PositionConvert

inductive DegradationTier where
  | full
  | partialParse
  | minimal
  deriving DecidableEq

def DegradationTier.fromParseResult {Ast ParseError : Type} (blocksCleanParse : ParseError → Bool)
    (ast : Option Ast) (parseErrors : List ParseError) : DegradationTier :=
  match ast with
  | some _ => if parseErrors.all fun error => !blocksCleanParse error then .full else .partialParse
  | none => .minimal

structure ParsedSnapshot (Ast ParseError : Type) where
  generation : UInt32
  source : List Char
  ast : Option Ast
  parseErrors : List ParseError
  degradationTier : DegradationTier
  deriving DecidableEq

def ParsedSnapshot.fromParseResult {Ast ParseError : Type} (blocksCleanParse : ParseError → Bool)
    (generation : UInt32) (source : List Char) (ast : Option Ast)
    (parseErrors : List ParseError) : ParsedSnapshot Ast ParseError where
  generation := generation
  source := source
  ast := ast
  parseErrors := parseErrors
  degradationTier := .fromParseResult blocksCleanParse ast parseErrors

structure DocumentState (Ast ParseError : Type) where
  rope : Rope
  text : List Char
  textArc : List Char
  version : Int32
  parsed : Option (ParsedSnapshot Ast ParseError)
  lineStarts : LineStartsCache
  generation : UInt32
  fullSyncRequired : Bool

variable {Ast ParseError : Type}

/-- `Rope::from_str`; how ropey cuts a text into chunks is not observable below, so one chunk stands
for it. -/
def ropeFromStr (text : List Char) : Rope := ⟨[text]⟩

@[simp] theorem rope_from_str_text (text : List Char) : (ropeFromStr text).text = text := by
  simp [ropeFromStr, Rope.text]

namespace DocumentState

def new (content : List Char) (version : Int32) : DocumentState Ast ParseError where
  rope := ropeFromStr content
  text := content
  textArc := content
  version := version
  parsed := none
  lineStarts := .new content
  generation := 0
  fullSyncRequired := false

def fromParts (rope : Rope) (text : List Char) (version : Int32) (generation : UInt32) :
    DocumentState Ast ParseError where
  rope := rope
  text := text
  textArc := text
  version := version
  parsed := none
  lineStarts := .newRope rope
  generation := generation
  fullSyncRequired := false

def textStr (doc : DocumentState Ast ParseError) : List Char := doc.textArc

def currentGeneration (doc : DocumentState Ast ParseError) : UInt32 := doc.generation

-- `generation.fetch_add(1, SeqCst)`, which wraps
def bumpGeneration (doc : DocumentState Ast ParseError) : DocumentState Ast ParseError :=
  { doc with generation := doc.generation + 1 }

def markFullSyncRequired (doc : DocumentState Ast ParseError) : DocumentState Ast ParseError :=
  if doc.fullSyncRequired then doc
  else { doc with fullSyncRequired := true }.bumpGeneration

def observeChangeVersion (doc : DocumentState Ast ParseError) (incoming : Int32) :
    DocumentState Ast ParseError :=
  if doc.version < incoming then { doc with version := incoming } else doc

def clearFullSyncRequired (doc : DocumentState Ast ParseError) : DocumentState Ast ParseError :=
  { doc with fullSyncRequired := false }

def updateContent (doc : DocumentState Ast ParseError) (content : List Char) (version : Int32) :
    DocumentState Ast ParseError :=
  { doc with
    rope := ropeFromStr content
    textArc := content
    text := content
    version := version
    lineStarts := .new content }.bumpGeneration

def replaceTextState (doc : DocumentState Ast ParseError) (rope : Rope) (text : List Char)
    (version : Int32) : DocumentState Ast ParseError :=
  { doc with
    lineStarts := .newRope rope
    rope := rope
    textArc := text
    text := text
    version := version }

def latestParsed (doc : DocumentState Ast ParseError) : Option (ParsedSnapshot Ast ParseError) :=
  doc.parsed

def currentParsed (doc : DocumentState Ast ParseError) : Option (ParsedSnapshot Ast ParseError) :=
  if doc.fullSyncRequired then none
  else do
    let snapshot ← doc.parsed
    if snapshot.generation = doc.currentGeneration then some snapshot else none

def publishParsedIfCurrent (doc : DocumentState Ast ParseError) (expectedGeneration : UInt32)
    (snapshot : ParsedSnapshot Ast ParseError) : DocumentState Ast ParseError × Bool :=
  if doc.fullSyncRequired ∨ doc.currentGeneration ≠ expectedGeneration ∨
      snapshot.generation ≠ expectedGeneration then (doc, false)
  else ({ doc with parsed := some snapshot }, true)

section ApplyChange
variable (ropeLines : List Char → List (List Char))

-- The loop over the characters of a line: the number passed before the offset
-- in code units reaches the requested column.
def charsBeforeColumn (character : Nat) : Nat → List Char → Nat
  | _, [] => 0
  | utf16Offset, scalar :: rest =>
    if character ≤ utf16Offset then 0
    else charsBeforeColumn character (utf16Offset + lenUtf16 scalar) rest + 1

def lspPositionToCharIdx (rope : Rope) (line character : Nat) : Nat :=
  let lines := ropeLines rope.text
  match lines[line]? with
  | none => rope.text.length
  | some lineText =>
    let lineStart := (lines.take line).flatten.length
    lineStart + min (charsBeforeColumn character 0 lineText) lineText.length

def ropeRemove (rope : Rope) (start stop : Nat) : Rope :=
  ropeFromStr (rope.text.take start ++ rope.text.drop stop)

def ropeInsert (rope : Rope) (index : Nat) (newText : List Char) : Rope :=
  ropeFromStr (rope.text.take index ++ newText ++ rope.text.drop index)

def changedRope (rope : Rope) (startLine startChar endLine endChar : Nat)
    (newText : List Char) : Rope :=
  let startIdx := lspPositionToCharIdx ropeLines rope startLine startChar
  let endIdx := lspPositionToCharIdx ropeLines rope endLine endChar
  let rope :=
    if startIdx < endIdx ∧ endIdx ≤ rope.text.length then ropeRemove rope startIdx endIdx else rope
  if newText ≠ [] ∧ startIdx ≤ rope.text.length then ropeInsert rope startIdx newText else rope

def applyChange (doc : DocumentState Ast ParseError) (startLine startChar endLine endChar : Nat)
    (newText : List Char) (version : Int32) : DocumentState Ast ParseError :=
  let rope := changedRope ropeLines doc.rope startLine startChar endLine endChar newText
  { doc with
    rope := rope
    textArc := rope.text
    text := rope.text
    version := version
    lineStarts := .new rope.text }.bumpGeneration

end ApplyChange

structure Synced (doc : DocumentState Ast ParseError) : Prop where
  rope : doc.rope.text = doc.text
  arc : doc.textArc = doc.text
  starts : doc.lineStarts = .new doc.text

theorem new_rope_starts (rope : Rope) : LineStartsCache.newRope rope = .new rope.text := by
  unfold LineStartsCache.newRope LineStartsCache.new
  rw [rope_starts]

theorem new_synced (content : List Char) (version : Int32) :
    (new content version : DocumentState Ast ParseError).Synced :=
  ⟨rope_from_str_text content, rfl, rfl⟩

theorem from_parts_synced (text : List Char) (version : Int32) (generation : UInt32) :
    (fromParts (ropeFromStr text) text version generation : DocumentState Ast ParseError).Synced :=
  ⟨rope_from_str_text text, rfl, (new_rope_starts _).trans (by rw [rope_from_str_text]; rfl)⟩

theorem replace_text_state_synced (doc : DocumentState Ast ParseError) (text : List Char)
    (version : Int32) : (doc.replaceTextState (ropeFromStr text) text version).Synced :=
  ⟨rope_from_str_text text, rfl, (new_rope_starts _).trans (by rw [rope_from_str_text]; rfl)⟩

theorem update_content_synced (doc : DocumentState Ast ParseError) (content : List Char)
    (version : Int32) : (doc.updateContent content version).Synced :=
  ⟨rope_from_str_text content, rfl, rfl⟩

theorem apply_change_synced (ropeLines : List Char → List (List Char))
    (doc : DocumentState Ast ParseError) (startLine startChar endLine endChar : Nat)
    (newText : List Char) (version : Int32) :
    (doc.applyChange ropeLines startLine startChar endLine endChar newText version).Synced :=
  ⟨rfl, rfl, rfl⟩

structure SameText (before after : DocumentState Ast ParseError) : Prop where
  text : after.text = before.text
  arc : after.textArc = before.textArc
  rope : after.rope = before.rope
  starts : after.lineStarts = before.lineStarts

theorem SameText.refl (doc : DocumentState Ast ParseError) : SameText doc doc :=
  ⟨rfl, rfl, rfl, rfl⟩

theorem SameText.trans {first second third : DocumentState Ast ParseError}
    (one : SameText first second) (two : SameText second third) : SameText first third :=
  ⟨two.text.trans one.text, two.arc.trans one.arc, two.rope.trans one.rope, two.starts.trans one.starts⟩

theorem SameText.synced {before after : DocumentState Ast ParseError}
    (same : SameText before after) (synced : before.Synced) : after.Synced := by
  constructor
  · rw [same.rope, same.text, synced.rope]
  · rw [same.arc, same.text, synced.arc]
  · rw [same.starts, same.text, synced.starts]

section
variable (doc : DocumentState Ast ParseError)
include doc

theorem mark_cases : (doc.fullSyncRequired = true ∧ doc.markFullSyncRequired = doc) ∨
    (doc.fullSyncRequired = false ∧
      doc.markFullSyncRequired = { doc with fullSyncRequired := true }.bumpGeneration) := by
  cases flag : doc.fullSyncRequired with
  | true => exact .inl ⟨rfl, by simp [markFullSyncRequired, flag]⟩
  | false => exact .inr ⟨rfl, by simp [markFullSyncRequired, flag]⟩

theorem observe_cases (incoming : Int32) : doc.observeChangeVersion incoming = doc ∨
      doc.observeChangeVersion incoming = { doc with version := incoming } := by
  unfold observeChangeVersion
  split
  · exact .inr rfl
  · exact .inl rfl

theorem mark_same_text : SameText doc doc.markFullSyncRequired := by
  obtain ⟨-, result⟩ | ⟨-, result⟩ := doc.mark_cases
  · rw [result]
    exact .refl doc
  · rw [result]
    exact ⟨rfl, rfl, rfl, rfl⟩

theorem mark_version : doc.markFullSyncRequired.version = doc.version := by
  obtain ⟨-, result⟩ | ⟨-, result⟩ := doc.mark_cases
  · rw [result]
  · rw [result]
    rfl

theorem mark_required : doc.markFullSyncRequired.fullSyncRequired = true := by
  obtain ⟨flag, result⟩ | ⟨-, result⟩ := doc.mark_cases
  · rw [result, flag]
  · rw [result]
    rfl

theorem observe_same_text (incoming : Int32) : SameText doc (doc.observeChangeVersion incoming) := by
  obtain result | result := doc.observe_cases incoming
  · rw [result]
    exact .refl doc
  · rw [result]
    exact ⟨rfl, rfl, rfl, rfl⟩

theorem observe_version_le (incoming : Int32) :
    doc.version ≤ (doc.observeChangeVersion incoming).version := by
  unfold observeChangeVersion
  split
  · next raised => exact Int32.le_of_lt raised
  · exact Int32.le_refl _

theorem publish_cases (expected : UInt32) (snapshot : ParsedSnapshot Ast ParseError) :
    (doc.publishParsedIfCurrent expected snapshot = (doc, false)) ∨
    (doc.fullSyncRequired = false ∧ doc.generation = expected ∧ snapshot.generation = expected ∧
      doc.publishParsedIfCurrent expected snapshot = ({ doc with parsed := some snapshot }, true)) := by
  unfold publishParsedIfCurrent
  split
  · exact .inl rfl
  · next open_ =>
      simp only [not_or, ne_eq, not_not, Bool.not_eq_true] at open_
      exact .inr ⟨open_.1, open_.2.1, open_.2.2, rfl⟩

end

theorem current_parsed_some {doc : DocumentState Ast ParseError}
    {snapshot : ParsedSnapshot Ast ParseError} (current : doc.currentParsed = some snapshot) :
    doc.fullSyncRequired = false ∧ doc.parsed = some snapshot ∧ snapshot.generation = doc.generation := by
  unfold currentParsed at current
  cases flag : doc.fullSyncRequired with
  | true => simp [flag] at current
  | false =>
    cases stored : doc.parsed with
    | none => simp [flag, stored] at current
    | some published =>
      by_cases same : published.generation = doc.generation
      · have held : published = snapshot := by
          simpa [flag, stored, currentGeneration, same] using current
        exact ⟨rfl, congrArg some held, held ▸ same⟩
      · simp [flag, stored, currentGeneration, same] at current

end DocumentState

section Sessions

/-- What can happen to an open document. An accepted edit is the bump and then the text replacement;
a guarded one rebuilds the state around the same counter. A recovery is `clear` followed by an
accepted edit, and nothing forces the two to be adjacent. -/
inductive Op (Ast ParseError : Type) where
  | accept (text : List Char) (version : Int32)
  | acceptUnparsed (text : List Char) (version : Int32)
  | updateContent (content : List Char) (version : Int32)
  | applyChange (startLine startChar endLine endChar : Nat) (newText : List Char) (version : Int32)
  | violate
  | observe (incoming : Int32)
  | clear
  | publish (expectedGeneration : UInt32) (snapshot : ParsedSnapshot Ast ParseError)

/-- The document with how often its counter was bumped and which text each generation had. -/
structure Session (Ast ParseError : Type) where
  doc : DocumentState Ast ParseError
  bumps : Nat
  seen : List (UInt32 × List Char)

variable (ropeLines : List Char → List (List Char))

def applyOp (doc : DocumentState Ast ParseError) : Op Ast ParseError → DocumentState Ast ParseError
  | .accept text version => doc.bumpGeneration.replaceTextState (ropeFromStr text) text version
  | .acceptUnparsed text version =>
    .fromParts (ropeFromStr text) text version doc.bumpGeneration.generation
  | .updateContent content version => doc.updateContent content version
  | .applyChange startLine startChar endLine endChar newText version =>
    doc.applyChange ropeLines startLine startChar endLine endChar newText version
  | .violate => doc.markFullSyncRequired
  | .observe incoming => doc.observeChangeVersion incoming
  | .clear => doc.clearFullSyncRequired
  | .publish expectedGeneration snapshot =>
    (doc.publishParsedIfCurrent expectedGeneration snapshot).1

/-- How many times the operation executes `fetch_add` on the counter. -/
def bumpsOf (doc : DocumentState Ast ParseError) : Op Ast ParseError → Nat
  | .accept .. | .acceptUnparsed .. | .updateContent .. | .applyChange .. => 1
  | .violate => if doc.fullSyncRequired then 0 else 1
  | .observe .. | .clear | .publish .. => 0

def step (session : Session Ast ParseError) (op : Op Ast ParseError) : Session Ast ParseError :=
  let doc := applyOp ropeLines session.doc op
  { doc := doc
    bumps := session.bumps + bumpsOf session.doc op
    seen := (doc.generation, doc.text) :: session.seen }

def opened (content : List Char) (version : Int32) : Session Ast ParseError :=
  ⟨.new content version, 0, [(0, content)]⟩

/-- A worker publishes for generation `g` only what it parsed from that generation's text, whenever
and however often. -/
def Allowed (session : Session Ast ParseError) : Op Ast ParseError → Prop
  | .publish expectedGeneration snapshot => (expectedGeneration, snapshot.source) ∈ session.seen
  | _ => True

def Fresh (doc : DocumentState Ast ParseError) : Prop :=
  ∀ snapshot, doc.currentParsed = some snapshot →
    snapshot.source = doc.text ∧ snapshot.source = doc.textStr ∧ snapshot.source = doc.rope.text ∧
      snapshot.generation = doc.currentGeneration ∧ doc.fullSyncRequired = false

/-- One operation moves the counter once and drops or keeps the snapshot, or leaves all as it is, or
stores a snapshot of the current generation. -/
inductive Effect (before after : DocumentState Ast ParseError) (op : Op Ast ParseError) : Prop where
  | moved (generation : after.generation = before.generation + 1) (bumped : bumpsOf before op = 1)
      (stored : ∀ snapshot, after.parsed = some snapshot → before.parsed = some snapshot)
  | same (generation : after.generation = before.generation) (bumped : bumpsOf before op = 0)
      (text : after.text = before.text) (stored : after.parsed = before.parsed)
  | published (snapshot : ParsedSnapshot Ast ParseError)
      (what : op = .publish before.generation snapshot)
      (tagged : snapshot.generation = before.generation)
      (result : after = { before with parsed := some snapshot })

theorem apply_op_effect (doc : DocumentState Ast ParseError) (op : Op Ast ParseError) :
    Effect doc (applyOp ropeLines doc op) op := by
  cases op with
  | accept text version | updateContent content version
  | applyChange startLine startChar endLine endChar newText version =>
    exact .moved rfl rfl (fun _ stored => stored)
  | acceptUnparsed text version => exact .moved rfl rfl (fun _ stored => nomatch stored)
  | violate =>
    change Effect doc doc.markFullSyncRequired .violate
    obtain ⟨flag, result⟩ | ⟨flag, result⟩ := doc.mark_cases
    · rw [result]
      exact .same rfl (by simp [bumpsOf, flag]) rfl rfl
    · rw [result]
      exact .moved rfl (by simp [bumpsOf, flag]) (fun _ stored => stored)
  | observe incoming =>
    change Effect doc (doc.observeChangeVersion incoming) (.observe incoming)
    obtain result | result := doc.observe_cases incoming
    · rw [result]
      exact .same rfl rfl rfl rfl
    · rw [result]
      exact .same rfl rfl rfl rfl
  | clear => exact .same rfl rfl rfl rfl
  | publish expected snapshot =>
    change Effect doc (doc.publishParsedIfCurrent expected snapshot).1 (.publish expected snapshot)
    obtain result | ⟨-, current, tagged, result⟩ := doc.publish_cases expected snapshot
    · rw [result]
      exact .same rfl rfl rfl rfl
    · rw [result]
      exact .published snapshot (by rw [current]) (tagged.trans current.symm) rfl

theorem apply_op_synced (doc : DocumentState Ast ParseError) (op : Op Ast ParseError)
    (synced : doc.Synced) : (applyOp ropeLines doc op).Synced := by
  cases op with
  | accept text version => exact DocumentState.replace_text_state_synced _ text version
  | acceptUnparsed text version => exact DocumentState.from_parts_synced text version _
  | updateContent content version => exact doc.update_content_synced content version
  | applyChange startLine startChar endLine endChar newText version =>
    exact DocumentState.apply_change_synced ropeLines doc startLine startChar endLine endChar newText version
  | violate => exact doc.mark_same_text.synced synced
  | observe incoming => exact (doc.observe_same_text incoming).synced synced
  | clear =>
    have same : DocumentState.SameText doc doc.clearFullSyncRequired := ⟨rfl, rfl, rfl, rfl⟩
    exact same.synced synced
  | publish expected snapshot =>
    change (doc.publishParsedIfCurrent expected snapshot).1.Synced
    obtain result | ⟨-, -, -, result⟩ := doc.publish_cases expected snapshot
    · rw [result]
      exact synced
    have same : DocumentState.SameText doc { doc with parsed := some snapshot } :=
      ⟨rfl, rfl, rfl, rfl⟩
    rw [result]
    exact same.synced synced

/-- Below the wrap the counter is the number of bumps and never returns to an earlier value, the
text recorded for the present value is the present text, and the stored snapshot was parsed from a
recorded text. -/
structure Consistent (session : Session Ast ParseError) : Prop where
  synced : session.doc.Synced
  counted : session.doc.generation.toNat = session.bumps
  past : ∀ entry ∈ session.seen, entry.1.toNat ≤ session.bumps
  present : ∀ entry ∈ session.seen, entry.1 = session.doc.generation → entry.2 = session.doc.text
  stored : ∀ snapshot, session.doc.parsed = some snapshot →
    (snapshot.generation, snapshot.source) ∈ session.seen

theorem opened_consistent (content : List Char) (version : Int32) :
    Consistent (opened content version : Session Ast ParseError) where
  synced := DocumentState.new_synced content version
  counted := rfl
  past := by
    intro entry member
    obtain rfl := List.mem_singleton.mp member
    exact Nat.le_refl 0
  present := by
    intro entry member _
    obtain rfl := List.mem_singleton.mp member
    rfl
  stored := by
    intro snapshot stored
    cases stored

theorem generation_succ (generation : UInt32) (room : generation.toNat + 1 < 2 ^ 32) :
    (generation + 1).toNat = generation.toNat + 1 := by
  rw [UInt32.toNat_add, UInt32.toNat_one, Nat.mod_eq_of_lt room]

section
variable (session : Session Ast ParseError) (doc : DocumentState Ast ParseError)
    (consistent : Consistent session) (synced : doc.Synced)
include session doc consistent synced

/-- Recording the present again changes nothing as long as the counter and the
text stay, whatever was stored came from a recorded text. -/
theorem unmoved_consistent
    (generation : doc.generation = session.doc.generation) (text : doc.text = session.doc.text)
    (stored : ∀ snapshot, doc.parsed = some snapshot →
      (snapshot.generation, snapshot.source) ∈ session.seen) :
    Consistent ⟨doc, session.bumps, (doc.generation, doc.text) :: session.seen⟩ where
  synced := synced
  counted := (congrArg UInt32.toNat generation).trans consistent.counted
  past := by
    intro entry member
    rcases List.mem_cons.mp member with rfl | member
    · exact Nat.le_of_eq ((congrArg UInt32.toNat generation).trans consistent.counted)
    · exact consistent.past entry member
  present := by
    intro entry member same
    rcases List.mem_cons.mp member with rfl | member
    · rfl
    · exact (consistent.present entry member (same.trans generation)).trans text.symm
  stored := fun snapshot held => List.mem_cons_of_mem _ (stored snapshot held)

/-- A bump below the wrap reaches a generation that no recorded entry has. -/
theorem moved_consistent (generation : doc.generation = session.doc.generation + 1)
    (room : session.bumps + 1 < 2 ^ 32)
    (stored : ∀ snapshot, doc.parsed = some snapshot → session.doc.parsed = some snapshot) :
    Consistent ⟨doc, session.bumps + 1, (doc.generation, doc.text) :: session.seen⟩ := by
  have counted : doc.generation.toNat = session.bumps + 1 := by
    rw [generation, generation_succ _ (by rw [consistent.counted]; exact room), consistent.counted]
  refine ⟨synced, counted, ?_, ?_, ?_⟩
  · intro entry member
    rcases List.mem_cons.mp member with rfl | member
    · exact Nat.le_of_eq counted
    · exact Nat.le_succ_of_le (consistent.past entry member)
  · intro entry member same
    rcases List.mem_cons.mp member with rfl | member
    · rfl
    have early := consistent.past entry member
    have reached : entry.1.toNat = session.bumps + 1 :=
      (congrArg UInt32.toNat same).trans counted
    omega
  · intro snapshot held
    exact List.mem_cons_of_mem _ (consistent.stored snapshot (stored snapshot held))

end

theorem step_consistent (session : Session Ast ParseError) (op : Op Ast ParseError)
    (consistent : Consistent session) (allowed : Allowed session op)
    (room : (step ropeLines session op).bumps < 2 ^ 32) : Consistent (step ropeLines session op) := by
  have synced := apply_op_synced ropeLines session.doc op consistent.synced
  unfold step at room ⊢
  cases apply_op_effect ropeLines session.doc op with
  | moved generation bumped stored =>
    simp only [bumped] at room ⊢
    exact moved_consistent session _ consistent synced generation room stored
  | same generation bumped text stored =>
    simp only [bumped]
    refine unmoved_consistent session _ consistent synced generation text ?_
    intro snapshot held
    exact consistent.stored snapshot (stored ▸ held)
  | published snapshot what tagged result =>
    subst what
    have generation := congrArg DocumentState.generation result
    have text := congrArg DocumentState.text result
    refine unmoved_consistent session _ consistent synced generation text ?_
    intro held isHeld
    have parsed := congrArg DocumentState.parsed result
    obtain rfl : snapshot = held := Option.some.inj (parsed.symm.trans isHeld)
    rw [tagged]
    exact allowed

theorem consistent_fresh (session : Session Ast ParseError) (consistent : Consistent session) :
    Fresh session.doc := by
  intro snapshot current
  obtain ⟨flag, stored, generation⟩ := DocumentState.current_parsed_some current
  have recorded := consistent.stored snapshot stored
  have source := consistent.present _ recorded generation
  exact ⟨source, source.trans consistent.synced.arc.symm, source.trans consistent.synced.rope.symm,
    generation, flag⟩

theorem freshness_of_published_parses (content : List Char) (version : Int32)
    (ops : List (Op Ast ParseError))
    (allowed : Runs.StepsMeet (step ropeLines) Allowed (opened content version) ops)
    (fewBumps : (Runs.run (step ropeLines) (opened content version) ops).bumps < 2 ^ 32) :
    Runs.Along (step ropeLines) (fun session => Fresh session.doc) (opened content version) ops := by
  have meet := Runs.steps_meet_below (step ropeLines) Session.bumps
    (fun session op => Nat.le_add_right session.bumps (bumpsOf session.doc op)) (2 ^ 32) Allowed
    (opened content version) ops allowed fewBumps
  have along := Runs.along_of_steps (step ropeLines) Consistent _ (fun session op consistent met =>
      step_consistent ropeLines session op consistent met.1 met.2)
    (opened content version) ops (opened_consistent content version) meet
  exact Runs.along_mono (step ropeLines) consistent_fresh (opened content version) ops along

-- A late duplicate arrives after a violation and a recovery; a change by range follows.
def lateDuplicate : List (Op Unit Unit) :=
  [.publish 0 (.fromParseResult (fun _ => true) 0 ['a'] (some ()) []),
    .accept ['b'] 2,
    .violate,
    .publish 0 (.fromParseResult (fun _ => true) 0 ['a'] (some ()) []),
    .clear,
    .accept ['c'] 4,
    .publish 1 (.fromParseResult (fun _ => true) 1 ['b'] none []),
    .applyChange 0 1 0 1 ['d'] 5,
    .publish 4 (.fromParseResult (fun _ => true) 4 ['c', 'd'] (some ()) [])]

theorem freshness_after_late_duplicate :
    Runs.Along (step fun text => [text]) (fun session => Fresh session.doc)
      (opened ['a'] 1) lateDuplicate ∧
    (Runs.run (step fun text => [text]) (opened ['a'] 1) lateDuplicate).doc.currentParsed =
      some (.fromParseResult (fun _ => true) 4 ['c', 'd'] (some ()) []) := by
  refine ⟨freshness_of_published_parses (fun text => [text]) ['a'] 1 lateDuplicate ?_ ?_, ?_⟩
  · refine ⟨?_, trivial, trivial, ?_, trivial, trivial, ?_, trivial, ?_, trivial⟩ <;>
      simp only [Allowed] <;> decide
  · decide
  · decide

end Sessions

end PerlLsp.Document
