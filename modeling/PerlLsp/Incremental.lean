import PerlLsp.Checkpoint
import PerlLsp.PositionConvert
import PerlLsp.Runs
import PerlLsp.Splice
import Mathlib.Data.List.Pairwise
import Mathlib.Data.List.Sort

/-! Batches of edits on one committed parser generation: `validate_edits` and `apply_edits` of
perl-parser/src/incremental/mod.rs with reparse.rs, lex.rs and state.rs. A generation holds a
source, its rope and line index, its tokens with two planes of lexer checkpoints, and the parser's
snapshot. The lexer, the parser and the content digest are the `Engine`. A function that mutates its
state and can fail returns the state with the result. -/
namespace PerlLsp.Incremental
open Utf8 Text Checkpoint PositionConvert List

section LineIndexes

/-- `LineIndex` of perl-line-index: byte columns, lines ended by LF. -/
structure LineIndex where
  lineStarts : List Nat
  textLen : Nat

def lineStartsFrom : Nat → List Char → List Nat
  | _, [] => []
  | index, scalar :: rest =>
    if scalar = '\n' then (index + 1) :: lineStartsFrom (index + scalar.utf8Size) rest
    else lineStartsFrom (index + scalar.utf8Size) rest

def LineIndex.new (text : List Char) : LineIndex := ⟨0 :: lineStartsFrom 0 text, size text⟩

def LineIndex.byteToPosition (index : LineIndex) (byte : Nat) : Nat × Nat :=
  let byte := min byte index.textLen
  let line := min (lineOf index.lineStarts byte) (index.lineStarts.length - 1)
  (line, byte - index.lineStarts[line]?.getD 0)

end LineIndexes

/-- What the incremental parser calls into: the lexer, the recovering parser, the
walk that collects parse checkpoints, and the content digest. -/
structure Engine where
  Identity : Type
  Kind : Type
  Output : Type
  ParseCheckpoint : Type
  Digest : Type
  lexer : Lexer Identity Kind
  parseWithRecovery : List Char → Output
  createParseCheckpoints : Output → List ParseCheckpoint
  digestOfBytes : List UInt8 → Digest
  sameDigest : DecidableEq Digest

instance (engine : Engine) : DecidableEq engine.Digest := engine.sameDigest

variable (engine : Engine)

structure Edit where
  startByte : Nat
  oldEndByte : Nat
  newEndByte : Nat
  newText : List Char

def Edit.touchedBytes (edit : Edit) : Nat :=
  max (edit.oldEndByte - edit.startByte) (size edit.newText)

structure LexCheckpoint where
  byte : Nat
  mode : LexerMode
  line : Nat
  column : Nat

structure StoredLexCheckpoint where
  summary : LexCheckpoint
  live : LexerCheckpoint engine.Identity
  sourceDigest : engine.Digest

inductive ParseSnapshotStrategy where
  | fresh
  | incrementalTokenRestartThenFullParse
  | incrementalFullFallback

structure ParseSnapshot where
  generation : UInt64
  contentDigest : engine.Digest
  sourceLen : Nat
  strategy : ParseSnapshotStrategy
  parseOutput : engine.Output

structure IncrementalState where
  source : List Char
  rope : Rope
  lineIndex : LineIndex
  lexCheckpoints : List LexCheckpoint
  parseCheckpoints : List engine.ParseCheckpoint
  snapshot : ParseSnapshot engine
  tokens : List (LexToken engine.Kind)
  storedLexCheckpoints : List (StoredLexCheckpoint engine)

inductive LexRestartStrategy where
  | unchanged
  | fullRelex
  | liveCheckpointToEof
  | storedCheckpointToEof

structure LexRestartReport where
  strategy : LexRestartStrategy
  restartByte : Nat
  oldPrefixBytesReplayed : Nat
  relexedBytes : Nat
  reusedPrefixTokens : Nat
  reusedSuffixTokens : Nat
  storedCheckpointCount : Nat

def LexRestartReport.reusedTokens (report : LexRestartReport) : Nat :=
  saturatingAdd report.reusedPrefixTokens report.reusedSuffixTokens

structure ReparseResult where
  changedRanges : List (Nat × Nat)
  snapshot : ParseSnapshot engine
  lexRestart : LexRestartReport
  reparsedBytes : Nat
  reusedTokens : Nat
  tokenCount : Nat

section Lexing
variable {engine}

def maxStoredLexCheckpoints : Nat := 4096

def initialCheckpointSpacing : Nat := 128

def summarizeCheckpoint (checkpoint : LexerCheckpoint engine.Identity) (lineIndex : LineIndex) :
    LexCheckpoint :=
  let place := lineIndex.byteToPosition checkpoint.position
  ⟨checkpoint.position, checkpoint.replay.mode, place.1, place.2⟩

def StoredLexCheckpoint.capture (digest : engine.Digest) (live : LexerCheckpoint engine.Identity)
    (lineIndex : LineIndex) : StoredLexCheckpoint engine :=
  ⟨summarizeCheckpoint live lineIndex, live, digest⟩

variable (stored : StoredLexCheckpoint engine)

def StoredLexCheckpoint.belongsToSource (source : List Char) (observed : engine.Digest) : Bool :=
  if size source < stored.live.position || !isCharBoundary source stored.live.position then false
  else decide (stored.sourceDigest = observed) && stored.live.isValidFor source

def StoredLexCheckpoint.prepareForEdit (oldSource : List Char) (observed : engine.Digest) (edit : Edit) :
    Option (LexerCheckpoint engine.Identity) :=
  if edit.startByte < stored.summary.byte ∨ stored.live.isTimeoutSensitive then none
  else if !stored.belongsToSource oldSource observed then none
  else if edit.oldEndByte < edit.startByte then none
  else
    match stored.live.tryApplyEdit edit.startByte (edit.oldEndByte - edit.startByte)
        (size edit.newText) with
    | (live, true) => some live
    | (_, false) => none

def StoredLexCheckpoint.transformForGeneration (oldSource newSource : List Char)
    (observed newDigest : engine.Digest) (edit : Edit) : Option (StoredLexCheckpoint engine) :=
  if edit.startByte ≤ stored.summary.byte ∨ !stored.belongsToSource oldSource observed then none
  else if edit.oldEndByte < edit.startByte then none
  else
    match stored.live.tryApplyEdit edit.startByte (edit.oldEndByte - edit.startByte)
        (size edit.newText) with
    | (live, true) =>
      if live.isValidFor newSource then some ⟨stored.summary, live, newDigest⟩ else none
    | (_, false) => none

structure LexProgress (engine : Engine) where
  tokens : List (LexToken engine.Kind)
  checkpoints : List LexCheckpoint
  storedCheckpoints : List (StoredLexCheckpoint engine)
  spacing : Nat

def pushSummary (summaries : List LexCheckpoint) (checkpoint : LexerCheckpoint engine.Identity)
    (lineIndex : LineIndex) : List LexCheckpoint :=
  match summaries.getLast? with
  | some summary =>
    if summary.byte ≠ checkpoint.position then
      summaries ++ [summarizeCheckpoint checkpoint lineIndex]
    else summaries
  | none => summaries ++ [summarizeCheckpoint checkpoint lineIndex]

-- every second record and the last one
def compactStoredCheckpoints (checkpoints : List (StoredLexCheckpoint engine)) :
    List (StoredLexCheckpoint engine) :=
  (checkpoints.zipIdx.filter fun entry =>
    entry.2 = 0 ∨ entry.2 % 2 = 0 ∨ entry.2 + 1 = checkpoints.length).map Prod.fst

def pushStoredCheckpoint (digest : engine.Digest) (lineIndex : LineIndex)
    (checkpoints : List (StoredLexCheckpoint engine)) (spacing : Nat)
    (live : LexerCheckpoint engine.Identity) : List (StoredLexCheckpoint engine) × Nat :=
  if checkpoints.getLast?.any fun stored => stored.live.position = live.position then
    (checkpoints, spacing)
  else
    let retain := checkpoints.getLast?.all fun previous =>
      spacing ≤ live.position - previous.live.position ∨ previous.live.behaviorStateChanged live
    if !retain then (checkpoints, spacing)
    else if maxStoredLexCheckpoints ≤ checkpoints.length then
      (compactStoredCheckpoints checkpoints ++ [.capture digest live lineIndex],
        max (min (spacing * 2) usizeMax) 1)
    else (checkpoints ++ [.capture digest live lineIndex], spacing)

-- the two pushes before a token is read and after the end of input
def LexProgress.record (progress : LexProgress engine) (digest : engine.Digest)
    (lineIndex : LineIndex) (live : LexerCheckpoint engine.Identity) : LexProgress engine :=
  let stored := pushStoredCheckpoint digest lineIndex progress.storedCheckpoints progress.spacing live
  { progress with
    checkpoints := pushSummary progress.checkpoints live lineIndex
    storedCheckpoints := stored.1
    spacing := stored.2 }

/-- The loop of `lex_source_with_checkpoints` and of `lex_from_live_checkpoint`; only the second
carries a last position and fails when a token does not end past it. -/
def lexLoop (digest : engine.Digest) (lineIndex : LineIndex) (lastPosition : Option Nat)
    (progress : LexProgress engine) (state : engine.lexer.State) : Except String (LexProgress engine) :=
  let progress := progress.record digest lineIndex (engine.lexer.checkpoint state)
  match _read : engine.lexer.nextToken state with
  | none => .ok progress
  | some (token, next) =>
    if _inner : engine.lexer.isEof token.tokenType = false then
      if (lastPosition.any fun last => token.stop ≤ last) then
        .error ("incremental lexer did not advance at byte " ++ toString token.start)
      else
        lexLoop digest lineIndex (lastPosition.map fun _ => token.stop)
          { progress with tokens := progress.tokens ++ [token] } next
    else .ok (progress.record digest lineIndex (engine.lexer.checkpoint next))
termination_by engine.lexer.remaining state
decreasing_by exact engine.lexer.advances state token next _read _inner

def emptyProgress : LexProgress engine := ⟨[], [], [], initialCheckpointSpacing⟩

/-- Without a last position the loop does not fail (`lex_loop_unguarded`). -/
def lexSourceWithCheckpoints (source : List Char) (lineIndex : LineIndex) : LexProgress engine :=
  (lexLoop (engine.digestOfBytes (encode source)) lineIndex none emptyProgress
    (engine.lexer.new source)).toOption.getD emptyProgress

def lexFromLiveCheckpoint (source : List Char) (lineIndex : LineIndex)
    (checkpoint : LexerCheckpoint engine.Identity) : Except String (LexProgress engine) :=
  match checkpoint.rebindToSource engine.lexer.retarget source with
  | .error _ => .error "live lexer checkpoint is not valid for the edited source"
  | .ok bound =>
    match restore engine.lexer source bound with
    | .error _ => .error "live lexer checkpoint is not valid for the edited source"
    | .ok state =>
      lexLoop (engine.digestOfBytes (encode source)) lineIndex (some bound.position)
        emptyProgress state

def captureFrom (boundary : Nat) (state : engine.lexer.State) :
    Option (LexerCheckpoint engine.Identity) :=
  let checkpoint := engine.lexer.checkpoint state
  if checkpoint.position = boundary then
    if checkpoint.isTimeoutSensitive then none else some checkpoint
  else if boundary < checkpoint.position then none
  else
    match _read : engine.lexer.nextToken state with
    | none => none
    | some (token, next) =>
      if _inner : engine.lexer.isEof token.tokenType = false then captureFrom boundary next
      else none
termination_by engine.lexer.remaining state
decreasing_by exact engine.lexer.advances state token next _read _inner

def captureLiveCheckpoint (source : List Char) (boundary : Nat) :
    Option (LexerCheckpoint engine.Identity) := captureFrom boundary (engine.lexer.new source)

end Lexing

section States
variable {engine}

def ParseSnapshot.fromOutput (source : List Char) (generation : UInt64)
    (strategy : ParseSnapshotStrategy) (parseOutput : engine.Output) : ParseSnapshot engine where
  generation := generation
  contentDigest := engine.digestOfBytes (encode source)
  sourceLen := size source
  strategy := strategy
  parseOutput := parseOutput

-- `ParseGeneration::checked_next`
def checkedNext (generation : UInt64) : Option UInt64 :=
  if generation.toNat + 1 < 2 ^ 64 then some (generation + 1) else none

namespace IncrementalState

def new (source : List Char) : IncrementalState engine :=
  let lineIndex := LineIndex.new source
  let snapshot := ParseSnapshot.fromOutput source 0 .fresh (engine.parseWithRecovery source)
  let lexed := lexSourceWithCheckpoints source lineIndex
  { source := source
    rope := ⟨[source]⟩
    lineIndex := lineIndex
    lexCheckpoints := lexed.checkpoints
    parseCheckpoints := engine.createParseCheckpoints snapshot.parseOutput
    snapshot := snapshot
    tokens := lexed.tokens
    storedLexCheckpoints := lexed.storedCheckpoints }

variable (state : IncrementalState engine)

def findLexCheckpoint (byte : Nat) : Option LexCheckpoint :=
  state.lexCheckpoints.reverse.find? fun checkpoint => checkpoint.byte ≤ byte

def replaceSourceText (source : List Char) : IncrementalState engine :=
  { state with rope := ⟨[source]⟩, lineIndex := .new source, source := source }

def replaceLexState (tokens : List (LexToken engine.Kind)) (lexCheckpoints : List LexCheckpoint)
    (storedLexCheckpoints : List (StoredLexCheckpoint engine)) : IncrementalState engine :=
  { state with
    tokens := tokens
    lexCheckpoints := lexCheckpoints
    storedLexCheckpoints := storedLexCheckpoints }

def refreshParseOutput (strategy : ParseSnapshotStrategy) : Except String (IncrementalState engine) :=
  match checkedNext state.snapshot.generation with
  | none => .error "parse generation counter exhausted"
  | some generation =>
    let snapshot := ParseSnapshot.fromOutput state.source generation strategy
      (engine.parseWithRecovery state.source)
    .ok { state with
      parseCheckpoints := engine.createParseCheckpoints snapshot.parseOutput
      snapshot := snapshot }

end IncrementalState

end States

section Reparse
variable {engine}

def applyTextEditToState (state : IncrementalState engine) (edit : Edit) :
    Except String (IncrementalState engine) :=
  let oldEnd := min edit.oldEndByte (size state.source)
  let start := min edit.startByte (size state.source)
  -- a text splits at a byte exactly when the byte is a boundary
  match splitAtByte state.source start, splitAtByte state.source oldEnd with
  | some front, some back => .ok (state.replaceSourceText (front.1 ++ edit.newText ++ back.2))
  | _, _ => .error "edit range is not on UTF-8 boundaries"

structure SelectedRestart (engine : Engine) where
  liveCheckpoint : LexerCheckpoint engine.Identity
  oldPrefixBytesReplayed : Nat

def restartBoundary (state : IncrementalState engine) (edit : Edit) : Nat :=
  match state.tokens.find? fun token => edit.startByte ≤ token.stop with
  | some token => token.start
  | none => edit.startByte

def selectRestart (oldSource : List Char) (oldDigest : engine.Digest)
    (state : IncrementalState engine) (edit : Edit) : Except String (SelectedRestart engine) :=
  let boundary := restartBoundary state edit
  match (state.storedLexCheckpoints.reverse.filter fun stored =>
      stored.summary.byte ≤ boundary).findSome? fun stored =>
        stored.prepareForEdit oldSource oldDigest edit with
  | some live => .ok ⟨live, 0⟩
  | none =>
    match state.findLexCheckpoint boundary with
    | none => .error "No lexer restart boundary found"
    | some summary =>
      match @captureLiveCheckpoint engine oldSource summary.byte with
      | none => .error "Could not reproduce complete live lexer state at restart boundary"
      | some live =>
        if edit.oldEndByte < edit.startByte then .error "edit end precedes edit start"
        else
          match live.tryApplyEdit edit.startByte (edit.oldEndByte - edit.startByte)
              (size edit.newText) with
          | (_, false) => .error "Edit invalidated required live lexer state"
          | (moved, true) => .ok ⟨moved, moved.position⟩

structure SingleEditReparse where
  range : Nat × Nat
  lexRestart : LexRestartReport
  tokenCount : Nat

def applySingleEdit (state : IncrementalState engine) (edit : Edit) :
    IncrementalState engine × Except String SingleEditReparse :=
  let oldSource := state.source
  let oldDigest := engine.digestOfBytes (encode oldSource)
  match selectRestart oldSource oldDigest state edit with
  | .error error => (state, .error error)
  | .ok selected =>
    let restartByte := selected.liveCheckpoint.position
    let reusedPrefixTokens :=
      (state.tokens.takeWhile fun token => token.start < restartByte).length
    match applyTextEditToState state edit with
    | .error error => (state, .error error)
    | .ok edited =>
      let newDigest := engine.digestOfBytes (encode edited.source)
      match lexFromLiveCheckpoint edited.source edited.lineIndex selected.liveCheckpoint with
      | .error error => (edited, .error error)
      | .ok lexed =>
        let carried := (edited.storedLexCheckpoints.takeWhile fun stored =>
          stored.summary.byte < restartByte).filterMap fun stored =>
            stored.transformForGeneration oldSource edited.source oldDigest newDigest edit
        let summaries := edited.lexCheckpoints.takeWhile fun summary =>
          summary.byte < restartByte
        let next := edited.replaceLexState
          (edited.tokens.take reusedPrefixTokens ++ lexed.tokens)
          (summaries ++ lexed.checkpoints) (carried ++ lexed.storedCheckpoints)
        let report : LexRestartReport :=
          { strategy := if selected.oldPrefixBytesReplayed = 0 then .storedCheckpointToEof
              else .liveCheckpointToEof
            restartByte := restartByte
            oldPrefixBytesReplayed := selected.oldPrefixBytesReplayed
            relexedBytes := size next.source - restartByte
            reusedPrefixTokens := reusedPrefixTokens
            reusedSuffixTokens := 0
            storedCheckpointCount := next.storedLexCheckpoints.length }
        (next, .ok ⟨(restartByte, size next.source), report, next.tokens.length⟩)

def fullReparse (state : IncrementalState engine) :
    IncrementalState engine × Except String (ReparseResult engine) :=
  match state.refreshParseOutput .incrementalFullFallback with
  | .error error => (state, .error error)
  | .ok refreshed =>
    let lexed := lexSourceWithCheckpoints refreshed.source refreshed.lineIndex
    let next := refreshed.replaceLexState lexed.tokens lexed.checkpoints lexed.storedCheckpoints
    let report : LexRestartReport :=
      { strategy := .fullRelex
        restartByte := 0
        oldPrefixBytesReplayed := 0
        relexedBytes := size next.source
        reusedPrefixTokens := 0
        reusedSuffixTokens := 0
        storedCheckpointCount := next.storedLexCheckpoints.length }
    (next, .ok
      { changedRanges := [(0, size next.source)]
        snapshot := next.snapshot
        lexRestart := report
        reparsedBytes := size next.source
        reusedTokens := report.reusedTokens
        tokenCount := next.tokens.length })

end Reparse

section Batches
variable {engine}

def maxEditSize : Nat := 64 * 1024

def byRange (left right : Edit) : Bool :=
  left.startByte < right.startByte ||
    (left.startByte == right.startByte && left.oldEndByte ≤ right.oldEndByte)

def byStartByte (left right : Edit) : Bool := left.startByte ≤ right.startByte

-- the previous edit, when the next one overlaps it or starts with it
def clashing (previous : Option Edit) (edit : Edit) : Option Edit :=
  previous.filter fun earlier =>
    edit.startByte < earlier.oldEndByte || edit.startByte == earlier.startByte

def validateFrom (source : List Char) : Option Edit → Nat → List Edit → Except String Nat
  | _, totalChanged, [] => .ok totalChanged
  | previous, totalChanged, edit :: rest =>
    if edit.oldEndByte < edit.startByte ∨ size source < edit.oldEndByte then
      .error ("incremental edit range " ++ toString edit.startByte ++ ".." ++
        toString edit.oldEndByte ++ " is invalid for source length " ++ toString (size source))
    else if !isCharBoundary source edit.startByte ∨ !isCharBoundary source edit.oldEndByte then
      .error ("incremental edit range " ++ toString edit.startByte ++ ".." ++
        toString edit.oldEndByte ++ " is not on UTF-8 boundaries")
    else if usizeMax < edit.startByte + size edit.newText then
      .error "incremental edit new range overflows usize"
    else if edit.newEndByte ≠ edit.startByte + size edit.newText then
      .error ("incremental edit new_end_byte " ++ toString edit.newEndByte ++
        " does not match replacement end " ++ toString (edit.startByte + size edit.newText))
    else
      match clashing previous edit with
      | some earlier =>
        .error ("incremental edit ranges are overlapping or share an ambiguous start: " ++
          toString earlier.startByte ++ ".." ++ toString earlier.oldEndByte ++ " and " ++
          toString edit.startByte ++ ".." ++ toString edit.oldEndByte)
      | none =>
        if usizeMax < totalChanged + edit.touchedBytes then
          .error "incremental edit byte total overflows usize"
        else validateFrom source (some edit) (totalChanged + edit.touchedBytes) rest

def validateEdits (source : List Char) (edits : List Edit) : Except String Nat :=
  validateFrom source none 0 (edits.mergeSort byRange)

def unchangedResult (state : IncrementalState engine) : ReparseResult engine :=
  let report : LexRestartReport :=
    { strategy := .unchanged
      restartByte := size state.source
      oldPrefixBytesReplayed := 0
      relexedBytes := 0
      reusedPrefixTokens := state.tokens.length
      reusedSuffixTokens := 0
      storedCheckpointCount := state.storedLexCheckpoints.length }
  { changedRanges := []
    snapshot := state.snapshot
    lexRestart := report
    reparsedBytes := 0
    reusedTokens := report.reusedTokens
    tokenCount := state.tokens.length }

def applyTextEdits (state : IncrementalState engine) : List Edit →
    IncrementalState engine × Except String Unit
  | [] => (state, .ok ())
  | edit :: rest =>
    match applyTextEditToState state edit with
    | .error error => (state, .error error)
    | .ok edited => applyTextEdits edited rest

def fullReparseAfterEdits (state : IncrementalState engine) (editsDescending : List Edit) :
    IncrementalState engine × Except String (ReparseResult engine) :=
  match applyTextEdits state editsDescending with
  | (_, .error error) => (state, .error error)
  | (candidate, .ok ()) =>
    match fullReparse candidate with
    | (_, .error error) => (state, .error error)
    | (candidate, .ok result) => (candidate, .ok result)

def applyOneEdit (state : IncrementalState engine) (edit : Edit) :
    IncrementalState engine × Except String (ReparseResult engine) :=
  if 1024 < edit.touchedBytes ∨ 10 < edit.newText.count '\n' then
    fullReparseAfterEdits state [edit]
  else
    match applySingleEdit state edit with
    | (_, .error _) => fullReparseAfterEdits state [edit]
    | (candidate, .ok reparse) =>
      match candidate.refreshParseOutput .incrementalTokenRestartThenFullParse with
      | .error error => (state, .error error)
      | .ok refreshed =>
        (refreshed, .ok
          { changedRanges := [reparse.range]
            snapshot := refreshed.snapshot
            lexRestart := reparse.lexRestart
            reparsedBytes := size refreshed.source
            reusedTokens := reparse.lexRestart.reusedTokens
            tokenCount := reparse.tokenCount })

def applyEdits (state : IncrementalState engine) (edits : List Edit) :
    IncrementalState engine × Except String (ReparseResult engine) :=
  match validateEdits state.source edits with
  | .error error => (state, .error error)
  | .ok totalChanged =>
    if edits.isEmpty then (state, .ok (unchangedResult state))
    else
      let sortedEdits := (edits.mergeSort byStartByte).reverse
      if maxEditSize < totalChanged then fullReparseAfterEdits state sortedEdits
      else
        match sortedEdits with
        | [edit] => applyOneEdit state edit
        | _ => fullReparseAfterEdits state sortedEdits

end Batches

section Validation

def Edit.patch (edit : Edit) : Splice.Patch UInt8 :=
  ⟨edit.startByte, edit.oldEndByte, encode edit.newText⟩

structure Edit.InRange (source : List Char) (edit : Edit) : Prop where
  ordered : edit.startByte ≤ edit.oldEndByte
  inside : edit.oldEndByte ≤ size source
  start : isCharBoundary source edit.startByte = true
  stop : isCharBoundary source edit.oldEndByte = true

def Follows (earlier later : Edit) : Prop :=
  earlier.oldEndByte ≤ later.startByte ∧ earlier.startByte < later.startByte

theorem clashing_none {earlier edit : Edit} (free : clashing (some earlier) edit = none)
    (ordered : earlier.startByte ≤ earlier.oldEndByte) : Follows earlier edit := by
  unfold clashing at free
  simp only [Option.filter_eq_none_iff, Option.some.injEq, forall_eq', Bool.or_eq_true,
    decide_eq_true_eq, beq_iff_eq, not_or, Nat.not_lt] at free
  exact ⟨free.1, by omega⟩

/-- An accepted list has its edits in range, each following all earlier ones: the loop compares
neighbours only, but the order carries over. -/
theorem validate_from_accepts (source : List Char) (previous : Option Edit) (total result : Nat)
    (edits : List Edit) (accepted : validateFrom source previous total edits = .ok result) :
    (∀ edit ∈ edits, edit.InRange source) ∧ edits.Pairwise Follows ∧
      ∀ earlier, previous = some earlier → earlier.startByte ≤ earlier.oldEndByte →
        ∀ edit ∈ edits, Follows earlier edit := by
  induction edits generalizing previous total with
  | nil => simp
  | cons edit rest ih =>
    rw [validateFrom] at accepted
    split at accepted
    · cases accepted
    rename_i range
    split at accepted
    · cases accepted
    rename_i boundaries
    split at accepted
    · cases accepted
    split at accepted
    · cases accepted
    split at accepted
    · cases accepted
    rename_i free
    split at accepted
    · cases accepted
    obtain ⟨inRange, pairwise, after⟩ := ih (some edit) _ accepted
    simp only [not_or, Nat.not_lt] at range
    simp only [not_or, Bool.not_eq_true', Bool.not_eq_false] at boundaries
    have here : edit.InRange source :=
      ⟨range.1, range.2, boundaries.1, boundaries.2⟩
    have later := after edit rfl range.1
    refine ⟨forall_mem_cons.mpr ⟨here, inRange⟩, pairwise_cons.mpr ⟨later, pairwise⟩, ?_⟩
    rintro earlier rfl ordered
    have next := clashing_none free ordered
    refine forall_mem_cons.mpr ⟨next, ?_⟩
    intro other among
    have beyond := later other among
    exact ⟨by have := next.1; have := beyond.2; omega,
      by have := next.2; have := beyond.2; omega⟩

variable {edits : List Edit}

theorem starts_ascend (follow : edits.Pairwise Follows) :
    edits.Pairwise fun left right => left.startByte ≤ right.startByte :=
  follow.imp fun pair => Nat.le_of_lt pair.2

theorem same_start_same_edit (follow : edits.Pairwise Follows) {left right : Edit}
    (leftIn : left ∈ edits) (rightIn : right ∈ edits) (same : left.startByte = right.startByte) :
    left = right := by
  have apart : edits.Pairwise fun one other => one.startByte ≠ other.startByte :=
    follow.imp fun pair => Nat.ne_of_lt pair.2
  have symmetric : Std.Symm fun one other : Edit => one.startByte ≠ other.startByte :=
    ⟨fun _ _ different => different.symm⟩
  by_contra different
  exact apart.forall leftIn rightIn different same

/-- Edits that follow one another are the only list of them with ascending starts. -/
theorem sorted_unique {other : List Edit} (follow : edits.Pairwise Follows) (same : other.Perm edits)
    (ascend : other.Pairwise fun left right => left.startByte ≤ right.startByte) : other = edits := by
  refine List.Perm.eq_of_pairwise ?_ ascend (starts_ascend follow) same
  intro left right leftIn rightIn low high
  exact same_start_same_edit follow (same.mem_iff.mp leftIn) rightIn (Nat.le_antisymm low high)

theorem sorted_by_range (edits : List Edit) :
    (edits.mergeSort byRange).Pairwise fun left right => left.startByte ≤ right.startByte := by
  have sorted : (edits.mergeSort byRange).Pairwise fun left right => byRange left right = true := by
    apply pairwise_mergeSort
    · simp only [byRange, Bool.or_eq_true, Bool.and_eq_true, decide_eq_true_eq, beq_iff_eq]
      omega
    · simp only [byRange, Bool.or_eq_true, Bool.and_eq_true, decide_eq_true_eq, beq_iff_eq]
      omega
  refine sorted.imp ?_
  simp only [byRange, Bool.or_eq_true, Bool.and_eq_true, decide_eq_true_eq, beq_iff_eq]
  omega

theorem sorted_by_start (edits : List Edit) : (edits.mergeSort byStartByte).Pairwise fun left right =>
      left.startByte ≤ right.startByte := by
  have sorted : (edits.mergeSort byStartByte).Pairwise fun left right =>
      byStartByte left right = true := by
    apply pairwise_mergeSort
    · intro one two three
      simp only [byStartByte, decide_eq_true_eq]
      omega
    · intro one two
      simp only [byStartByte, Bool.or_eq_true, decide_eq_true_eq]
      omega
  exact sorted.imp fun order => of_decide_eq_true order

/-- What acceptance says: sorted either way, the batch is the one list of its edits in which each
follows the earlier ones. -/
structure Accepted (source : List Char) (edits ordered : List Edit) : Prop where
  perm : ordered.Perm edits
  inRange : ∀ edit ∈ ordered, edit.InRange source
  follow : ordered.Pairwise Follows
  byRange : edits.mergeSort byRange = ordered
  byStart : edits.mergeSort byStartByte = ordered

variable {source : List Char}

theorem validate_edits_accepts {total : Nat} (accepted : validateEdits source edits = .ok total) :
    Accepted source edits (edits.mergeSort byRange) := by
  obtain ⟨inRange, follow, -⟩ := validate_from_accepts source none 0 total _ accepted
  have byRangePerm := mergeSort_perm edits byRange
  refine ⟨byRangePerm, inRange, follow, rfl, ?_⟩
  exact sorted_unique follow ((mergeSort_perm edits byStartByte).trans byRangePerm.symm)
    (sorted_by_start edits)

/-- The order in which an accepted batch is given does not show in either sorted list. -/
theorem Accepted.reordered {ordered other : List Edit}
    (accepted : Accepted source edits ordered) (same : other.Perm edits) :
    Accepted source other ordered where
  perm := accepted.perm.trans same.symm
  inRange := accepted.inRange
  follow := accepted.follow
  byRange := sorted_unique accepted.follow
    (((mergeSort_perm other _).trans same).trans accepted.perm.symm) (sorted_by_range other)
  byStart := sorted_unique accepted.follow
    (((mergeSort_perm other _).trans same).trans accepted.perm.symm) (sorted_by_start other)

theorem Accepted.ascending {ordered : List Edit} (accepted : Accepted source edits ordered) :
    Splice.Ascending (encode source).length (ordered.map Edit.patch) where
  ordered := pairwise_map.mpr accepted.follow
  range := by
    intro patch among
    obtain ⟨edit, member, rfl⟩ := mem_map.mp among
    have range := accepted.inRange edit member
    exact ⟨range.ordered, range.inside⟩

end Validation

section TextEdits
variable {engine}

structure TextMatches (state : IncrementalState engine) : Prop where
  rope : state.rope.text = state.source
  lineIndex : state.lineIndex = .new state.source

section
variable (state : IncrementalState engine)
include state

theorem replace_source_matches (source : List Char) :
    TextMatches (state.replaceSourceText source) :=
  ⟨by simp [IncrementalState.replaceSourceText, Rope.text], rfl⟩

/-- An edit whose range cuts the source into three parts replaces the middle one. -/
theorem apply_text_edit (edit : Edit)
    (before replaced after : List Char) (parts : state.source = before ++ replaced ++ after)
    (start : size before = edit.startByte) (stop : size (before ++ replaced) = edit.oldEndByte) :
    applyTextEditToState state edit = .ok (state.replaceSourceText (before ++ edit.newText ++ after)) := by
  have total : size state.source = size before + size replaced + size after := by
    rw [parts, size_append, size_append]
  rw [size_append] at stop
  have startMin : min edit.startByte (size state.source) = size before := by omega
  have stopMin : min edit.oldEndByte (size state.source) = size (before ++ replaced) := by
    rw [size_append]
    omega
  have front : splitAtByte state.source (size before) = some (before, replaced ++ after) := by
    rw [parts, append_assoc]
    exact split_at_byte _ _
  have back : splitAtByte state.source (size (before ++ replaced)) = some (before ++ replaced, after) := by
    rw [parts]
    exact split_at_byte _ _
  unfold applyTextEditToState
  simp only [startMin, stopMin, front, back]

theorem apply_text_edits_append (first second : List Edit) : applyTextEdits state (first ++ second) =
      match applyTextEdits state first with
      | (edited, .ok ()) => applyTextEdits edited second
      | (edited, .error error) => (edited, .error error) := by
  induction first generalizing state with
  | nil => rfl
  | cons edit rest ih =>
    rw [cons_append, applyTextEdits, applyTextEdits]
    cases applyTextEditToState state edit with
    | error reason => rfl
    | ok edited => exact ih edited

end

/-- The parts of the source an edit in range cuts out, past a front part it leaves alone. -/
theorem Edit.InRange.parts {source : List Char} {edit : Edit} (range : edit.InRange source)
    {front rest : List Char} (split : source = front ++ rest) (ahead : size front ≤ edit.startByte) :
    ∃ gap replaced after, rest = gap ++ replaced ++ after ∧ size (front ++ gap) = edit.startByte ∧
      size (front ++ gap ++ replaced) = edit.oldEndByte := by
  obtain ⟨before, tail, cut, width⟩ := (boundary_iff _ _).mp range.start
  obtain ⟨upto, after, cutStop, widthStop⟩ := (boundary_iff _ _).mp range.stop
  have total := congrArg size cutStop
  have total' := congrArg size cut
  rw [size_append] at total total'
  have ordered := range.ordered
  obtain ⟨replaced, rest', one, two, three⟩ := split_middle before tail [] upto after
    (by rw [append_nil, ← cut]; exact cutStop) (by omega) (by omega)
  obtain ⟨gap, rest'', four, five, six⟩ := split_middle front rest [] before tail
    (by rw [append_nil, ← split]; exact cut) (by omega)
    (by
      have whole := congrArg size split
      rw [size_append] at whole
      omega)
  rw [append_nil] at three six
  refine ⟨gap, replaced, after, ?_, ?_, ?_⟩
  · rw [four, ← six, one, ← three, append_assoc]
  · rw [← five, width]
  · rw [← five, ← two, widthStop]

/-- Applied in descending order, each edit finds its range, the source before all of them stays, and
what follows is put together from the pieces between the edits. -/
theorem apply_text_edits_pieces (state : IncrementalState engine) (edits : List Edit)
    (front rest : List Char) (split : state.source = front ++ rest)
    (inRange : ∀ edit ∈ edits, edit.InRange state.source) (follow : edits.Pairwise Follows)
    (ahead : ∀ edit ∈ edits, size front ≤ edit.startByte) (matched : TextMatches state) :
    ∃ back edited, applyTextEdits state edits.reverse = (edited, .ok ()) ∧ edited = { state with
        source := front ++ back, rope := edited.rope, lineIndex := edited.lineIndex } ∧
      TextMatches edited ∧
      encode back = Splice.pieces (encode state.source) (size front) (edits.map Edit.patch) := by
  induction edits generalizing front rest with
  | nil =>
    refine ⟨rest, state, rfl, by rw [← split], matched, ?_⟩
    rw [map_nil, Splice.pieces, split, encode_append]
    exact (drop_left' rfl).symm
  | cons edit others ih =>
    obtain ⟨later, followRest⟩ := pairwise_cons.mp follow
    obtain ⟨gap, replaced, after, cut, start, stop⟩ :=
      (inRange edit mem_cons_self).parts split (ahead edit mem_cons_self)
    obtain ⟨back, edited, run, shape, _, bytes⟩ := ih (front ++ gap ++ replaced) after
      (by rw [split, cut]; simp only [append_assoc])
      (fun other among => inRange other (mem_cons_of_mem _ among)) followRest
      (fun other among => by rw [stop]; exact (later other among).1)
    have source : edited.source = front ++ gap ++ replaced ++ back := congrArg IncrementalState.source shape
    have applied := apply_text_edit edited edit (front ++ gap) replaced back source start stop
    refine ⟨gap ++ edit.newText ++ back,
      edited.replaceSourceText (front ++ gap ++ edit.newText ++ back), ?_, ?_,
      replace_source_matches _ _, ?_⟩
    · rw [reverse_cons, apply_text_edits_append, run]
      simp only [applyTextEdits, applied]
    · rw [shape]
      simp only [IncrementalState.replaceSourceText, append_assoc]
    · have bytesBefore : encode state.source =
          encode front ++ (encode gap ++ (encode replaced ++ encode after)) := by
        rw [split, cut]
        simp only [encode_append, append_assoc]
      have gapSize : (encode gap).length = edit.startByte - size front := by
        have width := start
        rw [size_append] at width
        unfold size at width ⊢
        omega
      rw [map_cons, Splice.pieces, encode_append, encode_append, bytes, stop]
      congr 2
      have dropped : (encode state.source).drop (size front) =
          encode gap ++ (encode replaced ++ encode after) := by
        rw [bytesBefore]
        exact drop_left' rfl
      rw [Edit.patch, dropped, ← gapSize, take_left' rfl]

end TextEdits

section Tokens

/-- A relation between sources and tokens that the lexer establishes for every token, and that
depends on no byte past its end. -/
structure TokensBelong (lexer : Lexer Identity Kind)
    (Belongs : List Char → LexToken Kind → Prop) : Prop where
  emitted : ∀ source state token next, Reads lexer source state →
    lexer.nextToken state = some (token, next) → lexer.isEof token.tokenType = false →
    Belongs source token
  kept : ∀ old new token, Belongs old token →
    (encode new).take token.stop = (encode old).take token.stop → Belongs new token

variable {engine} {Belongs : List Char → LexToken engine.Kind → Prop}

def SummaryTells (stored : List (StoredLexCheckpoint engine)) : Prop :=
  ∀ checkpoint ∈ stored, checkpoint.summary.byte = checkpoint.live.position

theorem compact_subset (checkpoints : List (StoredLexCheckpoint engine)) :
    ∀ checkpoint ∈ compactStoredCheckpoints checkpoints, checkpoint ∈ checkpoints := by
  intro checkpoint among
  obtain ⟨entry, filtered, rfl⟩ := mem_map.mp among
  exact fst_mem_of_mem_zipIdx (mem_filter.mp filtered).1

theorem push_stored_tells (digest : engine.Digest) (lineIndex : LineIndex)
    (checkpoints : List (StoredLexCheckpoint engine)) (spacing : Nat)
    (live : LexerCheckpoint engine.Identity) (tells : SummaryTells checkpoints) :
    SummaryTells (pushStoredCheckpoint digest lineIndex checkpoints spacing live).1 := by
  have pushed : ∀ kept : List (StoredLexCheckpoint engine), SummaryTells kept →
      SummaryTells (kept ++ [.capture digest live lineIndex]) := by
    intro kept keptTells checkpoint among
    rcases mem_append.mp among with old | new
    · exact keptTells checkpoint old
    · obtain rfl := mem_singleton.mp new
      rfl
  unfold pushStoredCheckpoint
  split
  · exact tells
  dsimp only
  split
  · exact tells
  · split
    · exact pushed _ fun checkpoint among => tells checkpoint (compact_subset _ _ among)
    · exact pushed _ tells

theorem lex_loop_unguarded (digest : engine.Digest) (lineIndex : LineIndex)
    (progress : LexProgress engine) (state : engine.lexer.State) :
    ∃ lexed, lexLoop digest lineIndex none progress state = .ok lexed := by
  rw [lexLoop]
  split
  · exact ⟨_, rfl⟩
  rename_i token next read
  split
  · next inner =>
      exact lex_loop_unguarded digest lineIndex _ next
  · exact ⟨_, rfl⟩
termination_by engine.lexer.remaining state
decreasing_by exact engine.lexer.advances state _ _ ‹_› ‹_›

/-- Every token of a run belongs to the source the lexer reads. -/
theorem lex_loop_tokens (belong : TokensBelong engine.lexer Belongs) (source : List Char)
    (digest : engine.Digest) (lineIndex : LineIndex) (lastPosition : Option Nat)
    (progress lexed : LexProgress engine) (state : engine.lexer.State)
    (reads : Reads engine.lexer source state) (before : ∀ token ∈ progress.tokens, Belongs source token)
    (tells : SummaryTells progress.storedCheckpoints)
    (result : lexLoop digest lineIndex lastPosition progress state = .ok lexed) :
    (∀ token ∈ lexed.tokens, Belongs source token) ∧ SummaryTells lexed.storedCheckpoints := by
  rw [lexLoop] at result
  have recorded := push_stored_tells digest lineIndex progress.storedCheckpoints progress.spacing
    (engine.lexer.checkpoint state) tells
  split at result
  · obtain rfl := Except.ok.inj result
    exact ⟨before, recorded⟩
  rename_i token next read
  split at result
  · next inner =>
      split at result
      · cases result
      refine lex_loop_tokens belong source digest lineIndex _ _ lexed next
        (.next state token next reads read) ?_ recorded result
      intro other among
      rcases mem_append.mp among with old | new
      · exact before other old
      · obtain rfl := mem_singleton.mp new
        exact belong.emitted source state other next reads read inner
  · obtain rfl := Except.ok.inj result
    exact ⟨before, push_stored_tells digest lineIndex _ _ _ recorded⟩
termination_by engine.lexer.remaining state
decreasing_by exact engine.lexer.advances state _ _ ‹_› ‹_›

section
variable (belong : TokensBelong engine.lexer Belongs) (source : List Char) (lineIndex : LineIndex)
include belong source lineIndex

theorem lex_source_tokens :
    (∀ token ∈ (@lexSourceWithCheckpoints engine source lineIndex).tokens, Belongs source token) ∧
    SummaryTells (@lexSourceWithCheckpoints engine source lineIndex).storedCheckpoints := by
  obtain ⟨lexed, result⟩ := lex_loop_unguarded (engine.digestOfBytes (encode source)) lineIndex
    emptyProgress (engine.lexer.new source)
  have same : @lexSourceWithCheckpoints engine source lineIndex = lexed := by
    rw [lexSourceWithCheckpoints, result]
    rfl
  rw [same]
  exact lex_loop_tokens belong source _ lineIndex none emptyProgress lexed _ .new
    (fun token among => by cases among) (fun stored among => by cases among) result

theorem lex_from_live_tokens (checkpoint : LexerCheckpoint engine.Identity) (lexed : LexProgress engine)
    (result : lexFromLiveCheckpoint source lineIndex checkpoint = .ok lexed) :
    (∀ token ∈ lexed.tokens, Belongs source token) ∧ SummaryTells lexed.storedCheckpoints := by
  unfold lexFromLiveCheckpoint at result
  split at result
  · cases result
  rename_i bound _
  split at result
  · cases result
  rename_i state restored
  exact lex_loop_tokens belong source _ lineIndex _ emptyProgress lexed state
    (.restored bound state restored) (fun token among => by cases among)
    (fun stored among => by cases among) result

end

theorem capture_position (boundary : Nat) (state : engine.lexer.State)
    (live : LexerCheckpoint engine.Identity) (captured : captureFrom boundary state = some live) :
    live.position = boundary := by
  rw [captureFrom] at captured
  split at captured
  · next here =>
      split at captured
      · cases captured
      · obtain rfl := Option.some.inj captured
        exact here
  · split at captured
    · cases captured
    split at captured
    · cases captured
    rename_i token next read
    split at captured
    · next inner => exact capture_position boundary next live captured
    · cases captured
termination_by engine.lexer.remaining state
decreasing_by exact engine.lexer.advances state _ _ ‹_› ‹_›

theorem prepare_position {stored : StoredLexCheckpoint engine} {oldSource : List Char}
    {observed : engine.Digest} {edit : Edit} {live : LexerCheckpoint engine.Identity}
    (prepared : stored.prepareForEdit oldSource observed edit = some live) :
    live.position = stored.live.position := by
  unfold StoredLexCheckpoint.prepareForEdit at prepared
  split at prepared
  · cases prepared
  split at prepared
  · cases prepared
  split at prepared
  · cases prepared
  split at prepared
  · next moved survives =>
      obtain rfl := Option.some.inj prepared
      exact LexerCheckpoint.surviving_position _ _ _ _ _ survives
  · cases prepared

/-- Lexing restarts at or before the first token that touches the edit. -/
theorem restart_before_boundary (state : IncrementalState engine) (edit : Edit)
    (oldSource : List Char) (oldDigest : engine.Digest) (selected : SelectedRestart engine)
    (tells : SummaryTells state.storedLexCheckpoints)
    (chosen : selectRestart oldSource oldDigest state edit = .ok selected) :
    selected.liveCheckpoint.position ≤ restartBoundary state edit := by
  unfold selectRestart at chosen
  dsimp only at chosen
  split at chosen
  · next live found =>
      obtain rfl := Except.ok.inj chosen
      obtain ⟨stored, among, prepared⟩ := exists_of_findSome?_eq_some found
      obtain ⟨held, early⟩ := mem_filter.mp among
      have told := tells stored (mem_reverse.mp held)
      have position := prepare_position prepared
      rw [position, ← told]
      exact of_decide_eq_true early
  · split at chosen
    · cases chosen
    rename_i summary found
    have early : summary.byte ≤ restartBoundary state edit := by
      simpa using find?_some found
    split at chosen
    · cases chosen
    rename_i live captured
    split at chosen
    · cases chosen
    split at chosen
    · cases chosen
    rename_i moved survives
    obtain rfl := Except.ok.inj chosen
    have stays := LexerCheckpoint.surviving_position _ _ _ _ _ survives
    rw [stays, capture_position _ _ _ captured]
    exact early

theorem kept_tokens_before (state : IncrementalState engine) (edit : Edit) (restartByte : Nat)
    (early : restartByte ≤ restartBoundary state edit) :
    ∀ token ∈ state.tokens.takeWhile fun token => token.start < restartByte,
      token.stop < edit.startByte := by
  unfold restartBoundary at early
  intro token among
  split at early
  · next touching found =>
      obtain ⟨-, front, back, split, untouched⟩ := find?_eq_some_iff_append.mp found
      have stops : (touching :: back).takeWhile (fun token => token.start < restartByte) = [] := by
        rw [takeWhile_cons_of_neg]
        simpa using early
      have inFront : token ∈ front := by
        rw [split, takeWhile_append, stops] at among
        split at among
        · simpa using among
        · exact (List.takeWhile_prefix _).subset among
      have apart := untouched token inFront
      simpa using apart
  · next none =>
      have apart := find?_eq_none.mp none token ((List.takeWhile_prefix _).subset among)
      simpa using apart

end Tokens

section Commits
variable {engine} {Belongs : List Char → LexToken engine.Kind → Prop}

structure Committed (Belongs : List Char → LexToken engine.Kind → Prop)
    (state : IncrementalState engine) : Prop where
  text : TextMatches state
  tokens : ∀ token ∈ state.tokens, Belongs state.source token
  stored : SummaryTells state.storedLexCheckpoints
  sourceLen : state.snapshot.sourceLen = size state.source
  digest : state.snapshot.contentDigest = engine.digestOfBytes (encode state.source)
  output : state.snapshot.parseOutput = engine.parseWithRecovery state.source
  parseCheckpoints : state.parseCheckpoints =
    engine.createParseCheckpoints (engine.parseWithRecovery state.source)

theorem new_committed (belong : TokensBelong engine.lexer Belongs) (source : List Char) :
    Committed Belongs (.new source : IncrementalState engine) where
  text := ⟨by simp [IncrementalState.new, Rope.text], rfl⟩
  tokens := (lex_source_tokens belong source _).1
  stored := (lex_source_tokens belong source _).2
  sourceLen := rfl
  digest := rfl
  output := rfl
  parseCheckpoints := rfl

theorem checked_next_some {generation next : UInt64} (advanced : checkedNext generation = some next) :
    next.toNat = generation.toNat + 1 := by
  unfold checkedNext at advanced
  split at advanced
  · next room =>
      obtain rfl := Option.some.inj advanced
      rw [UInt64.toNat_add, UInt64.toNat_one, Nat.mod_eq_of_lt room]
  · cases advanced

theorem refresh_cases (state : IncrementalState engine) (strategy : ParseSnapshotStrategy) :
    (¬state.snapshot.generation.toNat + 1 < 2 ^ 64 ∧
      state.refreshParseOutput strategy = .error "parse generation counter exhausted") ∨
    (state.snapshot.generation.toNat + 1 < 2 ^ 64 ∧ ∃ next : UInt64,
      next.toNat = state.snapshot.generation.toNat + 1 ∧
      state.refreshParseOutput strategy = .ok { state with
        parseCheckpoints :=
          engine.createParseCheckpoints (engine.parseWithRecovery state.source)
        snapshot :=
          .fromOutput state.source next strategy (engine.parseWithRecovery state.source) }) := by
  unfold IncrementalState.refreshParseOutput
  by_cases room : state.snapshot.generation.toNat + 1 < 2 ^ 64
  · have advanced : checkedNext state.snapshot.generation =
        some (state.snapshot.generation + 1) := if_pos room
    rw [advanced]
    exact .inr ⟨room, _, checked_next_some advanced, rfl⟩
  · have exhausted : checkedNext state.snapshot.generation = none := if_neg room
    rw [exhausted]
    exact .inl ⟨room, rfl⟩

/-- Committing a new source: the counter is exhausted and nothing changes, or the next generation
holds that source. -/
def Outcome (Belongs : List Char → LexToken engine.Kind → Prop) (state : IncrementalState engine)
    (source : List Char)
    (outcome : IncrementalState engine × Except String (ReparseResult engine)) : Prop :=
  (¬state.snapshot.generation.toNat + 1 < 2 ^ 64 ∧ outcome.1 = state ∧
    ∃ error, outcome.2 = .error error) ∨
  (state.snapshot.generation.toNat + 1 < 2 ^ 64 ∧ Committed Belongs outcome.1 ∧
    outcome.1.source = source ∧
    outcome.1.snapshot.generation.toNat = state.snapshot.generation.toNat + 1 ∧
    ∃ result, outcome.2 = .ok result)

theorem full_reparse_outcome (belong : TokensBelong engine.lexer Belongs)
    (state : IncrementalState engine) (edits : List Edit) (edited : IncrementalState engine)
    (matched : TextMatches edited) (generation : edited.snapshot = state.snapshot)
    (applied : applyTextEdits state edits = (edited, .ok ())) :
    Outcome Belongs state edited.source (fullReparseAfterEdits state edits) := by
  unfold fullReparseAfterEdits fullReparse
  simp only [applied]
  obtain ⟨room, failed⟩ | ⟨room, next, advanced, refreshed⟩ :=
    refresh_cases edited .incrementalFullFallback
  · rw [generation] at room
    simp only [failed]
    exact .inl ⟨room, rfl, _, rfl⟩
  rw [generation] at room advanced
  simp only [refreshed]
  obtain ⟨tokens, tells⟩ := lex_source_tokens belong edited.source edited.lineIndex
  exact .inr ⟨room, ⟨⟨matched.rope, matched.lineIndex⟩, tokens, tells, rfl, rfl, rfl, rfl⟩, rfl,
    advanced, _, rfl⟩

theorem transform_tells {stored moved : StoredLexCheckpoint engine}
    {oldSource newSource : List Char} {observed newDigest : engine.Digest} {edit : Edit}
    (tells : stored.summary.byte = stored.live.position)
    (carried : stored.transformForGeneration oldSource newSource observed newDigest edit =
      some moved) : moved.summary.byte = moved.live.position := by
  unfold StoredLexCheckpoint.transformForGeneration at carried
  split at carried
  · cases carried
  split at carried
  · cases carried
  split at carried
  · next live survives =>
      split at carried
      · obtain rfl := Option.some.inj carried
        exact tells.trans (LexerCheckpoint.surviving_position _ _ _ _ _ survives).symm
      · cases carried
  · cases carried

/-- A token restart that succeeds leaves the edited text with its tokens, and touches neither
snapshot nor parse checkpoints. -/
theorem single_edit_tokens (belong : TokensBelong engine.lexer Belongs)
    (state edited candidate : IncrementalState engine) (edit : Edit) (reparse : SingleEditReparse)
    (committed : Committed Belongs state) (applied : applyTextEditToState state edit = .ok edited)
    (shape : edited = { state with
      source := edited.source, rope := edited.rope, lineIndex := edited.lineIndex })
    (unchanged : (encode edited.source).take edit.startByte = (encode state.source).take edit.startByte)
    (restarted : applySingleEdit state edit = (candidate, .ok reparse)) :
    candidate.source = edited.source ∧ candidate.rope = edited.rope ∧
      candidate.lineIndex = edited.lineIndex ∧ candidate.snapshot = state.snapshot ∧
      (∀ token ∈ candidate.tokens, Belongs edited.source token) ∧
      SummaryTells candidate.storedLexCheckpoints := by
  unfold applySingleEdit at restarted
  simp only [applied] at restarted
  split at restarted
  · cases restarted
  rename_i selected chosen
  split at restarted
  · cases restarted
  rename_i lexed relexed
  obtain ⟨rfl, -⟩ := Prod.mk.inj restarted
  have early := restart_before_boundary state edit _ _ selected committed.stored chosen
  have before := kept_tokens_before state edit _ early
  obtain ⟨fresh, tells⟩ := lex_from_live_tokens belong edited.source edited.lineIndex
    selected.liveCheckpoint lexed relexed
  have snapshot := congrArg IncrementalState.snapshot shape
  have tokens : edited.tokens = state.tokens := by rw [shape]
  have stored : edited.storedLexCheckpoints = state.storedLexCheckpoints := by rw [shape]
  refine ⟨rfl, rfl, rfl, snapshot, ?_, ?_⟩
  · intro token among
    rcases mem_append.mp among with kept | new
    · rw [tokens, ← prefix_iff_eq_take.mp (List.takeWhile_prefix _)] at kept
      have apart := before token kept
      have held := committed.tokens token ((List.takeWhile_prefix _).subset kept)
      refine belong.kept state.source edited.source token held ?_
      have shorter := congrArg (List.take token.stop) unchanged
      rwa [take_take, take_take, Nat.min_eq_left (Nat.le_of_lt apart)] at shorter
    · exact fresh token new
  · intro checkpoint among
    rcases mem_append.mp among with carried | new
    · obtain ⟨old, taken, moved⟩ := mem_filterMap.mp carried
      have held := (List.takeWhile_prefix _).subset taken
      rw [stored] at held
      exact transform_tells (committed.stored old held) moved
    · exact tells checkpoint new

theorem text_before_edit (state edited : IncrementalState engine) (edit : Edit)
    (range : edit.InRange state.source) (applied : applyTextEditToState state edit = .ok edited) :
    (encode edited.source).take edit.startByte = (encode state.source).take edit.startByte := by
  obtain ⟨before, replaced, after, cut, start, stop⟩ :=
    range.parts (nil_append state.source).symm (Nat.zero_le _)
  rw [nil_append] at start stop
  have result := apply_text_edit state edit before replaced after cut start stop
  rw [applied] at result
  have source : edited.source = before ++ edit.newText ++ after :=
    congrArg IncrementalState.source (Except.ok.inj result)
  rw [source, cut, ← start]
  have front : ∀ rest, (encode before ++ rest).take (size before) = encode before :=
    fun rest => take_left' rfl
  simp only [encode_append, append_assoc, front]

theorem one_edit_outcome (belong : TokensBelong engine.lexer Belongs)
    (state edited : IncrementalState engine) (edit : Edit) (committed : Committed Belongs state)
    (applied : applyTextEditToState state edit = .ok edited)
    (shape : edited = { state with
      source := edited.source, rope := edited.rope, lineIndex := edited.lineIndex })
    (matched : TextMatches edited)
    (unchanged : (encode edited.source).take edit.startByte = (encode state.source).take edit.startByte) :
    Outcome Belongs state edited.source (applyOneEdit state edit) := by
  have snapshot : edited.snapshot = state.snapshot := by rw [shape]
  have fallback := full_reparse_outcome belong state [edit] edited matched snapshot
    (by simp only [applyTextEdits, applied])
  unfold applyOneEdit
  split
  · exact fallback
  split
  · exact fallback
  rename_i candidate reparse restarted
  obtain ⟨source, rope, lineIndex, generation, tokens, tells⟩ := single_edit_tokens belong
    state edited candidate edit reparse committed applied shape unchanged restarted
  obtain ⟨room, failed⟩ | ⟨room, next, advanced, refreshed⟩ :=
    refresh_cases candidate .incrementalTokenRestartThenFullParse
  · rw [generation] at room
    simp only [failed]
    exact .inl ⟨room, rfl, _, rfl⟩
  rw [generation] at room advanced
  simp only [refreshed]
  have text : TextMatches candidate :=
    ⟨by rw [rope, source, matched.rope], by rw [lineIndex, source, matched.lineIndex]⟩
  rw [← source] at tokens
  exact .inr ⟨room, ⟨⟨text.rope, text.lineIndex⟩, tokens, tells, rfl, rfl, rfl, rfl⟩, source,
    advanced, _, rfl⟩

/-- Applying an accepted batch's texts from the last to the first gives the simultaneous splice. -/
theorem accepted_text (state : IncrementalState engine) (edits ordered : List Edit)
    (matched : TextMatches state) (accepted : Accepted state.source edits ordered) :
    ∃ edited, applyTextEdits state ordered.reverse = (edited, .ok ()) ∧ edited = { state with
        source := edited.source, rope := edited.rope, lineIndex := edited.lineIndex } ∧
      TextMatches edited ∧
      encode edited.source = Splice.simultaneous (encode state.source) (edits.map Edit.patch) := by
  obtain ⟨text, edited, run, shape, textMatched, bytes⟩ := apply_text_edits_pieces state ordered []
    state.source rfl accepted.inRange accepted.follow (fun _ _ => Nat.zero_le _) matched
  have source : edited.source = text := congrArg IncrementalState.source shape
  have ascending := accepted.ascending
  refine ⟨edited, run, by rw [source]; exact shape, textMatched, ?_⟩
  have reordered := Splice.simultaneous_perm (encode state.source) (accepted.perm.map Edit.patch) ascending
  rw [source, bytes, ← reordered, ← Splice.foldr_apply_simultaneous _ _ ascending.chained,
    Splice.foldr_apply_pieces _ _ 0 ascending.chained fun _ _ => Nat.zero_le _]
  rfl

theorem apply_edits_outcome (belong : TokensBelong engine.lexer Belongs)
    (state : IncrementalState engine) (committed : Committed Belongs state) (edits : List Edit)
    (total : Nat) (valid : validateEdits state.source edits = .ok total) (some : edits ≠ []) :
    ∃ source, encode source = Splice.simultaneous (encode state.source) (edits.map Edit.patch) ∧
      Outcome Belongs state source (applyEdits state edits) := by
  have accepted := validate_edits_accepts valid
  obtain ⟨edited, run, shape, matched, bytes⟩ :=
    accepted_text state edits _ committed.text accepted
  have snapshot : edited.snapshot = state.snapshot := by rw [shape]
  have full := full_reparse_outcome belong state _ edited matched snapshot run
  refine ⟨edited.source, bytes, ?_⟩
  unfold applyEdits
  simp only [valid, accepted.byStart]
  rw [if_neg (by simpa using some)]
  split
  · exact full
  split
  · next edit single =>
      have only : edits.mergeSort byRange = [edit] := by
        rw [← reverse_reverse (edits.mergeSort byRange), single]
        rfl
      rw [only] at accepted run
      have range := accepted.inRange edit (mem_singleton.mpr rfl)
      have applied : applyTextEditToState state edit = .ok edited := by
        simp only [reverse_singleton, applyTextEdits] at run
        cases result : applyTextEditToState state edit with
        | error reason => simp [result] at run
        | ok next =>
          rw [result] at run
          exact congrArg Except.ok (Prod.mk.inj run).1
      exact one_edit_outcome belong state edited edit committed applied shape matched
        (text_before_edit state edited edit range applied)
  · exact full

section
variable (state : IncrementalState engine)
include state

theorem apply_edits_refused (edits : List Edit) (error : String)
    (refused : validateEdits state.source edits = .error error) :
    applyEdits state edits = (state, .error error) := by
  unfold applyEdits
  simp only [refused]

theorem apply_edits_empty : ∃ total, validateEdits state.source [] = .ok total ∧
      applyEdits state [] = (state, .ok (unchangedResult state)) := by
  have valid : validateEdits state.source [] = .ok 0 := by
    simp [validateEdits, validateFrom]
  refine ⟨0, valid, ?_⟩
  unfold applyEdits
  simp only [valid]
  rfl

/-- An accepted batch has one outcome, whatever the order its edits are given in. -/
theorem apply_edits_reordered (edits other : List Edit)
    (total : Nat) (valid : validateEdits state.source edits = .ok total)
    (same : other.Perm edits) : applyEdits state other = applyEdits state edits := by
  have accepted := validate_edits_accepts valid
  have acceptedOther := accepted.reordered same
  have validOther : validateEdits state.source other = .ok total := by
    unfold validateEdits at valid ⊢
    rw [acceptedOther.byRange]
    exact valid
  have empty : other.isEmpty = edits.isEmpty := by
    rw [Bool.eq_iff_iff, isEmpty_iff_length_eq_zero, isEmpty_iff_length_eq_zero, same.length_eq]
  unfold applyEdits
  simp only [valid, validOther, empty, accepted.byStart, acceptedOther.byStart]

end

def Commits (Belongs : List Char → LexToken engine.Kind → Prop) (state : IncrementalState engine)
    (edits : List Edit) : Prop :=
  ((∃ result, (applyEdits state edits).2 = .ok result) ↔
    (∃ total, validateEdits state.source edits = .ok total) ∧
      (edits = [] ∨ state.snapshot.generation.toNat + 1 < 2 ^ 64)) ∧
  (∀ result, (applyEdits state edits).2 = .ok result →
    encode (applyEdits state edits).1.source =
      Splice.simultaneous (encode state.source) (edits.map Edit.patch) ∧
    Committed Belongs (applyEdits state edits).1 ∧
    (applyEdits state edits).1.snapshot.generation.toNat =
      state.snapshot.generation.toNat + (if edits = [] then 0 else 1) ∧
    ∀ other, other.Perm edits → applyEdits state other = applyEdits state edits) ∧
  (∀ error, (applyEdits state edits).2 = .error error → (applyEdits state edits).1 = state)

theorem apply_edits_commits (belong : TokensBelong engine.lexer Belongs)
    (state : IncrementalState engine) (committed : Committed Belongs state) (edits : List Edit) :
    Commits Belongs state edits := by
  unfold Commits
  cases valid : validateEdits state.source edits with
  | error reason =>
    rw [apply_edits_refused state edits reason valid]
    refine ⟨⟨?_, ?_⟩, ?_, fun _ _ => rfl⟩
    · rintro ⟨result, impossible⟩
      cases impossible
    · rintro ⟨⟨total, impossible⟩, -⟩
      cases impossible
    · intro result impossible
      cases impossible
  | ok total =>
    by_cases none : edits = []
    · subst none
      obtain ⟨-, -, unchanged⟩ := apply_edits_empty state
      rw [unchanged]
      refine ⟨⟨fun _ => ⟨⟨total, rfl⟩, .inl rfl⟩, fun _ => ⟨_, rfl⟩⟩, ?_, fun _ _ => rfl⟩
      intro result _
      refine ⟨?_, committed, rfl, fun other same => ?_⟩
      · exact Splice.foldr_apply_simultaneous (encode state.source) []
          ⟨List.Pairwise.nil, fun _ among => by cases among⟩
      · rw [perm_nil.mp same, unchanged]
    · obtain ⟨source, bytes, outcome⟩ :=
        apply_edits_outcome belong state committed edits total valid none
      obtain ⟨full, unchanged, error, failed⟩ | ⟨room, held, sourceIs, advanced, result, ok⟩ :=
        outcome
      · refine ⟨⟨?_, ?_⟩, ?_, fun _ _ => unchanged⟩
        · rintro ⟨result, impossible⟩
          rw [failed] at impossible
          cases impossible
        · rintro ⟨-, empty | room⟩
          · exact absurd empty none
          · exact absurd room full
        · intro result impossible
          rw [failed] at impossible
          cases impossible
      · refine ⟨⟨fun _ => ⟨⟨total, rfl⟩, .inr room⟩, fun _ => ⟨result, ok⟩⟩, ?_, ?_⟩
        · intro _ _
          refine ⟨by rw [sourceIs, bytes], held, by rw [if_neg none]; exact advanced, ?_⟩
          intro other same
          exact apply_edits_reordered state edits other total valid same
        · intro error impossible
          rw [ok] at impossible
          cases impossible

def step (state : IncrementalState engine) (edits : List Edit) : IncrementalState engine :=
  (applyEdits state edits).1

theorem step_committed (belong : TokensBelong engine.lexer Belongs)
    (state : IncrementalState engine) (edits : List Edit) (committed : Committed Belongs state) :
    Committed Belongs (step state edits) := by
  obtain ⟨-, commits, refuses⟩ := apply_edits_commits belong state committed edits
  unfold step
  cases result : (applyEdits state edits).2 with
  | error error =>
    rw [refuses error result]
    exact committed
  | ok reparse => exact (commits reparse result).2.1

end Commits

section ScalarEngine

theorem places_belong {Identity Kind : Type} {lexer : Lexer Identity Kind}
    (places : Places lexer) : TokensBelong lexer fun source token =>
      slice source token.start token.stop = some token.text where
  emitted := by
    intro source state token next reads read inner
    exact (places.token source state token next reads read inner).1
  kept := by
    intro old new token held same
    exact slice_unchanged old new token.text token.start token.stop held same

def scalarEngine : Engine where
  Identity := List Char
  Kind := ScalarKind
  Output := List Char
  ParseCheckpoint := Unit
  Digest := List UInt8
  lexer := scalarLexer
  parseWithRecovery := id
  createParseCheckpoints := fun _ => []
  digestOfBytes := id
  sameDigest := inferInstance

theorem swapped_edits_sorted :
    [(⟨1, 2, 1, []⟩ : Edit), ⟨0, 0, 2, [';', ';']⟩].mergeSort byRange =
      [⟨0, 0, 2, [';', ';']⟩, ⟨1, 2, 1, []⟩] := by
  simp [List.mergeSort, List.MergeSort.Internal.splitInTwo, byRange]

end ScalarEngine

end PerlLsp.Incremental
