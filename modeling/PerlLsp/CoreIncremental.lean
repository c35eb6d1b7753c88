import PerlLsp.CheckpointedParser

/-! `IncrementalState` of perl-parser-core/src/incremental.rs. A reparse parses the whole new
source, or reads again a window between two checkpoints and puts the tokens around it, cached from
the last reading, on both sides. The parser is a parameter. -/
namespace PerlLsp.CoreIncremental
open Utf8 Checkpoint TokenCache CheckpointedParser

def checkpointInterval : Nat := 256

def maxIncrementalEditBytes : Nat := 4096

structure IncrementalEdit where
  startByte : Nat
  oldEndByte : Nat
  newText : List Char

def IncrementalEdit.touchedBytes (edit : IncrementalEdit) : Nat :=
  saturatingAdd (edit.oldEndByte - edit.startByte) (size edit.newText)

inductive FallbackReason where
  | editTooLarge
  | noCheckpointWindow
  | cacheBoundaryUnavailable
  | tokenReplayFailed
  | contextSensitiveFormat
  | recoveryDiagnosticsUnstable
  deriving DecidableEq

structure IncrementalMetrics where
  fullParse : Bool
  reparsedBytes : Nat
  tokensReused : Nat
  tokensRelexed : Nat
  changedRange : Nat × Nat
  fallback : Option FallbackReason
  deriving DecidableEq

def IncrementalMetrics.full (sourceLen : Nat) (fallback : Option FallbackReason) : IncrementalMetrics :=
  ⟨true, sourceLen, 0, 0, (0, sourceLen), fallback⟩

/-- The lexer with the parser above it. A parse gives the tree and the diagnostics. -/
structure Engine extends Frontend where
  Node : Type
  ParseError : Type
  syntaxError : String → Nat → ParseError
  parse : List Char → Except ParseError (Node × List ParseError)
  parseTokens : List Token → List Char → Except ParseError (Node × List ParseError)

variable (engine : Engine)

structure IncrementalState where
  source : List Char
  tokens : List Token
  checkpoints : List (LexerCheckpoint engine.Identity)
  latestMetrics : IncrementalMetrics
  diagnostics : List engine.ParseError

def tokensFrom (state : engine.lexer.State) : List Token :=
  lexerTokensToParserTokens engine.toFrontend (rawTokens engine.toFrontend
    (readAll engine.toFrontend state))

-- a checkpoint behind the first token that ends at the next mark or later
def recordFull : Nat → List (LexToken engine.Kind × engine.lexer.State) →
    List (LexerCheckpoint engine.Identity)
  | _, [] => []
  | mark, (token, after) :: rest =>
    if engine.lexer.isEof token.tokenType then []
    else if mark ≤ token.stop then
      engine.lexer.checkpoint after :: recordFull (saturatingAdd token.stop checkpointInterval) rest
    else recordFull mark rest

def lexFull (source : List Char) : List Token × List (LexerCheckpoint engine.Identity) :=
  let start := engine.lexer.new source
  (tokensFrom engine start,
    engine.lexer.checkpoint start ::
      recordFull engine checkpointInterval (readAll engine.toFrontend start))

def isizeMax : Int := 2 ^ 63 - 1

def shiftOffset (offset : Nat) (delta : Int) : Nat := (min (offset + delta) isizeMax).toNat

def containsFormatDeclaration (source : List Char) : Bool :=
  (Text.lines source).any fun line => "format ".toList.isPrefixOf (Text.trimStart line)

def shiftToken (delta : Int) (token : Token) : Option Token :=
  (Token.newChecked token.kind token.text (shiftOffset token.start delta)
    (shiftOffset token.stop delta)).toOption

def replayCrossesCachedSuffix (replayed suffix : List Token) : Bool :=
  match replayed.getLast? with
  | none => false
  | some last => suffix.head?.any fun token => token.start < last.stop

/-- `dedup_by_key`: of neighbours at one position the first is kept. -/
def dedupByPosition {Identity : Type} :
    List (LexerCheckpoint Identity) → List (LexerCheckpoint Identity)
  | [] => []
  | first :: rest =>
    match dedupByPosition rest with
    | [] => [first]
    | second :: rest =>
      if first.position = second.position then first :: rest else first :: second :: rest

def sortByPosition {Identity : Type} (checkpoints : List (LexerCheckpoint Identity)) :
    List (LexerCheckpoint Identity) :=
  checkpoints.insertionSort fun left right => left.position ≤ right.position

def carryCheckpoint (edit : IncrementalEdit) (oldRelexStart oldRelexEnd : Nat)
    (newSource : List Char) (checkpoint : LexerCheckpoint engine.Identity) :
    Option (LexerCheckpoint engine.Identity) :=
  if oldRelexStart < checkpoint.position ∧ checkpoint.position < oldRelexEnd then none
  else
    let shifted :=
      if edit.oldEndByte ≤ checkpoint.position then
        checkpoint.applyEdit edit.startByte (edit.oldEndByte - edit.startByte) (size edit.newText)
      else checkpoint
    if shifted.invalidated || size newSource < shifted.position then none
    else (shifted.rebindToSource engine.lexer.retarget newSource).toOption

def mergeCheckpoints (old replay : List (LexerCheckpoint engine.Identity))
    (edit : IncrementalEdit) (oldRelexStart oldRelexEnd : Nat) (newSource : List Char) :
    List (LexerCheckpoint engine.Identity) :=
  let merged := old.filterMap (carryCheckpoint engine edit oldRelexStart oldRelexEnd newSource) ++ replay
  let checkpoints :=
    if merged.isEmpty then [engine.lexer.checkpoint (engine.lexer.new newSource)] else merged
  dedupByPosition (sortByPosition checkpoints)

structure Window where
  raw : List (LexToken engine.Kind)
  checkpoints : List (LexerCheckpoint engine.Identity)
  rest : List (LexToken engine.Kind × engine.lexer.State)

def replayWindow (newRelexEnd : Nat) : Nat → List (LexToken engine.Kind × engine.lexer.State) →
    Window engine
  | _, [] => ⟨[], [], []⟩
  | mark, (token, after) :: rest =>
    if engine.lexer.isEof token.tokenType then ⟨[], [], (token, after) :: rest⟩
    else if newRelexEnd ≤ token.start then ⟨[], [], (token, after) :: rest⟩
    else
      let marked := if mark ≤ token.stop then [engine.lexer.checkpoint after] else []
      let next :=
        if mark ≤ token.stop then saturatingAdd token.stop checkpointInterval else mark
      if newRelexEnd ≤ token.stop then
        ⟨[token], marked ++ [engine.lexer.checkpoint after], rest⟩
      else
        let more := replayWindow newRelexEnd next rest
        ⟨token :: more.raw, marked ++ more.checkpoints, more.rest⟩

variable {engine}

def findBefore (checkpoints : List (LexerCheckpoint engine.Identity)) (position : Nat) :
    Option (LexerCheckpoint engine.Identity) :=
  checkpoints.reverse.find? fun checkpoint => checkpoint.position ≤ position

def findAfter (checkpoints : List (LexerCheckpoint engine.Identity)) (position : Nat) :
    Option (LexerCheckpoint engine.Identity) :=
  checkpoints.find? fun checkpoint => position ≤ checkpoint.position

structure Replay (engine : Engine) where
  oldRelexStart : Nat
  oldRelexEnd : Nat
  newRelexEnd : Nat
  restored : engine.lexer.State
  window : Window engine
  before : List Token
  behind : List Token

def Replay.reparsed (replay : Replay engine) : List Token :=
  lexerTokensToParserTokens engine.toFrontend replay.window.raw

def Replay.assembled (replay : Replay engine) : List Token :=
  replay.before ++ replay.reparsed ++ replay.behind

def byteDelta (edit : IncrementalEdit) : Int :=
  size edit.newText - (edit.oldEndByte - edit.startByte : Nat)

namespace IncrementalState

def new (source : List Char) : IncrementalState engine :=
  let (tokens, checkpoints) := lexFull engine source
  ⟨source, tokens, checkpoints, .full (size source) none, []⟩

def validateEdit (state : IncrementalState engine) (newSource : List Char)
    (edit : IncrementalEdit) : Except engine.ParseError Unit :=
  let expectedLen := saturatingAdd (size state.source - (edit.oldEndByte - edit.startByte))
    (size edit.newText)
  let newEditEnd := edit.startByte + size edit.newText
  if edit.oldEndByte < edit.startByte ∨ size state.source < edit.oldEndByte then
    .error (engine.syntaxError ("invalid incremental edit range " ++ toString edit.startByte ++
      ".." ++ toString edit.oldEndByte ++ " for source length " ++ toString (size state.source))
      edit.startByte)
  else if !isCharBoundary state.source edit.startByte ||
      !isCharBoundary state.source edit.oldEndByte then
    .error (engine.syntaxError "incremental edit is not aligned to UTF-8 boundaries" edit.startByte)
  else if size newSource ≠ expectedLen then
    .error (engine.syntaxError ("new source length mismatch: expected " ++ toString expectedLen ++
      " bytes, got " ++ toString (size newSource)) edit.startByte)
  else if Text.usizeMax < newEditEnd then
    .error (engine.syntaxError "incremental edit range overflows the new source" edit.startByte)
  else if size newSource < edit.startByte || size newSource < newEditEnd ||
      !isCharBoundary newSource edit.startByte || !isCharBoundary newSource newEditEnd then
    .error (engine.syntaxError "new source edit is not aligned to UTF-8 boundaries" edit.startByte)
  else if slice newSource edit.startByte newEditEnd ≠ some edit.newText then
    .error (engine.syntaxError "new source does not contain the replacement text at the edit range"
      edit.startByte)
  else .ok ()

def replayStart (state : IncrementalState engine) (editStart : Nat) : Option Nat := do
  let checkpoint ← findBefore state.checkpoints editStart
  if checkpoint.position = 0 then return 0
  let prefixToken ← state.tokens.reverse.find? fun token => token.stop ≤ checkpoint.position
  let preceding ← findBefore state.checkpoints prefixToken.start
  if preceding.position < checkpoint.position then some preceding.position else none

def replayEnd (state : IncrementalState engine) (editEnd : Nat) : Option Nat :=
  match findAfter state.checkpoints editEnd with
  | none => some (size state.source)
  | some checkpoint =>
    if checkpoint.position ≠ editEnd then some checkpoint.position
    else
      match state.checkpoints.find? fun candidate => checkpoint.position < candidate.position with
      | none => some (size state.source)
      | some next => some next.position

def fullReparse (state : IncrementalState engine) (source : List Char)
    (fallback : Option FallbackReason) : Except engine.ParseError engine.Node × IncrementalState engine :=
  match engine.parse source with
  | .error error => (.error error, state)
  | .ok (root, diagnostics) =>
    let (tokens, checkpoints) := lexFull engine source
    (.ok root, {
      source := source
      tokens := tokens
      checkpoints := checkpoints
      latestMetrics := { IncrementalMetrics.full (size source) fallback with
        tokensRelexed := tokens.length }
      diagnostics := diagnostics })

/-- The part of `reparse` from the checkpoint window to the assembled tokens. -/
def replay (state : IncrementalState engine) (newSource : List Char) (edit : IncrementalEdit) :
    Except FallbackReason (Replay engine) :=
  match state.replayStart edit.startByte, state.replayEnd edit.oldEndByte with
  | some oldRelexStart, some oldRelexEnd =>
    if oldRelexEnd < oldRelexStart ∨ size state.source < oldRelexEnd then
      .error .noCheckpointWindow
    else
      let newRelexEnd := shiftOffset oldRelexEnd (byteDelta edit)
      match (state.tokens.filter fun token => oldRelexEnd ≤ token.start).mapM
          (shiftToken (byteDelta edit)) with
      | none => .error .cacheBoundaryUnavailable
      | some behind =>
        match restoreLeft newSource
            (state.checkpoints.find? fun checkpoint => checkpoint.position = oldRelexStart) with
        | none => .error .noCheckpointWindow
        | some (_, restored) =>
          let window := replayWindow engine newRelexEnd
            (saturatingAdd oldRelexStart checkpointInterval)
            (readAll engine.toFrontend restored)
          let replay : Replay engine :=
            { oldRelexStart := oldRelexStart
              oldRelexEnd := oldRelexEnd
              newRelexEnd := newRelexEnd
              restored := restored
              window := window
              before := state.tokens.filter fun token => token.stop ≤ oldRelexStart
              behind := behind }
          if window.raw.getLast?.any fun token => newRelexEnd < token.stop then
            .error .cacheBoundaryUnavailable
          else if replayCrossesCachedSuffix replay.reparsed behind then
            .error .cacheBoundaryUnavailable
          else .ok replay
  | _, _ => .error .noCheckpointWindow

def reparse (state : IncrementalState engine) (newSource : List Char) (edit : IncrementalEdit) :
    Except engine.ParseError engine.Node × IncrementalState engine :=
  match state.validateEdit newSource edit with
  | .error error => (.error error, state)
  | .ok () =>
    if maxIncrementalEditBytes < edit.touchedBytes then
      state.fullReparse newSource (some .editTooLarge)
    else if containsFormatDeclaration state.source || containsFormatDeclaration newSource then
      state.fullReparse newSource (some .contextSensitiveFormat)
    else
      match state.replay newSource edit with
      | .error reason => state.fullReparse newSource (some reason)
      | .ok replay =>
        match engine.parseTokens replay.assembled newSource with
        | .error _ => state.fullReparse newSource (some .tokenReplayFailed)
        | .ok (root, diagnostics) =>
          if !diagnostics.isEmpty then
            state.fullReparse newSource (some .recoveryDiagnosticsUnstable)
          else
            (.ok root, {
              source := newSource
              tokens := replay.assembled
              checkpoints := mergeCheckpoints engine state.checkpoints
                replay.window.checkpoints edit replay.oldRelexStart replay.oldRelexEnd newSource
              latestMetrics :=
                { fullParse := false
                  reparsedBytes := replay.newRelexEnd - replay.oldRelexStart
                  tokensReused := replay.assembled.length - replay.reparsed.length
                  tokensRelexed := replay.reparsed.length
                  changedRange := (replay.oldRelexStart, replay.newRelexEnd)
                  fallback := none }
              diagnostics := diagnostics })

section
variable (state after : IncrementalState engine) (source : List Char) (fallback : Option FallbackReason)
include state after source fallback

theorem full_reparse_ok (root : engine.Node) (done : state.fullReparse source fallback = (.ok root, after)) :
    after.source = source ∧ after.tokens = (lexFull engine source).1 := by
  unfold fullReparse at done
  split at done
  · cases done
  · cases done
    exact ⟨rfl, rfl⟩

theorem full_reparse_error (error : engine.ParseError)
    (failed : state.fullReparse source fallback = (.error error, after)) : after = state := by
  unfold fullReparse at failed
  split at failed
  · cases failed
    rfl
  · cases failed

end

/-- The bounded path is taken: nothing before it falls back, and the parser accepts the assembled
tokens without a diagnostic. -/
def takesBoundedPath (state : IncrementalState engine) (newSource : List Char)
    (edit : IncrementalEdit) (replay : Replay engine) : Bool :=
  (state.validateEdit newSource edit).isOk &&
    decide (edit.touchedBytes ≤ maxIncrementalEditBytes) &&
    !containsFormatDeclaration state.source && !containsFormatDeclaration newSource &&
    match engine.parseTokens replay.assembled newSource with
    | .ok (_, diagnostics) => diagnostics.isEmpty
    | .error _ => false

section
variable (state after : IncrementalState engine) (newSource : List Char) (edit : IncrementalEdit)
include state after newSource edit

theorem reparse_error (error : engine.ParseError)
    (failed : state.reparse newSource edit = (.error error, after)) : after = state := by
  unfold reparse at failed
  split at failed
  · cases failed
    rfl
  split at failed
  · exact full_reparse_error _ _ _ _ _ failed
  split at failed
  · exact full_reparse_error _ _ _ _ _ failed
  split at failed
  · exact full_reparse_error _ _ _ _ _ failed
  split at failed
  · exact full_reparse_error _ _ _ _ _ failed
  split at failed
  · exact full_reparse_error _ _ _ _ _ failed
  · cases failed

theorem reparse_ok (root : engine.Node) (done : state.reparse newSource edit = (.ok root, after)) :
    after.source = newSource ∧ (after.tokens = (lexFull engine newSource).1 ∨
        ∃ replay, state.replay newSource edit = .ok replay ∧
          state.takesBoundedPath newSource edit replay = true ∧ after.tokens = replay.assembled) := by
  have whole : ∀ fallback, state.fullReparse newSource fallback = (.ok root, after) →
      after.source = newSource ∧ (after.tokens = (lexFull engine newSource).1 ∨
          ∃ replay, state.replay newSource edit = .ok replay ∧
            state.takesBoundedPath newSource edit replay = true ∧
            after.tokens = replay.assembled) := by
    intro fallback full
    obtain ⟨source, tokens⟩ := full_reparse_ok _ _ _ _ _ full
    exact ⟨source, .inl tokens⟩
  unfold reparse at done
  split at done
  · cases done
  next valid =>
  split at done
  · exact whole _ done
  next small =>
  split at done
  · exact whole _ done
  next plain =>
  split at done
  · exact whole _ done
  next replay replayed =>
  split at done
  · exact whole _ done
  next parsed diagnostics accepted =>
  split at done
  · exact whole _ done
  next clean =>
    cases done
    refine ⟨rfl, .inr ⟨replay, replayed, ?_, rfl⟩⟩
    have formats : containsFormatDeclaration state.source = false ∧
        containsFormatDeclaration newSource = false := by simpa using plain
    have valid' : (state.validateEdit newSource edit).isOk = true := by
      rw [valid]
      rfl
    have quiet : diagnostics = [] := by simpa using clean
    simp [takesBoundedPath, valid', formats, accepted, quiet, Nat.le_of_not_lt small]

end

end IncrementalState

/-- The effect of an edit on the reading stays within the window: before the restart the lexer reads
the new text as the old one and goes on as from the restored checkpoint; behind the window it reads
the old text's tokens, moved. -/
def ReadsAlikeOutside (old new : List Char) (edit : IncrementalEdit) (replay : Replay engine) : Prop :=
  (lexFull engine new).1 =
      ((lexFull engine old).1.filter fun token => token.stop ≤ replay.oldRelexStart) ++
        tokensFrom engine replay.restored ∧
    ((lexFull engine old).1.filter fun token => replay.oldRelexEnd ≤ token.start).mapM
        (shiftToken (byteDelta edit)) =
      some (lexerTokensToParserTokens engine.toFrontend
        (rawTokens engine.toFrontend replay.window.rest))

theorem raw_tokens_cons (token : LexToken engine.Kind) (after : engine.lexer.State)
    (rest : List (LexToken engine.Kind × engine.lexer.State)) :
    rawTokens engine.toFrontend ((token, after) :: rest) =
      if engine.lexer.isEof token.tokenType then rawTokens engine.toFrontend rest
      else token :: rawTokens engine.toFrontend rest := by
  cases last : engine.lexer.isEof token.tokenType <;> simp [rawTokens, last]

-- nothing of what is read is lost at the right end of the window
theorem replay_window_splits (newRelexEnd mark : Nat)
    (reads : List (LexToken engine.Kind × engine.lexer.State)) :
    rawTokens engine.toFrontend reads = (replayWindow engine newRelexEnd mark reads).raw ++
        rawTokens engine.toFrontend (replayWindow engine newRelexEnd mark reads).rest := by
  induction reads generalizing mark with
  | nil => rfl
  | cons read rest ih =>
    obtain ⟨token, after⟩ := read
    rw [replayWindow]
    cases last : engine.lexer.isEof token.tokenType with
    | true => rfl
    | false =>
      simp only [Bool.false_eq_true, if_false]
      split
      · rfl
      rw [raw_tokens_cons, last]
      simp only [Bool.false_eq_true, if_false]
      split
      · rfl
      · rw [ih]
        rfl

theorem parser_tokens_append (left right : List (LexToken engine.Kind)) :
    lexerTokensToParserTokens engine.toFrontend (left ++ right) =
      lexerTokensToParserTokens engine.toFrontend left ++
        lexerTokensToParserTokens engine.toFrontend right := by
  simp [lexerTokensToParserTokens]

namespace IncrementalState

structure ReplayOf (state : IncrementalState engine) (edit : IncrementalEdit)
    (replay : Replay engine) : Prop where
  before : replay.before = state.tokens.filter fun token => token.stop ≤ replay.oldRelexStart
  behind : (state.tokens.filter fun token => replay.oldRelexEnd ≤ token.start).mapM
    (shiftToken (byteDelta edit)) = some replay.behind
  window : replay.window = replayWindow engine replay.newRelexEnd
    (saturatingAdd replay.oldRelexStart checkpointInterval)
    (readAll engine.toFrontend replay.restored)

variable (state : IncrementalState engine) (newSource : List Char) (edit : IncrementalEdit)
  (replay : Replay engine)

theorem replay_of (replayed : state.replay newSource edit = .ok replay) : ReplayOf state edit replay := by
  unfold IncrementalState.replay at replayed
  split at replayed
  · next oldRelexStart oldRelexEnd starts ends =>
      split at replayed
      · cases replayed
      dsimp only at replayed
      split at replayed
      · cases replayed
      next behind moved =>
      split at replayed
      · cases replayed
      next position restored restores =>
      split at replayed
      · cases replayed
      split at replayed
      · cases replayed
      · cases replayed
        exact ⟨rfl, moved, rfl⟩
  · cases replayed

def FreshTokens (state : IncrementalState engine) : Prop :=
  state.tokens = (lexFull engine state.source).1

theorem assembled_fresh (fresh : FreshTokens state) (replayed : state.replay newSource edit = .ok replay)
    (alike : ReadsAlikeOutside state.source newSource edit replay) :
    replay.assembled = (lexFull engine newSource).1 := by
  obtain ⟨before, behind, window⟩ := replay_of state newSource edit replay replayed
  obtain ⟨left, right⟩ := alike
  rw [fresh] at before behind
  have split : tokensFrom engine replay.restored =
      replay.reparsed ++ lexerTokensToParserTokens engine.toFrontend
        (rawTokens engine.toFrontend replay.window.rest) := by
    rw [tokensFrom, Replay.reparsed, ← parser_tokens_append, window, ← replay_window_splits]
  have suffix : replay.behind = lexerTokensToParserTokens engine.toFrontend
      (rawTokens engine.toFrontend replay.window.rest) :=
    Option.some.inj (behind.symm.trans right)
  rw [Replay.assembled, before, suffix, left, split, List.append_assoc]

def spliced (source : List Char) (edit : IncrementalEdit) : List Char :=
  replaceRange source ⟨edit.startByte, edit.oldEndByte, edit.newText⟩

def step (state : IncrementalState engine) (edit : IncrementalEdit) : IncrementalState engine :=
  (state.reparse (spliced state.source edit) edit).2

def Contained (state : IncrementalState engine) (edit : IncrementalEdit) : Prop :=
  ∀ replay ∈ (state.replay (spliced state.source edit) edit).toOption,
    state.takesBoundedPath (spliced state.source edit) edit replay = true →
      ReadsAlikeOutside state.source (spliced state.source edit) edit replay

theorem step_fresh (fresh : FreshTokens state) (contained : Contained state edit) :
    FreshTokens (step state edit) := by
  unfold step
  cases result : state.reparse (spliced state.source edit) edit with
  | mk outcome after =>
    cases outcome with
    | error error =>
      rw [reparse_error _ _ _ _ _ result]
      exact fresh
    | ok root =>
      obtain ⟨source, whole | ⟨replay, replayed, taken, assembled⟩⟩ :=
        reparse_ok _ _ _ _ _ result
      · rw [FreshTokens, source]
        exact whole
      have among : replay ∈ (state.replay (spliced state.source edit) edit).toOption := by
        rw [replayed]
        rfl
      rw [FreshTokens, source, assembled]
      exact assembled_fresh _ _ _ _ fresh replayed (contained replay among taken)

end IncrementalState

section Digits

/-! A lexer of runs of digits and single characters. On texts of digits and
semicolons the Perl lexer reads the same tokens. -/

inductive DigitKind where
  | number
  | single
  | eof
  deriving DecidableEq

structure DigitState where
  content : List Char
  position : Nat
  rest : List Char
  mode : LexerMode

def digitNext (state : DigitState) : Option (LexToken DigitKind × DigitState) :=
  match state.rest with
  | [] => some (⟨.eof, [], state.position, state.position⟩, state)
  | first :: rest =>
    if first.isDigit then
      let text := first :: rest.takeWhile Char.isDigit
      let stop := state.position + size text
      some (⟨.number, text, state.position, stop⟩,
        ⟨state.content, stop, rest.dropWhile Char.isDigit, .expectOperator⟩)
    else
      let stop := state.position + size [first]
      some (⟨.single, [first], state.position, stop⟩, ⟨state.content, stop, rest, .expectTerm⟩)

theorem digit_next_shorter (state : DigitState) (token : LexToken DigitKind) (next : DigitState)
    (read : digitNext state = some (token, next))
    (inner : decide (token.tokenType = .eof) = false) : next.rest.length < state.rest.length := by
  unfold digitNext at read
  split at read
  · cases read
    cases inner
  rename_i first rest shape
  rw [shape]
  split at read
  · cases read
    exact Nat.lt_succ_of_le (List.dropWhile_suffix Char.isDigit).length_le
  · cases read
    exact Nat.lt_succ_self _

def digitReplay (source : List Char) (replay : ReplayState) : DigitState :=
  match splitAtByte source replay.position with
  | some parts => ⟨source, replay.position, parts.2, replay.mode⟩
  | none => ⟨source, 0, source, .expectTerm⟩

def digitLexer : Lexer (List Char) DigitKind where
  State := DigitState
  new := fun source => ⟨source, 0, source, .expectTerm⟩
  checkpoint := fun state =>
    ⟨state.content, { plainReplay state.position with mode := state.mode }, false, true⟩
  nextToken := digitNext
  isEof := fun kind => decide (kind = .eof)
  replay := digitReplay
  matchesTarget := fun content source => if content = source then .ok () else .error .wrongContent
  retarget := fun _ source => source
  remaining := fun state => state.rest.length
  advances := digit_next_shorter

/-- A parser that accepts what it is given, as the Perl parser does a program of
numbers. -/
theorem insertionSort_perm (entries : List (Nat × LexerCheckpoint (List Char))) :
    (entries.insertionSort fun left right => left.1 ≤ right.1).Perm entries :=
  List.perm_insertionSort _ entries

theorem insertionSort_sorted (entries : List (Nat × LexerCheckpoint (List Char))) :
    (entries.insertionSort fun left right => left.1 ≤ right.1).Pairwise fun left right => left.1 ≤ right.1 :=
  List.pairwise_insertionSort _ entries

def digitEngine : Engine where
  Identity := List Char
  Kind := DigitKind
  lexer := digitLexer
  kindOf := fun token => if token.tokenType = .number then .other 0 else .other 1
  isTrivia := fun kind => kind = .eof
  sortByPosition := List.insertionSort fun left right => left.1 ≤ right.1
  sort_perm := insertionSort_perm
  sort_sorted := insertionSort_sorted
  Node := Unit
  ParseError := String × Nat
  syntaxError := fun message position => (message, position)
  parse := fun _ => .ok ((), [])
  parseTokens := fun _ _ => .ok ((), [])

namespace IncrementalState

instance (old new : List Char) (edit : IncrementalEdit) (replay : Replay digitEngine) :
    Decidable (ReadsAlikeOutside old new edit replay) := inferInstanceAs (Decidable (_ ∧ _))

instance (state : IncrementalState digitEngine) (edit : IncrementalEdit) :
    Decidable (Contained state edit) :=
  inferInstanceAs (Decidable (∀ replay ∈ (state.replay (spliced state.source edit) edit).toOption,
    state.takesBoundedPath (spliced state.source edit) edit replay = true →
      ReadsAlikeOutside state.source (spliced state.source edit) edit replay))

instance (state : IncrementalState digitEngine) : Decidable (FreshTokens state) :=
  inferInstanceAs (Decidable (_ = _))

def typed : List IncrementalEdit := [⟨1, 1, ['2']⟩, ⟨2, 2, ['3', ';']⟩, ⟨4, 4, ['4', ';']⟩]

end IncrementalState

end Digits

end PerlLsp.CoreIncremental
