import PerlLsp.Text
import PerlLsp.Utf8

/-! Live restart states of the lexer: perl-lexer/src/checkpoint/core.rs. A checkpoint holds the
complete replay state; an edit shifts its offsets or invalidates it. `Lexer` keeps what callers use
of the lexer: its states, the token each state yields, the state a checkpoint restores, and a
measure that shows it reaches the end of its input. -/
namespace PerlLsp.Checkpoint
open Utf8 Text Option

inductive LexerMode where
  | expectTerm
  | expectOperator
  | expectDelimiter
  | inFormatBody
  | inDataSection
  deriving DecidableEq

structure Position where
  byte : Nat
  line : Nat
  column : Nat
  deriving DecidableEq

structure PendingHeredocCheckpoint where
  label : List Char
  bodyStart : Nat
  allowIndent : Bool
  interpolates : Bool
  deriving DecidableEq

structure QuoteOperatorCheckpoint where
  operator : List Char
  delimiter : Char
  startPos : Nat
  deriving DecidableEq

inductive CheckpointContext where
  | normal
  | heredoc (terminator : List Char) (isInterpolated : Bool)
  | format (startPosition : Nat)
  | regex (delimiter : Char) (flagsPosition : Option Nat)
  | quoteLike (operator : List Char) (delimiter : Char) (isPaired : Bool)
  deriving DecidableEq

structure ReplayState where
  position : Nat
  mode : LexerMode
  delimiterStack : List Char
  inPrototype : Bool
  prototypeDepth : Nat
  prototypeSignatureSeen : Bool
  afterSub : Bool
  afterArrow : Bool
  hashBraceDepth : Nat
  afterVarSubscript : Bool
  parenDepth : Nat
  printListParens : List (Nat × Bool × Bool)
  pendingPrintListParen : Bool
  currentPos : Position
  afterNewline : Bool
  pendingHeredocs : List PendingHeredocCheckpoint
  lineStartOffset : Nat
  currentQuoteOp : Option QuoteOperatorCheckpoint
  eofEmitted : Bool
  context : CheckpointContext
  deriving DecidableEq

structure LexerCheckpoint (Identity : Type) where
  identity : Identity
  replay : ReplayState
  invalidated : Bool
  liveBoundary : Bool

inductive CheckpointRestoreError where
  | wrongSource
  | wrongContent
  | wrongGeneration
  | wrongConfiguration
  | unknownSchema
  | invalidUtf8Boundary
  | unsupportedBoundary
  | incompleteState
  | invalidated
  deriving DecidableEq

def saturatingAdd (left right : Nat) : Nat := min (left + right) usizeMax

def transformOffset (offset start oldLen newLen : Nat) : Option Nat :=
  let oldEnd := saturatingAdd start oldLen
  if offset ≤ start then some offset
  else if oldEnd ≤ offset then some (saturatingAdd (offset - oldLen) newLen)
  else none

theorem transform_offset_before {offset start : Nat} (before : offset ≤ start)
    (oldLen newLen : Nat) : transformOffset offset start oldLen newLen = some offset :=
  if_pos before

def offsetIsValid (input : List Char) (offset : Nat) : Bool :=
  offset ≤ size input && isCharBoundary input offset

namespace CheckpointContext

def isFormat : CheckpointContext → Bool
  | .format _ => true
  | _ => false

def transform (context : CheckpointContext) (start oldLen newLen : Nat) : Option CheckpointContext :=
  match context with
  | .format startPosition => (transformOffset startPosition start oldLen newLen).map .format
  | .regex delimiter (some flags) =>
    (transformOffset flags start oldLen newLen).map fun shifted => .regex delimiter (some shifted)
  | other => some other

end CheckpointContext

namespace LexerCheckpoint
variable {Identity : Type}
variable (checkpoint : LexerCheckpoint Identity)

def position : Nat := checkpoint.replay.position

def isTimeoutSensitive : Bool :=
  !checkpoint.replay.pendingHeredocs.isEmpty

def behaviorStateChanged (other : LexerCheckpoint Identity) : Bool :=
  checkpoint.replay != other.replay

def invalidate : LexerCheckpoint Identity :=
  { checkpoint with invalidated := true }

def transformQuote (quoteOp : Option QuoteOperatorCheckpoint) (start oldLen newLen : Nat) :
    Option (Option QuoteOperatorCheckpoint) :=
  match quoteOp with
  | some quote =>
    (transformOffset quote.startPos start oldLen newLen).map fun startPos =>
      some { quote with startPos := startPos }
  | none => some none

/-- Every offset moved by the edit, or `none` when one of them lies inside the replaced range. -/
def transformReplay (replay : ReplayState) (start oldLen newLen : Nat) : Option ReplayState := do
  let position ← transformOffset replay.position start oldLen newLen
  let lineStartOffset ← transformOffset replay.lineStartOffset start oldLen newLen
  let pendingHeredocs ← replay.pendingHeredocs.mapM fun pending =>
    (transformOffset pending.bodyStart start oldLen newLen).map fun bodyStart =>
      { pending with bodyStart := bodyStart }
  let currentQuoteOp ← transformQuote replay.currentQuoteOp start oldLen newLen
  let context ← replay.context.transform start oldLen newLen
  return { replay with
    position := position
    lineStartOffset := lineStartOffset
    pendingHeredocs := pendingHeredocs
    currentQuoteOp := currentQuoteOp
    context := context
    eofEmitted := false }

variable (checkpoint : LexerCheckpoint Identity)

def tryApplyEdit (start oldLen newLen : Nat) : LexerCheckpoint Identity × Bool :=
  if checkpoint.invalidated then (checkpoint, false)
  else if oldLen = 0 ∧ newLen = 0 then (checkpoint, true)
  else
    match transformReplay checkpoint.replay start oldLen newLen with
    | none => (checkpoint.invalidate, false)
    | some replay =>
      let moved := { checkpoint with replay := replay }
      if start < checkpoint.position then (moved.invalidate, false) else (moved, true)

def applyEdit (start oldLen newLen : Nat) :
    LexerCheckpoint Identity := (checkpoint.tryApplyEdit start oldLen newLen).1

def ensureComplete : Except CheckpointRestoreError Unit :=
  if checkpoint.invalidated then .error .invalidated
  else if !checkpoint.liveBoundary then .error .unsupportedBoundary
  else if checkpoint.replay.mode = .expectDelimiter ∧ checkpoint.replay.currentQuoteOp = none ∧
      checkpoint.replay.delimiterStack = [] then .error .incompleteState
  else if (checkpoint.replay.currentQuoteOp.any fun quote =>
      checkpoint.replay.position < quote.startPos) then .error .incompleteState
  else if checkpoint.replay.mode = .inFormatBody ∧
      !checkpoint.replay.context.isFormat then .error .incompleteState
  else .ok ()

def offsetsValidFor (input : List Char) : Bool :=
  offsetIsValid input checkpoint.replay.currentPos.byte &&
    offsetIsValid input checkpoint.replay.position &&
    offsetIsValid input checkpoint.replay.lineStartOffset &&
    decide (checkpoint.replay.lineStartOffset ≤ checkpoint.replay.position) &&
    (checkpoint.replay.pendingHeredocs.all fun pending => offsetIsValid input pending.bodyStart) &&
    (checkpoint.replay.currentQuoteOp.all fun quote =>
      offsetIsValid input quote.startPos && decide (quote.startPos ≤ checkpoint.replay.position)) &&
    match checkpoint.replay.context with
    | .format startPosition => offsetIsValid input startPosition
    | .regex _ flagsPosition => flagsPosition.all fun flags => offsetIsValid input flags
    | _ => true

def isValidFor (input : List Char) : Bool :=
  !checkpoint.invalidated && checkpoint.offsetsValidFor input

/-- `rebind_to_source(source, SourceGeneration::Unknown)`; `retarget` gives the
identity the new content. -/
def rebindToSource (retarget : Identity → List Char → Identity)
    (checkpoint : LexerCheckpoint Identity) (source : List Char) :
    Except CheckpointRestoreError (LexerCheckpoint Identity) :=
  if checkpoint.invalidated then .error .invalidated
  else
    match checkpoint.ensureComplete with
    | .error error => .error error
    | .ok () =>
      if !isCharBoundary source checkpoint.replay.position then .error .invalidUtf8Boundary
      else if !checkpoint.offsetsValidFor source then .error .unsupportedBoundary
      else .ok { checkpoint with identity := retarget checkpoint.identity source }

theorem transform_replay_position {replay moved : ReplayState} {start oldLen newLen : Nat}
    (result : transformReplay replay start oldLen newLen = some moved) :
    transformOffset replay.position start oldLen newLen = some moved.position := by
  unfold transformReplay at result
  simp only [bind_eq_bind, pure_def, bind_eq_some_iff, Option.some.injEq] at result
  obtain ⟨position, moves, _, _, _, _, _, _, _, _, rfl⟩ := result
  exact moves

/-- A checkpoint that survives an edit has not moved: it stands at or before it, or the edit is
empty. -/
theorem surviving_position (checkpoint moved : LexerCheckpoint Identity) (start oldLen newLen : Nat)
    (survives : checkpoint.tryApplyEdit start oldLen newLen = (moved, true)) :
    moved.position = checkpoint.position := by
  unfold tryApplyEdit at survives
  split at survives
  · cases survives
  split at survives
  · cases survives
    rfl
  split at survives
  · cases survives
  rename_i replay result
  split at survives
  · cases survives
  rename_i ahead
  cases survives
  have moves := transform_replay_position result
  have stays := transform_offset_before (Nat.le_of_not_lt ahead) oldLen newLen
  exact Option.some.inj (moves.symm.trans stays)

end LexerCheckpoint

section Lexing

structure LexToken (Kind : Type) where
  tokenType : Kind
  text : List Char
  start : Nat
  stop : Nat

/-- The lexer as its callers use it. `replay` is the state `restore` installs for a validated
checkpoint, and `remaining` bounds the number of tokens before the end of input. -/
structure Lexer (Identity Kind : Type) where
  State : Type
  new : List Char → State
  checkpoint : State → LexerCheckpoint Identity
  nextToken : State → Option (LexToken Kind × State)
  isEof : Kind → Bool
  replay : List Char → ReplayState → State
  matchesTarget : Identity → List Char → Except CheckpointRestoreError Unit
  retarget : Identity → List Char → Identity
  remaining : State → Nat
  advances : ∀ state token next, nextToken state = some (token, next) →
    isEof token.tokenType = false → remaining next < remaining state

variable {Identity Kind : Type} (lexer : Lexer Identity Kind)

def validateRestore (source : List Char) (checkpoint : LexerCheckpoint Identity) :
    Except CheckpointRestoreError Unit :=
  if !isCharBoundary source checkpoint.position then .error .invalidUtf8Boundary
  else
    match checkpoint.ensureComplete with
    | .error error => .error error
    | .ok () =>
      match lexer.matchesTarget checkpoint.identity source with
      | .error error => .error error
      | .ok () =>
        if checkpoint.isValidFor source then .ok () else .error .unsupportedBoundary

def restore (source : List Char) (checkpoint : LexerCheckpoint Identity) :
    Except CheckpointRestoreError lexer.State :=
  match validateRestore lexer source checkpoint with
  | .error error => .error error
  | .ok () => .ok (lexer.replay source checkpoint.replay)

/-- The states in which the lexer reads a source: a new one, one restored from a checkpoint
validated against it, and what follows by reading. -/
inductive Reads (source : List Char) : lexer.State → Prop where
  | new : Reads source (lexer.new source)
  | restored (checkpoint : LexerCheckpoint Identity) (state : lexer.State)
      (valid : restore lexer source checkpoint = .ok state) : Reads source state
  | next (state : lexer.State) (token : LexToken Kind) (after : lexer.State)
      (reads : Reads source state) (read : lexer.nextToken state = some (token, after)) :
      Reads source after

def Lexer.position (state : lexer.State) : Nat := (lexer.checkpoint state).position

/-- What is asked of the lexer: each token is the text between its ends and between the positions
before and after it, and a restored lexer stands where the checkpoint says. -/
structure Places : Prop where
  token : ∀ source state token next, Reads lexer source state →
    lexer.nextToken state = some (token, next) → lexer.isEof token.tokenType = false →
    slice source token.start token.stop = some token.text ∧
      lexer.position state ≤ token.start ∧ token.stop ≤ lexer.position next
  advance : ∀ source state token next, Reads lexer source state →
    lexer.nextToken state = some (token, next) → lexer.position state ≤ lexer.position next
  restored : ∀ source checkpoint state, restore lexer source checkpoint = .ok state →
    lexer.position state = checkpoint.position

end Lexing

section ScalarLexer

/-! A lexer of one scalar at a time, an instance of the interface; on semicolons the Perl lexer
reads the same tokens. -/

inductive ScalarKind where
  | scalar
  | eof
  deriving DecidableEq

structure ScalarState where
  content : List Char
  position : Nat
  rest : List Char

def plainReplay (position : Nat) : ReplayState where
  position := position
  mode := .expectTerm
  delimiterStack := []
  inPrototype := false
  prototypeDepth := 0
  prototypeSignatureSeen := false
  afterSub := false
  afterArrow := false
  hashBraceDepth := 0
  afterVarSubscript := false
  parenDepth := 0
  printListParens := []
  pendingPrintListParen := false
  currentPos := ⟨position, 0, position⟩
  afterNewline := false
  pendingHeredocs := []
  lineStartOffset := 0
  currentQuoteOp := none
  eofEmitted := false
  context := .normal

def scalarNext (state : ScalarState) : Option (LexToken ScalarKind × ScalarState) :=
  match state.rest with
  | [] => some (⟨.eof, [], state.position, state.position⟩, state)
  | scalar :: rest =>
    let stop := state.position + scalar.utf8Size
    some (⟨.scalar, [scalar], state.position, stop⟩, ⟨state.content, stop, rest⟩)

def scalarReplay (source : List Char) (replay : ReplayState) : ScalarState :=
  match splitAtByte source replay.position with
  | some parts => ⟨source, replay.position, parts.2⟩
  | none => ⟨source, 0, source⟩

theorem scalar_next_shorter (state : ScalarState) (token : LexToken ScalarKind)
    (next : ScalarState) (read : scalarNext state = some (token, next))
    (inner : decide (token.tokenType = .eof) = false) : next.rest.length < state.rest.length := by
  unfold scalarNext at read
  split at read
  · cases read
    cases inner
  rename_i scalar rest shape
  cases read
  rw [shape]
  exact Nat.lt_succ_self _

def scalarLexer : Lexer (List Char) ScalarKind where
  State := ScalarState
  new := fun source => ⟨source, 0, source⟩
  checkpoint := fun state => ⟨state.content, plainReplay state.position, false, true⟩
  nextToken := scalarNext
  isEof := fun kind => decide (kind = .eof)
  replay := scalarReplay
  matchesTarget := fun content source => if content = source then .ok () else .error .wrongContent
  retarget := fun _ source => source
  remaining := fun state => state.rest.length
  advances := scalar_next_shorter

def ScalarReads (source : List Char) (state : ScalarState) : Prop :=
  ∃ before, source = before ++ state.rest ∧ size before = state.position

theorem scalar_next_cases {state next : ScalarState} {token : LexToken ScalarKind}
    (read : scalarNext state = some (token, next)) : (token.tokenType = .eof ∧ next = state) ∨
    ∃ scalar rest, state.rest = scalar :: rest ∧
      token = ⟨.scalar, [scalar], state.position, state.position + scalar.utf8Size⟩ ∧
      next = ⟨state.content, state.position + scalar.utf8Size, rest⟩ := by
  unfold scalarNext at read
  split at read
  · cases read
    exact .inl ⟨rfl, rfl⟩
  · next scalar rest shape =>
      cases read
      exact .inr ⟨scalar, rest, shape, rfl, rfl⟩

theorem scalar_reads (source : List Char) (state : scalarLexer.State)
    (reads : Reads scalarLexer source state) : ScalarReads source state := by
  induction reads with
  | new => exact ⟨[], rfl, rfl⟩
  | restored checkpoint state valid =>
    unfold restore at valid
    split at valid
    · cases valid
    cases valid
    change ScalarReads source (scalarReplay source checkpoint.replay)
    unfold scalarReplay
    split
    · next parts split =>
        obtain ⟨shape, width⟩ := (split_at_byte_iff _ _ _ _).mp split
        exact ⟨parts.1, shape, width⟩
    · exact ⟨[], rfl, rfl⟩
  | next state token after reads read ih =>
    obtain ⟨before, shape, width⟩ := ih
    obtain ⟨-, rfl⟩ | ⟨scalar, rest, rests, -, rfl⟩ := scalar_next_cases read
    · exact ⟨before, shape, width⟩
    · refine ⟨before ++ [scalar], by rw [shape, rests]; simp, ?_⟩
      rw [size_append, width, size_cons]
      rfl

theorem scalar_lexer_places : Places scalarLexer where
  token := by
    intro source state token next reads read inner
    obtain ⟨before, shape, width⟩ := scalar_reads source state reads
    obtain ⟨eof, -⟩ | ⟨scalar, rest, rests, rfl, rfl⟩ := scalar_next_cases read
    · exact absurd eof (of_decide_eq_false inner)
    have parts := slice_parts before [scalar] rest
    rw [size_cons, size_nil, width] at parts
    refine ⟨?_, Nat.le_refl _, Nat.le_refl _⟩
    rw [shape, rests]
    simpa using parts
  advance := by
    intro source state token next reads read
    obtain ⟨-, rfl⟩ | ⟨scalar, rest, -, -, rfl⟩ := scalar_next_cases read
    · exact Nat.le_refl _
    · exact Nat.le_add_right _ _
  restored := by
    intro source checkpoint state valid
    unfold restore at valid
    split at valid
    · cases valid
    rename_i validated
    cases valid
    change (scalarReplay source checkpoint.replay).position = checkpoint.position
    have boundary : isCharBoundary source checkpoint.position = true := by
      unfold validateRestore at validated
      split at validated
      · cases validated
      · next boundary => simpa using boundary
    obtain ⟨before, after, shape, width⟩ := (boundary_iff _ _).mp boundary
    have split : splitAtByte source checkpoint.replay.position = some (before, after) :=
      (split_at_byte_iff _ _ _ _).mpr ⟨shape, width⟩
    unfold scalarReplay
    rw [split]
    rfl

end ScalarLexer

end PerlLsp.Checkpoint
