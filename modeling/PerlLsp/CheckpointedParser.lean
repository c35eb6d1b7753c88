import PerlLsp.Runs
import PerlLsp.TokenCache

/-! `CheckpointedIncrementalParser` of perl-parser/src/incremental/incremental_checkpoint.rs. A full
parse records checkpoints and caches the parser tokens; an edit shifts both caches and then either
falls back to a full parse or hands the parser cached tokens around a window that is read again.
`handed` keeps the tokens of the last edit that went the second way; the tree and the statistics are
left out. -/
namespace PerlLsp.CheckpointedParser
open Utf8 Checkpoint TokenCache Bool
open List hiding after
variable (front : Frontend)

section Reading

def readWithin : Nat → front.lexer.State → List (LexToken front.Kind × front.lexer.State)
  | 0, _ => []
  | fuel + 1, state =>
    match front.lexer.nextToken state with
    | none => []
    | some (token, next) =>
      (token, next) ::
        if front.lexer.isEof token.tokenType then [] else readWithin fuel next

def readAll (state : front.lexer.State) : List (LexToken front.Kind × front.lexer.State) :=
  readWithin front (front.lexer.remaining state + 1) state

def rawTokens (reads : List (LexToken front.Kind × front.lexer.State)) : List (LexToken front.Kind) :=
  (reads.map Prod.fst).filter fun token => !front.lexer.isEof token.tokenType

def convertLexerToken (token : LexToken front.Kind) : Token :=
  tokenFromLexerParts (front.kindOf token) token.text token.start token.stop

def lexerTokensToParserTokens (tokens : List (LexToken front.Kind)) : List Token :=
  (tokens.filter fun token => !front.isTrivia token.tokenType).map (convertLexerToken front)

/-- The window loop: the tokens it keeps and where it leaves the lexer. A token that starts at the
end of the window or later has been read and is lost. -/
def relexWindow (relexEnd : Nat) : front.lexer.State →
    List (LexToken front.Kind × front.lexer.State) → List (LexToken front.Kind) × front.lexer.State
  | state, [] => ([], state)
  | _, (token, next) :: rest =>
    if front.lexer.isEof token.tokenType then ([], next)
    else if relexEnd ≤ token.start then ([], next)
    else if relexEnd ≤ token.stop then ([token], next)
    else
      let more := relexWindow relexEnd next rest
      (token :: more.1, more.2)

end Reading

section Parser

structure ParserState where
  source : List Char
  checkpointCache : CheckpointCache front.Identity
  segments : List TokenSegment
  handed : Option (List Token)

structure SimpleEdit where
  start : Nat
  stop : Nat
  newText : List Char

def checkpointPositions : List Nat := [0, 100, 500, 1000, 5000]

-- a checkpoint is taken behind the token read when a target has been passed
def recordCheckpoints : List Nat → Nat → CheckpointCache front.Identity →
    List (LexToken front.Kind × front.lexer.State) → CheckpointCache front.Identity
  | _, _, cache, [] => cache
  | targets, position, cache, (token, next) :: rest =>
    let ahead := targets.dropWhile fun target => target ≤ position
    let cache :=
      if ahead.length < targets.length then cache.add (front.lexer.checkpoint next) else cache
    recordCheckpoints ahead token.stop cache rest

variable {front}

def parseWithCheckpoints (state : ParserState front) : ParserState front :=
  let reads := readAll front (front.lexer.new state.source)
  { source := state.source
    checkpointCache := recordCheckpoints front checkpointPositions 0 state.checkpointCache.clear reads
    segments := cacheRead [] (lexerTokensToParserTokens front (rawTokens front reads))
    handed := none }

variable (source : List Char)

def parse : ParserState front :=
  parseWithCheckpoints ⟨source, .new 50, [], none⟩

def validateEdit (edit : SimpleEdit) : Except (String × Nat) Unit :=
  if edit.stop < edit.start then
    .error ("invalid edit range: start " ++ toString edit.start ++ " is greater than end " ++
      toString edit.stop, edit.start)
  else if size source < edit.stop then
    .error ("invalid edit range: end " ++ toString edit.stop ++ " exceeds document length " ++
      toString (size source), edit.stop)
  else if !isCharBoundary source edit.start then
    .error ("invalid edit boundary: start " ++ toString edit.start ++
      " is not on a UTF-8 character boundary", edit.start)
  else if !isCharBoundary source edit.stop then
    .error ("invalid edit boundary: end " ++ toString edit.stop ++
      " is not on a UTF-8 character boundary", edit.stop)
  else .ok ()

/-- `String::replace_range`, which wants both ends on boundaries. -/
def replaceRange (edit : SimpleEdit) : List Char :=
  match splitAtByte source edit.start, splitAtByte source edit.stop with
  | some before, some after => before.1 ++ edit.newText ++ after.2
  | _, _ => source

def moveCaches (state : ParserState front) (edit : SimpleEdit) : ParserState front :=
  let oldLen := edit.stop - edit.start
  let newLen := size edit.newText
  { source := replaceRange state.source edit
    checkpointCache := CheckpointCache.applyEdit front state.checkpointCache edit.start oldLen newLen
    segments := adjustPositions (invalidateRange state.segments edit.start edit.stop) edit.start
      oldLen newLen
    handed := none }

structure Restart (front : Frontend) where
  lexerState : front.lexer.State
  relexStart : Nat
  relexEnd : Nat
  hasRight : Bool

/-- The lexer at the left checkpoint or at the start of the source; `none` when the checkpoint
cannot be restored. -/
def restoreLeft (source : List Char) (left : Option (LexerCheckpoint front.Identity)) :
    Option (Nat × front.lexer.State) :=
  match left with
  | none => some (0, front.lexer.new source)
  | some checkpoint =>
    match checkpoint.rebindToSource front.lexer.retarget source with
    | .error _ => none
    | .ok bound =>
      match restore front.lexer source bound with
      | .error _ => none
      | .ok state => some (bound.position, state)

/-- Where an edit restarts the lexer, the caches having been moved; `none` when it falls back to a
full parse. -/
def restart (state : ParserState front) (edit : SimpleEdit) : Option (Restart front) :=
  let left := state.checkpointCache.findBefore edit.start
  let right := state.checkpointCache.findAfter (edit.start + size edit.newText)
  match restoreLeft state.source left with
  | none => none
  | some (relexStart, lexerState) =>
    let relexEnd := (right.map LexerCheckpoint.position).getD (size state.source)
    if left.isNone && right.isNone then none
    else if relexEnd ≤ relexStart then none
    else if 0 < relexStart ∧ (getTokensBefore state.segments relexStart).isNone then none
    else some ⟨lexerState, relexStart, relexEnd, right.isSome⟩

def Restart.window (restart : Restart front) : List (LexToken front.Kind) × front.lexer.State :=
  relexWindow front restart.relexEnd restart.lexerState (readAll front restart.lexerState)

def Restart.relexed (restart : Restart front) : List Token :=
  lexerTokensToParserTokens front restart.window.1

def byteShift (edit : SimpleEdit) : Int := size edit.newText - (edit.stop - edit.start : Nat)

def shiftToken (shift : Int) (token : Token) : Token :=
  retainShiftedCachedToken token (shifted token.start shift) (shifted token.stop shift)

variable (state : ParserState front)
variable (edit : SimpleEdit)

def reparseFromCheckpointTwoSided (restart : Restart front) : ParserState front :=
  let before := (getTokensBefore state.segments restart.relexStart).getD []
  let relexed := restart.relexed
  if restart.hasRight then
    let actualRelexEnd := (relexed.getLast?.map Token.stop).getD restart.relexEnd
    match getTokensFrom state.segments (shifted actualRelexEnd (-byteShift edit)) with
    | some cached =>
      { state with
        segments := cacheRead state.segments relexed
        handed := some (before ++ relexed ++ cached.map (shiftToken (byteShift edit))) }
    | none =>
      let tail := lexerTokensToParserTokens front (rawTokens front (readAll front restart.window.2))
      { state with
        segments := cacheRead state.segments (relexed ++ tail)
        handed := some (before ++ relexed ++ tail) }
  else
    { state with
      segments := cacheRead state.segments relexed
      handed := some (before ++ relexed) }

def applyEdit : Except (String × Nat) (ParserState front) :=
  match validateEdit state.source edit with
  | .error error => .error error
  | .ok () =>
    let moved := moveCaches state edit
    match restart moved edit with
    | none => .ok (parseWithCheckpoints moved)
    | some restart => .ok (reparseFromCheckpointTwoSided moved edit restart)

def step : ParserState front :=
  match applyEdit state edit with
  | .ok next => next
  | .error _ => state

end Parser

section Lexed

/-- More fuel than the lexer has tokens left reads the same. -/
theorem read_within_enough (fuel more : Nat) (state : front.lexer.State)
    (enough : front.lexer.remaining state < fuel) (enoughToo : front.lexer.remaining state < more) :
    readWithin front fuel state = readWithin front more state := by
  induction fuel generalizing more state with
  | zero => omega
  | succ fuel ih =>
    cases more with
    | zero => omega
    | succ more =>
      unfold readWithin
      cases read : front.lexer.nextToken state with
      | none => rfl
      | some entry =>
        obtain ⟨token, next⟩ := entry
        cases last : front.lexer.isEof token.tokenType with
        | true => simp [last]
        | false =>
          have shrinks := front.lexer.advances state token next read last
          simp only [last, false_eq_true]
          rw [ih more next (by omega) (by omega)]

/-- Reading goes on to the end of input: the fuel never cuts it short. -/
theorem read_all_steps (state : front.lexer.State) : readAll front state =
    match front.lexer.nextToken state with
    | none => []
    | some (token, next) =>
      (token, next) :: if front.lexer.isEof token.tokenType then [] else readAll front next := by
  rw [readAll, readWithin]
  cases read : front.lexer.nextToken state with
  | none => rfl
  | some entry =>
    obtain ⟨token, next⟩ := entry
    cases last : front.lexer.isEof token.tokenType with
    | true => simp [last]
    | false =>
      have shrinks := front.lexer.advances state token next read last
      have same := read_within_enough front (front.lexer.remaining state)
        (front.lexer.remaining next + 1) next shrinks (Nat.lt_succ_self _)
      simp only [last, false_eq_true, if_false, same, readAll]

def LaidFrom (source : List Char) (position : Nat) (tokens : List Token) : Prop :=
  Laid source tokens ∧ ∀ token ∈ tokens, position ≤ token.start

theorem laid_nil (source : List Char) (position : Nat) : LaidFrom source position [] :=
  ⟨⟨fun _ among => (by cases among), List.Pairwise.nil⟩, fun _ among => (by cases among)⟩

variable {position : Nat}

theorem LaidFrom.earlier {earlier : Nat} {tokens : List Token}
    (laid : LaidFrom source position tokens) (before : earlier ≤ position) :
    LaidFrom source earlier tokens :=
  ⟨laid.1, fun token among => Nat.le_trans before (laid.2 token among)⟩

theorem LaidFrom.append {middle : Nat} {front back : List Token}
    (early : LaidFrom source position front) (late : LaidFrom source middle back)
    (ends : ∀ token ∈ front, token.stop ≤ middle) (order : position ≤ middle) :
    LaidFrom source position (front ++ back) := by
  refine ⟨⟨?_, pairwise_append.mpr ⟨early.1.apart, late.1.apart, ?_⟩⟩, ?_⟩
  · intro token among
    rcases mem_append.mp among with inFront | inBack
    · exact early.1.placed token inFront
    · exact late.1.placed token inBack
  · intro left inFront right inBack
    exact Nat.le_trans (ends left inFront) (late.2 right inBack)
  · intro token among
    rcases mem_append.mp among with inFront | inBack
    · exact early.2 token inFront
    · exact Nat.le_trans order (late.2 token inBack)

theorem LaidFrom.cons {token : Token} {rest : List Token}
    (placed : slice source token.start token.stop = some token.text)
    (from_ : position ≤ token.start) (laid : LaidFrom source token.stop rest) :
    LaidFrom source position (token :: rest) := by
  have single : LaidFrom source position [token] := by
    refine ⟨⟨fun other among => ?_, pairwise_singleton _ _⟩, fun other among => ?_⟩
    · rw [mem_singleton.mp among]
      exact placed
    · rw [mem_singleton.mp among]
      exact from_
  refine single.append laid ?_ (Nat.le_trans from_ token.ordered)
  intro other among
  obtain rfl := mem_singleton.mp among
  exact Nat.le_refl _

variable {front}

theorem convert_exact {token : LexToken front.Kind}
    (placed : slice source token.start token.stop = some token.text) :
    (convertLexerToken front token).text = token.text ∧ (convertLexerToken front token).start = token.start ∧
      (convertLexerToken front token).stop = token.stop := by
  obtain ⟨ordered, width⟩ := slice_ordered source token.text token.start token.stop placed
  exact token_from_lexer_parts_exact _ _ _ _ ordered width

/-- The parser tokens of a lexer token that is laid, and of what follows it. -/
theorem parser_tokens_cons {after : Nat} {token : LexToken front.Kind}
    {rest : List (LexToken front.Kind)} (placed : slice source token.start token.stop = some token.text)
    (from_ : position ≤ token.start) (ends : token.stop ≤ after)
    (laid : LaidFrom source after (lexerTokensToParserTokens front rest)) :
    LaidFrom source position (lexerTokensToParserTokens front (token :: rest)) := by
  obtain ⟨text, start, stop⟩ := convert_exact placed
  have ordered := (slice_ordered source token.text token.start token.stop placed).1
  unfold lexerTokensToParserTokens at laid ⊢
  cases trivia : front.isTrivia token.tokenType with
  | true =>
    rw [filter_cons_of_neg (by simp [trivia])]
    exact laid.earlier (by omega)
  | false =>
    rw [filter_cons_of_pos (by simp [trivia])]
    refine LaidFrom.cons ?_ (by rw [start]; exact from_) (laid.earlier (by rw [stop]; exact ends))
    rw [text, start, stop]
    exact placed

theorem parser_tokens_end {token : LexToken front.Kind} {rest : List (LexToken front.Kind)}
    {after : Nat} (first : (convertLexerToken front token).stop ≤ after)
    (others : ∀ other ∈ lexerTokensToParserTokens front rest, other.stop ≤ after) :
    ∀ other ∈ lexerTokensToParserTokens front (token :: rest), other.stop ≤ after := by
  intro other among
  obtain ⟨lexed, kept, rfl⟩ := mem_map.mp among
  obtain ⟨held, inner⟩ := mem_filter.mp kept
  rcases mem_cons.mp held with rfl | later
  · exact first
  · exact others _ (mem_map_of_mem (mem_filter.mpr ⟨later, inner⟩))

theorem read_within_laid (places : Places front.lexer) (fuel : Nat) (state : front.lexer.State)
    (reads : Reads front.lexer source state) : LaidFrom source (front.lexer.position state)
      (lexerTokensToParserTokens front (rawTokens front (readWithin front fuel state))) := by
  induction fuel generalizing state with
  | zero => exact laid_nil _ _
  | succ fuel ih =>
    unfold readWithin
    cases read : front.lexer.nextToken state with
    | none => exact laid_nil _ _
    | some entry =>
      obtain ⟨token, next⟩ := entry
      cases last : front.lexer.isEof token.tokenType with
      | true =>
        simp only [last, if_true, rawTokens, map_cons, map_nil]
        rw [filter_cons_of_neg (by simp [last])]
        exact laid_nil _ _
      | false =>
        obtain ⟨placed, start, stop⟩ := places.token source state token next reads read last
        have rest := ih next (reads.next state token next read)
        simp only [last, false_eq_true, if_false, rawTokens, map_cons]
        rw [filter_cons_of_pos (by simp [last])]
        exact parser_tokens_cons placed start stop rest

theorem read_all_laid (places : Places front.lexer) (state : front.lexer.State)
    (reads : Reads front.lexer source state) : LaidFrom source (front.lexer.position state)
      (lexerTokensToParserTokens front (rawTokens front (readAll front state))) :=
  read_within_laid places _ state reads

structure WindowLaid (source : List Char) (position : Nat)
    (window : List (LexToken front.Kind) × front.lexer.State) : Prop where
  laid : LaidFrom source position (lexerTokensToParserTokens front window.1)
  reads : Reads front.lexer source window.2
  ends : ∀ token ∈ lexerTokensToParserTokens front window.1,
    token.stop ≤ front.lexer.position window.2
  order : position ≤ front.lexer.position window.2

theorem relex_window_laid (places : Places front.lexer) (relexEnd fuel : Nat)
    (state : front.lexer.State) (reads : Reads front.lexer source state) :
    WindowLaid source (front.lexer.position state)
      (relexWindow front relexEnd state (readWithin front fuel state)) := by
  induction fuel generalizing state with
  | zero => exact ⟨laid_nil _ _, reads, fun _ among => (by cases among), Nat.le_refl _⟩
  | succ fuel ih =>
    unfold readWithin
    cases read : front.lexer.nextToken state with
    | none => exact ⟨laid_nil _ _, reads, fun _ among => (by cases among), Nat.le_refl _⟩
    | some entry =>
      obtain ⟨token, next⟩ := entry
      have readsNext := reads.next state token next read
      have advance := places.advance source state token next reads read
      simp only [relexWindow]
      split
      · exact ⟨laid_nil _ _, readsNext, fun _ among => (by cases among), advance⟩
      rename_i inner
      have last : front.lexer.isEof token.tokenType = false := by simpa using inner
      obtain ⟨placed, start, stop⟩ := places.token source state token next reads read last
      have ends : (convertLexerToken front token).stop ≤ front.lexer.position next := by
        rw [(convert_exact placed).2.2]
        exact stop
      split
      · exact ⟨laid_nil _ _, readsNext, fun _ among => (by cases among), advance⟩
      split
      · refine ⟨parser_tokens_cons placed start stop (laid_nil _ _), readsNext, ?_, advance⟩
        exact parser_tokens_end ends fun _ among => by cases among
      have more := ih next readsNext
      refine ⟨parser_tokens_cons placed start stop more.laid, more.reads, ?_,
        Nat.le_trans advance more.order⟩
      exact parser_tokens_end (Nat.le_trans ends more.order) more.ends

end Lexed

section Edits
variable {front}

structure Cut (source : List Char) (edit : SimpleEdit) (before replaced after : List Char) : Prop where
  source : source = before ++ replaced ++ after
  start : size before = edit.start
  stop : size (before ++ replaced) = edit.stop

theorem validate_edit_cuts {source : List Char} {edit : SimpleEdit}
    (valid : validateEdit source edit = .ok ()) :
    edit.start ≤ edit.stop ∧ ∃ before replaced after, Cut source edit before replaced after := by
  unfold validateEdit at valid
  split at valid
  · cases valid
  rename_i ordered
  split at valid
  · cases valid
  split at valid
  · cases valid
  rename_i first
  split at valid
  · cases valid
  rename_i last
  simp only [not_eq_true, not_eq_false'] at first last
  obtain ⟨before, rest, shape, width⟩ := (boundary_iff _ _).mp first
  obtain ⟨left, after, parts, total⟩ := (boundary_iff _ _).mp last
  have joined : before ++ rest ++ [] = left ++ after := by
    rw [append_nil, ← shape, parts]
  have bound := congrArg size parts
  rw [shape, size_append, size_append] at bound
  obtain ⟨replaced, back, rfl, rfl, rfl⟩ := split_middle before rest [] left after joined
    (by omega) (by omega)
  refine ⟨Nat.le_of_not_lt ordered, before, replaced, back, ?_, width, total⟩
  rw [shape, append_assoc]

section
variable {source : List Char} {edit : SimpleEdit} {before replaced after : List Char}
    (cut : Cut source edit before replaced after)
include source edit before replaced after cut

theorem replace_range_cut : replaceRange source edit = before ++ edit.newText ++ after := by
  have first : splitAtByte source edit.start = some (before, replaced ++ after) :=
    (split_at_byte_iff _ _ _ _).mpr ⟨by rw [cut.source, append_assoc], cut.start⟩
  have last : splitAtByte source edit.stop = some (before ++ replaced, after) :=
    (split_at_byte_iff _ _ _ _).mpr ⟨cut.source, cut.stop⟩
  unfold replaceRange
  rw [first, last]

theorem placed_before {token : Token} (placed : slice source token.start token.stop = some token.text)
    (ahead : token.stop ≤ edit.start) :
    slice (replaceRange source edit) token.start token.stop = some token.text := by
  refine slice_unchanged source _ token.text token.start token.stop placed ?_
  have front : ∀ rest, (encode before ++ rest).take token.stop = (encode before).take token.stop := by
    intro rest
    refine take_append_of_le_length ?_
    rw [← cut.start] at ahead
    exact ahead
  rw [replace_range_cut cut, cut.source]
  simp only [encode_append, append_assoc, front]

theorem placed_behind {token : Token} (placed : slice source token.start token.stop = some token.text)
    (behind : edit.stop ≤ token.start) : (shiftToken (byteShift edit) token).text = token.text ∧
      ((shiftToken (byteShift edit) token).start : Int) = token.start + byteShift edit ∧
      ((shiftToken (byteShift edit) token).stop : Int) = token.stop + byteShift edit ∧
      slice (replaceRange source edit) (shiftToken (byteShift edit) token).start
        (shiftToken (byteShift edit) token).stop = some token.text := by
  have ordered := token.ordered
  have width := (slice_ordered source token.text token.start token.stop placed).2
  have ends := cut.stop
  rw [size_append] at ends
  have starts := cut.start
  have low : shifted token.start (byteShift edit) =
      size (before ++ edit.newText) + (token.start - size (before ++ replaced)) := by
    rw [size_append, size_append, shifted, byteShift]
    omega
  have high : shifted token.stop (byteShift edit) =
      size (before ++ edit.newText) + (token.stop - size (before ++ replaced)) := by
    rw [size_append, size_append, shifted, byteShift]
    omega
  obtain ⟨text, start, stop⟩ := retain_shifted_exact token (shifted token.start (byteShift edit))
    (shifted token.stop (byteShift edit)) (by rw [low, high]; omega)
    (by rw [width, low, high, cut.stop]; omega)
  refine ⟨text, ?_, ?_, ?_⟩
  · rw [shiftToken, start, shifted, byteShift]
    omega
  · rw [shiftToken, stop, shifted, byteShift]
    omega
  · rw [shiftToken, start, stop, low, high, replace_range_cut cut]
    refine slice_moved (before ++ replaced) (before ++ edit.newText) after token.text _ _ ?_ ?_
    · rw [← cut.source]
      exact placed
    · rw [cut.stop]
      exact behind

end

theorem shift_unmoved {source : List Char} {edit : SimpleEdit} {token : Token}
    (placed : slice source token.start token.stop = some token.text) (still : byteShift edit = 0) :
    (shiftToken (byteShift edit) token).text = token.text ∧
      (shiftToken (byteShift edit) token).start = token.start ∧
      (shiftToken (byteShift edit) token).stop = token.stop := by
  have width := (slice_ordered source token.text token.start token.stop placed).2
  have same : ∀ position, shifted position 0 = position := fun position => by simp [shifted]
  unfold shiftToken
  rw [still, same, same]
  exact retain_shifted_exact token token.start token.stop token.ordered width

end Edits

section Reparse
variable {front}

theorem tokens_before (segments : List TokenSegment) (position : Nat) :
    (getTokensBefore segments position).getD [] =
      (allTokens segments).filter fun token => token.stop ≤ position := by
  unfold getTokensBefore
  dsimp only
  split
  · next empty => exact (List.isEmpty_iff.mp empty).symm
  · rfl

theorem tokens_from {segments : List TokenSegment} {position : Nat} {tokens : List Token}
    (found : getTokensFrom segments position = some tokens) :
    tokens = (allTokens segments).filter fun token => position ≤ token.start := by
  unfold getTokensFrom at found
  dsimp only at found
  split at found
  · cases found
  · exact (Option.some.inj found).symm

/-- The cached tokens after the caches have been moved: each lies on one side of the edit, those
ahead of it are in place, those behind it once they are shifted, and a settled segment holds tokens
in place only. -/
structure CacheMoved (source : List Char) (edit : SimpleEdit) (segments : List TokenSegment) :
    Prop where
  apart : Apart (allTokens segments)
  aside : ∀ token ∈ allTokens segments, token.stop ≤ edit.start ∨ edit.stop ≤ token.start
  placed : ∀ token ∈ allTokens segments, slice source token.start token.stop = some token.text
  settled : ∀ segment ∈ segments, Settled segment → ∀ token ∈ segment.tokens,
    slice (replaceRange source edit) token.start token.stop = some token.text

theorem move_caches_moved {state : ParserState front}
    (cut : Cut state.source edit before replaced after) (ordered : edit.start ≤ edit.stop)
    (settled : ∀ segment ∈ state.segments, Settled segment)
    (laid : Laid state.source (allTokens state.segments)) :
    CacheMoved state.source edit (moveCaches state edit).segments := by
  have pieces := invalidate_range_pieces (fun segment among => (settled segment among).2) laid.apart ordered
  have tokens : allTokens (moveCaches state edit).segments =
      allTokens (invalidateRange state.segments edit.start edit.stop) :=
    adjust_all_tokens _ _ _ _
  have placed : ∀ token ∈ allTokens (invalidateRange state.segments edit.start edit.stop),
      slice state.source token.start token.stop = some token.text :=
    fun token among => laid.placed token (pieces.old token among)
  have aside : ∀ token ∈ allTokens (invalidateRange state.segments edit.start edit.stop),
      token.stop ≤ edit.start ∨ edit.stop ≤ token.start := by
    intro token among
    obtain ⟨segment, held, inside⟩ := mem_all_tokens.mp among
    rcases pieces.aside segment held with ahead | behind
    · exact .inl (ahead token inside)
    · exact .inr (behind token inside)
  refine ⟨by rw [tokens]; exact pieces.apart, by rw [tokens]; exact aside,
    by rw [tokens]; exact placed, ?_⟩
  intro segment among whole token inside
  obtain ⟨held, stays⟩ := adjust_settled pieces ordered segment among whole
  have here := mem_all_tokens.mpr ⟨segment, held, inside⟩
  rcases stays with same | ahead
  · rcases aside token here with early | late
    · exact placed_before cut (placed token here) early
    have still : byteShift edit = 0 := by
      rw [byteShift]
      omega
    obtain ⟨-, start, stop⟩ := shift_unmoved (placed token here) still
    have moved := (placed_behind cut (placed token here) late).2.2.2
    rwa [start, stop] at moved
  · exact placed_before cut (placed token here) (ahead token inside)

structure RestartStands (source : List Char) (edit : SimpleEdit) (restart : Restart front) : Prop where
  reads : Reads front.lexer source restart.lexerState
  behind : restart.relexStart ≤ front.lexer.position restart.lexerState
  start : restart.relexStart ≤ edit.start
  window : restart.relexStart < restart.relexEnd
  right : restart.hasRight = true → edit.start + size edit.newText ≤ restart.relexEnd

theorem rebind_position {retarget : front.Identity → List Char → front.Identity}
    {checkpoint bound : LexerCheckpoint front.Identity}
    (rebound : checkpoint.rebindToSource retarget source = .ok bound) :
    bound.position = checkpoint.position := by
  unfold LexerCheckpoint.rebindToSource at rebound
  split at rebound
  · cases rebound
  split at rebound
  · cases rebound
  split at rebound
  · cases rebound
  split at rebound
  · cases rebound
  · cases rebound
    rfl

theorem restore_left_stands (places : Places front.lexer)
    {left : Option (LexerCheckpoint front.Identity)} {relexStart limit : Nat}
    {lexerState : front.lexer.State} (restored : restoreLeft source left = some (relexStart, lexerState))
    (near : ∀ checkpoint, left = some checkpoint → checkpoint.position ≤ limit) :
    Reads front.lexer source lexerState ∧ relexStart ≤ front.lexer.position lexerState ∧
      relexStart ≤ limit := by
  unfold restoreLeft at restored
  split at restored
  · cases restored
    exact ⟨.new, Nat.zero_le _, Nat.zero_le _⟩
  rename_i checkpoint
  split at restored
  · cases restored
  rename_i bound rebound
  split at restored
  · cases restored
  rename_i state valid
  cases restored
  refine ⟨.restored bound lexerState valid,
    Nat.le_of_eq (places.restored source bound lexerState valid).symm, ?_⟩
  rw [rebind_position rebound]
  exact near checkpoint rfl

theorem restart_stands (places : Places front.lexer) (state : ParserState front)
    (edit : SimpleEdit) (restarted : Restart front)
    (found : restart (moveCaches state edit) edit = some restarted) :
    RestartStands (replaceRange state.source edit) edit restarted := by
  have keyed := CheckpointCache.apply_edit_keyed front state.checkpointCache edit.start
    (edit.stop - edit.start) (size edit.newText)
  unfold restart at found
  dsimp only at found
  split at found
  · cases found
  rename_i relexStart lexerState restored
  obtain ⟨reads, behind, start⟩ := restore_left_stands places restored
    (fun checkpoint left => CheckpointCache.find_before_position _ keyed _ checkpoint left)
  split at found
  · cases found
  split at found
  · cases found
  rename_i window
  split at found
  · cases found
  cases found
  refine ⟨reads, behind, start, Nat.lt_of_not_le window, ?_⟩
  intro right
  obtain ⟨checkpoint, held⟩ := Option.isSome_iff_exists.mp right
  have far := CheckpointCache.find_after_position _ keyed _ checkpoint held
  rw [held]
  exact far

/-- The window reaches the end of the inserted text, unless the edit keeps the
length or no cached tokens follow. -/
def Reaches (edit : SimpleEdit) (restart : Restart front) : Prop :=
  byteShift edit = 0 ∨ restart.hasRight = false ∨
    ∀ last ∈ restart.relexed.getLast?, edit.start + size edit.newText ≤ last.stop

theorem prefix_laid (cut : Cut source edit before replaced after) {segments : List TokenSegment}
    (moved : CacheMoved source edit segments) {relexStart : Nat} (early : relexStart ≤ edit.start) :
    LaidFrom (replaceRange source edit) 0
      ((allTokens segments).filter fun token => token.stop ≤ relexStart) := by
  refine ⟨⟨?_, moved.apart.filter _⟩, fun _ _ => Nat.zero_le _⟩
  intro token among
  obtain ⟨held, ahead⟩ := mem_filter.mp among
  exact placed_before cut (moved.placed token held) (Nat.le_trans (of_decide_eq_true ahead) early)

/-- The cached tokens from a position on, shifted, are laid from where it goes, when it is not ahead
of the edit's end or nothing shifts. -/
theorem suffix_laid (cut : Cut source edit before replaced after) {segments : List TokenSegment}
    (moved : CacheMoved source edit segments) {actualEnd : Nat}
    (reaches : byteShift edit = 0 ∨ edit.start + size edit.newText ≤ actualEnd)
    (ordered : edit.start ≤ edit.stop) :
    LaidFrom (replaceRange source edit) actualEnd (((allTokens segments).filter fun token =>
        shifted actualEnd (-byteShift edit) ≤ token.start).map (shiftToken (byteShift edit))) := by
  have each : ∀ token ∈ (allTokens segments).filter fun token =>
        shifted actualEnd (-byteShift edit) ≤ token.start,
      slice (replaceRange source edit) (shiftToken (byteShift edit) token).start
          (shiftToken (byteShift edit) token).stop = some (shiftToken (byteShift edit) token).text ∧
        ((shiftToken (byteShift edit) token).start : Int) = token.start + byteShift edit ∧
        ((shiftToken (byteShift edit) token).stop : Int) = token.stop + byteShift edit := by
    intro token among
    obtain ⟨held, late⟩ := mem_filter.mp among
    have past := of_decide_eq_true late
    have placed := moved.placed token held
    by_cases behind : edit.stop ≤ token.start
    · obtain ⟨text, start, stop, found⟩ := placed_behind cut placed behind
      exact ⟨by rw [found, text], start, stop⟩
    have still : byteShift edit = 0 := by
      rcases reaches with still | reached
      · exact still
      · rw [shifted] at past
        rw [byteShift] at past ⊢
        omega
    have ahead : token.stop ≤ edit.start := (moved.aside token held).resolve_right behind
    obtain ⟨text, start, stop⟩ := shift_unmoved placed still
    refine ⟨?_, by rw [start, still]; simp, by rw [stop, still]; simp⟩
    rw [text, start, stop]
    exact placed_before cut placed ahead
  refine ⟨⟨?_, ?_⟩, ?_⟩
  · intro token among
    obtain ⟨old, held, rfl⟩ := mem_map.mp among
    exact (each old held).1
  · refine pairwise_map.mpr ((moved.apart.filter _).imp_of_mem ?_)
    intro left right leftHeld rightHeld apart
    have stop := (each left leftHeld).2.2
    have start := (each right rightHeld).2.1
    omega
  · intro token among
    obtain ⟨old, held, rfl⟩ := mem_map.mp among
    have start := (each old held).2.1
    have past := of_decide_eq_true (mem_filter.mp held).2
    rw [shifted] at past
    omega

/-- The tokens handed to the parser are laid in the edited source, and so is the cache where its
segments are settled. -/
structure Reparsed (source : List Char) (after : ParserState front) : Prop where
  text : after.source = source
  handed : ∃ tokens, after.handed = some tokens ∧ Laid source tokens
  cached : (∀ segment ∈ after.segments, Settled segment) → Laid source (allTokens after.segments)

theorem reparse_laid (places : Places front.lexer) {state : ParserState front}
    (cut : Cut state.source edit before replaced after) (ordered : edit.start ≤ edit.stop)
    (settled : ∀ segment ∈ state.segments, Settled segment)
    (laid : Laid state.source (allTokens state.segments)) {restarted : Restart front}
    (found : restart (moveCaches state edit) edit = some restarted) (reaches : Reaches edit restarted) :
    Reparsed (replaceRange state.source edit)
      (reparseFromCheckpointTwoSided (moveCaches state edit) edit restarted) := by
  have moved := move_caches_moved cut ordered settled laid
  have stands := restart_stands places state edit restarted found
  have window : WindowLaid _ _ restarted.window :=
    relex_window_laid places restarted.relexEnd _ restarted.lexerState stands.reads
  have relexed : LaidFrom (replaceRange state.source edit) restarted.relexStart restarted.relexed :=
    window.laid.earlier stands.behind
  have first := prefix_laid cut moved stands.start
  have ends : ∀ token ∈ (allTokens (moveCaches state edit).segments).filter
      (fun token => token.stop ≤ restarted.relexStart), token.stop ≤ restarted.relexStart :=
    fun token among => of_decide_eq_true (mem_filter.mp among).2
  have front := first.append relexed ends (Nat.zero_le _)
  have cached : ∀ tokens, Laid (replaceRange state.source edit) tokens →
      (∀ segment ∈ cacheRead (moveCaches state edit).segments tokens, Settled segment) →
        Laid (replaceRange state.source edit)
          (allTokens (cacheRead (moveCaches state edit).segments tokens)) :=
    fun tokens read whole => cache_read_laid moved.apart moved.settled read whole
  unfold reparseFromCheckpointTwoSided
  dsimp only
  rw [tokens_before]
  split
  · next right =>
      -- the end of the window behind which cached tokens may follow
      generalize actual : (restarted.relexed.getLast?.map Token.stop).getD restarted.relexEnd =
        actualRelexEnd
      have reached : byteShift edit = 0 ∨ edit.start + size edit.newText ≤ actualRelexEnd := by
        rcases reaches with still | alone | reached
        · exact .inl still
        · rw [right] at alone
          cases alone
        · right
          cases tail : restarted.relexed.getLast? with
          | none =>
            rw [tail] at actual
            rw [← actual]
            exact stands.right right
          | some last =>
            rw [tail] at actual
            rw [← actual]
            exact reached last tail
      have inWindow : ∀ token ∈ restarted.relexed, token.stop ≤ actualRelexEnd := by
        intro token among
        cases tail : restarted.relexed.getLast? with
        | none =>
          rw [getLast?_eq_none_iff.mp tail] at among
          cases among
        | some last =>
          rw [tail] at actual
          rw [← actual]
          exact last_token_greatest relexed.1.apart tail token among
      have behindStart : restarted.relexStart ≤ actualRelexEnd := by
        cases tail : restarted.relexed.getLast? with
        | none =>
          rw [tail] at actual
          rw [← actual]
          exact Nat.le_of_lt stands.window
        | some last =>
          have low := relexed.2 last (mem_of_getLast? tail)
          have high := inWindow last (mem_of_getLast? tail)
          exact Nat.le_trans low (Nat.le_trans last.ordered high)
      split
      · next tokens reused =>
          obtain rfl := tokens_from reused
          have back := suffix_laid cut moved reached ordered
          refine ⟨rfl, ⟨_, rfl, (front.append back ?_ (Nat.zero_le _)).1⟩, cached _ relexed.1⟩
          intro token among
          rcases mem_append.mp among with early | late
          · exact Nat.le_trans (ends token early) behindStart
          · exact inWindow token late
      · -- nothing cached follows: the lexer reads on from where the window left it
        have tail := read_all_laid places restarted.window.2 window.reads
        have both := relexed.append tail window.ends (Nat.le_trans stands.behind window.order)
        have all := first.append both ends (Nat.zero_le _)
        rw [← append_assoc] at all
        exact ⟨rfl, ⟨_, rfl, all.1⟩, cached _ both.1⟩
  · exact ⟨rfl, ⟨_, rfl, front.1⟩, cached _ relexed.1⟩

end Reparse

section Runs
variable {front}

theorem parse_with_checkpoints_laid (places : Places front.lexer) (state : ParserState front) :
    Laid state.source (allTokens (parseWithCheckpoints state).segments) := by
  unfold parseWithCheckpoints
  dsimp only
  rw [cache_read_empty, spanning_all_tokens]
  exact (read_all_laid places (front.lexer.new state.source) .new).1

/-- The invariant of a run: what was handed to the parser is laid in the source, and so is the cache
while no shift has come between segments and tokens. -/
structure Consistent (state : ParserState front) : Prop where
  cached : (∀ segment ∈ state.segments, Settled segment) →
    Laid state.source (allTokens state.segments)
  handed : ∀ tokens ∈ state.handed, Laid state.source tokens

def HandedInPlace (state : ParserState front) : Prop :=
  ∀ tokens ∈ state.handed, Laid state.source tokens

/-- An edit falls back to a full parse, or finds every cached segment over its own tokens and reads
to the end of the inserted text. -/
def Meets (state : ParserState front) (edit : SimpleEdit) : Prop :=
  ∀ restarted ∈ restart (moveCaches state edit) edit,
    (∀ segment ∈ state.segments, Settled segment) ∧ Reaches edit restarted

theorem full_parse_consistent (places : Places front.lexer) (state : ParserState front) :
    Consistent (parseWithCheckpoints state) where
  cached := fun _ => parse_with_checkpoints_laid places state
  handed := fun _ among => by cases among

theorem step_consistent (places : Places front.lexer) (state : ParserState front)
    (edit : SimpleEdit) (consistent : Consistent state) (meets : Meets state edit) :
    Consistent (step state edit) := by
  unfold step applyEdit
  cases valid : validateEdit state.source edit with
  | error _ => exact consistent
  | ok _ =>
    obtain ⟨ordered, before, replaced, after, cut⟩ := validate_edit_cuts valid
    cases found : restart (moveCaches state edit) edit with
    | none =>
      simp only [found]
      exact full_parse_consistent places (moveCaches state edit)
    | some restarted =>
      obtain ⟨settled, reaches⟩ := meets restarted found
      have reparsed := reparse_laid places cut ordered settled (consistent.cached settled) found reaches
      obtain ⟨tokens, handed, laid⟩ := reparsed.handed
      simp only [found]
      refine ⟨fun whole => ?_, fun others among => ?_⟩
      · rw [reparsed.text]
        exact reparsed.cached whole
      · rw [handed] at among
        obtain rfl := Option.some.inj among
        rw [reparsed.text]
        exact laid

/-- In a run whose edits all meet the condition, the tokens handed to the parser
are in place after each of them. -/
theorem handed_tokens_in_place (places : Places front.lexer) (source : List Char)
    (edits : List SimpleEdit) (meet : Runs.StepsMeet step Meets (parse source : ParserState front) edits) :
    Runs.Along step HandedInPlace (parse source : ParserState front) edits := by
  have along := Runs.along_of_steps step Consistent Meets
    (fun state edit consistent meets => step_consistent places state edit consistent meets)
    (parse source) edits (full_parse_consistent places _) meet
  exact Runs.along_mono step (fun state consistent => consistent.handed) (parse source) edits along

def scalarFrontend : Frontend where
  Identity := List Char
  Kind := ScalarKind
  lexer := scalarLexer
  kindOf := fun _ => .other 0
  isTrivia := fun kind => kind = .eof
  sortByPosition := List.insertionSort fun left right => left.1 ≤ right.1
  sort_perm := perm_insertionSort _
  sort_sorted := pairwise_insertionSort _

def doubled : SimpleEdit := ⟨0, 1, [';', ';']⟩

instance (state : ParserState scalarFrontend) (edit : SimpleEdit) : Decidable (Meets state edit) :=
  inferInstanceAs (Decidable (∀ restarted ∈ restart (moveCaches state edit) edit,
    (∀ segment ∈ state.segments, Settled segment) ∧ (byteShift edit = 0 ∨
      restarted.hasRight = false ∨
      ∀ last ∈ restarted.relexed.getLast?, edit.start + size edit.newText ≤ last.stop)))

/-- Doubling the first semicolon twice, with an edit at a dead checkpoint in between. -/
theorem handed_tokens_in_place_after_fallback :
    Runs.Along step HandedInPlace (parse [';', ';'] : ParserState scalarFrontend)
      [doubled, ⟨2, 3, [';']⟩, doubled] :=
  handed_tokens_in_place scalar_lexer_places [';', ';'] [doubled, ⟨2, 3, [';']⟩, doubled]
    ⟨by decide, by decide, by decide, trivial⟩

/-- Doubling the first semicolon twice in a row hands the parser one token twice. -/
theorem doubled_twice_hands_token_twice :
    Places scalarFrontend.lexer ∧
    Runs.StepsMeet step (fun state edit => (validateEdit state.source edit).isOk)
      (parse [';', ';'] : ParserState scalarFrontend) [doubled, doubled] ∧
    ¬Runs.Along step HandedInPlace (parse [';', ';'] : ParserState scalarFrontend)
      [doubled, doubled] := by
  refine ⟨scalar_lexer_places, ⟨by decide, by decide, trivial⟩, ?_⟩
  intro along
  have last : HandedInPlace (step (step (parse [';', ';'] : ParserState scalarFrontend) doubled)
    doubled) := along.2.2
  have overlap : ∃ tokens ∈ (step (step (parse [';', ';'] : ParserState scalarFrontend) doubled)
      doubled).handed, ¬tokens.Pairwise fun left right => left.stop ≤ right.start :=
    ⟨_, rfl, by decide⟩
  obtain ⟨tokens, handed, overlapping⟩ := overlap
  exact overlapping (last tokens handed).apart

end Runs

end PerlLsp.CheckpointedParser
