import PerlLsp.CheckpointedParser
import PerlLsp.Lookahead

/-! The token stream between the lexer and the parser
(perl-parser-core/src/tokens/token_stream.rs): three tokens of lookahead, each with
the checkpoint taken before it was read, over a live lexer or a list of tokens.
The lexer is the one of the checkpoint module, with the mode switch the contextual
operations use. -/
namespace PerlLsp.ParserTokens
open Utf8 Checkpoint TokenCache CheckpointedParser Lookahead

inductive ParseError where
  | unexpectedEof
  deriving DecidableEq

structure StreamFront extends Frontend where
  setMode : lexer.State → LexerMode → lexer.State
  formatBody : TokenKind

inductive ContextualTokenOp where
  | statementBoundaryReset
  | reclassifyFromBoundary (expectedContext : LexerMode)
  | enterFormatBody
  | invalidateLookahead
  deriving DecidableEq

inductive ContextualFallbackReason where
  | noBufferedSource
  | noCheckpointAuthority
  deriving DecidableEq

inductive ContextualOpResult where
  | appliedLive
  | appliedReplay
  | notRequired
  | fallbackRequired (reason : ContextualFallbackReason)
  | unsupported
  deriving DecidableEq

variable (front : StreamFront)

inductive TokenStreamInner where
  | lexer (input : List Char) (state : front.lexer.State)
  | buffered (tokens : List Token) (source : Option (List Char))

structure TokenStream where
  inner : TokenStreamInner front
  bufferedEofPos : Nat
  peeked : Option Token
  peekedSecond : Option Token
  peekedThird : Option Token
  peekBoundary : Option (LexerCheckpoint front.Identity)
  peekSecondBoundary : Option (LexerCheckpoint front.Identity)
  peekThirdBoundary : Option (LexerCheckpoint front.Identity)
  lastBoundary : Option (LexerCheckpoint front.Identity)

variable {front}

def isEofToken (token : Token) : Bool := token.kind = .eof

def positionAfter (token : Token) : Nat := if isEofToken token then token.start else token.stop

def TokenStream.new (input : List Char) : TokenStream front :=
  ⟨.lexer input (front.lexer.new input), size input, none, none, none, none, none, none, none⟩

variable (tokens : List Token)

def TokenStream.buffered (source : Option (List Char)) : TokenStream front :=
  ⟨.buffered tokens source, (tokens.getLast?.map positionAfter).getD 0,
    none, none, none, none, none, none, none⟩

def TokenStream.fromVec : TokenStream front := .buffered tokens none

def TokenStream.fromVecWithSource (source : List Char) :
    TokenStream front := .buffered tokens (some source)

/-- The loop of `next_token_from_lexer` over what the lexer will read. -/
def drain : front.lexer.State → List (LexToken front.Kind × front.lexer.State) →
    Except ParseError Token × front.lexer.State
  | state, [] => (.error .unexpectedEof, state)
  | _, (token, next) :: rest =>
    if front.lexer.isEof token.tokenType then
      (.ok (tokenFromLexerParts .eof [] token.start token.stop), next)
    else if front.isTrivia token.tokenType then drain next rest
    else (.ok (convertLexerToken front.toFrontend token), next)

def nextTokenFromLexer (state : front.lexer.State) : Except ParseError Token × front.lexer.State :=
  drain state (readAll front.toFrontend state)

def nextTokenFromBuf (tokens : List Token) (bufferedEofPos : Nat) : Token × List Token × Nat :=
  match tokens with
  | token :: rest => (token, rest, positionAfter token)
  | [] => (.eofAt bufferedEofPos, [], bufferedEofPos)

namespace TokenStream

def nextToken (s : TokenStream front) (captureBoundary : Bool) :
    Except ParseError Token × TokenStream front :=
  match s.inner with
  | .lexer input state =>
    let boundary := if captureBoundary then some (front.lexer.checkpoint state) else none
    match nextTokenFromLexer state with
    | (.error error, after) => (.error error, { s with inner := .lexer input after })
    | (.ok token, after) =>
      (.ok token, { s with inner := .lexer input after, lastBoundary := boundary })
  | .buffered tokens source =>
    let (token, rest, position) := nextTokenFromBuf tokens s.bufferedEofPos
    (.ok token, { s with inner := .buffered rest source, bufferedEofPos := position })

/-- `as_ref().ok_or(UnexpectedEof)` on a slot. -/
def slot (held : Option Token) : Except ParseError Token :=
  match held with
  | some token => .ok token
  | none => .error .unexpectedEof

variable (s : TokenStream front)

def peek : Except ParseError Token × TokenStream front :=
  if s.peeked.isNone then
    match s.nextToken true with
    | (.error error, s) => (.error error, s)
    | (.ok token, s) =>
      (.ok token, { s with peekBoundary := s.lastBoundary, lastBoundary := none, peeked := some token })
  else (slot s.peeked, s)

def next : Except ParseError Token × TokenStream front :=
  match s.peeked with
  | some token =>
    if isEofToken token then (.ok token, { s with peeked := some token })
    else
      (.ok token, { s with
        peeked := s.peekedSecond
        peekBoundary := s.peekSecondBoundary
        peekedSecond := s.peekedThird
        peekSecondBoundary := s.peekThirdBoundary
        peekedThird := none
        peekThirdBoundary := none })
  | none =>
    match s.nextToken false with
    | (.error error, s) => (.error error, s)
    | (.ok token, s) =>
      (.ok token, { s with
        lastBoundary := none
        peeked := if isEofToken token then some token else s.peeked })

def isEof : Bool × TokenStream front :=
  match s.peek with
  | (.ok token, s) => (isEofToken token, s)
  | (.error _, s) => (false, s)

def peekSecond : Except ParseError Token × TokenStream front :=
  match s.peek with
  | (.error error, s) => (.error error, s)
  | (.ok _, s) =>
    if s.peekedSecond.isNone then
      match s.nextToken true with
      | (.error error, s) => (.error error, s)
      | (.ok token, s) =>
        (.ok token, { s with
          peekSecondBoundary := s.lastBoundary
          lastBoundary := none
          peekedSecond := some token })
    else (slot s.peekedSecond, s)

def peekThird : Except ParseError Token × TokenStream front :=
  match s.peekSecond with
  | (.error error, s) => (.error error, s)
  | (.ok _, s) =>
    if s.peekedThird.isNone then
      match s.nextToken true with
      | (.error error, s) => (.error error, s)
      | (.ok token, s) =>
        (.ok token, { s with
          peekThirdBoundary := s.lastBoundary
          lastBoundary := none
          peekedThird := some token })
    else (slot s.peekedThird, s)

def clearLookahead : TokenStream front :=
  { s with
    peeked := none
    peekedSecond := none
    peekedThird := none
    peekBoundary := none
    peekSecondBoundary := none
    peekThirdBoundary := none }

def lookaheadCached : Bool :=
  s.peeked.isSome || s.peekedSecond.isSome || s.peekedThird.isSome

def invalidatePeek : TokenStream front := s.clearLookahead

def peekFreshKind : Option TokenKind × TokenStream front :=
  match s.invalidatePeek.peek with
  | (.ok token, s) => (some token.kind, s)
  | (.error _, s) => (none, s)

def isBuffered : Bool :=
  match s.inner with
  | .buffered _ _ => true
  | .lexer _ _ => false

def bufferedFallbackReason : ContextualFallbackReason :=
  match s.inner with
  | .buffered _ (some _) => .noCheckpointAuthority
  | _ => .noBufferedSource

def headKind : Option TokenKind :=
  match s.peeked with
  | some token => some token.kind
  | none =>
    match s.inner with
    | .lexer _ _ => none
    | .buffered tokens _ => tokens.head?.map Token.kind

def restoreLiveLookaheadBoundary : Except ContextualFallbackReason (TokenStream front) :=
  match s.peekBoundary, s.inner with
  | none, _ => .ok s
  | some _, .buffered _ _ => .ok s
  | some boundary, .lexer input _ =>
    match restore front.lexer input boundary with
    | .error _ => .error .noCheckpointAuthority
    | .ok restored => .ok { s with inner := .lexer input restored }

def setLexerMode (mode : LexerMode) : TokenStream front :=
  match s.inner with
  | .lexer input state => { s with inner := .lexer input (front.setMode state mode) }
  | .buffered _ _ => s

def applyStatementBoundaryReset : ContextualOpResult × TokenStream front :=
  if s.isBuffered then (.fallbackRequired s.bufferedFallbackReason, s)
  else
    match s.restoreLiveLookaheadBoundary with
    | .error reason => (.fallbackRequired reason, s)
    | .ok restored => (.appliedLive, (restored.setLexerMode .expectTerm).clearLookahead)

def applyReclassifyFromBoundary (expectedContext : LexerMode) :
    ContextualOpResult × TokenStream front :=
  if expectedContext ≠ .expectTerm ∧ expectedContext ≠ .expectOperator ∧
      expectedContext ≠ .expectDelimiter then (.unsupported, s)
  else if !(s.peeked.any fun token => !isEofToken token) then (.notRequired, s)
  else if s.isBuffered then (.fallbackRequired s.bufferedFallbackReason, s)
  else
    match s.inner, s.peekBoundary with
    | .lexer input _, some boundary =>
      match restore front.lexer input boundary with
      | .error _ => (.fallbackRequired .noCheckpointAuthority, s)
      | .ok restored =>
        (.appliedLive, { s with
          inner := .lexer input (front.setMode restored expectedContext) }.clearLookahead)
    | _, _ => (.fallbackRequired .noCheckpointAuthority, s)

def applyEnterFormatBody : ContextualOpResult × TokenStream front :=
  if s.isBuffered then
    if s.headKind = some front.formatBody then (.notRequired, s)
    else (.fallbackRequired s.bufferedFallbackReason, s)
  else
    match s.restoreLiveLookaheadBoundary with
    | .error reason => (.fallbackRequired reason, s)
    | .ok restored => (.appliedLive, (restored.setLexerMode .inFormatBody).clearLookahead)

def applyContextual (operation : ContextualTokenOp) : ContextualOpResult × TokenStream front :=
  match operation with
  | .invalidateLookahead =>
    let result : ContextualOpResult :=
      if !s.lookaheadCached then .notRequired
      else if s.isBuffered then .appliedReplay else .appliedLive
    (result, s.clearLookahead)
  | .statementBoundaryReset => s.applyStatementBoundaryReset
  | .reclassifyFromBoundary expectedContext => s.applyReclassifyFromBoundary expectedContext
  | .enterFormatBody => s.applyEnterFormatBody

end TokenStream

structure Feed (front : StreamFront) where
  inner : TokenStreamInner front
  bufferedEofPos : Nat

def Feed.pull (feed : Feed front) : Except ParseError Token × Feed front :=
  match feed.inner with
  | .lexer input state =>
    ((nextTokenFromLexer state).1, { feed with inner := .lexer input (nextTokenFromLexer state).2 })
  | .buffered tokens source =>
    let (token, rest, position) := nextTokenFromBuf tokens feed.bufferedEofPos
    (.ok token, ⟨.buffered rest source, position⟩)

-- the loop as the source writes it: one token of the lexer at a time
theorem next_token_from_lexer_steps (state : front.lexer.State) : nextTokenFromLexer state =
    match front.lexer.nextToken state with
    | none => (.error .unexpectedEof, state)
    | some (token, next) =>
      if front.lexer.isEof token.tokenType then
        (.ok (tokenFromLexerParts .eof [] token.start token.stop), next)
      else if front.isTrivia token.tokenType then nextTokenFromLexer next
      else (.ok (convertLexerToken front.toFrontend token), next) := by
  rw [nextTokenFromLexer, read_all_steps]
  cases read : front.lexer.nextToken state with
  | none => rfl
  | some entry =>
    obtain ⟨token, next⟩ := entry
    cases last : front.lexer.isEof token.tokenType with
    | true => simp [drain, last]
    | false => simp [drain, last, nextTokenFromLexer]

theorem from_lexer_fails (left : Nat) (state after : front.lexer.State) (error : ParseError)
    (bounded : front.lexer.remaining state < left)
    (failed : nextTokenFromLexer state = (.error error, after)) : front.lexer.nextToken after = none := by
  induction left generalizing state with
  | zero => omega
  | succ left ih =>
    rw [next_token_from_lexer_steps] at failed
    cases read : front.lexer.nextToken state with
    | none =>
      rw [read] at failed
      cases failed
      exact read
    | some entry =>
      obtain ⟨token, next⟩ := entry
      simp only [read] at failed
      cases last : front.lexer.isEof token.tokenType with
      | true => simp [last] at failed
      | false =>
        have shrinks := front.lexer.advances state token next read last
        cases trivial : front.isTrivia token.tokenType with
        | true => exact ih next (by omega) (by simpa [last, trivial] using failed)
        | false => simp [last, trivial] at failed

theorem pull_settled (feed : Feed front) (error : ParseError) (after : Feed front)
    (failed : feed.pull = (.error error, after)) : after.pull = (.error error, after) := by
  obtain ⟨inner, position⟩ := feed
  cases inner with
  | buffered tokens source => simp [Feed.pull] at failed
  | lexer input state =>
    cases result : nextTokenFromLexer state with
    | mk outcome last =>
      simp only [Feed.pull, result] at failed
      obtain ⟨rfl, rfl⟩ := failed
      have stuck := from_lexer_fails _ state last error (Nat.lt_succ_self _) result
      have again : nextTokenFromLexer last = (.error .unexpectedEof, last) := by
        rw [next_token_from_lexer_steps, stuck]
      simp only [Feed.pull, again]

def tap (front : StreamFront) : Tap (Feed front) Token ParseError where
  pull := Feed.pull
  final := isEofToken
  settled := pull_settled

namespace TokenStream

def feed (s : TokenStream front) : Feed front := ⟨s.inner, s.bufferedEofPos⟩

def held (s : TokenStream front) : List Token :=
  s.peeked.toList ++ s.peekedSecond.toList ++ s.peekedThird.toList

def window (s : TokenStream front) : Window (Feed front) Token := ⟨s.feed, s.held⟩

/-- The slots are filled from the first one on. -/
structure Packed (s : TokenStream front) : Prop where
  second : s.peeked = none → s.peekedSecond = none
  third : s.peekedSecond = none → s.peekedThird = none

variable {token : Token} (s : TokenStream front)

theorem next_token_pulls (captureBoundary : Bool) : (s.nextToken captureBoundary).1 = s.feed.pull.1 ∧
      (s.nextToken captureBoundary).2.feed = s.feed.pull.2 ∧
      (s.nextToken captureBoundary).2.peeked = s.peeked ∧
      (s.nextToken captureBoundary).2.peekedSecond = s.peekedSecond ∧
      (s.nextToken captureBoundary).2.peekedThird = s.peekedThird := by
  obtain ⟨inner, position, -⟩ := s
  cases inner with
  | buffered tokens source => exact ⟨rfl, rfl, rfl, rfl, rfl⟩
  | lexer input state =>
    cases result : nextTokenFromLexer state with
    | mk outcome after =>
      cases outcome <;> simp [nextToken, Feed.pull, feed, result]

/-- `nextToken` is one pull of the feed; the slots stay. -/
structure Pulled (s after : TokenStream front) (outcome : Except ParseError Token) : Prop where
  pull : s.feed.pull = (outcome, after.feed)
  peeked : after.peeked = s.peeked
  second : after.peekedSecond = s.peekedSecond
  third : after.peekedThird = s.peekedThird

theorem next_token_pulled (after : TokenStream front) (captureBoundary : Bool)
    (outcome : Except ParseError Token) (result : s.nextToken captureBoundary = (outcome, after)) :
    Pulled s after outcome := by
  obtain ⟨first, feed, peeked, second, third⟩ := s.next_token_pulls captureBoundary
  rw [result] at first feed peeked second third
  exact ⟨Prod.ext first.symm feed.symm, peeked, second, third⟩

theorem Pulled.held {s after : TokenStream front} {outcome : Except ParseError Token}
    (pulled : Pulled s after outcome) : after.held = s.held := by
  rw [TokenStream.held, pulled.peeked, pulled.second, pulled.third, TokenStream.held]

structure Related (behind : Window (Feed front) Token) (s : TokenStream front) : Prop where
  packed : Packed s
  ahead : Ahead (tap front) behind s.window

variable {behind : Window (Feed front) Token}

theorem failed_related {s after : TokenStream front} {error : ParseError}
    (related : Related behind s) (pulled : Pulled s after (.error error)) : Related behind after := by
  refine ⟨⟨?_, ?_⟩, ?_⟩
  · rw [pulled.peeked, pulled.second]
    exact related.packed.second
  · rw [pulled.second, pulled.third]
    exact related.packed.third
  · have filled := fill_ahead (tap front) behind s.window related.ahead
    have same : (Lookahead.fill (tap front) s.window).2 = after.window := by
      simp [Lookahead.fill, tap, window, pulled.pull, pulled.held]
    rwa [same] at filled

theorem filled_related {s after filled : TokenStream front} (related : Related behind s)
    (pulled : Pulled s after (.ok token)) (packed : Packed filled) (feed : filled.feed = after.feed)
    (held : filled.held = s.held ++ [token]) : Related behind filled := by
  refine ⟨packed, ?_⟩
  have pushed := fill_ahead (tap front) behind s.window related.ahead
  have same : (Lookahead.fill (tap front) s.window).2 = filled.window := by
    simp [Lookahead.fill, tap, window, pulled.pull, feed, held]
  rwa [same] at pushed

structure Peeked (behind : Window (Feed front) Token)
    (outcome : Except ParseError Token × TokenStream front)
    (slot : TokenStream front → Option Token) : Prop where
  related : Related behind outcome.2
  filled : ∀ token, outcome.1 = .ok token → slot outcome.2 = some token

theorem slot_ok {held : Option Token} (read : slot held = .ok token) : held = some token := by
  cases held with
  | none => cases read
  | some first => exact congrArg _ (Except.ok.inj read)

section
variable (related : Related behind s)
include s related

theorem peek_peeked : Peeked behind s.peek TokenStream.peeked := by
  unfold peek
  cases here : s.peeked with
  | some token => exact ⟨related, fun other read => here.trans (slot_ok read)⟩
  | none =>
    have second := related.packed.second here
    have third := related.packed.third second
    cases result : s.nextToken true with
    | mk outcome after =>
      have pulled := s.next_token_pulled after true outcome result
      cases outcome with
      | error error => exact ⟨failed_related related pulled, nofun⟩
      | ok token =>
        refine ⟨filled_related related pulled ⟨nofun, fun _ => ?_⟩ rfl ?_, ?_⟩
        · exact pulled.third.trans third
        · simp [held, here, second, third, pulled.second, pulled.third]
        · rintro other ⟨⟩
          rfl

theorem peek_second_peeked : Peeked behind s.peekSecond TokenStream.peekedSecond := by
  have first := s.peek_peeked related
  unfold peekSecond
  cases firstResult : s.peek with
  | mk outcome s =>
    rw [firstResult] at first
    cases outcome with
    | error error => exact ⟨first.related, nofun⟩
    | ok head =>
      have headHeld : s.peeked = some head := first.filled head rfl
      dsimp only
      cases here : s.peekedSecond with
      | some token => exact ⟨first.related, fun other read => here.trans (slot_ok read)⟩
      | none =>
        have third : s.peekedThird = none := first.related.packed.third here
        cases result : s.nextToken true with
        | mk outcome after =>
          have pulled := s.next_token_pulled after true outcome result
          cases outcome with
          | error error => exact ⟨failed_related first.related pulled, nofun⟩
          | ok token =>
            refine ⟨filled_related first.related pulled ⟨?_, nofun⟩ rfl ?_, ?_⟩
            · simp [pulled.peeked, headHeld]
            · simp [held, here, third, pulled.peeked, pulled.third]
            · rintro other ⟨⟩
              rfl

theorem peek_third_peeked : Peeked behind s.peekThird TokenStream.peekedThird := by
  have prior := s.peek_second_peeked related
  unfold peekThird
  cases priorResult : s.peekSecond with
  | mk outcome s =>
    rw [priorResult] at prior
    cases outcome with
    | error error => exact ⟨prior.related, nofun⟩
    | ok secondToken =>
      have secondHeld : s.peekedSecond = some secondToken := prior.filled secondToken rfl
      dsimp only
      cases here : s.peekedThird with
      | some token => exact ⟨prior.related, fun other read => here.trans (slot_ok read)⟩
      | none =>
        cases result : s.nextToken true with
        | mk outcome after =>
          have pulled := s.next_token_pulled after true outcome result
          cases outcome with
          | error error => exact ⟨failed_related prior.related pulled, nofun⟩
          | ok token =>
            refine ⟨filled_related prior.related pulled ⟨?_, ?_⟩ rfl ?_, ?_⟩
            · intro none
              have gone := prior.related.packed.second (pulled.peeked.symm.trans none)
              simp [secondHeld] at gone
            · simp [pulled.second, secondHeld]
            · simp [held, here, pulled.peeked, pulled.second]
            · rintro other ⟨⟩
              rfl

theorem clear_related : Related (Lookahead.skip (tap front) s.held.length behind) s.clearLookahead :=
  ⟨⟨fun _ => rfl, fun _ => rfl⟩, clear_ahead (tap front) behind s.window related.ahead⟩

end

theorem next_window (packed : Packed s) :
    Lookahead.next (tap front) s.window = (s.next.1, s.next.2.window) ∧ Packed s.next.2 := by
  cases here : s.peeked with
  | some token =>
    have holds : s.window = ⟨s.feed, token :: (s.peekedSecond.toList ++ s.peekedThird.toList)⟩ := by
      simp [window, held, here]
    rw [holds, next_held]
    cases final : isEofToken token with
    | true =>
      refine ⟨by simp [tap, next, here, final, window, feed, held], ?_⟩
      simp only [next, here, final]
      exact ⟨nofun, packed.third⟩
    | false =>
      refine ⟨by simp [tap, next, here, final, window, feed, held], ?_⟩
      simp only [next, here, final]
      exact ⟨packed.third, fun _ => rfl⟩
  | none =>
    have second := packed.second here
    have third := packed.third second
    have holds : s.window = ⟨s.feed, []⟩ := by simp [window, held, here, second, third]
    cases result : s.nextToken false with
    | mk outcome after =>
      have pulled := s.next_token_pulled after false outcome result
      have afterSecond := pulled.second.trans second
      have afterThird := pulled.third.trans third
      cases outcome with
      | error error =>
        rw [holds, next_failed (tap front) s.feed after.feed error pulled.pull]
        simp only [next, here, result]
        refine ⟨?_, ⟨fun _ => afterSecond, fun _ => afterThird⟩⟩
        simp [window, held, pulled.peeked, here, afterSecond, afterThird]
      | ok token =>
        rw [holds, next_pulled (tap front) s.feed after.feed token pulled.pull]
        simp only [next, here, result]
        refine ⟨?_, ⟨fun _ => afterSecond, fun _ => afterThird⟩⟩
        cases final : isEofToken token <;>
          simp [tap, final, window, feed, held, pulled.peeked, here, afterSecond, afterThird]

theorem next_related (related : Related behind s) : s.next.1 = (Lookahead.next (tap front) behind).1 ∧
      Related (Lookahead.next (tap front) behind).2 s.next.2 := by
  obtain ⟨same, onward⟩ := next_ahead (tap front) behind s.window related.ahead
  obtain ⟨moved, packed⟩ := s.next_window related.packed
  rw [moved] at same onward
  exact ⟨same, ⟨packed, onward⟩⟩

inductive Call where
  | next
  | peek
  | peekSecond
  | peekThird
  | isEof
  | invalidatePeek
  | peekFreshKind
  | invalidateLookahead
  deriving DecidableEq

def Call.invalidates : Call → Bool
  | .invalidatePeek => true
  | .peekFreshKind => true
  | .invalidateLookahead => true
  | _ => false

def after (s : TokenStream front) : Call → TokenStream front
  | .next => s.next.2
  | .peek => s.peek.2
  | .peekSecond => s.peekSecond.2
  | .peekThird => s.peekThird.2
  | .isEof => s.isEof.2
  | .invalidatePeek => s.invalidatePeek
  | .peekFreshKind => s.peekFreshKind.2
  | .invalidateLookahead => (s.applyContextual .invalidateLookahead).2

/-- What the calls of `next` return, in order. -/
def answers : TokenStream front → List Call → List (Except ParseError Token)
  | _, [] => []
  | s, call :: rest =>
    if call = .next then s.next.1 :: answers (s.after call) rest else answers (s.after call) rest

def passes : TokenStream front → List Call → List Plain
  | _, [] => []
  | s, call :: rest =>
    if call = .next then .next :: passes (s.after call) rest
    else if call.invalidates then .skip s.held.length :: passes (s.after call) rest
    else passes (s.after call) rest

theorem is_eof_after : s.isEof.2 = s.peek.2 := by
  unfold isEof
  cases result : s.peek with
  | mk outcome after => cases outcome <;> rfl

theorem peek_fresh_after : s.peekFreshKind.2 = s.clearLookahead.peek.2 := by
  unfold peekFreshKind invalidatePeek
  cases result : s.clearLookahead.peek with
  | mk outcome after => cases outcome <;> rfl

theorem answers_passes (related : Related behind s) (calls : List Call) :
    s.answers calls = plainAnswers (tap front) behind (s.passes calls) := by
  induction calls generalizing behind s with
  | nil => rfl
  | cons call rest ih =>
    cases call with
    | next =>
      obtain ⟨same, onward⟩ := s.next_related related
      have tail := ih s.next.2 onward
      change s.next.1 :: s.next.2.answers rest = (Lookahead.next (tap front) behind).1 ::
          plainAnswers (tap front) _ (s.next.2.passes rest)
      rw [same, tail]
    | peek => exact ih _ (s.peek_peeked related).related
    | peekSecond => exact ih _ (s.peek_second_peeked related).related
    | peekThird => exact ih _ (s.peek_third_peeked related).related
    | isEof =>
      have looked := (s.peek_peeked related).related
      rw [← is_eof_after] at looked
      exact ih _ looked
    | invalidatePeek | invalidateLookahead => exact ih _ (s.clear_related related)
    | peekFreshKind =>
      have looked := (s.clearLookahead.peek_peeked (s.clear_related related)).related
      rw [← peek_fresh_after] at looked
      exact ih _ looked

def Undisturbing (s : TokenStream front) (call : Call) : Prop :=
  call.invalidates = true → s.lookaheadCached = false

theorem uncached_holds_nothing (uncached : s.lookaheadCached = false) : s.held = [] := by
  simp only [lookaheadCached, Bool.or_eq_false_iff, Option.isSome_eq_false_iff,
    Option.isNone_iff_eq_none] at uncached
  simp [held, uncached]

theorem skip_nothing (window : Window (Feed front) Token) (onward : List Plain) :
    plainAnswers (tap front) window (.skip 0 :: onward) = plainAnswers (tap front) window onward := rfl

theorem undisturbed_passes (behind : Window (Feed front) Token) (s : TokenStream front)
    (calls : List Call) (quiet : Runs.StepsMeet after Undisturbing s calls) :
    plainAnswers (tap front) behind (s.passes calls) =
      plainAnswers (tap front) behind (List.replicate (calls.count .next) .next) := by
  induction calls generalizing behind s with
  | nil => rfl
  | cons call rest ih =>
    obtain ⟨here, onward⟩ := quiet
    by_cases reads : call = .next
    · subst reads
      rw [List.count_cons_self, List.replicate_succ, passes, if_pos rfl,
        plainAnswers, plainAnswers, ih _ _ onward]
    rw [List.count_cons_of_ne reads, passes, if_neg reads]
    split
    · next drops =>
        rw [uncached_holds_nothing s (here drops), List.length_nil, skip_nothing]
        exact ih _ _ onward
    · exact ih _ _ onward

theorem buffered_pulls (tokens : List Token) (source : Option (List Char)) (position : Nat) :
    Pulls (tap front) ⟨.buffered tokens source, position⟩
      (tokens ++ [.eofAt ((tokens.getLast?.map positionAfter).getD position)])
      ⟨.buffered [] source, (tokens.getLast?.map positionAfter).getD position⟩ := by
  induction tokens generalizing position with
  | nil => exact .cons _ _ _ _ [] rfl (.nil _)
  | cons token rest ih =>
    have onward := ih (positionAfter token)
    have last : ((token :: rest).getLast?.map positionAfter).getD position =
        (rest.getLast?.map positionAfter).getD (positionAfter token) := by
      cases rest with
      | nil => rfl
      | cons next rest => simp [List.getLast?_cons]
    rw [last]
    exact .cons _ _ _ token _ rfl onward

def endToken (reads : List (LexToken front.Kind × front.lexer.State)) : Token :=
  match reads.find? fun read => front.lexer.isEof read.1.tokenType with
  | some read => tokenFromLexerParts .eof [] read.1.start read.1.stop
  | none => .eofAt 0

theorem new_checked_kind {kind : TokenKind} {text : List Char} {start stop : Nat}
    (built : Token.newChecked kind text start stop = .ok token) : token.kind = kind := by
  unfold Token.newChecked at built
  split at built
  · cases built
  split at built
  · cases built
  split at built
  · cases built
  · cases built
    rfl

/-- Without text, a range of some width is no unknown token. -/
theorem unknown_or_eof_wide (start stop : Nat) (wide : start ≠ stop) :
    unknownOrEof [] start stop = Token.eofAt (min start stop) := by
  unfold unknownOrEof
  split
  · next token built =>
      obtain ⟨text, first, last⟩ := new_checked_exact built
      have width := token.width
      rw [text, last] at width
      obtain same | ⟨rest, -⟩ := width
      · rw [size_nil] at same
        omega
      · rw [new_checked_kind built] at rest
        cases rest
  · rfl

theorem end_parts_eof (start stop : Nat) : isEofToken (tokenFromLexerParts .eof [] start stop) = true := by
  unfold tokenFromLexerParts
  cases built : Token.newChecked .eof [] start stop with
  | ok token => simp [isEofToken, new_checked_kind built]
  | error error =>
    have wide : start ≠ stop := by
      rintro rfl
      simp [Token.newChecked, allowsEmptySpan] at built
    have unknown : isEofToken (unknownOrEof [] start stop) = true := by
      rw [unknown_or_eof_wide start stop wide]
      rfl
    cases error with
    | endBeforeStart | emptySpanNotAllowed => exact unknown
    | textLengthMismatch textLen spanLen _ _ =>
      dsimp only
      split
      · split
        · next token shorter => simp [isEofToken, new_checked_kind shorter]
        · exact unknown
      · exact unknown

theorem same_pull (feed other last : Feed front) (tokens : List Token) (filled : tokens ≠ [])
    (same : feed.pull = other.pull) (pulls : Pulls (tap front) other tokens last) :
    Pulls (tap front) feed tokens last := by
  cases pulls with
  | nil => exact absurd rfl filled
  | cons _ middle _ token rest head onward =>
    exact .cons feed middle last token rest (same.trans head) onward

/-- What a live stream pulls: the tokens of a fresh reading, then the end. -/
theorem live_pulls (input : List Char) (position left : Nat) (state : front.lexer.State)
    (bounded : front.lexer.remaining state < left)
    (ends : ∃ read ∈ readAll front.toFrontend state, front.lexer.isEof read.1.tokenType = true) :
    ∃ after, Pulls (tap front) ⟨.lexer input state, position⟩ (lexerTokensToParserTokens front.toFrontend
        (rawTokens front.toFrontend (readAll front.toFrontend state)) ++
        [endToken (readAll front.toFrontend state)]) after := by
  induction left generalizing state with
  | zero => omega
  | succ left ih =>
    rw [read_all_steps] at ends ⊢
    have steps := next_token_from_lexer_steps state
    cases read : front.lexer.nextToken state with
    | none => simp [read] at ends
    | some entry =>
      obtain ⟨token, next⟩ := entry
      simp only [read] at ends steps ⊢
      cases last : front.lexer.isEof token.tokenType with
      | true =>
        simp only [last, if_true] at steps ⊢
        have nothing : lexerTokensToParserTokens front.toFrontend
            (rawTokens front.toFrontend [(token, next)]) = [] := by
          simp [rawTokens, lexerTokensToParserTokens, last]
        have pulled : (tap front).pull ⟨.lexer input state, position⟩ =
            (.ok (endToken [(token, next)]), ⟨.lexer input next, position⟩) := by
          simp [tap, Feed.pull, steps, endToken, last]
        rw [nothing, List.nil_append]
        exact ⟨_, .cons _ _ _ _ [] pulled (.nil _)⟩
      | false =>
        have shrinks := front.lexer.advances state token next read last
        simp only [last, Bool.false_eq_true, if_false] at ends steps ⊢
        have later : ∃ read ∈ readAll front.toFrontend next, front.lexer.isEof read.1.tokenType = true := by
          obtain ⟨found, among, isLast⟩ := ends
          obtain rfl | among := List.mem_cons.mp among
          · rw [last] at isLast
            cases isLast
          · exact ⟨found, among, isLast⟩
        obtain ⟨after, pulls⟩ := ih next (by omega) later
        have sameEnd : endToken ((token, next) :: readAll front.toFrontend next) =
            endToken (readAll front.toFrontend next) := by
          simp [endToken, last]
        cases trivial : front.isTrivia token.tokenType with
        | true =>
          simp only [trivial, if_true] at steps
          refine ⟨after, ?_⟩
          have same : (⟨.lexer input state, position⟩ : Feed front).pull =
              (⟨.lexer input next, position⟩ : Feed front).pull := by
            simp [Feed.pull, steps]
          rw [sameEnd]
          simpa [rawTokens, lexerTokensToParserTokens, last, trivial] using
            same_pull _ _ after _ (by simp) same pulls
        | false =>
          simp only [trivial, Bool.false_eq_true, if_false] at steps
          refine ⟨after, ?_⟩
          rw [sameEnd]
          have first : (tap front).pull ⟨.lexer input state, position⟩ =
              (.ok (convertLexerToken front.toFrontend token), ⟨.lexer input next, position⟩) := by
            simp [tap, Feed.pull, steps]
          simpa [rawTokens, lexerTokensToParserTokens, last, trivial] using
            Pulls.cons _ _ after _ _ first pulls

/-- A stream as its constructors make it; a live lexer ends it with an end-of-input token, as it
documents. -/
inductive Fresh : TokenStream front → Prop where
  | buffered (tokens : List Token) (source : Option (List Char)) :
      Fresh (.buffered tokens source)
  | live (input : List Char)
      (ends : ∃ read ∈ readAll front.toFrontend (front.lexer.new input),
        front.lexer.isEof read.1.tokenType = true) :
      Fresh (.new input)

def supply (s : TokenStream front) : List Token :=
  match s.inner with
  | .buffered tokens _ => tokens ++ [.eofAt s.bufferedEofPos]
  | .lexer _ state =>
    let reads := readAll front.toFrontend state
    lexerTokensToParserTokens front.toFrontend (rawTokens front.toFrontend reads) ++
      [endToken reads]

def inOrder (tokens : List Token) (last : Token) (count : Nat) : List (Except ParseError Token) :=
  (List.range count).map fun index =>
    .ok ((tokens.takeWhile fun token => !isEofToken token)[index]?.getD last)

theorem fresh_supplies (start : TokenStream front) (fresh : Fresh start) :
    start.window = ⟨start.feed, []⟩ ∧ Packed start ∧
      (∃ after, Pulls (tap front) start.feed start.supply after) ∧
      ∃ last, start.supply.find? isEofToken = some last := by
  have found : ∀ tokens (last : Token), isEofToken last = true →
      ∃ first, (tokens ++ [last]).find? isEofToken = some first := by
    intro tokens last final
    refine Option.isSome_iff_exists.mp (List.find?_isSome.mpr ⟨last, by simp, final⟩)
  cases fresh with
  | buffered tokens source =>
    refine ⟨rfl, ⟨fun _ => rfl, fun _ => rfl⟩, ?_, found _ _ rfl⟩
    have known : (tokens.getLast?.map positionAfter).getD ((tokens.getLast?.map positionAfter).getD 0) =
        (tokens.getLast?.map positionAfter).getD 0 := by
      cases tokens.getLast?.map positionAfter <;> rfl
    have pulls : Pulls (tap front) _ _ _ :=
      buffered_pulls tokens source ((tokens.getLast?.map positionAfter).getD 0)
    rw [known] at pulls
    exact ⟨_, pulls⟩
  | live input ends =>
    refine ⟨rfl, ⟨fun _ => rfl, fun _ => rfl⟩, ?_, ?_⟩
    · exact live_pulls input (size input) _ (front.lexer.new input) (Nat.lt_succ_self _) ends
    · apply found
      unfold endToken
      split
      · exact end_parts_eof _ _
      · rfl

/-- Lookahead in a fresh stream: when no invalidation finds a token, `next` returns what it returns
alone; in any case what is read without lookahead when each invalidation passes over the tokens it
finds. -/
theorem lookahead_transparent (start : TokenStream front) (fresh : Fresh start) :
    ∃ last, start.supply.find? isEofToken = some last ∧
      (∀ calls, Runs.StepsMeet after Undisturbing start calls →
        start.answers calls = inOrder start.supply last (calls.count .next)) ∧
      ∀ calls, start.answers calls =
        plainAnswers (tap front) ⟨start.feed, []⟩ (start.passes calls) := by
  obtain ⟨window, packed, ⟨drained, pulls⟩, last, found⟩ := fresh_supplies start fresh
  have related : Related ⟨start.feed, []⟩ start := by
    refine ⟨packed, ?_⟩
    rw [window]
    exact ahead_self (tap front) start.feed
  refine ⟨last, found, fun calls quiet => ?_, fun calls => start.answers_passes related calls⟩
  rw [start.answers_passes related calls, undisturbed_passes _ start calls quiet]
  exact next_sequence (tap front) start.feed drained start.supply last pulls found _

section Samples

def scalarStream : StreamFront where
  toFrontend := scalarFrontend
  setMode := fun state _ => state
  formatBody := .other 1

def myToken : Token := ⟨.other 0, ['m', 'y'], 0, 2, by decide, by decide, .inl (by decide)⟩
def nameToken : Token := ⟨.other 1, ['x'], 3, 4, by decide, by decide, .inl (by decide)⟩

theorem lookahead_transparent_live :
    ∃ last, ∀ calls, Runs.StepsMeet after Undisturbing (new [';'] : TokenStream scalarStream) calls →
      (new [';'] : TokenStream scalarStream).answers calls =
        inOrder (new [';'] : TokenStream scalarStream).supply last (calls.count .next) :=
  (lookahead_transparent (new [';'] : TokenStream scalarStream) (.live [';'] (by decide))).imp
    fun _ facts => facts.2.1

/-- A token that was looked at and then dropped is not returned. -/
theorem dropped_token_lost :
    ¬ ∀ (front : StreamFront) (tokens : List Token) (calls : List Call),
      (fromVec tokens : TokenStream front).answers calls =
        (fromVec tokens : TokenStream front).answers (calls.filter (· = .next)) := by
  intro every
  have lost := every scalarStream [myToken, nameToken] [.peek, .invalidatePeek, .next]
  exact absurd lost (by decide)

end Samples

end TokenStream
end PerlLsp.ParserTokens
