import PerlLsp.Checkpoint
import Mathlib.Data.List.Sort

/-! Parser tokens and the two caches of the checkpointed parser: `Token` of perl-token, its
conversion from lexer tokens in perl-parser-core/src/tokens/token_stream.rs, `CheckpointCache` of
perl-lexer/src/checkpoint/cache.rs, and `TokenCache` of
perl-parser/src/incremental/incremental_checkpoint.rs. A segment holds the tokens read in a range of
the source; an edit shifts the range and leaves the tokens. -/
namespace PerlLsp.TokenCache
open Utf8 Checkpoint List

section Tokens

inductive TokenKind where
  | eof
  | unknown
  | unknownRest
  | other (discriminant : Nat)
  deriving DecidableEq

def allowsEmptySpan (kind : TokenKind) : Bool := kind = .eof ∨ kind = .unknown

inductive TokenSpanError where
  | endBeforeStart (start stop : Nat)
  | emptySpanNotAllowed (kind : TokenKind) (at_ : Nat)
  | textLengthMismatch (textLen spanLen start stop : Nat)
  deriving DecidableEq

/-- An `UnknownRest` token may cover a range without carrying its text. -/
def GeometryOnly (kind : TokenKind) (text : List Char) (start stop : Nat) : Prop :=
  kind = .unknownRest ∧ text = [] ∧ start ≠ stop

instance (kind : TokenKind) (text : List Char) (start stop : Nat) :
    Decidable (GeometryOnly kind text start stop) := inferInstanceAs (Decidable (_ ∧ _))

structure Token where
  kind : TokenKind
  text : List Char
  start : Nat
  stop : Nat
  ordered : start ≤ stop
  nonempty : start = stop → allowsEmptySpan kind = true
  width : size text = stop - start ∨ GeometryOnly kind text start stop
  deriving DecidableEq

namespace Token

def newChecked (kind : TokenKind) (text : List Char) (start stop : Nat) : Except TokenSpanError Token :=
  if reversed : stop < start then .error (.endBeforeStart start stop)
  else if empty : start = stop ∧ allowsEmptySpan kind = false then
    .error (.emptySpanNotAllowed kind start)
  else if mismatch : ¬GeometryOnly kind text start stop ∧ size text ≠ stop - start then
    .error (.textLengthMismatch (size text) (stop - start) start stop)
  else
    .ok {
      kind := kind
      text := text
      start := start
      stop := stop
      ordered := Nat.le_of_not_lt reversed
      nonempty := fun same => by simpa [same] using empty
      width := by
        by_cases geometry : GeometryOnly kind text start stop
        · exact .inr geometry
        · exact .inl (by simpa [geometry] using mismatch) }

def eofAt (position : Nat) : Token where
  kind := .eof
  text := []
  start := position
  stop := position
  ordered := Nat.le_refl _
  nonempty := fun _ => rfl
  width := .inl (by simp)

def unknownAt (text : List Char) (start stop : Nat) : Except TokenSpanError Token :=
  newChecked .unknown text start stop

end Token

def unknownOrEof (text : List Char) (start stop : Nat) : Token :=
  match Token.unknownAt text (min start stop) (max start stop) with
  | .ok token => token
  | .error _ => Token.eofAt (min start stop)

def tokenFromLexerParts (kind : TokenKind) (text : List Char) (start stop : Nat) : Token :=
  match Token.newChecked kind text start stop with
  | .ok token => token
  | .error (.textLengthMismatch textLen spanLen _ _) =>
    if start ≤ stop ∧ textLen < spanLen then
      match Token.newChecked kind text start (saturatingAdd start textLen) with
      | .ok token => token
      | .error _ => unknownOrEof text start stop
    else unknownOrEof text start stop
  | .error _ => unknownOrEof text start stop

def retainShiftedCachedToken (token : Token) (start stop : Nat) : Token :=
  match Token.newChecked token.kind token.text start stop with
  | .ok shifted => shifted
  | .error _ => unknownOrEof token.text start stop

theorem new_checked_exact {kind : TokenKind} {text : List Char} {start stop : Nat} {token : Token}
    (built : Token.newChecked kind text start stop = .ok token) :
    token.text = text ∧ token.start = start ∧ token.stop = stop := by
  unfold Token.newChecked at built
  split at built
  · cases built
  split at built
  · cases built
  split at built
  · cases built
  · cases built
    exact ⟨rfl, rfl, rfl⟩

theorem new_checked_unmatched {kind : TokenKind} {text : List Char}
    {start stop textLen spanLen atStart atStop : Nat} (failed : Token.newChecked kind text start stop =
      .error (.textLengthMismatch textLen spanLen atStart atStop)) :
    size text ≠ stop - start := by
  unfold Token.newChecked at failed
  split at failed
  · cases failed
  split at failed
  · cases failed
  · split at failed
    · next mismatch => exact mismatch.2
    · cases failed

/-- A text over a span of its own width is kept where it is. -/
theorem unknown_or_eof_exact (text : List Char) (start stop : Nat) (ordered : start ≤ stop)
    (width : size text = stop - start) :
    (unknownOrEof text start stop).text = text ∧ (unknownOrEof text start stop).start = start ∧
      (unknownOrEof text start stop).stop = stop := by
  unfold unknownOrEof
  rw [Nat.min_eq_left ordered, Nat.max_eq_right ordered]
  split
  · next token built => exact new_checked_exact built
  rename_i error failed
  unfold Token.unknownAt Token.newChecked at failed
  rw [dif_neg (Nat.not_lt.mpr ordered), dif_neg (by simp [allowsEmptySpan]),
    dif_neg (fun mismatch => mismatch.2 width)] at failed
  cases failed

theorem token_from_lexer_parts_exact (kind : TokenKind) (text : List Char) (start stop : Nat)
    (ordered : start ≤ stop) (width : size text = stop - start) :
    (tokenFromLexerParts kind text start stop).text = text ∧
      (tokenFromLexerParts kind text start stop).start = start ∧
      (tokenFromLexerParts kind text start stop).stop = stop := by
  unfold tokenFromLexerParts
  split
  · next token built => exact new_checked_exact built
  · next failed => exact absurd width (new_checked_unmatched failed)
  · exact unknown_or_eof_exact text start stop ordered width

theorem retain_shifted_exact (token : Token) (start stop : Nat) (ordered : start ≤ stop)
    (width : size token.text = stop - start) :
    (retainShiftedCachedToken token start stop).text = token.text ∧
      (retainShiftedCachedToken token start stop).start = start ∧
      (retainShiftedCachedToken token start stop).stop = stop := by
  unfold retainShiftedCachedToken
  split
  · next shifted built => exact new_checked_exact built
  · exact unknown_or_eof_exact token.text start stop ordered width

end Tokens

/-- What the checkpointed parser is built on. `kindOf` is the table of `convert_lexer_token`,
`isTrivia` its filter, and `sortByPosition` an unstable sort. -/
structure Frontend where
  Identity : Type
  Kind : Type
  lexer : Lexer Identity Kind
  kindOf : LexToken Kind → TokenKind
  isTrivia : Kind → Bool
  sortByPosition : List (Nat × LexerCheckpoint Identity) → List (Nat × LexerCheckpoint Identity)
  sort_perm : ∀ entries, (sortByPosition entries).Perm entries
  sort_sorted : ∀ entries, (sortByPosition entries).Pairwise fun left right => left.1 ≤ right.1

/-- `partition_point`, for a list that the predicate cuts in two. -/
def partitionPoint {Entry : Type} (before : Entry → Bool) (entries : List Entry) : Nat :=
  (entries.takeWhile before).length

theorem before_partition_point {Entry : Type} (before : Entry → Bool) (entries : List Entry)
    (index : Nat) (entry : Entry) (held : entries[index]? = some entry)
    (inside : index < partitionPoint before entries) : before entry = true := by
  have front : entry ∈ entries.takeWhile before := by
    rw [← takeWhile_append_dropWhile (p := before) (l := entries), getElem?_append_left inside] at held
    exact mem_of_getElem? held
  exact mem_takeWhile_imp front

theorem at_partition_point {Entry : Type} (before : Entry → Bool) (entries : List Entry)
    (entry : Entry) (held : entries[partitionPoint before entries]? = some entry) :
    before entry = false := by
  unfold partitionPoint at held
  induction entries with
  | nil => cases held
  | cons first rest ih =>
    cases past : before first with
    | true =>
      rw [takeWhile_cons_of_pos past, length_cons] at held
      exact ih held
    | false =>
      rw [takeWhile_cons_of_neg (by simp [past])] at held
      obtain rfl := Option.some.inj held
      exact past

section Checkpoints

structure CheckpointCache (Identity : Type) where
  checkpoints : List (Nat × LexerCheckpoint Identity)
  maxCheckpoints : Nat

namespace CheckpointCache
variable {Identity : Type}

def new (maxCheckpoints : Nat) : CheckpointCache Identity := ⟨[], maxCheckpoints⟩

-- the earliest and the latest entry stay
def evict (maxCheckpoints : Nat) (checkpoints : List (Nat × LexerCheckpoint Identity)) :
    List (Nat × LexerCheckpoint Identity) :=
  if checkpoints.length ≤ maxCheckpoints then checkpoints
  else if maxCheckpoints = 1 then checkpoints.getLast?.toList
  else
    (List.range maxCheckpoints).filterMap fun index =>
      checkpoints[index * (checkpoints.length - 1) / (maxCheckpoints - 1)]?

def add (cache : CheckpointCache Identity) (checkpoint : LexerCheckpoint Identity) :
    CheckpointCache Identity :=
  if cache.maxCheckpoints = 0 then cache
  else
    let position := checkpoint.position
    let index := partitionPoint (fun entry => entry.1 < position) cache.checkpoints
    let held := cache.checkpoints[index]?.any fun entry => entry.1 = position
    let checkpoints :=
      if held then cache.checkpoints.set index (position, checkpoint)
      else cache.checkpoints.insertIdx index (position, checkpoint)
    { cache with checkpoints := evict cache.maxCheckpoints checkpoints }

def findBefore (cache : CheckpointCache Identity) (position : Nat) :
    Option (LexerCheckpoint Identity) :=
  let index := partitionPoint (fun entry => entry.1 ≤ position) cache.checkpoints
  if index = 0 then none else cache.checkpoints[index - 1]?.map Prod.snd

def findAfter (cache : CheckpointCache Identity) (position : Nat) : Option (LexerCheckpoint Identity) :=
  let index := partitionPoint (fun entry => entry.1 < position) cache.checkpoints
  cache.checkpoints[index]?.map Prod.snd

def clear (cache : CheckpointCache Identity) : CheckpointCache Identity :=
  { cache with checkpoints := [] }

def moveEntry (start oldLen newLen : Nat) (entry : Nat × LexerCheckpoint Identity) :
    Nat × LexerCheckpoint Identity :=
  let moved := entry.2.applyEdit start oldLen newLen
  (moved.position, moved)

def applyEdit (front : Frontend) (cache : CheckpointCache front.Identity)
    (start oldLen newLen : Nat) : CheckpointCache front.Identity :=
  { cache with
    checkpoints := front.sortByPosition (cache.checkpoints.map (moveEntry start oldLen newLen)) }

def Keyed (cache : CheckpointCache Identity) : Prop :=
  ∀ entry ∈ cache.checkpoints, entry.1 = entry.2.position

theorem apply_edit_keyed (front : Frontend) (cache : CheckpointCache front.Identity)
    (start oldLen newLen : Nat) : Keyed (applyEdit front cache start oldLen newLen) := by
  intro entry among
  have unsorted := (front.sort_perm _).mem_iff.mp among
  obtain ⟨old, -, rfl⟩ := mem_map.mp unsorted
  rfl

section
variable (cache : CheckpointCache Identity) (keyed : Keyed cache) (position : Nat)
    (checkpoint : LexerCheckpoint Identity)
include cache keyed position checkpoint

theorem find_before_position
    (found : cache.findBefore position = some checkpoint) : checkpoint.position ≤ position := by
  unfold findBefore at found
  dsimp only at found
  split at found
  · cases found
  rename_i nonzero
  obtain ⟨entry, held, rfl⟩ := Option.map_eq_some_iff.mp found
  have early := before_partition_point _ _ _ _ held (Nat.sub_one_lt nonzero)
  rw [← keyed entry (mem_of_getElem? held)]
  exact of_decide_eq_true early

theorem find_after_position
    (found : cache.findAfter position = some checkpoint) : position ≤ checkpoint.position := by
  obtain ⟨entry, held, rfl⟩ := Option.map_eq_some_iff.mp found
  have late := at_partition_point _ _ _ held
  rw [← keyed entry (mem_of_getElem? held)]
  exact Nat.le_of_not_lt (of_decide_eq_false late)

end

end CheckpointCache

end Checkpoints

section Segments

structure TokenSegment where
  start : Nat
  stop : Nat
  tokens : List Token
  deriving DecidableEq

namespace TokenSegment

def overlaps (segment : TokenSegment) (start stop : Nat) : Bool :=
  segment.start < stop && start < segment.stop

-- `TokenSegment::new(first.start(), last.end(), tokens)`, when there are tokens
def spanning (tokens : List Token) : Option TokenSegment :=
  match tokens.head?, tokens.getLast? with
  | some first, some last => some ⟨first.start, last.stop, tokens⟩
  | _, _ => none

end TokenSegment

/-- `(position as isize + delta).max(0) as usize` -/
def shifted (position : Nat) (delta : Int) : Nat := (position + delta).toNat

def addSegment (segments : List TokenSegment) (segment : TokenSegment) : List TokenSegment :=
  let apart := segments.filter fun held => !held.overlaps segment.start segment.stop
  apart.insertIdx (partitionPoint (fun held => held.start < segment.start) apart) segment

def invalidateSegment (start stop : Nat) (segment : TokenSegment) : List TokenSegment :=
  if segment.overlaps start stop then
    (TokenSegment.spanning (segment.tokens.filter fun token => token.stop ≤ start)).toList ++
      (TokenSegment.spanning (segment.tokens.filter fun token => stop ≤ token.start)).toList
  else [segment]

def invalidateRange (segments : List TokenSegment) (start stop : Nat) : List TokenSegment :=
  (segments.flatMap (invalidateSegment start stop)).insertionSort fun left right =>
    left.start ≤ right.start

def adjustSegment (editStart : Nat) (delta : Int) (segment : TokenSegment) : TokenSegment :=
  if editStart ≤ segment.start then
    { segment with start := shifted segment.start delta, stop := shifted segment.stop delta }
  else segment

def adjustPositions (segments : List TokenSegment) (editStart oldLen newLen : Nat) :
    List TokenSegment :=
  let delta : Int := newLen - oldLen
  if delta = 0 then segments else segments.map (adjustSegment editStart delta)

def allTokens (segments : List TokenSegment) : List Token := segments.flatMap TokenSegment.tokens

def getTokensFrom (segments : List TokenSegment) (position : Nat) : Option (List Token) :=
  let found := (allTokens segments).filter fun token => position ≤ token.start
  if found.isEmpty then none else some found

def getTokensBefore (segments : List TokenSegment) (position : Nat) : Option (List Token) :=
  let found := (allTokens segments).filter fun token => token.stop ≤ position
  if found.isEmpty then none else some found

def cacheTokens (segments : List TokenSegment) (start stop : Nat) (tokens : List Token) :
    List TokenSegment :=
  if tokens.isEmpty then segments else addSegment segments ⟨start, stop, tokens⟩

-- the two callers cache the tokens they have read over the range these cover
def cacheRead (segments : List TokenSegment) (tokens : List Token) : List TokenSegment :=
  match tokens.head?, tokens.getLast? with
  | some first, some last => cacheTokens segments first.start last.stop tokens
  | _, _ => segments

end Segments

open TokenSegment

section Geometry

/-- In order and without overlaps. -/
def Apart (tokens : List Token) : Prop :=
  tokens.Pairwise fun left right => left.stop ≤ right.start

structure Laid (source : List Char) (tokens : List Token) : Prop where
  placed : ∀ token ∈ tokens, slice source token.start token.stop = some token.text
  apart : Apart tokens

def Spans (segment : TokenSegment) : Prop := spanning segment.tokens = some segment

/-- A segment whose nonempty range is still that of its tokens: no edit has shifted the one without
the other. -/
def Settled (segment : TokenSegment) : Prop := segment.start < segment.stop ∧ Spans segment

instance (segment : TokenSegment) : Decidable (Settled segment) :=
  inferInstanceAs (Decidable (_ ∧ _ = _))

section
variable {tokens : List Token} {segment : TokenSegment} (covers : spanning tokens = some segment)
include tokens segment covers

theorem spanning_tokens : segment.tokens = tokens := by
  unfold spanning at covers
  split at covers
  · cases covers
    rfl
  · cases covers

theorem spanning_spans : Spans segment := by
  unfold Spans
  rw [spanning_tokens covers, covers]

end

theorem spans_ends {segment : TokenSegment} (spans : Spans segment) :
    ∃ first last, segment.tokens.head? = some first ∧ segment.tokens.getLast? = some last ∧
      segment.start = first.start ∧ segment.stop = last.stop := by
  unfold Spans spanning at spans
  split at spans
  · next first last head tail =>
      have shape := (Option.some.inj spans).symm
      exact ⟨first, last, head, tail, congrArg TokenSegment.start shape, congrArg TokenSegment.stop shape⟩
  · cases spans

theorem first_token_least {tokens : List Token} (apart : Apart tokens) {first : Token}
    (head : tokens.head? = some first) : ∀ token ∈ tokens, first.start ≤ token.start := by
  obtain ⟨rest, rfl⟩ := head?_eq_some_iff.mp head
  intro token among
  rcases mem_cons.mp among with rfl | later
  · exact Nat.le_refl _
  · exact Nat.le_trans first.ordered (rel_of_pairwise_cons apart later)

theorem last_token_greatest {tokens : List Token} (apart : Apart tokens) {last : Token}
    (tail : tokens.getLast? = some last) : ∀ token ∈ tokens, token.stop ≤ last.stop := by
  obtain ⟨front, rfl⟩ := getLast?_eq_some_iff.mp tail
  intro token among
  rcases mem_append.mp among with earlier | here
  · have before := (pairwise_append.mp apart).2.2 token earlier last (mem_singleton.mpr rfl)
    exact Nat.le_trans before last.ordered
  · rw [mem_singleton.mp here]

section
variable {segment : TokenSegment} (spans : Spans segment) (apart : Apart segment.tokens)
include segment spans apart

theorem spans_inside :
    ∀ token ∈ segment.tokens, segment.start ≤ token.start ∧ token.stop ≤ segment.stop := by
  obtain ⟨first, last, head, tail, start, stop⟩ := spans_ends spans
  intro token among
  rw [start, stop]
  exact ⟨first_token_least apart head token among, last_token_greatest apart tail token among⟩

theorem spans_ordered : segment.start ≤ segment.stop := by
  obtain ⟨first, _, head, _, _, _⟩ := spans_ends spans
  obtain ⟨low, high⟩ := spans_inside spans apart first (mem_of_head? head)
  exact Nat.le_trans low (Nat.le_trans first.ordered high)

end

theorem segment_tokens_apart {segments : List TokenSegment} (apart : Apart (allTokens segments)) :
    ∀ segment ∈ segments, Apart segment.tokens :=
  (pairwise_flatMap.mp apart).1

section
variable {segments : List TokenSegment} (spans : ∀ segment ∈ segments, Spans segment)
    (apart : Apart (allTokens segments))
include segments spans apart

/-- Where each segment covers its tokens, the ranges are apart as the tokens are. -/
theorem segments_apart : segments.Pairwise fun left right => left.stop ≤ right.start := by
  have across := (pairwise_flatMap.mp apart).2
  refine across.imp_of_mem ?_
  intro left right leftAmong rightAmong between
  obtain ⟨-, last, -, tail, -, stop⟩ := spans_ends (spans left leftAmong)
  obtain ⟨first, -, head, -, start, -⟩ := spans_ends (spans right rightAmong)
  rw [stop, start]
  exact between last (mem_of_getLast? tail) first (mem_of_head? head)

theorem segments_sorted : segments.Pairwise fun left right => left.start ≤ right.start := by
  refine (segments_apart spans apart).imp_of_mem ?_
  intro left right among _ between
  exact Nat.le_trans (spans_ordered (spans left among) (segment_tokens_apart apart left among)) between

end

end Geometry

section Invalidation

def Aside (start stop : Nat) (segment : TokenSegment) : Prop :=
  (∀ token ∈ segment.tokens, token.stop ≤ start) ∨ ∀ token ∈ segment.tokens, stop ≤ token.start

theorem spanning_filtered {tokens : List Token} {keep : Token → Bool} {piece : TokenSegment}
    (covers : spanning (tokens.filter keep) = some piece) :
    Spans piece ∧ ∀ token ∈ piece.tokens, token ∈ tokens ∧ keep token = true := by
  refine ⟨spanning_spans covers, ?_⟩
  intro token held
  rw [spanning_tokens covers] at held
  exact mem_filter.mp held

/-- What an edited range leaves of a segment: pieces covering their tokens, each on one side of the
range. -/
theorem invalidate_segment_pieces {segment : TokenSegment} (spans : Spans segment)
    (apart : Apart segment.tokens) (start stop : Nat) : ∀ piece ∈ invalidateSegment start stop segment,
      Spans piece ∧ Aside start stop piece ∧ ∀ token ∈ piece.tokens, token ∈ segment.tokens := by
  have inside := spans_inside spans apart
  intro piece among
  unfold invalidateSegment at among
  split at among
  · rcases mem_append.mp among with before | after
    · obtain ⟨covered, old⟩ := spanning_filtered (Option.mem_toList.mp before)
      exact ⟨covered, .inl fun token held => of_decide_eq_true (old token held).2,
        fun token held => (old token held).1⟩
    · obtain ⟨covered, old⟩ := spanning_filtered (Option.mem_toList.mp after)
      exact ⟨covered, .inr fun token held => of_decide_eq_true (old token held).2,
        fun token held => (old token held).1⟩
  · next apartFrom =>
      obtain rfl := mem_singleton.mp among
      refine ⟨spans, ?_, fun _ held => held⟩
      simp only [overlaps, Bool.and_eq_true, decide_eq_true_eq, not_and, Nat.not_lt] at apartFrom
      by_cases early : piece.start < stop
      · left
        intro token held
        exact Nat.le_trans (inside token held).2 (apartFrom early)
      · right
        intro token held
        exact Nat.le_trans (Nat.le_of_not_lt early) (inside token held).1

theorem spanning_all_tokens (tokens : List Token) : allTokens (spanning tokens).toList = tokens := by
  cases tokens with
  | nil => rfl
  | cons first rest =>
    obtain ⟨last, tail⟩ := Option.ne_none_iff_exists'.mp
      (fun none => cons_ne_nil first rest (getLast?_eq_none_iff.mp none))
    unfold spanning
    rw [tail]
    simp [allTokens]

theorem invalidate_segment_apart {segment : TokenSegment} (apart : Apart segment.tokens)
    {start stop : Nat} (ordered : start ≤ stop) :
    Apart (allTokens (invalidateSegment start stop segment)) := by
  unfold invalidateSegment
  split
  · unfold allTokens
    rw [flatMap_append]
    change Apart (allTokens _ ++ allTokens _)
    rw [spanning_all_tokens, spanning_all_tokens]
    refine pairwise_append.mpr ⟨apart.filter _, apart.filter _, ?_⟩
    intro left before right after
    have early := of_decide_eq_true (mem_filter.mp before).2
    have late := of_decide_eq_true (mem_filter.mp after).2
    exact Nat.le_trans early (Nat.le_trans ordered late)
  · simpa [allTokens] using apart

theorem mem_all_tokens {segments : List TokenSegment} {token : Token} :
    token ∈ allTokens segments ↔ ∃ segment ∈ segments, token ∈ segment.tokens :=
  mem_flatMap

structure Invalidated (segments left : List TokenSegment) (start stop : Nat) : Prop where
  spans : ∀ segment ∈ left, Spans segment
  aside : ∀ segment ∈ left, Aside start stop segment
  old : ∀ token ∈ allTokens left, token ∈ allTokens segments
  apart : Apart (allTokens left)

theorem invalidate_range_pieces {segments : List TokenSegment}
    (spans : ∀ segment ∈ segments, Spans segment) (apart : Apart (allTokens segments))
    {start stop : Nat} (ordered : start ≤ stop) :
    Invalidated segments (invalidateRange segments start stop) start stop := by
  have inner := segment_tokens_apart apart
  have pieces : ∀ piece ∈ segments.flatMap (invalidateSegment start stop),
      ∃ segment ∈ segments, Spans piece ∧ Aside start stop piece ∧
        ∀ token ∈ piece.tokens, token ∈ segment.tokens := by
    intro piece among
    obtain ⟨segment, held, here⟩ := mem_flatMap.mp among
    exact ⟨segment, held,
      invalidate_segment_pieces (spans segment held) (inner segment held) start stop piece here⟩
  have piecesApart : Apart (allTokens (segments.flatMap (invalidateSegment start stop))) := by
    unfold allTokens
    rw [flatMap_assoc]
    refine pairwise_flatMap.mpr ⟨?_, ?_⟩
    · intro segment held
      exact invalidate_segment_apart (inner segment held) ordered
    · refine (pairwise_flatMap.mp apart).2.imp_of_mem ?_
      intro left right leftHeld rightHeld between before beforeHeld after afterHeld
      obtain ⟨leftPiece, leftAmong, beforeIn⟩ := mem_flatMap.mp beforeHeld
      obtain ⟨rightPiece, rightAmong, afterIn⟩ := mem_flatMap.mp afterHeld
      have fromLeft := invalidate_segment_pieces (spans left leftHeld) (inner left leftHeld)
        start stop leftPiece leftAmong
      have fromRight := invalidate_segment_pieces (spans right rightHeld) (inner right rightHeld)
        start stop rightPiece rightAmong
      exact between before (fromLeft.2.2 before beforeIn) after (fromRight.2.2 after afterIn)
  -- the pieces come in order, so sorting them changes nothing
  have unsorted : invalidateRange segments start stop = segments.flatMap (invalidateSegment start stop) := by
    have spanned : ∀ piece ∈ segments.flatMap (invalidateSegment start stop), Spans piece := by
      intro piece among
      obtain ⟨_, _, covers, _⟩ := pieces piece among
      exact covers
    exact (segments_sorted spanned piecesApart).insertionSort_eq
  rw [unsorted]
  refine ⟨?_, ?_, ?_, piecesApart⟩
  · intro piece among
    obtain ⟨_, _, covers, _⟩ := pieces piece among
    exact covers
  · intro piece among
    obtain ⟨_, _, _, side, _⟩ := pieces piece among
    exact side
  · intro token among
    obtain ⟨piece, held, here⟩ := mem_all_tokens.mp among
    obtain ⟨segment, among, _, _, old⟩ := pieces piece held
    exact mem_all_tokens.mpr ⟨segment, among, old token here⟩

theorem adjust_all_tokens (segments : List TokenSegment) (editStart oldLen newLen : Nat) :
    allTokens (adjustPositions segments editStart oldLen newLen) = allTokens segments := by
  unfold adjustPositions
  dsimp only
  split
  · rfl
  unfold allTokens
  rw [flatMap_map]
  congr 1
  funext segment
  unfold adjustSegment
  split <;> rfl

/-- A segment settled after an edit was not shifted by it: the edit keeps the length, or the segment
lies before it. -/
theorem adjust_settled {segments left : List TokenSegment} {start stop newLen : Nat}
    (invalidated : Invalidated segments left start stop) (ordered : start ≤ stop) :
    ∀ segment ∈ adjustPositions left start (stop - start) newLen, Settled segment → segment ∈ left ∧
        (newLen = stop - start ∨ ∀ token ∈ segment.tokens, token.stop ≤ start) := by
  intro segment among settled
  unfold adjustPositions at among
  dsimp only at among
  split at among
  · next same =>
      exact ⟨among, .inl (by omega)⟩
  rename_i moved
  obtain ⟨old, held, rfl⟩ := mem_map.mp among
  obtain ⟨first, last, head, tail, starts, stops⟩ := spans_ends (invalidated.spans old held)
  unfold adjustSegment at settled ⊢
  split at settled
  · next late =>
      exfalso
      obtain ⟨wide, covers⟩ := settled
      obtain ⟨first', last', head', tail', starts', stops'⟩ := spans_ends covers
      rw [head] at head'
      rw [tail] at tail'
      obtain rfl := Option.some.inj head'
      obtain rfl := Option.some.inj tail'
      simp only [shifted] at wide starts' stops'
      omega
  · next early =>
      rw [if_neg early]
      refine ⟨held, .inr ?_⟩
      rcases invalidated.aside old held with before | after
      · exact before
      · have late := after first (mem_of_head? head)
        omega

end Invalidation

section Additions

theorem insert_at_partition {Entry : Type} (before : Entry → Bool) (entries : List Entry)
    (entry : Entry) : entries.insertIdx (partitionPoint before entries) entry =
      entries.takeWhile before ++ entry :: entries.dropWhile before := by
  unfold partitionPoint
  induction entries with
  | nil => rfl
  | cons first rest ih =>
    cases past : before first with
    | true =>
      rw [takeWhile_cons_of_pos past, dropWhile_cons_of_pos past, length_cons,
        insertIdx_succ_cons, ih, cons_append]
    | false =>
      rw [takeWhile_cons_of_neg (by simp [past]), dropWhile_cons_of_neg (by simp [past])]
      rfl

variable {segments : List TokenSegment}

theorem past_partition (sorted : segments.Pairwise fun left right => left.start ≤ right.start)
    (start : Nat) :
    ∀ segment ∈ segments.dropWhile fun held => held.start < start, start ≤ segment.start := by
  induction segments with
  | nil =>
    intro segment among
    cases among
  | cons first rest ih =>
    obtain ⟨least, restSorted⟩ := pairwise_cons.mp sorted
    intro segment among
    by_cases early : first.start < start
    · rw [dropWhile_cons_of_pos (by simpa using early)] at among
      exact ih restSorted segment among
    rw [dropWhile_cons_of_neg (by simpa using early)] at among
    have reached := Nat.le_of_not_lt early
    rcases mem_cons.mp among with rfl | later
    · exact reached
    · exact Nat.le_trans reached (least segment later)

theorem apart_all_tokens : Apart (allTokens segments) ↔ (∀ segment ∈ segments, Apart segment.tokens) ∧
      segments.Pairwise fun left right =>
        ∀ before ∈ left.tokens, ∀ after ∈ right.tokens, before.stop ≤ after.start :=
  pairwise_flatMap

/-- A segment goes between those that lie before it and those that lie behind it. -/
theorem insert_segment_apart {kept : List TokenSegment} {added : TokenSegment}
    (apart : Apart (allTokens kept)) (addedApart : Apart added.tokens) (covers : Spans added)
    (settled : ∀ segment ∈ kept, Settled segment)
    (clear : ∀ segment ∈ kept, added.stop ≤ segment.start ∨ segment.stop ≤ added.start) :
    Apart (allTokens (kept.insertIdx (partitionPoint (fun held => held.start < added.start) kept)
      added)) := by
  have inside := spans_inside covers addedApart
  have addedOrdered := spans_ordered covers addedApart
  have spans : ∀ segment ∈ kept, Spans segment := fun segment among => (settled segment among).2
  obtain ⟨inner, across⟩ := apart_all_tokens.mp apart
  have keptInside : ∀ segment ∈ kept, ∀ token ∈ segment.tokens,
      segment.start ≤ token.start ∧ token.stop ≤ segment.stop :=
    fun segment among => spans_inside (spans segment among) (inner segment among)
  have before : ∀ segment ∈ kept.takeWhile fun held => held.start < added.start,
      segment ∈ kept ∧ segment.stop ≤ added.start := by
    intro segment among
    have held := (List.takeWhile_prefix _).subset among
    have early : segment.start < added.start := by simpa using mem_takeWhile_imp among
    refine ⟨held, ?_⟩
    rcases clear segment held with behind | ahead
    · omega
    · exact ahead
  have behind : ∀ segment ∈ kept.dropWhile fun held => held.start < added.start,
      segment ∈ kept ∧ added.stop ≤ segment.start := by
    intro segment among
    have held := (dropWhile_suffix _).subset among
    have late := past_partition (segments_sorted spans apart) added.start segment among
    refine ⟨held, ?_⟩
    rcases clear segment held with behind | ahead
    · exact behind
    · have wide := (settled segment held).1
      omega
  rw [insert_at_partition]
  rw [← takeWhile_append_dropWhile (p := fun held => decide (held.start < added.start))
    (l := kept)] at across
  obtain ⟨front, back, between⟩ := pairwise_append.mp across
  refine apart_all_tokens.mpr ⟨?_, pairwise_append.mpr ⟨front, ?_, ?_⟩⟩
  · intro segment among
    rcases mem_append.mp among with early | late
    · exact inner segment (before segment early).1
    · rcases mem_cons.mp late with rfl | late
      · exact addedApart
      · exact inner segment (behind segment late).1
  · refine pairwise_cons.mpr ⟨?_, back⟩
    intro segment late token here after there
    obtain ⟨held, order⟩ := behind segment late
    have high := (inside token here).2
    have low := (keptInside segment held after there).1
    omega
  · intro left early right late
    rcases mem_cons.mp late with rfl | late
    · intro token here after there
      obtain ⟨held, order⟩ := before left early
      have high := (keptInside left held token here).2
      have low := (inside after there).1
      omega
    · exact between left early right late

theorem cache_read_empty (tokens : List Token) : cacheRead [] tokens = (spanning tokens).toList := by
  unfold cacheRead spanning
  split
  · next first last head tail =>
      obtain ⟨rest, rfl⟩ := head?_eq_some_iff.mp head
      rfl
  · rfl

/-- A cache after the tokens read of an edited source are added: where all of its segments are
settled, its tokens are laid in that source. -/
theorem cache_read_laid {source : List Char} {segments : List TokenSegment} {tokens : List Token}
    (apart : Apart (allTokens segments))
    (placed : ∀ segment ∈ segments, Settled segment → ∀ token ∈ segment.tokens,
      slice source token.start token.stop = some token.text) (read : Laid source tokens)
    (settled : ∀ segment ∈ cacheRead segments tokens, Settled segment) :
    Laid source (allTokens (cacheRead segments tokens)) := by
  unfold cacheRead at settled ⊢
  split at settled
  · next first last head tail =>
      have nonempty : tokens.isEmpty = false := by
        cases tokens with
        | nil => cases head
        | cons _ _ => rfl
      have covers : spanning tokens = some ⟨first.start, last.stop, tokens⟩ := by
        unfold spanning
        rw [head, tail]
      simp only [cacheTokens, nonempty, Bool.false_eq_true, addSegment] at settled ⊢
      have held : ∀ segment ∈ segments.filter fun held => !held.overlaps first.start last.stop,
          Settled segment :=
        fun segment among => settled segment (subset_insertIdx _ _ _ among)
      refine ⟨?_, ?_⟩
      · intro token among
        obtain ⟨segment, here, inside⟩ := mem_all_tokens.mp among
        rcases eq_or_mem_of_mem_insertIdx here with rfl | old
        · exact read.placed token inside
        · exact placed segment (mem_filter.mp old).1 (held segment old) token inside
      · obtain ⟨inner, across⟩ := apart_all_tokens.mp apart
        refine insert_segment_apart ?_ read.apart (spanning_spans covers) held ?_
        · exact apart_all_tokens.mpr ⟨fun segment among => inner segment (mem_filter.mp among).1,
            across.filter _⟩
        · intro segment among
          simpa [overlaps] using (mem_filter.mp among).2
  · refine ⟨?_, apart⟩
    intro token among
    obtain ⟨segment, here, inside⟩ := mem_all_tokens.mp among
    exact placed segment here (settled segment here) token inside

end Additions

end PerlLsp.TokenCache
