import PerlLsp.Incremental

/-! The complete lexer checkpoints a parser generation retains: `compact_stored_checkpoints` and
`push_stored_checkpoint` of perl-parser/src/incremental/lex.rs and the carry-forward of
`apply_single_edit` in reparse.rs. A token restart puts the records carried over in front of a list
that was compacted alone, so the cap does not see their sum. -/
namespace PerlLsp.CheckpointRetention
open Text Utf8 Checkpoint Incremental Nat LexerCheckpoint StoredLexCheckpoint
open List hiding count

structure Origin {Identity : Type} (live : LexerCheckpoint Identity) : Prop where
  position : live.position = 0
  current : live.replay.currentPos.byte = 0
  lineStart : live.replay.lineStartOffset = 0
  heredocs : live.replay.pendingHeredocs = []
  quote : live.replay.currentQuoteOp = none
  delimiters : live.replay.delimiterStack = []
  context : live.replay.context = .normal
  live : live.invalidated = false

/-- What is asked of the lexer: it opens a text at its first byte, does not go back, and stands
where the checkpoint says after a restore. -/
structure Resumes {Identity Kind : Type} (lexer : Lexer Identity Kind) : Prop where
  opened : ∀ source, Origin (lexer.checkpoint (lexer.new source))
  advance : ∀ source state token next, Reads lexer source state →
    lexer.nextToken state = some (token, next) → lexer.position state ≤ lexer.position next
  restored : ∀ source checkpoint state, restore lexer source checkpoint = .ok state →
    lexer.position state = checkpoint.position
  reopened : ∀ source checkpoint state, restore lexer source checkpoint = .ok state →
    Origin checkpoint → Origin (lexer.checkpoint state)

variable {engine : Engine}

def Increasing (stored : List (StoredLexCheckpoint engine)) : Prop :=
  stored.Pairwise fun earlier later => earlier.summary.byte < later.summary.byte

section Pass

structure Ladder (stored : List (StoredLexCheckpoint engine)) (position : Nat) : Prop where
  tells : SummaryTells stored
  increasing : Increasing stored
  reached : ∀ record ∈ stored, record.summary.byte ≤ position
  bounded : stored.length ≤ maxStoredLexCheckpoints

theorem ladder_empty (position : Nat) : Ladder ([] : List (StoredLexCheckpoint engine)) position where
  tells := fun _ among => absurd among not_mem_nil
  increasing := List.Pairwise.nil
  reached := fun _ among => absurd among not_mem_nil
  bounded := Nat.zero_le _

theorem Ladder.later {stored : List (StoredLexCheckpoint engine)} {position next : Nat}
    (ladder : Ladder stored position) (order : position ≤ next) : Ladder stored next where
  tells := ladder.tells
  increasing := ladder.increasing
  reached := fun record among => Nat.le_trans (ladder.reached record among) order
  bounded := ladder.bounded

theorem compact_sublist (stored : List (StoredLexCheckpoint engine)) :
    (compactStoredCheckpoints stored).Sublist stored := by
  have kept := (filter_sublist (l := stored.zipIdx) (p := fun entry =>
    decide (entry.2 = 0 ∨ entry.2 % 2 = 0 ∨ entry.2 + 1 = stored.length))).map Prod.fst
  rw [zipIdx_map_fst] at kept
  exact kept

/-- Of three records or more, compaction drops the second one. -/
theorem compact_shorter {stored : List (StoredLexCheckpoint engine)} (long : 3 ≤ stored.length) :
    (compactStoredCheckpoints stored).length < stored.length := by
  have second : stored.zipIdx[1]? = some (stored[1], 1) := by
    rw [getElem?_zipIdx, getElem?_eq_getElem (by omega)]
    rfl
  have dropped : (stored.zipIdx.filter fun entry =>
      decide (entry.2 = 0 ∨ entry.2 % 2 = 0 ∨ entry.2 + 1 = stored.length)).length <
        stored.zipIdx.length := by
    apply length_filter_lt_length_iff_exists.mpr
    refine ⟨_, mem_of_getElem? second, ?_⟩
    simp only [decide_eq_true_eq]
    omega
  rw [compactStoredCheckpoints, length_map]
  rw [length_zipIdx] at dropped
  exact dropped

theorem compact_head (stored : List (StoredLexCheckpoint engine)) :
    (compactStoredCheckpoints stored).head? = stored.head? := by
  cases stored with
  | nil => rfl
  | cons first rest =>
    rfl

/-- A push leaves the list as it is, or puts the new record behind it or behind its compaction. -/
theorem push_stored_cases (digest : engine.Digest) (lineIndex : LineIndex)
    (stored : List (StoredLexCheckpoint engine)) (spacing : Nat) (live : LexerCheckpoint engine.Identity) :
    (pushStoredCheckpoint digest lineIndex stored spacing live).1 = stored ∧ stored ≠ [] ∨
      ∃ kept, (pushStoredCheckpoint digest lineIndex stored spacing live).1 =
          kept ++ [.capture digest live lineIndex] ∧
        kept.Sublist stored ∧ kept.head? = stored.head? ∧
        (stored.length ≤ maxStoredLexCheckpoints → kept.length < maxStoredLexCheckpoints) ∧
        ∀ last, stored.getLast? = some last → last.live.position ≠ live.position := by
  rw [pushStoredCheckpoint]
  split
  · rename_i same
    refine .inl ⟨rfl, ?_⟩
    rintro rfl
    cases same
  rename_i other
  have apart : ∀ last, stored.getLast? = some last → last.live.position ≠ live.position := by
    intro last final same
    rw [final] at other
    exact other (decide_eq_true same)
  dsimp only
  split
  · rename_i dropped
    refine .inl ⟨rfl, ?_⟩
    rintro rfl
    cases dropped
  · split
    · rename_i full
      refine .inr ⟨_, rfl, compact_sublist stored, compact_head stored, fun bounded => ?_, apart⟩
      have shorter := @compact_shorter _ stored (Nat.le_trans (by decide) full)
      omega
    · rename_i free
      exact .inr ⟨_, rfl, List.Sublist.refl _, rfl, fun _ => Nat.lt_of_not_le free, apart⟩

section
variable (digest : engine.Digest) (lineIndex : LineIndex)
    {stored : List (StoredLexCheckpoint engine)} (spacing : Nat)
    {live : LexerCheckpoint engine.Identity}
include digest lineIndex stored spacing live

/-- The replay state holds the position, so while there is room every position is retained, whatever
the spacing. -/
theorem push_stored_fresh (apart : ∀ last, stored.getLast? = some last → last.live.position ≠ live.position)
    (room : stored.length < maxStoredLexCheckpoints) :
    pushStoredCheckpoint digest lineIndex stored spacing live =
      (stored ++ [.capture digest live lineIndex], spacing) := by
  rw [pushStoredCheckpoint]
  cases final : stored.getLast? with
  | none => simp [Nat.not_le_of_lt room]
  | some last =>
    have other := apart last final
    have changed : last.live.behaviorStateChanged live = true :=
      bne_iff_ne.mpr fun same => other (congrArg ReplayState.position same)
    simp [other, changed, Nat.not_le_of_lt room]

theorem push_stored_again {last : StoredLexCheckpoint engine}
    (final : stored.getLast? = some last) (same : last.live.position = live.position) :
    pushStoredCheckpoint digest lineIndex stored spacing live = (stored, spacing) := by
  rw [pushStoredCheckpoint, final]
  exact if_pos (decide_eq_true same)

end

theorem push_stored_ladder {digest : engine.Digest} {lineIndex : LineIndex}
    {stored : List (StoredLexCheckpoint engine)} (spacing : Nat)
    {live : LexerCheckpoint engine.Identity} (ladder : Ladder stored live.position) :
    Ladder (pushStoredCheckpoint digest lineIndex stored spacing live).1 live.position ∧
      (pushStoredCheckpoint digest lineIndex stored spacing live).1.head? =
        stored.head?.or (some (.capture digest live lineIndex)) := by
  rcases push_stored_cases digest lineIndex stored spacing live with
    ⟨same, some⟩ | ⟨kept, pushed, sublist, head, room, apart⟩
  · rw [same]
    refine ⟨ladder, ?_⟩
    cases stored with
    | nil => exact absurd rfl some
    | cons first rest => rfl
  have tells := push_stored_tells digest lineIndex stored spacing live ladder.tells
  rw [pushed] at tells ⊢
  -- The last record is the highest one, and it lies below the new one.
  have below : ∀ record ∈ stored, record.summary.byte < live.position := by
    intro record among
    cases final : stored.getLast? with
    | none => exact absurd among (getLast?_eq_none_iff.mp final ▸ not_mem_nil)
    | some last =>
      obtain ⟨front, rfl⟩ := getLast?_eq_some_iff.mp final
      have lastIn : last ∈ front ++ [last] := mem_append_right _ mem_cons_self
      have reached := ladder.reached last lastIn
      have other := apart last final
      rw [← ladder.tells last lastIn] at other
      rcases mem_append.mp among with earlier | same
      · have rising := (pairwise_append.mp ladder.increasing).2.2 record earlier last mem_cons_self
        omega
      · obtain rfl := mem_singleton.mp same
        omega
  refine ⟨⟨tells, ?_, ?_, ?_⟩, ?_⟩
  · refine pairwise_append.mpr ⟨ladder.increasing.sublist sublist, pairwise_singleton _ _, ?_⟩
    intro record among new newIn
    obtain rfl := mem_singleton.mp newIn
    exact below record (sublist.subset among)
  · intro record among
    rcases mem_append.mp among with earlier | new
    · exact ladder.reached record (sublist.subset earlier)
    · obtain rfl := mem_singleton.mp new
      exact Nat.le_refl _
  · have free := room ladder.bounded
    rw [length_append, length_singleton]
    omega
  · rw [head?_append, head]
    rfl

theorem lex_loop_end (digest : engine.Digest) (lineIndex : LineIndex) (lastPosition : Option Nat)
    (progress : LexProgress engine) {state next : engine.lexer.State} {token : LexToken engine.Kind}
    (read : engine.lexer.nextToken state = some (token, next))
    (eof : engine.lexer.isEof token.tokenType = true) :
    lexLoop digest lineIndex lastPosition progress state =
      .ok ((progress.record digest lineIndex (engine.lexer.checkpoint state)).record digest lineIndex
        (engine.lexer.checkpoint next)) := by
  rw [lexLoop]
  split
  · next none =>
      rw [read] at none
      cases none
  rename_i other after again
  rw [read] at again
  obtain ⟨rfl, rfl⟩ := Prod.mk.inj (Option.some.inj again)
  rw [dif_neg (by rw [eof]; simp)]

theorem lex_loop_token (digest : engine.Digest) (lineIndex : LineIndex) {lastPosition : Option Nat}
    (progress : LexProgress engine) {state next : engine.lexer.State} {token : LexToken engine.Kind}
    (read : engine.lexer.nextToken state = some (token, next))
    (inner : engine.lexer.isEof token.tokenType = false)
    (ahead : ∀ last, lastPosition = some last → last < token.stop) :
    lexLoop digest lineIndex lastPosition progress state =
      lexLoop digest lineIndex (lastPosition.map fun _ => token.stop)
        { progress.record digest lineIndex (engine.lexer.checkpoint state) with
          tokens := progress.tokens ++ [token] } next := by
  have free : (lastPosition.any fun last => token.stop ≤ last) = false := by
    cases lastPosition with
    | none => rfl
    | some last => exact decide_eq_false (Nat.not_le_of_lt (ahead last rfl))
  rw [lexLoop]
  split
  · next none =>
      rw [read] at none
      cases none
  rename_i other after again
  rw [read] at again
  obtain ⟨rfl, rfl⟩ := Prod.mk.inj (Option.some.inj again)
  rw [dif_pos inner, if_neg (by rw [free]; exact Bool.false_ne_true)]
  rfl

/-- What a lexing pass retains: the first record is the one at which it starts. -/
theorem lex_loop_ladder (resumes : Resumes engine.lexer) (source : List Char)
    (digest : engine.Digest) (lineIndex : LineIndex) (lastPosition : Option Nat)
    (progress lexed : LexProgress engine) (state : engine.lexer.State)
    (reads : Reads engine.lexer source state)
    (ladder : Ladder progress.storedCheckpoints (engine.lexer.position state))
    (result : lexLoop digest lineIndex lastPosition progress state = .ok lexed) :
    (∃ position, Ladder lexed.storedCheckpoints position) ∧
      lexed.storedCheckpoints.head? = progress.storedCheckpoints.head?.or
        (some (.capture digest (engine.lexer.checkpoint state) lineIndex)) := by
  rw [lexLoop] at result
  have pushed := @push_stored_ladder engine digest lineIndex _ progress.spacing _ ladder
  split at result
  · obtain rfl := Except.ok.inj result
    exact ⟨⟨_, pushed.1⟩, pushed.2⟩
  rename_i token next read
  have order := resumes.advance source state token next reads read
  have moved := pushed.1.later order
  have front (other : Option (StoredLexCheckpoint engine)) :
      (progress.storedCheckpoints.head?.or
        (some (.capture digest (engine.lexer.checkpoint state) lineIndex))).or other =
      progress.storedCheckpoints.head?.or
        (some (.capture digest (engine.lexer.checkpoint state) lineIndex)) := by
    cases progress.storedCheckpoints.head? with
    | none => rfl
    | some first => rfl
  split at result
  · next inner =>
      split at result
      · cases result
      obtain ⟨final, head⟩ := lex_loop_ladder resumes source digest lineIndex _ _ lexed next
        (.next state token next reads read) moved result
      refine ⟨final, head.trans ?_⟩
      change (pushStoredCheckpoint _ _ _ _ _).1.head?.or _ = _
      rw [pushed.2, front]
  · obtain rfl := Except.ok.inj result
    have last := @push_stored_ladder engine digest lineIndex _
      (progress.record digest lineIndex (engine.lexer.checkpoint state)).spacing _ moved
    refine ⟨⟨_, last.1⟩, last.2.trans ?_⟩
    rw [pushed.2, front]
termination_by engine.lexer.remaining state
decreasing_by exact engine.lexer.advances state _ _ ‹_› ‹_›

theorem lex_source_retains (resumes : Resumes engine.lexer) (source : List Char) (lineIndex : LineIndex) :
    (∃ position, Ladder (@lexSourceWithCheckpoints engine source lineIndex).storedCheckpoints position) ∧
      (@lexSourceWithCheckpoints engine source lineIndex).storedCheckpoints.head? =
        some (.capture (engine.digestOfBytes (encode source))
          (engine.lexer.checkpoint (engine.lexer.new source)) lineIndex) := by
  obtain ⟨lexed, result⟩ := lex_loop_unguarded (engine.digestOfBytes (encode source)) lineIndex
    emptyProgress (engine.lexer.new source)
  have same : @lexSourceWithCheckpoints engine source lineIndex = lexed := by
    rw [lexSourceWithCheckpoints, result]
    rfl
  rw [same]
  exact lex_loop_ladder resumes source _ lineIndex none emptyProgress lexed _ .new (ladder_empty _) result

/-- What a pass from a restored lexer retains starts at the restart. -/
theorem lex_from_live_retains (resumes : Resumes engine.lexer) {source : List Char}
    {lineIndex : LineIndex} {checkpoint : LexerCheckpoint engine.Identity} {lexed : LexProgress engine}
    (result : lexFromLiveCheckpoint source lineIndex checkpoint = .ok lexed) :
    (∃ position, Ladder lexed.storedCheckpoints position) ∧
      ∃ first, lexed.storedCheckpoints.head? = some first ∧
        first.summary.byte = checkpoint.position ∧
        first.sourceDigest = engine.digestOfBytes (encode source) ∧
        (Origin checkpoint → Origin first.live) := by
  unfold lexFromLiveCheckpoint at result
  split at result
  · cases result
  rename_i bound rebound
  have replay : bound.replay = checkpoint.replay ∧ bound.invalidated = checkpoint.invalidated := by
    unfold rebindToSource at rebound
    split at rebound
    · cases rebound
    split at rebound
    · cases rebound
    split at rebound
    · cases rebound
    split at rebound
    · cases rebound
    · obtain rfl := Except.ok.inj rebound
      exact ⟨rfl, rfl⟩
  split at result
  · cases result
  rename_i state restored
  obtain ⟨final, head⟩ := lex_loop_ladder resumes source _ lineIndex _ emptyProgress lexed
    state (.restored bound state restored) (ladder_empty _) result
  refine ⟨final, _, head, ?_, rfl, fun origin => ?_⟩
  · refine (resumes.restored source bound state restored).trans ?_
    rw [LexerCheckpoint.position, replay.1]
    rfl
  · refine resumes.reopened source bound state restored ?_
    obtain ⟨same, kept⟩ := replay
    exact ⟨by rw [LexerCheckpoint.position, same]; exact origin.position,
      same ▸ origin.current, same ▸ origin.lineStart, same ▸ origin.heredocs,
      same ▸ origin.quote, same ▸ origin.delimiters, same ▸ origin.context,
      kept ▸ origin.live⟩

end Pass

section Batch

structure Retained (state : IncrementalState engine) : Prop where
  tells : SummaryTells state.storedLexCheckpoints
  increasing : Increasing state.storedLexCheckpoints
  first : ∃ first rest, state.storedLexCheckpoints = first :: rest ∧ Origin first.live ∧
    first.sourceDigest = engine.digestOfBytes (encode state.source)

def OpensAtZero (stored : List (StoredLexCheckpoint engine)) : Prop :=
  ∃ first rest, stored = first :: rest ∧ first.summary.byte = 0

theorem Retained.opens_at_zero {state : IncrementalState engine} (retained : Retained state) :
    OpensAtZero state.storedLexCheckpoints := by
  obtain ⟨first, rest, shape, origin, -⟩ := retained.first
  refine ⟨first, rest, shape, ?_⟩
  rw [retained.tells first (shape ▸ mem_cons_self)]
  exact origin.position

theorem retained_of_pass {state : IncrementalState engine} {stored : List (StoredLexCheckpoint engine)}
    {position : Nat} {live : LexerCheckpoint engine.Identity} {lineIndex : LineIndex}
    (same : state.storedLexCheckpoints = stored) (ladder : Ladder stored position)
    (head : stored.head? = some (.capture (engine.digestOfBytes (encode state.source)) live lineIndex))
    (origin : Origin live) : Retained state := by
  refine ⟨same ▸ ladder.tells, same ▸ ladder.increasing, ?_⟩
  cases stored with
  | nil => cases head
  | cons first rest =>
    obtain rfl := Option.some.inj head
    exact ⟨_, rest, same, origin, rfl⟩

theorem origin_survives {Identity : Type} {live : LexerCheckpoint Identity} (origin : Origin live)
    (start oldLen newLen : Nat) :
    ∃ moved, live.tryApplyEdit start oldLen newLen = (moved, true) ∧ Origin moved := by
  have place : live.replay.position = 0 := origin.position
  rw [tryApplyEdit, origin.live]
  simp only [Bool.false_eq_true, ↓reduceIte]
  split
  · exact ⟨live, rfl, origin⟩
  have moved : transformReplay live.replay start oldLen newLen =
      some { live.replay with eofEmitted := false } := by
    cases shape : live.replay
    simp only [shape] at place
    have lineStart := origin.lineStart
    have heredocs := origin.heredocs
    have quote := origin.quote
    have context := origin.context
    simp only [shape] at lineStart heredocs quote context
    subst place lineStart heredocs quote context
    rfl
  rw [moved, LexerCheckpoint.position, place]
  exact ⟨_, rfl, place, origin.current, origin.lineStart, origin.heredocs, origin.quote,
    origin.delimiters, origin.context, rfl⟩

theorem origin_valid {Identity : Type} {live : LexerCheckpoint Identity} (origin : Origin live)
    (source : List Char) : live.isValidFor source = true := by
  have zero : offsetIsValid source 0 = true := by
    rw [offsetIsValid, isCharBoundary, if_pos rfl, Bool.and_true]
    exact decide_eq_true (Nat.zero_le _)
  have place : live.replay.position = 0 := origin.position
  rw [isValidFor, origin.live, offsetsValidFor, origin.current,
    place, origin.lineStart, origin.heredocs, origin.quote, origin.context]
  rfl

def carriedForward (state edited : IncrementalState engine) (edit : Edit) (restartByte : Nat) :
    List (StoredLexCheckpoint engine) :=
  (state.storedLexCheckpoints.takeWhile fun stored => stored.summary.byte < restartByte).filterMap
    fun stored => stored.transformForGeneration state.source edited.source
      (engine.digestOfBytes (encode state.source)) (engine.digestOfBytes (encode edited.source)) edit

variable {edit : Edit}

theorem transform_summary {stored moved : StoredLexCheckpoint engine}
    {oldSource newSource : List Char} {observed newDigest : engine.Digest}
    (carried : stored.transformForGeneration oldSource newSource observed newDigest edit = some moved) :
    moved.summary = stored.summary := by
  unfold transformForGeneration at carried
  split at carried
  · cases carried
  split at carried
  · cases carried
  split at carried
  · split at carried
    · obtain rfl := Option.some.inj carried
      rfl
    · cases carried
  · cases carried

section
variable {stored : StoredLexCheckpoint engine} (origin : Origin stored.live)
include stored origin

theorem origin_belongs
    (source : List Char) (digest : stored.sourceDigest = engine.digestOfBytes (encode source)) :
    stored.belongsToSource source (engine.digestOfBytes (encode source)) = true := by
  rw [belongsToSource, origin.position, origin_valid origin, digest]
  simp [isCharBoundary]

/-- The record of the first byte can be restarted from. -/
theorem origin_prepared (told : stored.summary.byte = stored.live.position) (source : List Char)
    (digest : stored.sourceDigest = engine.digestOfBytes (encode source)) {edit : Edit}
    (ordered : edit.startByte ≤ edit.oldEndByte) :
    ∃ live, stored.prepareForEdit source (engine.digestOfBytes (encode source)) edit = some live := by
  obtain ⟨moved, survives, -⟩ := origin_survives origin edit.startByte
    (edit.oldEndByte - edit.startByte) (size edit.newText)
  have calm : stored.live.isTimeoutSensitive = false := by
    rw [isTimeoutSensitive, origin.heredocs]
    rfl
  refine ⟨moved, ?_⟩
  rw [prepareForEdit, told, origin.position, calm, origin_belongs origin source digest, survives]
  simp only [Nat.not_lt_zero, Bool.false_eq_true, or_self, Bool.not_true, ↓reduceIte,
    Nat.not_lt_of_le ordered]

theorem origin_carried (told : stored.summary.byte = stored.live.position) (source newSource : List Char)
    (newDigest : engine.Digest)
    (digest : stored.sourceDigest = engine.digestOfBytes (encode source)) {edit : Edit}
    (ordered : edit.startByte ≤ edit.oldEndByte) (behind : 0 < edit.startByte) :
    ∃ moved, stored.transformForGeneration source newSource (engine.digestOfBytes (encode source))
        newDigest edit = some moved ∧ Origin moved.live ∧ moved.sourceDigest = newDigest := by
  obtain ⟨moved, survives, same⟩ := origin_survives origin edit.startByte
    (edit.oldEndByte - edit.startByte) (size edit.newText)
  refine ⟨⟨stored.summary, moved, newDigest⟩, ?_, same, rfl⟩
  rw [transformForGeneration, told, origin.position, origin_belongs origin source digest, survives]
  simp only [Nat.not_le_of_lt behind, Bool.not_true, Bool.false_eq_true, or_self, ↓reduceIte,
    Nat.not_lt_of_le ordered, origin_valid same newSource]

end

/-- The record of the first byte qualifies, so a token restart starts from a stored record at or
before the edit. -/
theorem restart_stored {state : IncrementalState engine} (retained : Retained state)
    (ordered : edit.startByte ≤ edit.oldEndByte) {selected : SelectedRestart engine}
    (chosen : selectRestart state.source (engine.digestOfBytes (encode state.source)) state edit =
      .ok selected) : ∃ stored ∈ state.storedLexCheckpoints, stored.summary.byte ≤ edit.startByte ∧
      stored.prepareForEdit state.source (engine.digestOfBytes (encode state.source)) edit =
        some selected.liveCheckpoint := by
  obtain ⟨first, rest, shape, origin, digest⟩ := retained.first
  have firstIn : first ∈ state.storedLexCheckpoints := shape ▸ mem_cons_self
  have told := retained.tells first firstIn
  obtain ⟨live, prepared⟩ := origin_prepared origin told state.source digest ordered
  unfold selectRestart at chosen
  dsimp only at chosen
  split at chosen
  · next found search =>
      obtain rfl := Except.ok.inj chosen
      obtain ⟨stored, among, taken⟩ := exists_of_findSome?_eq_some search
      refine ⟨stored, mem_reverse.mp (mem_filter.mp among).1, ?_, taken⟩
      by_contra behind
      rw [prepareForEdit, if_pos (.inl (by omega))] at taken
      cases taken
  · next search =>
      have missed := findSome?_eq_none_iff.mp search first (mem_filter.mpr ⟨mem_reverse.mpr firstIn,
          decide_eq_true (by rw [told, origin.position]; exact Nat.zero_le _)⟩)
      rw [prepared] at missed
      cases missed

theorem prepared_origin {stored : StoredLexCheckpoint engine} {source : List Char}
    {observed : engine.Digest} {live : LexerCheckpoint engine.Identity}
    (prepared : stored.prepareForEdit source observed edit = some live)
    (origin : Origin stored.live) : Origin live := by
  obtain ⟨moved, survives, same⟩ := origin_survives origin edit.startByte
    (edit.oldEndByte - edit.startByte) (size edit.newText)
  unfold prepareForEdit at prepared
  rw [survives] at prepared
  split at prepared
  · cases prepared
  split at prepared
  · cases prepared
  split at prepared
  · cases prepared
  · obtain rfl := Option.some.inj prepared
    exact same

/-- A record at byte zero is the first one. -/
theorem Retained.first_at_zero {state : IncrementalState engine} (retained : Retained state)
    {stored : StoredLexCheckpoint engine} (among : stored ∈ state.storedLexCheckpoints)
    (zero : stored.summary.byte = 0) : Origin stored.live := by
  obtain ⟨first, rest, shape, origin, -⟩ := retained.first
  have increasing := retained.increasing
  rw [shape] at among
  rw [shape] at increasing
  rcases mem_cons.mp among with rfl | later
  · exact origin
  · have rising := (pairwise_cons.mp increasing).1 stored later
    omega

/-- The records carried forward in front of those of the new pass. -/
theorem restart_retained (resumes : Resumes engine.lexer)
    {state edited next : IncrementalState engine} (retained : Retained state)
    (ordered : edit.startByte ≤ edit.oldEndByte) {selected : SelectedRestart engine}
    {lexed : LexProgress engine}
    (chosen : selectRestart state.source (engine.digestOfBytes (encode state.source)) state edit =
      .ok selected)
    (relexed : lexFromLiveCheckpoint edited.source edited.lineIndex selected.liveCheckpoint = .ok lexed)
    (source : next.source = edited.source)
    (records : next.storedLexCheckpoints = carriedForward state edited edit selected.liveCheckpoint.position ++ lexed.storedCheckpoints)
    : Retained next := by
  obtain ⟨stored, among, low, prepared⟩ := restart_stored retained ordered chosen
  obtain ⟨⟨_, ladder⟩, fresh, head, start, digest, reopened⟩ := lex_from_live_retains resumes relexed
  have position := prepare_position prepared
  rw [← retained.tells stored among] at position
  obtain ⟨more, shape⟩ : ∃ more, lexed.storedCheckpoints = fresh :: more :=
    head?_eq_some_iff.mp head
  have carried : ∀ record ∈ carriedForward state edited edit selected.liveCheckpoint.position,
      ∃ old ∈ state.storedLexCheckpoints, old.summary.byte < selected.liveCheckpoint.position ∧
        record.summary = old.summary ∧ record.summary.byte = record.live.position := by
    intro record held
    obtain ⟨old, taken, moved⟩ := mem_filterMap.mp held
    have oldIn := (List.takeWhile_prefix _).subset taken
    have early := mem_takeWhile_imp taken
    exact ⟨old, oldIn, of_decide_eq_true early, transform_summary moved,
      transform_tells (retained.tells old oldIn) moved⟩
  constructor
  · intro record held
    rw [records] at held
    rcases mem_append.mp held with before | behind
    · obtain ⟨-, -, -, -, told⟩ := carried record before
      exact told
    · exact ladder.tells record behind
  · rw [records]
    refine pairwise_append.mpr ⟨?_, ladder.increasing, ?_⟩
    · refine (retained.increasing.sublist (List.takeWhile_prefix _).sublist).filterMap _ ?_
      intro first second rising one oneMoved two twoMoved
      rw [transform_summary oneMoved, transform_summary twoMoved]
      exact rising
    · intro record before other behind
      obtain ⟨old, -, early, same, -⟩ := carried record before
      have late : fresh.summary.byte ≤ other.summary.byte := by
        have increasing := ladder.increasing
        rw [shape] at increasing
        rw [shape] at behind
        rcases mem_cons.mp behind with rfl | later
        · exact Nat.le_refl _
        · exact Nat.le_of_lt ((pairwise_cons.mp increasing).1 other later)
      rw [same]
      omega
  · rw [records, source]
    by_cases zero : selected.liveCheckpoint.position = 0
    · have none : carriedForward state edited edit selected.liveCheckpoint.position = [] := by
        have stops : state.storedLexCheckpoints.takeWhile
            (fun stored => stored.summary.byte < selected.liveCheckpoint.position) = [] := by
          rw [takeWhile_eq_nil_iff]
          intro some reach
          have below := of_decide_eq_true reach
          omega
        rw [carriedForward, stops]
        rfl
      have origin := retained.first_at_zero among (by omega)
      rw [none, shape]
      exact ⟨fresh, more, rfl, reopened (prepared_origin prepared origin), digest⟩
    · obtain ⟨first, rest, records, origin, oldDigest⟩ := retained.first
      have told := retained.tells first (records ▸ mem_cons_self)
      obtain ⟨moved, transformed, same, newDigest⟩ := origin_carried origin told state.source
        edited.source (engine.digestOfBytes (encode edited.source)) oldDigest ordered (by omega)
      have reach : decide (first.summary.byte < selected.liveCheckpoint.position) = true :=
        decide_eq_true (by rw [told, origin.position]; omega)
      have front : (first :: rest).takeWhile
          (fun stored => stored.summary.byte < selected.liveCheckpoint.position) =
          first :: rest.takeWhile (fun stored => stored.summary.byte < selected.liveCheckpoint.position) :=
        takeWhile_cons_of_pos reach
      rw [carriedForward, records, front, filterMap_cons, transformed]
      exact ⟨moved, _, rfl, same, newDigest⟩

structure Restarts (state : IncrementalState engine) (edits : List Edit) (edit : Edit)
    (edited : IncrementalState engine) (selected : SelectedRestart engine)
    (lexed : LexProgress engine) : Prop where
  batch : edits = [edit]
  valid : ∃ total ≤ maxEditSize, validateEdits state.source edits = .ok total
  small : ¬ (1024 < edit.touchedBytes ∨ 10 < edit.newText.count '\n')
  chosen : selectRestart state.source (engine.digestOfBytes (encode state.source)) state edit =
    .ok selected
  applied : applyTextEditToState state edit = .ok edited
  relexed : lexFromLiveCheckpoint edited.source edited.lineIndex selected.liveCheckpoint = .ok lexed
  room : state.snapshot.generation.toNat + 1 < 2 ^ 64

/-- What a token restart carries over and what lexing the rest of the new source retains are
together within the cap. -/
def CarryFits (state : IncrementalState engine) (edits : List Edit) : Prop :=
  ∀ edit edited selected lexed, Restarts state edits edit edited selected lexed →
    (carriedForward state edited edit selected.liveCheckpoint.position).length +
      lexed.storedCheckpoints.length ≤ maxStoredLexCheckpoints

def Relexed (state next : IncrementalState engine) : Prop :=
  next = state ∨ Retained next ∧ next.storedLexCheckpoints.length ≤ maxStoredLexCheckpoints

theorem full_reparse_relexed (resumes : Resumes engine.lexer) (state : IncrementalState engine)
    (edits : List Edit) : Relexed state (fullReparseAfterEdits state edits).1 := by
  unfold fullReparseAfterEdits
  split
  · exact .inl rfl
  rename_i candidate _
  unfold fullReparse
  obtain ⟨-, failed⟩ | ⟨-, next, -, refreshed⟩ := refresh_cases candidate .incrementalFullFallback
  · simp only [failed]
    exact .inl rfl
  · simp only [refreshed]
    obtain ⟨⟨_, ladder⟩, head⟩ := lex_source_retains resumes candidate.source candidate.lineIndex
    exact .inr ⟨retained_of_pass rfl ladder head (resumes.opened _), ladder.bounded⟩

theorem applied_keeps {state edited : IncrementalState engine}
    (applied : applyTextEditToState state edit = .ok edited) :
    edited.storedLexCheckpoints = state.storedLexCheckpoints ∧ edited.snapshot = state.snapshot := by
  unfold applyTextEditToState at applied
  dsimp only at applied
  split at applied
  · obtain rfl := Except.ok.inj applied
    exact ⟨rfl, rfl⟩
  · cases applied

/-- What a token restart does when it succeeds. -/
theorem single_edit_parts {state candidate : IncrementalState engine} {reparse : SingleEditReparse}
    (restarted : applySingleEdit state edit = (candidate, .ok reparse)) : ∃ selected edited lexed,
      selectRestart state.source (engine.digestOfBytes (encode state.source)) state edit = .ok selected ∧
        applyTextEditToState state edit = .ok edited ∧
        lexFromLiveCheckpoint edited.source edited.lineIndex selected.liveCheckpoint = .ok lexed ∧
        candidate.source = edited.source ∧ candidate.snapshot = state.snapshot ∧
        candidate.storedLexCheckpoints = carriedForward state edited edit selected.liveCheckpoint.position ++
            lexed.storedCheckpoints := by
  unfold applySingleEdit at restarted
  dsimp only at restarted
  split at restarted
  · cases restarted
  rename_i selected chosen
  split at restarted
  · cases restarted
  rename_i edited applied
  split at restarted
  · cases restarted
  rename_i lexed relexed
  obtain ⟨rfl, -⟩ := Prod.mk.inj restarted
  obtain ⟨records, snapshot⟩ := applied_keeps applied
  refine ⟨selected, edited, lexed, chosen, applied, relexed, rfl, snapshot, ?_⟩
  rw [carriedForward, ← records]
  rfl

theorem one_edit_step (resumes : Resumes engine.lexer) {state : IncrementalState engine}
    (retained : Retained state) {total : Nat}
    (valid : validateEdits state.source [edit] = .ok total) (fits : total ≤ maxEditSize) :
    Relexed state (applyOneEdit state edit).1 ∧
        (∀ edited selected lexed, ¬ Restarts state [edit] edit edited selected lexed) ∨
      ∃ edited selected lexed, Restarts state [edit] edit edited selected lexed ∧
        Retained (applyOneEdit state edit).1 ∧
        (applyOneEdit state edit).1.storedLexCheckpoints =
          carriedForward state edited edit selected.liveCheckpoint.position ++ lexed.storedCheckpoints := by
  have accepted := validate_edits_accepts valid
  have ordered := (accepted.inRange edit (accepted.perm.mem_iff.mpr mem_cons_self)).ordered
  have full := full_reparse_relexed resumes state [edit]
  unfold applyOneEdit
  split
  · rename_i large
    exact .inl ⟨full, fun _ _ _ restarts => restarts.small large⟩
  rename_i small
  split
  · rename_i failed
    refine .inl ⟨full, fun edited selected lexed restarts => ?_⟩
    unfold applySingleEdit at failed
    simp only [restarts.chosen, restarts.applied, restarts.relexed] at failed
    cases failed
  rename_i candidate reparse restarted
  obtain ⟨selected, edited, lexed, chosen, applied, relexed, source, snapshot, records⟩ :=
    single_edit_parts restarted
  obtain ⟨room, failed⟩ | ⟨room, next, -, refreshed⟩ :=
    refresh_cases candidate .incrementalTokenRestartThenFullParse
  · rw [snapshot] at room
    simp only [failed]
    exact .inl ⟨.inl rfl, fun _ _ _ restarts => room restarts.room⟩
  rw [snapshot] at room
  simp only [refreshed]
  refine .inr ⟨edited, selected, lexed, ?_, ?_, records⟩
  · exact ⟨rfl, ⟨total, fits, valid⟩, small, chosen, applied, relexed, room⟩
  · exact restart_retained resumes retained ordered chosen relexed source records

theorem restarts_unique {state : IncrementalState engine} {edits : List Edit} {other : Edit}
    {edited edited' : IncrementalState engine} {selected selected' : SelectedRestart engine}
    {lexed lexed' : LexProgress engine} (left : Restarts state edits edit edited selected lexed)
    (right : Restarts state edits other edited' selected' lexed') :
    edit = other ∧ edited = edited' ∧ selected = selected' ∧ lexed = lexed' := by
  obtain rfl := singleton_inj.mp (left.batch.symm.trans right.batch)
  obtain rfl := Except.ok.inj (left.applied.symm.trans right.applied)
  obtain rfl := Except.ok.inj (left.chosen.symm.trans right.chosen)
  obtain rfl := Except.ok.inj (left.relexed.symm.trans right.relexed)
  exact ⟨rfl, rfl, rfl, rfl⟩

/-- One batch keeps what every generation holds, and the cap exactly when the carried records
fit. -/
theorem step_retained (resumes : Resumes engine.lexer) {state : IncrementalState engine}
    (retained : Retained state) (edits : List Edit) :
    Retained (step state edits) ∧ (state.storedLexCheckpoints.length ≤ maxStoredLexCheckpoints →
        ((step state edits).storedLexCheckpoints.length ≤ maxStoredLexCheckpoints ↔
          CarryFits state edits)) := by
  -- Without a token restart the condition is met and the cap is kept.
  have relexes {next : IncrementalState engine} (relexed : Relexed state next)
      (none : ∀ edit edited selected lexed, ¬ Restarts state edits edit edited selected lexed) :
      Retained next ∧ (state.storedLexCheckpoints.length ≤ maxStoredLexCheckpoints →
        (next.storedLexCheckpoints.length ≤ maxStoredLexCheckpoints ↔ CarryFits state edits)) := by
    have fits : CarryFits state edits := fun edit edited selected lexed restarts =>
      absurd restarts (none edit edited selected lexed)
    rcases relexed with rfl | ⟨kept, bounded⟩
    · exact ⟨retained, fun bounded => iff_of_true bounded fits⟩
    · exact ⟨kept, fun _ => iff_of_true bounded fits⟩
  unfold step applyEdits
  split
  · rename_i error failed
    refine relexes (.inl rfl) fun edit edited selected lexed restarts => ?_
    obtain ⟨total, -, valid⟩ := restarts.valid
    rw [failed] at valid
    cases valid
  rename_i total valid
  split
  · rename_i empty
    refine relexes (.inl rfl) fun edit edited selected lexed restarts => ?_
    rw [restarts.batch] at empty
    cases empty
  dsimp only
  split
  · rename_i large
    refine relexes (full_reparse_relexed resumes state _) fun edit edited selected lexed restarts => ?_
    obtain ⟨other, small, same⟩ := restarts.valid
    obtain rfl := Except.ok.inj (valid.symm.trans same)
    omega
  rename_i fits
  split
  · rename_i edit single
    have batch : edits = [edit] := by
      have perm := (reverse_perm _).trans (mergeSort_perm edits byStartByte)
      rw [single] at perm
      exact perm_singleton.mp perm.symm
    subst batch
    rcases one_edit_step resumes retained valid (Nat.le_of_not_lt fits) with
      ⟨relexed, none⟩ | ⟨edited, selected, lexed, restarts, kept, records⟩
    · refine relexes relexed fun other edited selected lexed restarts => ?_
      obtain rfl := singleton_inj.mp restarts.batch
      exact none edited selected lexed restarts
    refine ⟨kept, fun _ => ?_⟩
    rw [records, length_append]
    constructor
    · intro bounded other edited' selected' lexed' restarts'
      obtain ⟨rfl, rfl, rfl, rfl⟩ := restarts_unique restarts restarts'
      exact bounded
    · intro carryFits
      exact carryFits edit edited selected lexed restarts
  · rename_i several
    refine relexes (full_reparse_relexed resumes state _) fun edit edited selected lexed restarts => ?_
    refine several edit ?_
    rw [restarts.batch, mergeSort_singleton]
    rfl

/-- The claim about one generation: the cap, the order and the first byte. -/
structure WithinCap (state : IncrementalState engine) : Prop where
  bounded : state.storedLexCheckpoints.length ≤ maxStoredLexCheckpoints
  increasing : Increasing state.storedLexCheckpoints
  opens : OpensAtZero state.storedLexCheckpoints

theorem new_retained (resumes : Resumes engine.lexer) (source : List Char) :
    Retained (.new source : IncrementalState engine) ∧
      (IncrementalState.new source : IncrementalState engine).storedLexCheckpoints.length ≤
        maxStoredLexCheckpoints := by
  obtain ⟨⟨_, ladder⟩, head⟩ := @lex_source_retains engine resumes source (LineIndex.new source)
  exact ⟨retained_of_pass rfl ladder head (resumes.opened source), ladder.bounded⟩

end Batch

section Semicolons

def semicolons (count : Nat) : List Char := List.replicate count ';'

theorem size_semicolons (count : Nat) : size (semicolons count) = count := by
  induction count with
  | zero => rfl
  | succ count ih =>
    rw [semicolons, replicate_succ, size_cons, ← semicolons, ih, Nat.add_comm]
    rfl

theorem semicolons_split (front back : Nat) :
    semicolons (front + back) = semicolons front ++ semicolons back := replicate_add _ _ _

theorem semicolons_boundary {count : Nat} {offset : Nat} (inside : offset ≤ count) :
    isCharBoundary (semicolons count) offset = true := by
  refine (boundary_iff _ _).mpr ⟨semicolons offset, semicolons (count - offset), ?_, size_semicolons offset⟩
  rw [← semicolons_split, add_sub_of_le inside]

theorem scalar_lexer_resumes : Resumes scalarLexer where
  opened := fun _ => ⟨rfl, rfl, rfl, rfl, rfl, rfl, rfl, rfl⟩
  advance := scalar_lexer_places.advance
  restored := scalar_lexer_places.restored
  reopened := by
    intro source checkpoint state valid origin
    have position := scalar_lexer_places.restored source checkpoint state valid
    rw [origin.position] at position
    exact ⟨position, position, rfl, rfl, rfl, rfl, rfl, rfl⟩

def scalarLive (content : List Char) (position : Nat) : LexerCheckpoint scalarEngine.Identity :=
  ⟨content, plainReplay position, false, true⟩

def scalarRecord (content : List Char) (position : Nat) : StoredLexCheckpoint scalarEngine :=
  .capture (encode content) (scalarLive content position) (.new content)

def scalarToken (position : Nat) : LexToken scalarEngine.Kind :=
  ⟨ScalarKind.scalar, [';'], position, position + 1⟩

def scalarAt (content : List Char) (position count : Nat) : scalarEngine.lexer.State :=
  (⟨content, position, semicolons count⟩ : ScalarState)

/-- On semicolons every position is retained while there is room. -/
theorem lex_semicolons (content : List Char) (digest : scalarEngine.Digest)
    (same : digest = encode content) (count position : Nat) (lastPosition : Option Nat)
    (progress : LexProgress scalarEngine)
    (low : ∀ last, progress.storedCheckpoints.getLast? = some last → last.live.position < position)
    (behind : ∀ last, lastPosition = some last → last ≤ position)
    (room : progress.storedCheckpoints.length + count < maxStoredLexCheckpoints) :
    ∃ lexed, lexLoop digest (.new content) lastPosition progress (scalarAt content position count) =
        .ok lexed ∧
      lexed.tokens = progress.tokens ++ (List.range' position count).map scalarToken ∧
      lexed.storedCheckpoints = progress.storedCheckpoints ++
        (List.range' position (count + 1)).map (scalarRecord content) := by
  subst same
  -- the record at the position itself
  have recorded (place : Nat) (sofar : LexProgress scalarEngine)
      (below : ∀ last, sofar.storedCheckpoints.getLast? = some last → last.live.position < place)
      (free : sofar.storedCheckpoints.length < maxStoredLexCheckpoints) :
      (sofar.record (encode content) (.new content) (scalarLive content place)).storedCheckpoints =
          sofar.storedCheckpoints ++ [scalarRecord content place] ∧
        (sofar.record (encode content) (.new content) (scalarLive content place)).spacing =
          sofar.spacing := by
    have pushed := @push_stored_fresh scalarEngine (encode content) (.new content) _ sofar.spacing
      (scalarLive content place) (fun last final => Nat.ne_of_lt (below last final)) free
    exact ⟨congrArg Prod.fst pushed, congrArg Prod.snd pushed⟩
  induction count generalizing position lastPosition progress with
  | zero =>
    obtain ⟨first, spacing⟩ := recorded position progress low (by omega)
    have again := @push_stored_again scalarEngine (encode content) (.new content)
      (progress.storedCheckpoints ++ [scalarRecord content position]) progress.spacing
      (scalarLive content position) _ getLast?_concat rfl
    have ended := @lex_loop_end scalarEngine (encode content) (.new content) lastPosition progress
      (scalarAt content position 0) _ _ rfl rfl
    refine ⟨_, ended, (append_nil _).symm, ?_⟩
    calc (pushStoredCheckpoint (encode content) (.new content)
            (progress.record (encode content) (.new content) (scalarLive content position)).storedCheckpoints
            (progress.record (encode content) (.new content) (scalarLive content position)).spacing
            (scalarLive content position)).1
        = progress.storedCheckpoints ++ [scalarRecord content position] := by
          rw [first, spacing, again]
      _ = progress.storedCheckpoints ++ (List.range' position (0 + 1)).map (scalarRecord content) := rfl
  | succ count ih =>
    obtain ⟨first, -⟩ := recorded position progress low (by omega)
    have token := @lex_loop_token scalarEngine (encode content) (.new content) lastPosition progress
      (scalarAt content position (count + 1)) (scalarAt content (position + 1) count)
      (scalarToken position) rfl rfl (fun last final => lt_succ_of_le (behind last final))
    obtain ⟨lexed, run, tokens, stored⟩ := ih (position + 1) (lastPosition.map fun _ => position + 1)
      { progress.record (encode content) (.new content) (scalarLive content position) with
        tokens := progress.tokens ++ [scalarToken position] }
      (fun last final => by
        change (progress.record _ _ (scalarLive content position)).storedCheckpoints.getLast? = _ at final
        rw [first, getLast?_concat] at final
        obtain rfl := Option.some.inj final
        exact Nat.lt_succ_self position)
      (fun last final => by
        cases lastPosition with
        | none => cases final
        | some before => exact Nat.le_of_eq (Option.some.inj final).symm)
      (by
        change (progress.record _ _ (scalarLive content position)).storedCheckpoints.length + _ < _
        rw [first, length_append, length_singleton]
        omega)
    refine ⟨lexed, token.trans run, ?_, ?_⟩
    · rw [tokens, append_assoc, range'_succ]
      rfl
    · rw [stored]
      change (progress.record _ _ (scalarLive content position)).storedCheckpoints ++ _ = _
      rw [first, append_assoc, @range'_succ position (count + 1) 1]
      rfl

def appendSemicolon (count : Nat) : Edit := ⟨count, count, count + 1, [';']⟩

def semicolonState (count : Nat) : IncrementalState scalarEngine := .new (semicolons count)

theorem semicolon_state_parts {count : Nat} (room : count < maxStoredLexCheckpoints) :
    (semicolonState count).tokens = (List.range' 0 count).map scalarToken ∧
      (semicolonState count).storedLexCheckpoints =
        (List.range' 0 (count + 1)).map (scalarRecord (semicolons count)) := by
  obtain ⟨lexed, run, tokens, stored⟩ := lex_semicolons (semicolons count) _ rfl count 0 none
    emptyProgress (fun last final => by cases final) (fun last final => by cases final)
    (by rw [show emptyProgress.storedCheckpoints.length = 0 from rfl, Nat.zero_add]; exact room)
  have same : @lexSourceWithCheckpoints scalarEngine (semicolons count) (.new (semicolons count)) =
      lexed := by
    rw [lexSourceWithCheckpoints]
    refine Eq.trans (congrArg (fun result => (Except.toOption result).getD emptyProgress) run) rfl
  have parts : (semicolonState count).tokens = lexed.tokens ∧
      (semicolonState count).storedLexCheckpoints = lexed.storedCheckpoints := by
    rw [← same]
    exact ⟨rfl, rfl⟩
  rw [parts.1, parts.2, tokens, stored]
  exact ⟨rfl, rfl⟩

theorem append_validated {count : Nat} (room : count < maxStoredLexCheckpoints) :
    validateEdits (semicolons count) [appendSemicolon count] = .ok 1 := by
  have cap : maxStoredLexCheckpoints < usizeMax := by decide
  have boundary := @semicolons_boundary count count (Nat.le_refl _)
  have touched : (appendSemicolon count).touchedBytes = 1 := by
    rw [Edit.touchedBytes, appendSemicolon, Nat.sub_self]
    rfl
  have start : (appendSemicolon count).startByte = count := rfl
  have stop : (appendSemicolon count).oldEndByte = count := rfl
  have width : size (appendSemicolon count).newText = 1 := rfl
  have ends : (appendSemicolon count).newEndByte = count + 1 := rfl
  rw [validateEdits, mergeSort_singleton, validateFrom, start, stop, width, ends, boundary,
    touched, size_semicolons, if_neg (by omega), if_neg (by simp), if_neg (by omega),
    if_neg (by simp)]
  rfl

theorem append_applied (count : Nat) : applyTextEditToState (semicolonState count) (appendSemicolon count) =
      .ok ((semicolonState count).replaceSourceText (semicolons (count + 1))) := by
  have applied := apply_text_edit (semicolonState count) (appendSemicolon count) (semicolons count) []
    [] (by rw [append_nil, append_nil]; rfl) (size_semicolons count)
    (by rw [append_nil]; exact size_semicolons count)
  rw [applied, append_nil, semicolons_split]
  rfl

section
variable {count position : Nat} (inside : position ≤ count)
include count position inside

theorem scalar_live_valid (content : List Char) :
    (scalarLive content position).isValidFor (semicolons count) = true := by
  have here : offsetIsValid (semicolons count) position = true := by
    rw [offsetIsValid, size_semicolons, semicolons_boundary inside, Bool.and_true]
    exact decide_eq_true inside
  change (!false && ((((((offsetIsValid (semicolons count) position &&
    offsetIsValid (semicolons count) position) && offsetIsValid (semicolons count) 0) &&
    decide (0 ≤ position)) && true) && true) && true)) = true
  rw [here, decide_eq_true (Nat.zero_le position)]
  rfl

theorem scalar_live_survives (content : List Char) :
    (scalarLive content position).tryApplyEdit count (count - count) 1 =
      (scalarLive content position, true) := by
  have moved : transformReplay (plainReplay position) count 0 1 = some (plainReplay position) := by
    have place : (plainReplay position).position = position := rfl
    have start : (plainReplay position).lineStartOffset = 0 := rfl
    rw [transformReplay, place, start, transform_offset_before inside,
      transform_offset_before (Nat.zero_le count)]
    rfl
  have replay : (scalarLive content position).replay = plainReplay position := rfl
  rw [Nat.sub_self, tryApplyEdit, if_neg (by rw [scalarLive]; simp), if_neg (by simp), replay, moved]
  exact if_neg (Nat.not_lt_of_le inside)

theorem scalar_record_belongs : (scalarRecord (semicolons count) position).belongsToSource (semicolons count)
      (scalarEngine.digestOfBytes (encode (semicolons count))) = true := by
  have place : (scalarRecord (semicolons count) position).live.position = position := rfl
  have live : (scalarRecord (semicolons count) position).live = scalarLive (semicolons count) position := rfl
  rw [belongsToSource, place, live, size_semicolons,
    semicolons_boundary inside, scalar_live_valid inside, if_neg (by simp [inside]), Bool.and_true]
  exact decide_eq_true rfl

theorem scalar_record_prepared : (scalarRecord (semicolons count) position).prepareForEdit (semicolons count)
        (scalarEngine.digestOfBytes (encode (semicolons count))) (appendSemicolon count) =
      some (scalarLive (semicolons count) position) := by
  have told : (scalarRecord (semicolons count) position).summary.byte = position := rfl
  have calm : (scalarRecord (semicolons count) position).live.isTimeoutSensitive = false := rfl
  have survives : (scalarRecord (semicolons count) position).live.tryApplyEdit
      (appendSemicolon count).startByte
      ((appendSemicolon count).oldEndByte - (appendSemicolon count).startByte)
      (size (appendSemicolon count).newText) = (scalarLive (semicolons count) position, true) :=
    scalar_live_survives inside _
  have start : ¬ (appendSemicolon count).startByte < position := Nat.not_lt_of_le inside
  have ordered : ¬ (appendSemicolon count).oldEndByte < (appendSemicolon count).startByte :=
    Nat.lt_irrefl count
  rw [prepareForEdit, told, calm, scalar_record_belongs inside,
    if_neg (by simp [start]), if_neg (by simp), if_neg ordered, survives]

end

theorem scalar_record_carried {count : Nat} {position : Nat} (inside : position < count) :
    ∃ moved, (scalarRecord (semicolons count) position).transformForGeneration (semicolons count)
      (semicolons (count + 1)) (scalarEngine.digestOfBytes (encode (semicolons count)))
      (scalarEngine.digestOfBytes (encode (semicolons (count + 1)))) (appendSemicolon count) =
        some moved := by
  have told : (scalarRecord (semicolons count) position).summary.byte = position := rfl
  have survives : (scalarRecord (semicolons count) position).live.tryApplyEdit
      (appendSemicolon count).startByte
      ((appendSemicolon count).oldEndByte - (appendSemicolon count).startByte)
      (size (appendSemicolon count).newText) = (scalarLive (semicolons count) position, true) :=
    scalar_live_survives (Nat.le_of_lt inside) _
  have start : ¬ (appendSemicolon count).startByte ≤ position := Nat.not_le_of_lt inside
  have ordered : ¬ (appendSemicolon count).oldEndByte < (appendSemicolon count).startByte :=
    Nat.lt_irrefl count
  rw [transformForGeneration, told, scalar_record_belongs (Nat.le_of_lt inside),
    if_neg (by simp [start]), if_neg ordered, survives]
  exact ⟨_, if_pos (scalar_live_valid (by omega) _)⟩

theorem append_boundary {count : Nat} (room : count + 1 < maxStoredLexCheckpoints) :
    restartBoundary (semicolonState (count + 1)) (appendSemicolon (count + 1)) = count := by
  have earlier : ((List.range' 0 count).map scalarToken).find? (fun token =>
      decide ((appendSemicolon (count + 1)).startByte ≤ token.stop)) = none := by
    refine find?_eq_none.mpr fun token among reached => ?_
    obtain ⟨position, inside, rfl⟩ := mem_map.mp among
    have below := (mem_range'_1.mp inside).2
    have reached : count + 1 ≤ position + 1 := of_decide_eq_true reached
    omega
  have last : decide ((appendSemicolon (count + 1)).startByte ≤ (scalarToken count).stop) = true :=
    decide_eq_true (Nat.le_refl (count + 1))
  rw [restartBoundary, (semicolon_state_parts room).1, range'_1_concat, map_append,
    find?_append, earlier, map_singleton, Nat.zero_add,
    find?_cons_of_pos (by exact last)]
  rfl

theorem append_selects {count : Nat} (room : count + 1 < maxStoredLexCheckpoints) :
    selectRestart (semicolons (count + 1)) (scalarEngine.digestOfBytes (encode (semicolons (count + 1))))
        (semicolonState (count + 1)) (appendSemicolon (count + 1)) =
      .ok ⟨scalarLive (semicolons (count + 1)) count, 0⟩ := by
  have newest : ¬ (scalarRecord (semicolons (count + 1)) (count + 1)).summary.byte ≤ count :=
    not_succ_le_self count
  have chosen : (scalarRecord (semicolons (count + 1)) count).summary.byte ≤ count :=
    Nat.le_refl count
  rw [selectRestart, append_boundary room, (semicolon_state_parts room).2, range'_1_concat,
    range'_1_concat, map_append, map_append, reverse_append,
    reverse_append, map_singleton, map_singleton, reverse_singleton,
    reverse_singleton, Nat.zero_add, Nat.zero_add, singleton_append,
    singleton_append, filter_cons_of_neg (by simp [newest]),
    filter_cons_of_pos (by simp [chosen]),
    findSome?_cons_of_isSome (by rw [scalar_record_prepared (le_succ count)]; rfl)]
  simp only [scalar_record_prepared (le_succ count)]

theorem append_relexes {count : Nat} :
    ∃ lexed, lexFromLiveCheckpoint (semicolons (count + 2)) (.new (semicolons (count + 2)))
        (scalarLive (semicolons (count + 1)) count) = .ok lexed ∧
      lexed.storedCheckpoints.length = 3 := by
  have inside : count ≤ count + 2 := Nat.le_add_right _ _
  have valid := @scalar_live_valid (count + 2) count inside (semicolons (count + 1))
  have rebound : (scalarLive (semicolons (count + 1)) count).rebindToSource
      scalarEngine.lexer.retarget (semicolons (count + 2)) =
        .ok (scalarLive (semicolons (count + 2)) count) := by
    have complete : (scalarLive (semicolons (count + 1)) count).ensureComplete = .ok () := rfl
    have replay : (scalarLive (semicolons (count + 1)) count).replay.position = count := rfl
    have offsets : (scalarLive (semicolons (count + 1)) count).offsetsValidFor
        (semicolons (count + 2)) = true := by
      rw [← valid]
      exact (Bool.true_and _).symm
    rw [rebindToSource, if_neg (by rw [scalarLive]; simp), complete, replay,
      semicolons_boundary inside, offsets]
    rfl
  have restored : restore scalarEngine.lexer (semicolons (count + 2))
      (scalarLive (semicolons (count + 2)) count) = .ok (scalarAt (semicolons (count + 2)) count 2) := by
    have complete : (scalarLive (semicolons (count + 2)) count).ensureComplete = .ok () := rfl
    have place : (scalarLive (semicolons (count + 2)) count).position = count := rfl
    have target : scalarEngine.lexer.matchesTarget
        (scalarLive (semicolons (count + 2)) count).identity (semicolons (count + 2)) = .ok () :=
      if_pos rfl
    have validated : validateRestore scalarEngine.lexer (semicolons (count + 2))
        (scalarLive (semicolons (count + 2)) count) = .ok () := by
      rw [validateRestore, place, semicolons_boundary inside, complete, target, scalar_live_valid inside]
      rfl
    have parts : splitAtByte (semicolons (count + 2)) (plainReplay count).position =
        some (semicolons count, semicolons 2) :=
      (split_at_byte_iff _ _ _ _).mpr ⟨semicolons_split count 2, size_semicolons count⟩
    have replayed : scalarReplay (semicolons (count + 2)) (plainReplay count) =
        scalarAt (semicolons (count + 2)) count 2 := by
      rw [scalarReplay, parts]
      rfl
    rw [restore, validated]
    exact congrArg Except.ok replayed
  obtain ⟨lexed, run, -, stored⟩ := lex_semicolons (semicolons (count + 2)) _ rfl 2 count (some count)
    emptyProgress (fun last final => by cases final)
    (fun last final => Nat.le_of_eq (Option.some.inj final).symm) (by decide)
  refine ⟨lexed, ?_, ?_⟩
  · rw [lexFromLiveCheckpoint, rebound]
    dsimp only
    rw [restored]
    exact run
  · rw [stored]
    rfl

theorem append_carries {count : Nat} (room : count + 1 < maxStoredLexCheckpoints) :
    (carriedForward (semicolonState (count + 1))
      ((semicolonState (count + 1)).replaceSourceText (semicolons (count + 2)))
      (appendSemicolon (count + 1)) count).length = count := by
  have below : ∀ record ∈ (List.range' 0 count).map (scalarRecord (semicolons (count + 1))),
      decide (record.summary.byte < count) = true := by
    intro record among
    obtain ⟨position, inside, rfl⟩ := mem_map.mp among
    have less := (mem_range'_1.mp inside).2
    exact decide_eq_true (by change position < count; omega)
  have stop : ¬ decide ((scalarRecord (semicolons (count + 1)) count).summary.byte < count) = true :=
    fun less => Nat.lt_irrefl count (of_decide_eq_true less)
  have front : (semicolonState (count + 1)).storedLexCheckpoints.takeWhile (fun stored =>
      decide (stored.summary.byte < count)) =
        (List.range' 0 count).map (scalarRecord (semicolons (count + 1))) := by
    rw [(semicolon_state_parts room).2, range'_1_concat, range'_1_concat,
      append_assoc, map_append, takeWhile_append_of_pos below, Nat.zero_add,
      singleton_append, map_cons, takeWhile_cons_of_neg (by exact stop), append_nil]
  rw [carriedForward, front, length_filterMap_eq_countP, countP_eq_length.mpr, length_map, length_range']
  intro record among
  obtain ⟨position, inside, rfl⟩ := mem_map.mp among
  have less := (mem_range'_1.mp inside).2
  obtain ⟨moved, carried⟩ := @scalar_record_carried (count + 1) position (by omega)
  exact Option.isSome_iff_exists.mpr ⟨moved, carried⟩

/-- The restart stands at the old text's last position; it, the two semicolons behind it and the end
join those carried over. -/
theorem append_overflows {count : Nat} (room : count + 1 < maxStoredLexCheckpoints)
    (full : maxStoredLexCheckpoints < count + 3) :
    ¬ CarryFits (semicolonState (count + 1)) [appendSemicolon (count + 1)] := by
  obtain ⟨lexed, relexed, three⟩ := @append_relexes count
  have small : ¬ (1024 < (appendSemicolon (count + 1)).touchedBytes ∨
      10 < (appendSemicolon (count + 1)).newText.count '\n') := by
    have touched : (appendSemicolon (count + 1)).touchedBytes = 1 := by
      rw [Edit.touchedBytes, appendSemicolon, Nat.sub_self]
      rfl
    rw [touched]
    simp [appendSemicolon]
  have first : (semicolonState (count + 1)).snapshot.generation.toNat + 1 < 2 ^ 64 := by
    rw [show (semicolonState (count + 1)).snapshot.generation.toNat = 0 from rfl]
    decide
  intro fits
  have restarts : Restarts (semicolonState (count + 1)) [appendSemicolon (count + 1)]
      (appendSemicolon (count + 1))
      ((semicolonState (count + 1)).replaceSourceText (semicolons (count + 2)))
      ⟨scalarLive (semicolons (count + 1)) count, 0⟩ lexed :=
    ⟨rfl, ⟨1, by decide, append_validated room⟩, small, append_selects room,
      append_applied (count + 1), relexed, first⟩
  have bounded := fits _ _ _ _ restarts
  have carried := append_carries room
  have place : (scalarLive (semicolons (count + 1)) count).position = count := rfl
  rw [place, three] at bounded
  omega

end Semicolons

end PerlLsp.CheckpointRetention
