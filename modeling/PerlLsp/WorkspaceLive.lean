import PerlLsp.WorkspaceReopen

/-! Live commits of one document that overlap (index_live_file of workspace/workspace_index.rs). A
call checks, lets go of the lifecycle guard of its URI, and takes it again from the first critical
section of the indexing to the second: while one call parses no other gets in. -/
namespace PerlLsp.WorkspaceLive
open Std Tables Workspace WorkspaceIndex WorkspaceEffects WorkspaceReopen Runs

/-- A generation whose version the document store can order. -/
structure LiveCommit extends SourceCommit where
  below : generation < 2 ^ 31

/-- Where a call is. -/
inductive Place where
  | arrived
  | checked
  | parsing (reserved : Option Nat)
  | returned (outcome : SourceCommitOutcome)
  deriving DecidableEq

structure LiveCall where
  commit : LiveCommit
  place : Place

structure State where
  index : WorkspaceIndex
  calls : List LiveCall

inductive Op where
  | arrive (commit : LiveCommit)
  | check (call : Nat)
  | enter (call : Nat)
  | finish (call : Nat)

def LiveCall.holdsGuard (call : LiveCall) : Bool :=
  match call.place with
  | .parsing _ => true
  | _ => false

def State.guardFree (state : State) : Bool := state.calls.all fun call => !call.holdsGuard

def State.move (state : State) (index : WorkspaceIndex) (call : Nat) (commit : LiveCommit)
    (place : Place) : State :=
  ⟨index, state.calls.set call ⟨commit, place⟩⟩

section Steps
variable {Ast : Type} (env : Env Ast) (uri : String) (textOf : Nat → String)

def enterCall (index : WorkspaceIndex) (commit : LiveCommit) : Place × WorkspaceIndex :=
  let text := textOf commit.generation
  let index := index.bumpWriteVersion
  match index.earlyGuard (env.uriKey uri) (env.contentHash text) commit.generation with
  | .limited kind =>
    (.returned (.failed (resourceLimitError kind index.limits)),
      (index.recordResourceLimitRejection kind).bumpWriteVersion)
  | .noOp index => (.returned .noOp, index.bumpWriteVersion)
  | .rejectedStale => (.returned .rejectedStale, index.bumpWriteVersion)
  | .proceed index reserved => (.parsing reserved, index)

def step (state : State) : Op → State
  | .arrive commit => { state with calls := state.calls ++ [⟨commit, .arrived⟩] }
  | .check call =>
    match state.calls[call]? with
    | some ⟨commit, .arrived⟩ =>
      if state.guardFree then
        let (outcome, index) :=
          state.index.checkLive env uri (textOf commit.generation) commit.toSourceCommit
        state.move index call commit (outcome.elim .checked .returned)
      else state
    | _ => state
  | .enter call =>
    match state.calls[call]? with
    | some ⟨commit, .checked⟩ =>
      if state.guardFree then
        let (place, index) := enterCall env uri textOf state.index commit
        state.move index call commit place
      else state
    | _ => state
  | .finish call =>
    match state.calls[call]? with
    | some ⟨commit, .parsing reserved⟩ =>
      let text := textOf commit.generation
      let (result, index) := state.index.parseAndCommit env (env.uriKey uri) uri text
        (env.contentHash text) commit.generation reserved
      state.move index.bumpWriteVersion call commit (.returned (liveOutcome result))
    | _ => state

end Steps

section Claims
variable {Ast : Type} (env : Env Ast) (uri : String) (textOf : Nat → String)

def Served (call : LiveCall) : Prop :=
  call.place = .returned .accepted ∨ call.place = .returned .noOp

/-- Beside the files that were there at the start, the text parses and passes the limits. -/
def Good (start : WorkspaceIndex) (text : String) : Prop :=
  Room env start uri ∧ Fits env start uri text

def Extracted (file : FileIndex) (text : String) : Prop :=
  ∃ ast, env.parse text = .ok ast ∧
    file.symbols.map (·.toSymbolRow) = (env.visitUnified ast uri text).symbols ∧
    file.references = stampReferences uri (env.visitUnified ast uri text).references ∧
    file.dependencies = (env.visitUnified ast uri text).dependencies

def Coherent (index : WorkspaceIndex) (file : FileIndex) : Prop :=
  ∃ shard document, index.factShards[env.uriKey uri]? = some shard ∧
    index.documentStore[env.uriKey uri]? = some document ∧
    shard.contentHash = file.contentHash ∧ env.contentHash document.text = file.contentHash

def HoldsText (index : WorkspaceIndex) (generation : Nat) : Prop :=
  ∃ file document, index.files[env.uriKey uri]? = some file ∧
    index.documentStore[env.uriKey uri]? = some document ∧ file.generation = generation ∧
    document.text = textOf generation ∧ Extracted env uri file (textOf generation)

/-- What every interleaving keeps. The last part is about states in which all calls have returned,
when no two texts collide in their hash. -/
structure InOrder (start : WorkspaceIndex) (state : State) : Prop where
  advances : ∀ op file, state.index.files[env.uriKey uri]? = some file →
    ∃ later, (step env uri textOf state op).index.files[env.uriKey uri]? = some later ∧
      file.generation ≤ later.generation
  stale : ∀ call ∈ state.calls, call.place = .returned .rejectedStale →
    ∃ other ∈ state.calls, call.commit.generation < other.commit.generation ∧ Served other
  coherent : ∀ file, state.index.files[env.uriKey uri]? = some file →
    Coherent env uri state.index file
  highest : (∀ call ∈ state.calls, ∃ outcome, call.place = .returned outcome) →
    (∀ left right, env.contentHash (textOf left) = env.contentHash (textOf right) →
      textOf left = textOf right) →
    ∀ call ∈ state.calls, Good env uri start (textOf call.commit.generation) →
      (∀ other ∈ state.calls, Good env uri start (textOf other.commit.generation) →
        other.commit.generation ≤ call.commit.generation) →
      HoldsText env uri textOf state.index call.commit.generation

def CallFact (start index : WorkspaceIndex) (call : LiveCall) : Prop :=
  match call.place with
  | .returned (.failed _) => ¬ Good env uri start (textOf call.commit.generation)
  | .returned .rejectedStale => ∃ file, index.files[env.uriKey uri]? = some file ∧
      call.commit.generation < file.generation
  | .returned _ => ∃ file, index.files[env.uriKey uri]? = some file ∧
      call.commit.generation ≤ file.generation
  | _ => True

def Documented (start index : WorkspaceIndex) (file : FileIndex) : Prop :=
  ∃ generation document, index.documentStore[env.uriKey uri]? = some document ∧
    document.version ≤ file.generation ∧ document.text = textOf generation ∧
    Good env uri start (textOf generation) ∧ env.contentHash document.text = file.contentHash ∧
    Extracted env uri file document.text

structure Settled (start index : WorkspaceIndex) (calls : List LiveCall) : Prop where
  others : ∀ other, env.uriKey uri ≠ other → index.files[other]? = start.files[other]?
  limits : index.limits = start.limits
  undocumented : index.files[env.uriKey uri]? = none →
    index.documentStore[env.uriKey uri]? = none
  settled : ∀ file, index.files[env.uriKey uri]? = some file →
    file.pendingGeneration ≤ file.generation
  served : ∀ file, index.files[env.uriKey uri]? = some file →
    ∃ call ∈ calls, Served call ∧ call.commit.generation = file.generation ∧
      env.contentHash (textOf call.commit.generation) = file.contentHash
  shard : ∀ file, index.files[env.uriKey uri]? = some file →
    ∃ shard, index.factShards[env.uriKey uri]? = some shard ∧ shard.contentHash = file.contentHash
  documented : ∀ file, index.files[env.uriKey uri]? = some file →
    Documented env uri textOf start index file
  facts : ∀ call ∈ calls, CallFact env uri textOf start index call

structure PutIn (index after : WorkspaceIndex) (generation : Nat) (file : FileIndex)
    (stored : Document) : Prop where
  stores : CommittedAs env index after uri file stored
  shard : ∃ shard, after.factShards[env.uriKey uri]? = some shard ∧
    shard.contentHash = env.contentHash (textOf generation)
  tracked : file.generation = generation
  pending : file.pendingGeneration = 0
  contentHash : file.contentHash = env.contentHash (textOf generation)
  extracted : Extracted env uri file (textOf generation)
  version : stored.version = docVersion generation
  text : stored.text = textOf generation

inductive Invariant (start : WorkspaceIndex) (state : State) : Prop
  | free (guard : state.guardFree = true) (settled : Settled env uri textOf start state.index state.calls)
  | held (call : Nat) (commit : LiveCommit) (before : WorkspaceIndex)
      (here : state.calls[call]? =
        some ⟨commit, .parsing (reservation before (env.uriKey uri) commit.generation)⟩)
      (alone : ∀ other row, call ≠ other → state.calls[other]? = some row → row.holdsGuard = false)
      (reserved : state.index = reserve before (env.uriKey uri) commit.generation)
      (settled : Settled env uri textOf start before state.calls)
      (fresh : Fresh env before uri (textOf commit.generation) commit.generation)
      (room : HasRoom env before uri)

theorem guardFree_iff (state : State) : state.guardFree = true ↔
    ∀ call ∈ state.calls, call.holdsGuard = false := by
  rw [State.guardFree, List.all_eq_true]
  exact forall₂_congr fun call _ => by rw [Bool.not_eq_true']

section
variable {calls : List LiveCall} {i : Nat} {old : LiveCall} (new : LiveCall)
    (here : calls[i]? = some old)
include calls i old new here

theorem mem_move (unserved : ¬ Served old) (call : LiveCall)
    (member : call ∈ calls) (served : Served call) : call ∈ calls.set i new := by
  obtain ⟨j, there⟩ := List.mem_iff_getElem?.mp member
  refine List.mem_iff_getElem?.mpr ⟨j, ?_⟩
  rw [List.getElem?_set_ne]
  · exact there
  · rintro rfl
    cases here.symm.trans there
    exact unserved served

theorem new_mem : new ∈ calls.set i new := by
  obtain ⟨bound, _⟩ := List.getElem?_eq_some_iff.mp here
  exact List.mem_iff_getElem?.mpr ⟨i, List.getElem?_set_self bound⟩

end

section Start
variable {env uri textOf} {start index : WorkspaceIndex} {calls : List LiveCall}

section
variable (settled : Settled env uri textOf start index calls)
include settled

theorem same_others : symbolCount (index.files.erase (env.uriKey uri)) =
      symbolCount (start.files.erase (env.uriKey uri)) := by
  refine symbolCount_perm ((toList_perm _ _ fun other => ?_).map Prod.snd)
  rw [TreeMap.getElem?_erase, TreeMap.getElem?_erase]
  split
  · rfl
  next apart => exact settled.others other fun same => apart (Std.compare_eq_iff_eq.mpr same)

theorem fits_iff (text : String) : Fits env index uri text ↔ Fits env start uri text := by
  rw [Fits, Fits, same_others settled, settled.limits]

theorem same_size (absent : start.files[env.uriKey uri]? = none)
    (still : index.files[env.uriKey uri]? = none) : index.files.size = start.files.size := by
  rw [← length_rows, ← length_rows]
  refine ((toList_perm _ _ fun other => ?_).map Prod.snd).length_eq
  by_cases here : env.uriKey uri = other
  · rw [← here, absent, still]
  · exact settled.others other here

/-- The limit on files decides as it did at the start. -/
theorem room_iff (absent : start.files[env.uriKey uri]? = none) :
    Room env index uri ↔ Room env start uri := by
  have never : env.uriKey uri ∉ start.files := fun there => by
    have found := TreeMap.mem_iff_isSome_getElem?.mp there
    rw [absent] at found
    cases found
  cases found : index.files[env.uriKey uri]? with
  | none =>
    have gone : env.uriKey uri ∉ index.files := fun there => by
      have present := TreeMap.mem_iff_isSome_getElem?.mp there
      rw [found] at present
      cases present
    rw [Room, Room, or_iff_right gone, or_iff_right never, same_size settled absent found, settled.limits]
  | some file =>
    obtain ⟨_, _, _, _, _, good, _⟩ := settled.documented file found
    exact iff_of_true (.inl (mem_of_found _ _ file found)) good.1

theorem highWater_settled (file : FileIndex)
    (found : index.files[env.uriKey uri]? = some file) : file.highWater = file.generation :=
  Nat.max_eq_left (settled.settled file found)

end

theorem callFact_later (advances : ∀ file, index.files[env.uriKey uri]? = some file → ∃ later,
      after.files[env.uriKey uri]? = some later ∧ file.generation ≤ later.generation)
    (call : LiveCall) (fact : CallFact env uri textOf start index call) :
    CallFact env uri textOf start after call := by
  obtain ⟨commit, place⟩ := call
  have grown : ∀ {bound : Nat}, (∃ file, index.files[env.uriKey uri]? = some file ∧
        bound ≤ file.generation) →
      ∃ file, after.files[env.uriKey uri]? = some file ∧ bound ≤ file.generation := by
    rintro bound ⟨file, found, below⟩
    obtain ⟨later, there, onward⟩ := advances file found
    exact ⟨later, there, Nat.le_trans below onward⟩
  cases place with
  | arrived => trivial
  | checked => trivial
  | parsing reserved => trivial
  | returned outcome =>
    cases outcome with
    | accepted | noOp | rejectedStale => exact grown fact
    | failed message => exact fact

structure Advanced (before after : WorkspaceIndex) (key : String) (change : FileIndex → FileIndex) :
    Prop extends Counted before after key change where
  grows : ∀ file, before.files[key]? = some file → file.generation ≤ (change file).generation

section
variable {before after : WorkspaceIndex} {key : String} {change : FileIndex → FileIndex}
    (counted : Advanced before after key change)
include before after key change counted

theorem counted_file (later : FileIndex) (found : after.files[key]? = some later) :
    ∃ file, before.files[key]? = some file ∧ later = change file := by
  rw [counted.changed.files, if_pos rfl] at found
  obtain ⟨file, there, same⟩ := Option.map_eq_some_iff.mp found
  exact ⟨file, there, same.symm⟩

theorem counted_advances (file : FileIndex) (found : before.files[key]? = some file) :
    ∃ later, after.files[key]? = some later ∧ file.generation ≤ later.generation := by
  refine ⟨change file, ?_, counted.grows file found⟩
  rw [counted.changed.files, if_pos rfl, found, Option.map_some]

end

theorem extracted_congr {file other : FileIndex} {text : String} (symbols : other.symbols = file.symbols)
    (references : other.references = file.references)
    (dependencies : other.dependencies = file.dependencies) (extracted : Extracted env uri file text) :
    Extracted env uri other text := by
  rw [Extracted, symbols, references, dependencies]
  exact extracted

theorem settled_counted {change : FileIndex → FileIndex} {later : List LiveCall}
    (settled : Settled env uri textOf start index calls)
    (counted : Advanced index after (env.uriKey uri) change)
    (kept : ∀ call ∈ calls, Served call → call ∈ later)
    (served : ∀ file, index.files[env.uriKey uri]? = some file →
      (change file).generation = file.generation ∨ ∃ call ∈ later, Served call ∧
        call.commit.generation = (change file).generation ∧
        env.contentHash (textOf call.commit.generation) = file.contentHash)
    (facts : ∀ call ∈ later, call ∈ calls ∨ CallFact env uri textOf start after call) :
    Settled env uri textOf start after later := by
  have frame := counted.changed.frame
  have documents : after.documentStore = index.documentStore := by rw [frame]
  have shards : after.factShards = index.factShards := by rw [frame]
  refine ⟨fun other apart => ?_, ?_, fun absent => ?_, fun row found => ?_, fun row found => ?_,
    fun row found => ?_, fun row found => ?_, fun call member => ?_⟩
  · rw [counted.changed.files, if_neg apart]
    exact settled.others other apart
  · rw [frame]
    exact settled.limits
  · rw [documents]
    refine settled.undocumented ?_
    cases found : index.files[env.uriKey uri]? with
    | none => rfl
    | some file =>
      obtain ⟨_, there, _⟩ := counted_advances counted file found
      cases absent.symm.trans there
  · obtain ⟨file, there, rfl⟩ := counted_file counted row found
    exact (counted.recounted file there).settled (settled.settled file there)
  · obtain ⟨file, there, rfl⟩ := counted_file counted row found
    rw [(counted.recounted file there).contentHash]
    rcases served file there with same | new
    · obtain ⟨call, member, done, at_, hashed⟩ := settled.served file there
      exact ⟨call, kept call member done, done, at_.trans same.symm, hashed⟩
    · exact new
  · obtain ⟨file, there, rfl⟩ := counted_file counted row found
    rw [(counted.recounted file there).contentHash, shards]
    exact settled.shard file there
  · obtain ⟨file, there, rfl⟩ := counted_file counted row found
    obtain ⟨generation, document, held, version, text, good, hashed, extracted⟩ :=
      settled.documented file there
    refine ⟨generation, document, by rw [documents]; exact held, ?_, text, good, ?_, ?_⟩
    · exact Int.le_trans version (Int.ofNat_le.mpr (counted.grows file there))
    · rw [(counted.recounted file there).contentHash]
      exact hashed
    · have same := counted.recounted file there
      exact extracted_congr same.symbols same.references same.dependencies extracted
  · rcases facts call member with old | fact
    · exact callFact_later (counted_advances counted) call (settled.facts call old)
    · exact fact

theorem docVersion_below (commit : LiveCommit) : docVersion commit.generation = commit.generation := by
  have below := commit.below
  have positive := commit.nonZero
  simp only [docVersion]
  omega

theorem putIn_file {generation : Nat} {file : FileIndex} {stored : Document}
    (put : PutIn env uri textOf index after generation file stored) :
    after.files[env.uriKey uri]? = some file :=
  (put.stores.files _).trans (if_pos rfl)

theorem settled_putIn {later : List LiveCall} {file : FileIndex} {stored : Document}
    (commit : LiveCommit) (settled : Settled env uri textOf start index calls)
    (put : PutIn env uri textOf index after commit.generation file stored)
    (good : Good env uri start (textOf commit.generation))
    (below : ∀ file, index.files[env.uriKey uri]? = some file → file.generation ≤ commit.generation)
    (new : ⟨commit, .returned .accepted⟩ ∈ later)
    (facts : ∀ call ∈ later, call ∈ calls ∨ call = ⟨commit, .returned .accepted⟩) :
    Settled env uri textOf start after later := by
  have here := putIn_file put
  have only : ∀ row, after.files[env.uriKey uri]? = some row → row = file :=
    fun row found => Option.some.inj (found.symm.trans here)
  have document : after.documentStore[env.uriKey uri]? = some stored := by
    rw [put.stores.documentStore]
    exact (getElem?_insert _ _ _ _).trans (if_pos rfl)
  have advances : ∀ old, index.files[env.uriKey uri]? = some old →
      ∃ later, after.files[env.uriKey uri]? = some later ∧ old.generation ≤ later.generation :=
    fun old found => ⟨file, here, put.tracked ▸ below old found⟩
  refine ⟨fun other apart => ?_, ?_, fun gone => ?_, fun row found => ?_, fun row found => ?_,
    fun row found => ?_, fun row found => ?_, fun call member => ?_⟩
  · exact (put.stores.files other).trans ((if_neg apart).trans (settled.others other apart))
  · exact put.stores.limits.trans settled.limits
  · cases gone.symm.trans here
  · rw [only row found, put.pending]
    exact Nat.zero_le _
  · rw [only row found]
    exact ⟨_, new, .inl rfl, put.tracked.symm, put.contentHash.symm⟩
  · rw [only row found, put.contentHash]
    exact put.shard
  · rw [only row found]
    refine ⟨commit.generation, stored, document, ?_, put.text, good, ?_, ?_⟩
    · rw [put.version, docVersion_below, put.tracked]
    · rw [put.text, put.contentHash]
    · rw [put.text]
      exact put.extracted
  · rcases facts call member with old | rfl
    · exact callFact_later advances call (settled.facts call old)
    · exact ⟨file, here, Nat.le_of_eq put.tracked.symm⟩

theorem committed_putIn (index : WorkspaceIndex) (uri : String) (textOf : Nat → String)
    (generation : Nat) (ast : Ast) (stored : Document) (parsed : env.parse (textOf generation) = .ok ast)
    (version : stored.version = docVersion generation) (text : stored.text = textOf generation) :
    PutIn env uri textOf index
      (committed env (reserve index (env.uriKey uri) generation) uri (textOf generation) generation
        ast stored) generation
      (index.extract env uri (textOf generation) (env.contentHash (textOf generation)) generation
        ast).fileIndex stored where
  stores := committed_stores env index uri (textOf generation) generation ast stored
  shard := committed_shard env (reserve index (env.uriKey uri) generation) uri (textOf generation)
    generation ast stored
  tracked := rfl
  pending := rfl
  contentHash := rfl
  extracted := ⟨ast, parsed, (List.map_map ..).trans (List.map_id _), rfl, rfl⟩
  version := version
  text := text

section
variable (settled : Settled env uri textOf start index calls)
    (absent : start.files[env.uriKey uri]? = none)
include settled absent

/-- A text that was admitted is good. -/
theorem admitted_good {text : String} {generation : Nat} {ast : Ast}
    (admitted : Admitted env index uri text generation ast) : Good env uri start text := by
  obtain ⟨room, within⟩ := (admitted_iff _ _ _ _).mp admitted.within
  rw [extracted_symbols] at within
  exact ⟨(room_iff settled absent).mp room, (fits_iff settled _).mp ⟨ast, admitted.parsed, within⟩⟩

/-- A good text is not refused, for the document is no later than the file. -/
theorem refusal_bad (commit : LiveCommit)
    (below : ∀ file, index.files[env.uriKey uri]? = some file → file.generation ≤ commit.generation)
    (refusal : Refusal env index uri (textOf commit.generation) commit.generation) :
    ¬ Good env uri start (textOf commit.generation) := by
  intro good
  obtain ⟨document, there, _, old⟩ := refusal_version ((room_iff settled absent).mpr good.1)
    ((fits_iff settled _).mpr good.2) refusal
  cases found : index.files[env.uriKey uri]? with
  | none => cases (settled.undocumented found).symm.trans there
  | some file =>
    obtain ⟨_, other, thereOther, version, _⟩ := settled.documented file found
    cases there.symm.trans thereOther
    rw [docVersion_below] at old
    have bound := below file found
    omega

end

theorem advanced_id : Advanced index index (env.uriKey uri) id where
  changed := filesAfter_none index _ id fun _ _ => rfl
  recounted _ _ := ⟨rfl, rfl, rfl, rfl, rfl, id⟩
  grows _ _ := Nat.le_refl _

/-- Calls may be added and moved as long as what was served stays. -/
theorem settled_calls {later : List LiveCall} (settled : Settled env uri textOf start index calls)
    (kept : ∀ call ∈ calls, Served call → call ∈ later)
    (facts : ∀ call ∈ later, call ∈ calls ∨ CallFact env uri textOf start index call) :
    Settled env uri textOf start index later :=
  settled_counted settled advanced_id kept (fun _ _ => .inl rfl) facts

theorem settled_bump (settled : Settled env uri textOf start index calls) :
    Settled env uri textOf start index.bumpWriteVersion calls :=
  ⟨settled.others, settled.limits, settled.undocumented, settled.settled, settled.served,
    settled.shard, settled.documented, settled.facts⟩

theorem settled_rejected (settled : Settled env uri textOf start index calls) (kind : ResourceKind) :
    Settled env uri textOf start (index.recordResourceLimitRejection kind) calls :=
  ⟨settled.others, settled.limits, settled.undocumented, settled.settled, settled.served,
    settled.shard, settled.documented, settled.facts⟩

/-- How the first critical section of the indexing leaves a call. -/
inductive EnterEffect (env : Env Ast) (uri text : String) (generation : Nat)
    (index : WorkspaceIndex) : Place × WorkspaceIndex → Prop
  | full (absent : index.files[env.uriKey uri]? = none)
      (above : index.limits.maxFiles ≤ index.files.size) (message : String) (kind : ResourceKind) :
      EnterEffect env uri text generation index
        (.returned (.failed message), (index.recordResourceLimitRejection kind).bumpWriteVersion)
  | noOp (existing : FileIndex) (found : index.files[env.uriKey uri]? = some existing)
      (unchanged : existing.contentHash = env.contentHash text) :
      EnterEffect env uri text generation index
        (.returned .noOp, (index.setFile (env.uriKey uri)
          { existing with
            generation := max existing.generation generation
            pendingGeneration := max existing.pendingGeneration generation }).bumpWriteVersion)
  | stale (existing : FileIndex) (found : index.files[env.uriKey uri]? = some existing)
      (old : generation < existing.highWater) :
      EnterEffect env uri text generation index (.returned .rejectedStale, index.bumpWriteVersion)
  | parsing (fresh : Fresh env index uri text generation) (room : HasRoom env index uri) :
      EnterEffect env uri text generation index
        (.parsing (reservation index (env.uriKey uri) generation),
          reserve index (env.uriKey uri) generation)

theorem enterCall_effect (index : WorkspaceIndex) (commit : LiveCommit) :
    EnterEffect env uri (textOf commit.generation) commit.generation index.bumpWriteVersion
      (enterCall env uri textOf index commit) := by
  have guarded : ∀ guard, index.bumpWriteVersion.earlyGuard (env.uriKey uri)
      (env.contentHash (textOf commit.generation)) commit.generation = guard →
      enterCall env uri textOf index commit = match guard with
        | .limited kind => (.returned (.failed (resourceLimitError kind index.limits)),
            (index.bumpWriteVersion.recordResourceLimitRejection kind).bumpWriteVersion)
        | .noOp index => (.returned .noOp, index.bumpWriteVersion)
        | .rejectedStale => (.returned .rejectedStale, index.bumpWriteVersion.bumpWriteVersion)
        | .proceed index reserved => (.parsing reserved, index) := by
    rintro _ rfl
    rfl
  cases found : index.files[env.uriKey uri]? with
  | none =>
    by_cases above : index.limits.maxFiles ≤ index.files.size
    · rw [guarded _ (earlyGuard_full index.bumpWriteVersion _ _ _ found above)]
      have absent : index.bumpWriteVersion.files[env.uriKey uri]? = none := found
      exact .full absent above _ _
    have fresh : Fresh env index.bumpWriteVersion uri (textOf commit.generation) commit.generation :=
      fun existing there => by cases found.symm.trans there
    rw [guarded _ (earlyGuard_fresh index.bumpWriteVersion _ _ _ fresh fun _ => Nat.not_le.mp above)]
    exact .parsing fresh fun _ => Nat.not_le.mp above
  | some existing =>
    by_cases unchanged : existing.contentHash = env.contentHash (textOf commit.generation)
    · rw [guarded _ (earlyGuard_unchanged index.bumpWriteVersion _ _ _ existing found unchanged)]
      exact .noOp existing found unchanged
    by_cases old : commit.generation < existing.highWater
    · rw [guarded _ (earlyGuard_stale index.bumpWriteVersion _ _ _ existing found unchanged
        commit.nonZero old)]
      exact .stale existing found old
    have fresh : Fresh env index.bumpWriteVersion uri (textOf commit.generation) commit.generation := by
      intro other there
      cases found.symm.trans there
      exact ⟨unchanged, fun _ => Nat.not_lt.mp old⟩
    have present : HasRoom env index.bumpWriteVersion uri :=
      fun absent => by cases found.symm.trans absent
    rw [guarded _ (earlyGuard_fresh index.bumpWriteVersion _ _ _ fresh present)]
    exact .parsing fresh present

theorem advanced_noOp (existing : FileIndex)
    (found : index.files[env.uriKey uri]? = some existing) (generation toGeneration : Nat)
    (above : existing.generation ≤ toGeneration) (reaches : generation ≤ toGeneration) :
    Advanced index (index.setFile (env.uriKey uri)
      { existing with
        generation := toGeneration
        pendingGeneration := max existing.pendingGeneration generation }) (env.uriKey uri)
      fun file => { file with
        generation := toGeneration
        pendingGeneration := max file.pendingGeneration generation } where
  changed := filesAfter_setFile index _ existing
    (fun file => { file with
      generation := toGeneration
      pendingGeneration := max file.pendingGeneration generation }) found
  recounted file there := by
    cases found.symm.trans there
    exact ⟨rfl, rfl, rfl, rfl, rfl, fun low => Nat.max_le.mpr ⟨Nat.le_trans low above, reaches⟩⟩
  grows file there := by
    cases found.symm.trans there
    exact above

section
variable (settled : Settled env uri textOf start index calls)
include settled

theorem settled_noOp (existing : FileIndex)
    (found : index.files[env.uriKey uri]? = some existing) (commit : LiveCommit)
    (unchanged : existing.contentHash = env.contentHash (textOf commit.generation))
    {i : Nat} {old : LiveCall} (here : calls[i]? = some old) (unserved : ¬ Served old)
    (toGeneration : Nat) (reached : toGeneration = max existing.generation commit.generation) :
    Settled env uri textOf start (index.setFile (env.uriKey uri)
      { existing with
        generation := toGeneration
        pendingGeneration := max existing.pendingGeneration commit.generation })
      (calls.set i ⟨commit, .returned .noOp⟩) := by
  subst reached
  have counted := advanced_noOp existing found commit.generation
    (max existing.generation commit.generation) (Nat.le_max_left _ _) (Nat.le_max_right _ _)
  refine settled_counted settled counted (mem_move _ here unserved) (fun file there => ?_)
    fun call member => ?_
  · cases found.symm.trans there
    rcases Nat.le_total commit.generation existing.generation with low | high
    · exact .inl (Nat.max_eq_left low)
    · exact .inr ⟨_, new_mem _ here, .inr rfl, (Nat.max_eq_right high).symm, unchanged.symm⟩
  · rcases List.mem_or_eq_of_mem_set member with old | rfl
    · exact .inl old
    · refine .inr ⟨_, (getElem?_insert _ _ _ _).trans (if_pos rfl), ?_⟩
      exact Nat.le_max_right _ _

theorem settled_move {i : Nat}
    {old : LiveCall} (here : calls[i]? = some old) (unserved : ¬ Served old) (new : LiveCall)
    (fact : CallFact env uri textOf start index new) :
    Settled env uri textOf start index (calls.set i new) := by
  refine settled_calls settled (mem_move new here unserved) fun call member => ?_
  rcases List.mem_or_eq_of_mem_set member with among | rfl
  · exact .inl among
  · exact .inr fact

theorem stale_fact (existing : FileIndex)
    (found : index.files[env.uriKey uri]? = some existing) (commit : LiveCommit)
    (old : commit.generation < existing.highWater) :
    CallFact env uri textOf start index ⟨commit, .returned .rejectedStale⟩ := by
  rw [highWater_settled settled existing found] at old
  exact ⟨existing, found, old⟩

theorem settled_check (commit : LiveCommit) {i : Nat} (here : calls[i]? = some ⟨commit, .arrived⟩) :
    let result := index.checkLive env uri (textOf commit.generation) commit.toSourceCommit
    Settled env uri textOf start result.2 (calls.set i ⟨commit, result.1.elim .checked .returned⟩) := by
  have unserved : ¬ Served ⟨commit, .arrived⟩ := fun served => by
    rcases served with place | place <;> cases place
  intro result
  have checked : CheckEffect env index uri (textOf commit.generation) commit.generation result :=
    checkLive_effect env index uri _ _
  generalize result = ended at checked
  cases checked with
  | stale existing found old =>
    exact settled_move settled here unserved _ (stale_fact settled existing found commit old)
  | noOp existing found above unchanged =>
    have high : commit.generation = max existing.generation commit.generation :=
      (Nat.max_eq_right (Nat.le_trans (Nat.le_max_left _ _) above)).symm
    exact settled_noOp settled existing found commit unchanged here unserved _ high
  | proceed fresh => exact settled_move settled here unserved _ trivial

theorem settled_enter (absent : start.files[env.uriKey uri]? = none) (commit : LiveCommit)
    {i : Nat} (here : calls[i]? = some ⟨commit, .checked⟩) :
    let result := enterCall env uri textOf index commit
    (∃ outcome, result.1 = .returned outcome ∧
        Settled env uri textOf start result.2 (calls.set i ⟨commit, result.1⟩)) ∨
      ∃ before, result = (.parsing (reservation before (env.uriKey uri) commit.generation),
            reserve before (env.uriKey uri) commit.generation) ∧
        Settled env uri textOf start before (calls.set i ⟨commit, result.1⟩) ∧
        Fresh env before uri (textOf commit.generation) commit.generation ∧ HasRoom env before uri := by
  have unserved : ¬ Served ⟨commit, .checked⟩ := fun served => by
    rcases served with place | place <;> cases place
  have before := settled_bump settled
  intro result
  have entered : EnterEffect env uri (textOf commit.generation) commit.generation
      index.bumpWriteVersion result := enterCall_effect index commit
  generalize result = ended at entered
  cases entered with
  | full gone above message kind =>
    have bad : ¬ Good env uri start (textOf commit.generation) := by
      intro good
      exact Nat.not_lt.mpr above (room_absent ((room_iff before absent).mpr good.1) gone)
    refine .inl ⟨_, rfl, ?_⟩
    exact settled_bump (settled_rejected (settled_move before here unserved
      ⟨commit, .returned (.failed message)⟩ bad) kind)
  | noOp existing found unchanged =>
    refine .inl ⟨_, rfl, settled_bump ?_⟩
    exact settled_noOp before existing found commit unchanged here unserved _ rfl
  | stale existing found old =>
    refine .inl ⟨_, rfl, settled_bump ?_⟩
    exact settled_move before here unserved _ (stale_fact before existing found commit old)
  | parsing fresh room =>
    exact .inr ⟨_, rfl, settled_move before here unserved _ trivial, fresh, room⟩

end

theorem rollBack_generation (generation : Nat) (file : FileIndex) :
    (rollBack generation file).generation = file.generation := by
  rw [rollBack]
  split
  · rfl
  · rfl

theorem advanced_rollBack {generation : Nat}
    (changed : FilesAfter index after (env.uriKey uri) (rollBack generation)) :
    Advanced index after (env.uriKey uri) (rollBack generation) where
  changed := changed
  recounted file _ := recounted_rollBack generation file
  grows file _ := Nat.le_of_eq (rollBack_generation generation file).symm

theorem settled_finish {before : WorkspaceIndex} (settled : Settled env uri textOf start before calls)
    (absent : start.files[env.uriKey uri]? = none) (commit : LiveCommit) {i : Nat}
    {reserved : Option Nat} (here : calls[i]? = some ⟨commit, .parsing reserved⟩)
    (fresh : Fresh env before uri (textOf commit.generation) commit.generation)
    (room : HasRoom env before uri) :
    let result := (reserve before (env.uriKey uri) commit.generation).parseAndCommit env
      (env.uriKey uri) uri (textOf commit.generation)
      (env.contentHash (textOf commit.generation)) commit.generation
      (reservation before (env.uriKey uri) commit.generation)
    Settled env uri textOf start result.2.bumpWriteVersion
      (calls.set i ⟨commit, .returned (liveOutcome result.1)⟩) := by
  have unserved : ¬ Served ⟨commit, .parsing reserved⟩ := fun served => by
    rcases served with place | place <;> cases place
  have below : ∀ file, before.files[env.uriKey uri]? = some file →
      file.generation ≤ commit.generation := fun file found =>
    Nat.le_trans (Nat.le_max_left _ _) ((fresh file found).2 commit.nonZero)
  intro result
  have effect : IndexEffect env before uri (textOf commit.generation) commit.generation result.1
      result.2 := indexFile_fresh env before uri (textOf commit.generation) commit.generation fresh room
  generalize result.1 = outcome at effect
  generalize result.2 = after at effect
  refine settled_bump ?_
  cases effect with
  | noOp existing found unchanged => exact absurd unchanged (fresh existing found).1
  | stale existing found changed tracked old =>
    exact absurd ((fresh existing found).2 tracked) (Nat.not_le.mpr old)
  | refused after message _ refusal files =>
    have bad := refusal_bad settled absent commit below refusal
    refine settled_counted settled (advanced_rollBack files) (mem_move _ here unserved)
      (fun file _ => .inl (rollBack_generation _ file)) fun call member => ?_
    rcases List.mem_or_eq_of_mem_set member with among | rfl
    · exact .inl among
    · exact .inr bad
  | accepted ast stored _ admitted version same =>
    exact settled_putIn commit settled
      (committed_putIn before uri textOf _ ast stored admitted.parsed version same)
      (admitted_good settled absent admitted) below (new_mem _ here)
      fun call member => List.mem_or_eq_of_mem_set member

theorem guard_move {state : State} {i : Nat} {new : LiveCall} (index : WorkspaceIndex)
    (others : ∀ other row, i ≠ other → state.calls[other]? = some row → row.holdsGuard = false)
    (idle : new.holdsGuard = false) : (State.mk index (state.calls.set i new)).guardFree = true := by
  refine (guardFree_iff _).mpr fun call member => ?_
  obtain ⟨j, there⟩ := List.mem_iff_getElem?.mp member
  by_cases same : i = j
  · subst same
    obtain ⟨bound, _⟩ := List.getElem?_eq_some_iff.mp there
    have inside : i < state.calls.length := List.length_set ▸ bound
    rw [show (State.mk index (state.calls.set i new)).calls[i]? = some new from
      List.getElem?_set_self inside] at there
    exact Option.some.inj there ▸ idle
  · exact others j call same ((List.getElem?_set_ne same).symm.trans there)

theorem free_others {state : State} (guard : state.guardFree = true) (i : Nat) :
    ∀ other row, i ≠ other → state.calls[other]? = some row → row.holdsGuard = false :=
  fun _ row _ there => (guardFree_iff state).mp guard row (List.mem_of_getElem? there)

theorem held_guard {state : State} {i : Nat} {commit : LiveCommit} {reserved : Option Nat}
    (here : state.calls[i]? = some ⟨commit, .parsing reserved⟩) : state.guardFree = false := by
  refine Bool.eq_false_iff.mpr fun guard => ?_
  have idle := (guardFree_iff state).mp guard _ (List.mem_of_getElem? here)
  cases idle

theorem invariant_step (absent : start.files[env.uriKey uri]? = none) (state : State) (op : Op)
    (invariant : Invariant env uri textOf start state) :
    Invariant env uri textOf start (step env uri textOf state op) := by
  cases op with
  | arrive commit =>
    have grown : ∀ {index : WorkspaceIndex}, Settled env uri textOf start index state.calls →
        Settled env uri textOf start index (state.calls ++ [⟨commit, .arrived⟩]) := by
      intro index settled
      refine settled_calls settled (fun call member _ => List.mem_append_left _ member) fun call member => ?_
      rcases List.mem_append.mp member with among | new
      · exact .inl among
      · rw [List.mem_singleton.mp new]
        exact .inr trivial
    cases invariant with
    | free guard settled =>
      refine .free ((guardFree_iff _).mpr fun call member => ?_) (grown settled)
      rcases List.mem_append.mp member with among | new
      · exact (guardFree_iff state).mp guard call among
      · rw [List.mem_singleton.mp new]
        rfl
    | held call holder before here alone reserved settled fresh room =>
      obtain ⟨bound, _⟩ := List.getElem?_eq_some_iff.mp here
      refine .held call holder before ?_ (fun other row apart there => ?_) reserved (grown settled)
        fresh room
      · exact (List.getElem?_append_left bound).trans here
      · rcases List.mem_append.mp (List.mem_of_getElem? there) with among | new
        · rcases Nat.lt_or_ge other state.calls.length with inside | outside
          · exact alone other row apart ((List.getElem?_append_left inside).symm.trans there)
          have last : (state.calls ++ [⟨commit, .arrived⟩])[other]? = some row := there
          rw [List.getElem?_append_right outside] at last
          have single := List.mem_singleton.mp (List.mem_of_getElem? last)
          rw [single]
          rfl
        · rw [List.mem_singleton.mp new]
          rfl
  | check call =>
    simp only [step]
    split
    next commit here =>
        split
        next guard =>
            cases invariant with
            | free _ settled =>
              refine .free (guard_move _ (free_others guard call) ?_) (settled_check settled commit here)
              cases (state.index.checkLive env uri (textOf commit.generation) commit.toSourceCommit).1 with
              | none => rfl
              | some outcome => rfl
            | held other holder before there => cases guard.symm.trans (held_guard there)
        next => exact invariant
    next => exact invariant
  | enter call =>
    simp only [step]
    split
    next commit here =>
        split
        next guard =>
            cases invariant with
            | free _ settled =>
              rcases settled_enter settled absent commit here with
                ⟨outcome, ended, later⟩ | ⟨before, ended, later, fresh, room⟩
              · refine .free (guard_move _ (free_others guard call) ?_) later
                rw [ended]
                rfl
              rw [ended] at later ⊢
              obtain ⟨bound, _⟩ := List.getElem?_eq_some_iff.mp here
              refine .held call commit before (List.getElem?_set_self bound)
                (fun other row apart there => ?_) rfl later fresh room
              exact free_others guard call other row apart ((List.getElem?_set_ne apart).symm.trans there)
            | held other holder before there => cases guard.symm.trans (held_guard there)
        next => exact invariant
    next => exact invariant
  | finish call =>
    simp only [step]
    split
    next commit reserved here =>
        cases invariant with
        | free guard _ => cases guard.symm.trans (held_guard here)
        | held other holder before there alone taken settled fresh room =>
          have same : other = call := by
            by_contra apart
            have idle := alone call _ apart here
            cases idle
          subst same
          cases here.symm.trans there
          rw [taken]
          exact .free (guard_move _ alone rfl) (settled_finish settled absent commit here fresh room)
    next => exact invariant

theorem reserved_file (before : WorkspaceIndex) (key : String) (generation : Nat) (file : FileIndex)
    (found : (reserve before key generation).files[key]? = some file) :
    ∃ existing, before.files[key]? = some existing ∧ file.generation = existing.generation ∧
      file.contentHash = existing.contentHash := by
  cases there : before.files[key]? with
  | none =>
    rw [reserve_none before key generation there, there] at found
    cases found
  | some existing =>
    rcases reserve_some before key generation existing there with same | ⟨_, same⟩
    · rw [same, there] at found
      cases found
      exact ⟨_, rfl, rfl, rfl⟩
    · rw [same, setFile, getElem?_insert, if_pos rfl] at found
      cases found
      exact ⟨existing, rfl, rfl, rfl⟩

section
variable {state : State} (invariant : Invariant env uri textOf start state) (file : FileIndex)
    (found : state.index.files[env.uriKey uri]? = some file)
include state invariant file found

theorem settled_file : ∃ before existing, Settled env uri textOf start before state.calls ∧
      before.files[env.uriKey uri]? = some existing ∧ file.generation = existing.generation ∧
      file.contentHash = existing.contentHash ∧
      state.index.documentStore = before.documentStore ∧
      state.index.factShards = before.factShards := by
  cases invariant with
  | free guard settled => exact ⟨state.index, file, settled, found, rfl, rfl, rfl, rfl⟩
  | held call commit before here alone reserved settled fresh room =>
    rw [reserved] at found ⊢
    obtain ⟨existing, there, generation, hashed⟩ := reserved_file before _ _ file found
    have frame := reserve_frame before (env.uriKey uri) commit.generation
    exact ⟨before, existing, settled, there, generation, hashed, by rw [frame], by rw [frame]⟩

theorem coherent_of_invariant : Coherent env uri state.index file := by
  obtain ⟨before, existing, settled, there, _, hashed, documents, shards⟩ :=
    settled_file invariant file found
  obtain ⟨shard, filed, sameShard⟩ := settled.shard existing there
  obtain ⟨_, document, held, _, _, _, sameText, _⟩ := settled.documented existing there
  rw [Coherent, documents, shards, hashed]
  exact ⟨shard, document, filed, held, sameShard, sameText⟩

end

theorem stale_of_settled (settled : Settled env uri textOf start index calls) (call : LiveCall)
    (member : call ∈ calls) (rejected : call.place = .returned .rejectedStale) :
    ∃ other ∈ calls, call.commit.generation < other.commit.generation ∧ Served other := by
  have fact := settled.facts call member
  rw [CallFact, rejected] at fact
  obtain ⟨file, found, below⟩ := fact
  obtain ⟨other, among, served, reached, _⟩ := settled.served file found
  exact ⟨other, among, reached ▸ below, served⟩

theorem highest_of_settled (settled : Settled env uri textOf start index calls)
    (collisionFree : ∀ left right, env.contentHash (textOf left) = env.contentHash (textOf right) →
      textOf left = textOf right) (call : LiveCall) (member : call ∈ calls)
    (returned : ∃ outcome, call.place = .returned outcome)
    (good : Good env uri start (textOf call.commit.generation))
    (top : ∀ other ∈ calls, Good env uri start (textOf other.commit.generation) →
      other.commit.generation ≤ call.commit.generation) :
    HoldsText env uri textOf index call.commit.generation := by
  have reached : ∃ file, index.files[env.uriKey uri]? = some file ∧
      call.commit.generation ≤ file.generation := by
    have fact := settled.facts call member
    obtain ⟨outcome, place⟩ := returned
    rw [CallFact, place] at fact
    cases outcome with
    | accepted => exact fact
    | noOp => exact fact
    | rejectedStale =>
      obtain ⟨file, found, below⟩ := fact
      exact ⟨file, found, Nat.le_of_lt below⟩
    | failed message => exact absurd good fact
  obtain ⟨file, found, above⟩ := reached
  obtain ⟨other, among, _, at_, hashed⟩ := settled.served file found
  obtain ⟨generation, document, held, _, text, goodText, sameText, extracted⟩ :=
    settled.documented file found
  have same : textOf other.commit.generation = textOf generation :=
    collisionFree _ _ (hashed.trans (text ▸ sameText.symm))
  have low := top other among (same ▸ goodText)
  have equal : other.commit.generation = call.commit.generation := by omega
  have textHere : document.text = textOf call.commit.generation := by
    rw [text, ← same, equal]
  exact ⟨file, document, found, held, at_.symm.trans equal, textHere, textHere ▸ extracted⟩

theorem advances_setFile (index : WorkspaceIndex) (key : String) (existing new file : FileIndex)
    (found : index.files[key]? = some existing) (grown : existing.generation ≤ new.generation)
    (there : index.files[key]? = some file) :
    ∃ later, (index.setFile key new).files[key]? = some later ∧ file.generation ≤ later.generation := by
  cases found.symm.trans there
  exact ⟨new, (getElem?_insert _ _ _ _).trans (if_pos rfl), grown⟩

theorem advances_effect {before : WorkspaceIndex}
    (settled : Settled env uri textOf start before calls) (commit : LiveCommit)
    (fresh : Fresh env before uri (textOf commit.generation) commit.generation)
    {outcome : Except String IndexFileWithGenerationOutcome}
    (effect : IndexEffect env before uri (textOf commit.generation) commit.generation outcome after)
    (file : FileIndex) (found : before.files[env.uriKey uri]? = some file) :
    ∃ later, after.files[env.uriKey uri]? = some later ∧ file.generation ≤ later.generation := by
  cases effect with
  | noOp existing there unchanged => exact absurd unchanged (fresh existing there).1
  | stale existing there changed tracked old =>
    exact absurd ((fresh existing there).2 tracked) (Nat.not_le.mpr old)
  | refused after message _ refusal files =>
    exact counted_advances (advanced_rollBack files) file found
  | accepted ast stored _ admitted version same =>
    have put := committed_putIn before uri textOf commit.generation ast stored admitted.parsed version same
    refine ⟨_, putIn_file put, ?_⟩
    exact Nat.le_trans (Nat.le_max_left _ _) ((fresh file found).2 commit.nonZero)

theorem advances_step (state : State) (op : Op)
    (invariant : Invariant env uri textOf start state) (file : FileIndex)
    (found : state.index.files[env.uriKey uri]? = some file) :
    ∃ later, (step env uri textOf state op).index.files[env.uriKey uri]? = some later ∧
      file.generation ≤ later.generation := by
  have stays : ∃ later, state.index.files[env.uriKey uri]? = some later ∧
      file.generation ≤ later.generation := ⟨file, found, Nat.le_refl _⟩
  cases op with
  | arrive commit => exact stays
  | check call =>
    simp only [step]
    split
    next commit here =>
        split
        next =>
            have checked := checkLive_effect env state.index uri (textOf commit.generation)
              commit.toSourceCommit
            simp only [State.move]
            generalize state.index.checkLive env uri (textOf commit.generation)
              commit.toSourceCommit = ended at checked ⊢
            cases checked with
            | stale existing there old => exact stays
            | noOp existing there above unchanged =>
              exact advances_setFile state.index _ existing _ file there
                (Nat.le_trans (Nat.le_max_left _ _) above) found
            | proceed fresh => exact stays
        next => exact stays
    next => exact stays
  | enter call =>
    simp only [step]
    split
    next commit here =>
        split
        next =>
            have entered : EnterEffect env uri (textOf commit.generation) commit.generation
                state.index.bumpWriteVersion (enterCall env uri textOf state.index commit) :=
              enterCall_effect state.index commit
            simp only [State.move]
            generalize enterCall env uri textOf state.index commit = ended at entered ⊢
            cases entered with
            | full gone above message kind => exact stays
            | noOp existing there unchanged =>
              exact advances_setFile state.index.bumpWriteVersion _ existing _ file there
                (Nat.le_max_left _ _) found
            | stale existing there old => exact stays
            | parsing fresh room =>
              rcases reserve_some state.index.bumpWriteVersion (env.uriKey uri)
                  commit.generation file found with same | ⟨_, same⟩
              · rw [same]
                exact stays
              · rw [same]
                exact advances_setFile state.index.bumpWriteVersion _ file _ file found (Nat.le_refl _) found
        next => exact stays
    next => exact stays
  | finish call =>
    simp only [step]
    split
    next commit reserved here =>
        cases invariant with
        | free guard _ => cases guard.symm.trans (held_guard here)
        | held other holder before there alone taken settled fresh room =>
          have same : other = call := by
            by_contra apart
            have idle := alone call _ apart here
            cases idle
          subst same
          cases here.symm.trans there
          rw [taken] at found ⊢
          obtain ⟨existing, stored, generation, _⟩ := reserved_file before _ _ file found
          have effect := indexFile_fresh env before uri (textOf commit.generation)
            commit.generation fresh room
          simp only [State.move, generation]
          generalize (reserve before (env.uriKey uri) commit.generation).parseAndCommit env
            (env.uriKey uri) uri (textOf commit.generation)
            (env.contentHash (textOf commit.generation)) commit.generation
            (reservation before (env.uriKey uri) commit.generation) = ended at effect ⊢
          exact advances_effect settled commit fresh effect existing stored
    next => exact stays

theorem inOrder_of_invariant {state : State} (invariant : Invariant env uri textOf start state) :
    InOrder env uri textOf start state where
  advances op file found := advances_step state op invariant file found
  stale call member rejected := by
    cases invariant with
    | free guard settled => exact stale_of_settled settled call member rejected
    | held other holder before here alone reserved settled fresh room =>
      exact stale_of_settled settled call member rejected
  coherent := coherent_of_invariant invariant
  highest returned collisionFree call member good top := by
    cases invariant with
    | free guard settled =>
      exact highest_of_settled settled collisionFree call member (returned call member) good top
    | held other holder before here alone reserved settled fresh room =>
      obtain ⟨outcome, place⟩ := returned _ (List.mem_of_getElem? here)
      cases place

end Start

/-- Whatever the order in which overlapping live commits of an absent file check, enter and finish,
generations only rise, a call is stale only behind a higher one, the stores agree, and the highest
good text is left. -/
theorem live_commits_in_order (start : WorkspaceIndex)
    (absent : start.files[env.uriKey uri]? = none)
    (undocumented : start.documentStore[env.uriKey uri]? = none) (ops : List Op) :
    Along (step env uri textOf) (InOrder env uri textOf start) ⟨start, []⟩ ops := by
  have none : ∀ {holds : FileIndex → Prop} (file : FileIndex),
      start.files[env.uriKey uri]? = some file → holds file := by
    intro _ file found
    cases absent.symm.trans found
  have settled : Settled env uri textOf start start [] :=
    ⟨fun _ _ => rfl, rfl, fun _ => undocumented, none, none, none, none, nofun⟩
  have along := along_of_invariant (step env uri textOf) (Invariant env uri textOf start)
    (invariant_step absent) ⟨start, []⟩ ops (.free rfl settled)
  exact along_mono _ (fun _ => inOrder_of_invariant) _ _ along

end Claims

/-- Two commits that overlap and finish in the wrong order. -/
theorem live_commits_in_order_overtaken :
    Along (step sampleEnv "file:///a.pl" fun generation => if generation = 1 then "foo();" else "1;")
      (InOrder sampleEnv "file:///a.pl" (fun generation => if generation = 1 then "foo();" else "1;")
        (new sampleLimits)) ⟨new sampleLimits, []⟩
      [.arrive ⟨⟨1, by decide⟩, by decide⟩, .arrive ⟨⟨2, by decide⟩, by decide⟩, .check 0, .check 1,
        .enter 1, .finish 1, .enter 0] :=
  live_commits_in_order sampleEnv "file:///a.pl" _ (new sampleLimits) rfl rfl _

end PerlLsp.WorkspaceLive
