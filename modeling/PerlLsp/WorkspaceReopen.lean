import PerlLsp.WorkspaceEffects

/-! Closing a document and opening it again (reset_generation_for_close of
workspace/workspace_index.rs). The generations start again at zero, while the document
store keeps the version of the last text it took. -/
namespace PerlLsp.WorkspaceReopen
open Std Tables Workspace WorkspaceIndex WorkspaceEffects Runs Nat

section Reopen
variable {Ast : Type} (env : Env Ast)

def Reflects (index : WorkspaceIndex) (uri text : String) : Prop :=
  ∃ file document, index.files[env.uriKey uri]? = some file ∧
    index.documentStore[env.uriKey uri]? = some document ∧
    file.contentHash = env.contentHash text ∧
    env.contentHash document.text = env.contentHash text

def Mirrored (index : WorkspaceIndex) : Prop :=
  ∀ (key : String) (file : FileIndex), index.files[key]? = some file →
    ∃ document, index.documentStore[key]? = some document ∧
      env.contentHash document.text = file.contentHash

variable {env}

theorem mirrored_inserted {before after : WorkspaceIndex} {key : String} {file : FileIndex}
    {stored : Document} (mirrored : Mirrored env before) (inserted : ∀ other, after.files[other]? =
      if key = other then some file else before.files[other]?)
    (documents : after.documentStore = before.documentStore.insert key stored)
    (same : env.contentHash stored.text = file.contentHash) : Mirrored env after := by
  intro other row found
  rw [inserted] at found
  rw [documents, getElem?_insert]
  by_cases here : key = other
  · rw [if_pos here] at found
    rw [if_pos here]
    exact ⟨stored, rfl, Option.some.inj found ▸ same⟩
  · rw [if_neg here] at found
    rw [if_neg here]
    exact mirrored other row found

theorem mirrored_stable : Stable (Mirrored env) := by
  intro before after key change ⟨changed, recounted⟩ mirrored other row found
  have documents : after.documentStore = before.documentStore := by rw [changed.frame]
  rw [changed.files] at found
  rw [documents]
  split at found
  next here =>
    obtain ⟨file, there, rfl⟩ := Option.map_eq_some_iff.mp found
    rw [(recounted file (here ▸ there)).contentHash]
    exact mirrored other file there
  next => exact mirrored other row found

section
variable {index : WorkspaceIndex} (mirrored : Mirrored env index)
include index mirrored

theorem mirrored_indexFile (uri text : String) (generation : Nat) :
    Mirrored env (index.indexFileWithGenerationOutcome env uri text generation).2 := by
  refine mirrored_stable.indexFile mirrored uri text generation fun ast stored _ _ same => ?_
  have stores := committed_stores env index.bumpWriteVersion uri text generation ast stored
  refine mirrored_inserted (mirrored_stable.bump mirrored) stores.files stores.documentStore ?_
  rw [same]
  rfl

theorem mirrored_removeFile (uri : String) : Mirrored env (index.removeFile env uri) := by
  intro other row found
  have key : env.uriKey (env.normalizeUri uri) ≠ other ∧ index.files[other]? = some row := by
    unfold removeFile removeIndexed at found
    simp only at found
    cases there : index.bumpWriteVersion.files[env.uriKey (env.normalizeUri uri)]? with
    | none =>
      rw [there] at found
      refine ⟨fun same => ?_, found⟩
      rw [same] at there
      cases there.symm.trans found
    | some file =>
      rw [there] at found
      have still : (index.files.erase (env.uriKey (env.normalizeUri uri)))[other]? = some row :=
        found
      rw [TreeMap.getElem?_erase] at still
      split at still
      · cases still
      next apart => exact ⟨fun same => apart (Std.compare_eq_iff_eq.mpr same), still⟩
  have documents : (index.removeFile env uri).documentStore =
      index.documentStore.erase (env.uriKey (env.normalizeUri uri)) := by
    unfold removeFile removeIndexed closeDocument
    simp only
    split
    · rfl
    · rfl
  rw [documents, TreeMap.getElem?_erase, if_neg fun same => key.1 (Std.compare_eq_iff_eq.mp same)]
  exact mirrored other row key.2

end

theorem mirrored_commitItems (items : List ParsedItem) (mirrored : Mirrored env index) (own : ∀ item ∈ items,
      item.key = env.uriKey item.uri ∧ item.fileIndex.contentHash = env.contentHash item.text) :
    Mirrored env (commitItems env items index).2 := by
  induction items generalizing index with
  | nil => exact mirrored
  | cons item rest ih =>
    obtain ⟨⟨keyed, hashed⟩, others⟩ := List.forall_mem_cons.mp own
    rw [commitItems_cons]
    refine ih ?_ others
    rcases commitItem_cases env index item with ⟨kind, _, ended⟩ | ⟨stored, _, same, _, ended⟩
    · rw [ended]
      exact mirrored
    obtain ⟨graph, frame⟩ := filedItem_frame env index item stored
    rw [ended, frame]
    refine mirrored_inserted mirrored (getElem?_insert index.files item.key item.fileIndex)
      (by rw [keyed]) ?_
    rw [same, hashed]

theorem mirrored_batch (mirrored : Mirrored env index) (filesToIndex : List (String × String)) :
    Mirrored env (index.indexFilesBatch env filesToIndex).2 := by
  have before : Mirrored env index.bumpWriteVersion := mirrored
  refine mirrored_commitItems _ before fun item member => ?_
  obtain ⟨key, _, hashed, _⟩ := parsed_item env index.bumpWriteVersion item member
  exact ⟨key, hashed⟩

theorem mirrored_empty (empty : index.files = ∅) : Mirrored env index := by
  intro key file found
  rw [empty] at found
  cases found

theorem mirrored_call (mirrored : Mirrored env index) (call : Call) : Mirrored env (apply env index call) :=
  mirrored_stable.call mirrored (mirrored_indexFile mirrored) (mirrored_batch mirrored)
    mirrored_removeFile (mirrored_empty rfl) (fun _ => mirrored) call

theorem mirrored_run (limits : IndexResourceLimits) (calls : List Call) :
    Mirrored env (run (apply env) (new limits) calls) :=
  run_invariant (apply env) (Mirrored env) (fun _ call kept => mirrored_call kept call) _ _
    (mirrored_empty rfl)

def NeverRefused (env : Env Ast) (uri : String) : List String → Nat → WorkspaceIndex → Prop
  | [], _, _ => True
  | text :: rest, generation, index =>
    let result := index.indexLiveFile env uri text ⟨generation + 1, succ_pos generation⟩
    (result.1 = .accepted ∨ result.1 = .noOp) ∧ Reflects env result.2 uri text ∧
      NeverRefused env uri rest (generation + 1) result.2

def VersionsRise (env : Env Ast) : Nat → Int → Nat → List String → Prop
  | _, _, _, [] => True
  | hash, version, generation, text :: rest =>
    if env.contentHash text = hash then VersionsRise env hash version (generation + 1) rest
    else version ≤ docVersion (generation + 1) ∧
      VersionsRise env (env.contentHash text) (docVersion (generation + 1)) (generation + 1) rest

instance decidableVersionsRise (env : Env Ast) : ∀ hash version generation texts,
    Decidable (VersionsRise env hash version generation texts)
  | _, _, _, [] => .isTrue trivial
  | hash, version, generation, text :: rest =>
    have _known := decidableVersionsRise env hash version (generation + 1) rest
    have _new := decidableVersionsRise env (env.contentHash text) (docVersion (generation + 1))
      (generation + 1) rest
    inferInstanceAs (Decidable (if env.contentHash text = hash then _ else _ ∧ _))

def Fits (env : Env Ast) (index : WorkspaceIndex) (uri text : String) : Prop :=
  ∃ ast, env.parse text = .ok ast ∧
    symbolCount (index.files.erase (env.uriKey uri)) +
      (env.visitUnified ast uri text).symbols.length ≤ index.limits.maxTotalSymbols

structure Indexed (env : Env Ast) (index : WorkspaceIndex) (uri : String) (hash : Nat)
    (version : Int) (highWater : Nat) : Prop where
  file : ∃ file, index.files[env.uriKey uri]? = some file ∧ file.contentHash = hash ∧
    file.highWater = highWater
  document : ∃ document, index.documentStore[env.uriKey uri]? = some document ∧
    document.version = version ∧ env.contentHash document.text = hash

theorem reflects_indexed {version : Int} {highWater : Nat}
    (indexed : Indexed env index uri (env.contentHash text) version highWater) :
    Reflects env index uri text := by
  obtain ⟨⟨file, found, hashed, _⟩, document, there, _, same⟩ := indexed
  exact ⟨file, document, found, there, hashed, same⟩

theorem others_inserted {files after : TreeMap String FileIndex} {key : String} {file : FileIndex}
    (inserted : ∀ other, after[other]? = if key = other then some file else files[other]?) :
    symbolCount (after.erase key) = symbolCount (files.erase key) := by
  refine symbolCount_perm ((toList_perm _ _ fun other => ?_).map Prod.snd)
  rw [TreeMap.getElem?_erase, TreeMap.getElem?_erase]
  split
  · rfl
  next apart => rw [inserted, if_neg fun same => apart (Std.compare_eq_iff_eq.mpr same)]

theorem fits_inserted {before after : WorkspaceIndex} {file : FileIndex}
    (inserted : ∀ other, after.files[other]? =
      if env.uriKey uri = other then some file else before.files[other]?)
    (limits : after.limits = before.limits) (fits : Fits env before uri text) : Fits env after uri text := by
  obtain ⟨ast, parsed, within⟩ := fits
  exact ⟨ast, parsed, by rw [others_inserted inserted, limits]; exact within⟩

theorem extracted_symbols (index : WorkspaceIndex) (uri text : String) (contentHash generation : Nat)
    (ast : Ast) : (index.extract env uri text contentHash generation ast).fileIndex.symbols.length =
      (env.visitUnified ast uri text).symbols.length := List.length_map _

def Room (env : Env Ast) (index : WorkspaceIndex) (uri : String) : Prop :=
  env.uriKey uri ∈ index.files ∨ index.files.size < index.limits.maxFiles

theorem room_absent (room : Room env index uri) (absent : index.files[env.uriKey uri]? = none) :
    index.files.size < index.limits.maxFiles := by
  refine room.resolve_left fun present => ?_
  have found := TreeMap.mem_iff_isSome_getElem?.mp present
  rw [absent] at found
  cases found

theorem refusal_version {generation : Nat} (room : Room env index uri)
    (fits : Fits env index uri text) (refusal : Refusal env index uri text generation) :
    ∃ document, index.documentStore[env.uriKey uri]? = some document ∧ 0 < generation ∧
      docVersion generation < document.version := by
  obtain ⟨ast, parsed, within⟩ := fits
  cases refusal with
  | full absent above => exact absurd (room_absent room absent) (Nat.not_lt.mpr above)
  | unparsed message failed => cases parsed.symm.trans failed
  | limited other parsedOther kind limit =>
    cases parsed.symm.trans parsedOther
    have admitted : admissionLimitFor index.limits index.files (env.uriKey uri)
        (index.extract env uri text (env.contentHash text) generation ast).fileIndex = none := by
      refine (admitted_iff _ _ _ _).mpr ⟨room, ?_⟩
      rw [extracted_symbols]
      exact within
    cases admitted.symm.trans limit
  | version document there tracked old => exact ⟨document, there, tracked, old⟩

section Steps
variable {index : WorkspaceIndex} {uri text : String} {hash highWater : Nat} {version : Int}

theorem live_stale (indexed : Indexed env index uri hash version highWater) (commit : SourceCommit)
    (old : commit.generation < highWater) :
    (index.indexLiveFile env uri text commit).1 = .rejectedStale := by
  obtain ⟨⟨file, found, _, same⟩, _⟩ := indexed
  have checked : index.checkLive env uri text commit = (some .rejectedStale, index) := by
    simp only [checkLive, found]
    rw [if_pos (by rw [same]; exact old)]
  rw [indexLiveFile, checked]

theorem live_known (indexed : Indexed env index uri (env.contentHash text) version highWater)
    (commit : SourceCommit) (above : highWater ≤ commit.generation) :
    let result := index.indexLiveFile env uri text commit
    result.1 = .noOp ∧ Indexed env result.2 uri (env.contentHash text) version commit.generation ∧
      ∀ other, Fits env index uri other → Fits env result.2 uri other := by
  obtain ⟨⟨file, found, hashed, same⟩, documented⟩ := indexed
  have below : file.highWater ≤ commit.generation := by rw [same]; exact above
  have checked : index.checkLive env uri text commit = (some .noOp, index.setFile (env.uriKey uri)
        { file with
          generation := commit.generation
          pendingGeneration := max file.pendingGeneration commit.generation }) := by
    simp only [checkLive, found]
    rw [if_neg (Nat.not_lt.mpr below), if_pos hashed]
  have inserted := getElem?_insert index.files (env.uriKey uri) { file with
      generation := commit.generation
      pendingGeneration := max file.pendingGeneration commit.generation }
  intro result
  have ended : result = (.noOp, index.setFile (env.uriKey uri) { file with
        generation := commit.generation
        pendingGeneration := max file.pendingGeneration commit.generation }) := by
    simp only [result, indexLiveFile, checked]
  rw [ended]
  refine ⟨rfl, ⟨⟨_, (inserted _).trans (if_pos rfl), hashed, ?_⟩, documented⟩, fun other fits => ?_⟩
  · have pending := Nat.le_trans (Nat.le_max_right _ _) below
    rw [FileIndex.highWater, Nat.max_eq_right pending, Nat.max_self]
  · exact fits_inserted inserted rfl fits

/-- A tracked text that is new and not stale is refused or taken by the second section. -/
theorem live_proceeds (commit : SourceCommit)
    (fresh : ∀ existing, index.files[env.uriKey uri]? = some existing →
      existing.contentHash ≠ env.contentHash text ∧ existing.highWater ≤ commit.generation) :
    index.indexLiveFile env uri text commit = index.commitLive env uri text commit := by
  have checked := checkLive_effect env index uri text commit
  rw [indexLiveFile]
  cases result : index.checkLive env uri text commit with
  | mk outcome after =>
    rw [result] at checked
    cases checked with
    | stale existing found old => exact absurd (fresh existing found).2 (Nat.not_le.mpr old)
    | noOp existing found above unchanged => exact absurd unchanged (fresh existing found).1
    | proceed fresh => rfl

section Fresh
variable {generation : Nat} (room : Room env index uri) (fits : Fits env index uri text)
  (fresh : Fresh env index uri text generation)

include room fits fresh in
/-- A new text is taken unless the document store holds a later version. -/
theorem index_taken (versions : ∀ document, index.documentStore[env.uriKey uri]? = some document →
      0 < generation → document.version ≤ docVersion generation) :
    let result := index.indexFileWithGenerationOutcome env uri text generation
    result.1 = .ok .accepted ∧
      Indexed env result.2 uri (env.contentHash text) (docVersion generation) generation ∧
      ∀ other, Fits env index uri other → Fits env result.2 uri other := by
  intro result
  obtain ⟨after, ended, effect⟩ := indexFile_effect env index uri text generation
  have split : result = (result.1, after.bumpWriteVersion) := Prod.ext rfl ended
  rw [split]
  change IndexEffect env index.bumpWriteVersion uri text generation result.1 after at effect
  have bumpedRoom : Room env index.bumpWriteVersion uri := room
  have keeps : ∀ {file : FileIndex} {later : WorkspaceIndex}, (∀ other, later.files[other]? =
        if env.uriKey uri = other then some file else index.files[other]?) →
      later.limits = index.limits →
      ∀ other, Fits env index uri other → Fits env later uri other :=
    fun inserted limits _ fits => fits_inserted inserted limits fits
  generalize result.1 = outcome at effect
  cases effect with
  | noOp existing found unchanged => exact absurd unchanged (fresh existing found).1
  | stale existing found changed tracked old =>
    exact absurd ((fresh existing found).2 tracked) (Nat.not_le.mpr old)
  | refused after message fresh refusal files =>
    obtain ⟨document, there, tracked, old⟩ :=
      refusal_version bumpedRoom fits refusal
    exact absurd (versions document there tracked) (Int.not_le.mpr old)
  | accepted ast stored fresh admitted version same =>
    have stores := committed_stores env index.bumpWriteVersion uri text generation ast stored
    have put := stores.files (env.uriKey uri)
    rw [if_pos rfl] at put
    refine ⟨rfl, ⟨⟨_, put, rfl, Nat.max_eq_left (Nat.zero_le _)⟩, stored, ?_, version, ?_⟩, ?_⟩
    · exact stores.documentStore ▸ (getElem?_insert _ _ _ _).trans (if_pos rfl)
    · rw [same]
    · exact keeps stores.files stores.limits

include fresh in
theorem index_version (document : Document)
    (there : index.documentStore[env.uriKey uri]? = some document) (tracked : 0 < generation)
    (old : docVersion generation < document.version) :
    ∃ message, (index.indexFileWithGenerationOutcome env uri text generation).1 = .error message := by
  obtain ⟨after, _, effect⟩ := indexFile_effect env index uri text generation
  generalize (index.indexFileWithGenerationOutcome env uri text generation).1 = outcome at effect
  cases effect with
  | noOp existing found unchanged => exact absurd unchanged (fresh existing found).1
  | stale existing found changed tracked old =>
    exact absurd ((fresh existing found).2 tracked) (Nat.not_le.mpr old)
  | refused after message fresh refusal files => exact ⟨message, rfl⟩
  | accepted ast stored fresh admitted version same =>
    exact absurd (admitted.version document there tracked) (Int.not_le.mpr old)

end Fresh

section
variable (indexed : Indexed env index uri hash version highWater)
include indexed

theorem indexed_room : Room env index uri := by
  obtain ⟨⟨file, found, _⟩, _⟩ := indexed
  exact .inl (mem_of_found _ _ file found)

theorem indexed_fresh
    (changed : env.contentHash text ≠ hash) {generation : Nat} (above : highWater ≤ generation) :
    ∀ existing, index.files[env.uriKey uri]? = some existing →
      existing.contentHash ≠ env.contentHash text ∧ existing.highWater ≤ generation := by
  intro existing there
  obtain ⟨⟨file, found, hashed, same⟩, _⟩ := indexed
  cases there.symm.trans found
  exact ⟨fun equal => changed (equal.symm.trans hashed), by rw [same]; exact above⟩

theorem live_new (commit : SourceCommit)
    (changed : env.contentHash text ≠ hash) (above : highWater ≤ commit.generation)
    (fits : Fits env index uri text) :
    let result := index.indexLiveFile env uri text commit
    (version ≤ docVersion commit.generation → result.1 = .accepted ∧
        Indexed env result.2 uri (env.contentHash text) (docVersion commit.generation) commit.generation ∧
        ∀ other, Fits env index uri other → Fits env result.2 uri other) ∧
      (docVersion commit.generation < version → ∃ message, result.1 = .failed message) := by
  have fresh := indexed_fresh indexed changed above
  have tracked : Fresh env index uri text commit.generation :=
    fun existing there => ⟨(fresh existing there).1, fun _ => (fresh existing there).2⟩
  obtain ⟨document, there, same, _⟩ := indexed.document
  intro result
  have ended : result = _ := (live_proceeds commit fresh).trans (commitLive_eq env index uri text commit)
  rw [ended]
  refine ⟨fun rises => ?_, fun falls => ?_⟩
  · have taken := index_taken (indexed_room indexed) fits tracked fun other thereOther _ => by
      cases there.symm.trans thereOther
      exact same ▸ rises
    exact ⟨congrArg liveOutcome taken.1, taken.2⟩
  · obtain ⟨message, refused⟩ :=
      index_version tracked document there commit.nonZero (same ▸ falls)
    exact ⟨message, congrArg liveOutcome refused⟩

end

end Steps

/-- Where the URI is indexed and the generations go on, no text is refused exactly when the
versions rise. -/
theorem never_refused_iff (uri : String) (texts : List String) (index : WorkspaceIndex)
    (hash highWater generation : Nat) (version : Int)
    (indexed : Indexed env index uri hash version highWater) (above : highWater ≤ generation + 1)
    (fits : ∀ text ∈ texts, Fits env index uri text) :
    NeverRefused env uri texts generation index ↔ VersionsRise env hash version generation texts := by
  induction texts generalizing index hash highWater generation version with
  | nil => exact Iff.rfl
  | cons text rest ih =>
    obtain ⟨first, others⟩ := List.forall_mem_cons.mp fits
    rw [VersionsRise]
    by_cases known : env.contentHash text = hash
    · rw [if_pos known]
      obtain ⟨ended, later, kept⟩ := live_known (known ▸ indexed) ⟨generation + 1, succ_pos generation⟩ above
      rw [← known]
      refine Iff.trans ?_ (ih _ _ (generation + 1) (generation + 1) version later (le_succ _)
        fun other among => kept other (others other among))
      exact ⟨fun served => served.2.2, fun rest => ⟨.inr ended, reflects_indexed later, rest⟩⟩
    · rw [if_neg known]
      obtain ⟨taken, refused⟩ :=
        live_new indexed ⟨generation + 1, succ_pos generation⟩ known above first
      by_cases rises : version ≤ docVersion (generation + 1)
      · obtain ⟨ended, later, kept⟩ := taken rises
        refine Iff.trans ?_ (Iff.trans (ih _ _ (generation + 1) (generation + 1) _ later
          (le_succ _) fun other among => kept other (others other among))
          (and_iff_right rises).symm)
        exact ⟨fun served => served.2.2, fun rest => ⟨.inl ended, reflects_indexed later, rest⟩⟩
      · obtain ⟨message, failed⟩ := refused (Int.not_le.mp rises)
        refine iff_of_false (fun served => ?_) fun both => rises both.1
        rcases served.1 with ended | ended
        · cases failed.symm.trans ended
        · cases failed.symm.trans ended

def ReopenServed (env : Env Ast) (index : WorkspaceIndex) (uri text : String)
    (texts : List String) : Prop :=
  let opened := (index.resetGenerationForClose env uri).indexFileWithGenerationOutcome env uri text 0
  (opened.1 = .ok .accepted ∨ opened.1 = .ok .noOp) ∧ Reflects env opened.2 uri text ∧
    NeverRefused env uri texts 0 opened.2

/-- Reopened with what was indexed, the document keeps its version, so the first text that differs
must come with a generation that reaches it; reopened with another text it starts again at one.
Later changes may not fall back, as a generation of 2^31 or more does. -/
def VersionsContinue (env : Env Ast) (index : WorkspaceIndex) (uri text : String)
    (texts : List String) : Prop :=
  match index.files[env.uriKey uri]?, index.documentStore[env.uriKey uri]? with
  | some file, some document =>
    if file.contentHash = env.contentHash text then
      (texts = [] ∨ file.highWater ≤ 1) ∧
        VersionsRise env (env.contentHash text) document.version 0 texts
    else VersionsRise env (env.contentHash text) 1 0 texts
  | _, _ => VersionsRise env (env.contentHash text) 1 0 texts

instance (index : WorkspaceIndex) (uri text : String) (texts : List String) :
    Decidable (VersionsContinue env index uri text texts) := by
  unfold VersionsContinue
  split <;> infer_instance

theorem index_known {version : Int} {highWater : Nat}
    (indexed : Indexed env index uri (env.contentHash text) version highWater) :
    let result := index.indexFileWithGenerationOutcome env uri text 0
    result.1 = .ok .noOp ∧ Indexed env result.2 uri (env.contentHash text) version highWater ∧
      ∀ other, Fits env index uri other → Fits env result.2 uri other := by
  obtain ⟨⟨file, found, hashed, same⟩, documented⟩ := indexed
  intro result
  obtain ⟨after, ended, effect⟩ := indexFile_effect env index uri text 0
  have split : result = (result.1, after.bumpWriteVersion) := Prod.ext rfl ended
  rw [split]
  change IndexEffect env index.bumpWriteVersion uri text 0 result.1 after at effect
  generalize result.1 = outcome at effect
  cases effect with
  | noOp existing there unchanged =>
    cases found.symm.trans there
    have inserted := getElem?_insert index.files (env.uriKey uri) { file with
        generation := max file.generation 0
        pendingGeneration := max file.pendingGeneration 0 }
    refine ⟨rfl, ⟨⟨_, (inserted _).trans (if_pos rfl), hashed, ?_⟩, documented⟩, ?_⟩
    · rw [← same, FileIndex.highWater, FileIndex.highWater, Nat.max_zero, Nat.max_zero]
    · intro other fits
      have kept : Fits env (index.setFile (env.uriKey uri) _) uri other :=
        fits_inserted inserted rfl fits
      exact kept
  | stale existing there changed tracked old => exact absurd tracked (Nat.lt_irrefl 0)
  | refused after message fresh refusal files | accepted ast stored fresh admitted version same =>
    exact absurd hashed (fresh file found).1

theorem stale_refused {rest : List String} {hash highWater : Nat} {version : Int}
    (indexed : Indexed env index uri hash version highWater) (old : 1 < highWater) :
    ¬ NeverRefused env uri (text :: rest) 0 index := by
  intro served
  have stale : (index.indexLiveFile env uri text ⟨0 + 1, succ_pos 0⟩).1 = .rejectedStale :=
    live_stale indexed _ old
  rcases served.1 with ended | ended
  · cases stale.symm.trans ended
  · cases stale.symm.trans ended

/-- A reopened document is served exactly when its versions continue from what the document
store holds. -/
theorem reopened_iff (limits : IndexResourceLimits) (calls : List Call) (uri text : String)
    (texts : List String) :
    let index := run (apply env) (new limits) calls
    let closed := index.resetGenerationForClose env uri
    Room env closed uri → (∀ each ∈ text :: texts, Fits env closed uri each) →
      (ReopenServed env index uri text texts ↔ VersionsContinue env closed uri text texts) := by
  intro index closed room fits
  obtain ⟨first, others⟩ := List.forall_mem_cons.mp fits
  have mirrored : Mirrored env closed := mirrored_stable.reset (mirrored_run limits calls) uri
  have untracked : ∀ file : FileIndex, 0 < 0 → file.highWater ≤ 0 :=
    fun _ tracked => absurd tracked (Nat.lt_irrefl 0)
  have anew : (∀ existing, closed.files[env.uriKey uri]? = some existing →
        existing.contentHash ≠ env.contentHash text) →
      (ReopenServed env index uri text texts ↔
        VersionsRise env (env.contentHash text) 1 0 texts) := by
    intro changed
    obtain ⟨ended, later, kept⟩ := index_taken room first
      (fun existing there => ⟨changed existing there, untracked existing⟩)
      fun document _ tracked => absurd tracked (Nat.lt_irrefl 0)
    refine Iff.trans ?_ (never_refused_iff uri texts _ _ 0 0 1 later (Nat.zero_le _)
      fun other among => kept other (others other among))
    exact ⟨fun served => served.2.2, fun rest => ⟨.inl ended, reflects_indexed later, rest⟩⟩
  rw [VersionsContinue]
  cases found : closed.files[env.uriKey uri]? with
  | none => exact anew fun existing there => by cases found.symm.trans there
  | some file =>
    obtain ⟨document, there, same⟩ := mirrored _ file found
    rw [there]
    simp only
    by_cases known : file.contentHash = env.contentHash text
    · rw [if_pos known]
      have indexed : Indexed env closed uri (env.contentHash text) document.version
          file.highWater := ⟨⟨file, found, known, rfl⟩, document, there, rfl, same.trans known⟩
      obtain ⟨ended, later, kept⟩ := index_known indexed
      have opens : ReopenServed env index uri text texts ↔ NeverRefused env uri texts 0
          (closed.indexFileWithGenerationOutcome env uri text 0).2 :=
        ⟨fun served => served.2.2, fun rest => ⟨.inr ended, reflects_indexed later, rest⟩⟩
      refine opens.trans ?_
      by_cases low : file.highWater ≤ 1
      · exact (never_refused_iff uri texts _ _ _ 0 _ later low
          fun other among => kept other (others other among)).trans
          (and_iff_right (.inr low)).symm
      cases texts with
      | nil => exact ⟨fun _ => ⟨.inl rfl, trivial⟩, fun _ => trivial⟩
      | cons live rest =>
        refine iff_of_false (stale_refused later (Nat.not_le.mp low)) fun both => ?_
        rcases both.1 with none | below
        · cases none
        · exact low below
    · rw [if_neg known]
      exact anew fun existing thereFile => by
        cases found.symm.trans thereFile
        exact known

end Reopen

/-- The document was last committed as version one: served from the first edit on. -/
theorem reopened_iff_unedited :
    ReopenServed sampleEnv (run (apply sampleEnv) (new sampleLimits)
        [.indexLiveFile "file:///a.pl" "1;" ⟨1, Nat.one_pos⟩])
      "file:///a.pl" "1;" ["2;"] := by
  refine (reopened_iff sampleLimits _ "file:///a.pl" "1;" ["2;"] (.inl (by decide)) ?_).mpr ?_
  · exact List.forall_mem_cons.mpr ⟨⟨"1;", sample_parse _ (by decide), by decide⟩,
      List.forall_mem_singleton.mpr ⟨"2;", sample_parse _ (by decide), by decide⟩⟩
  · decide

/-- Edited twice, closed and reopened as it was, the document is refused its first edit. -/
theorem reopened_identical_refused :
    let index := run (apply sampleEnv) (new sampleLimits)
      [.indexLiveFile "file:///a.pl" "1;" ⟨1, Nat.one_pos⟩,
        .indexLiveFile "file:///a.pl" "2;" ⟨2, Nat.two_pos⟩]
    let closed := index.resetGenerationForClose sampleEnv "file:///a.pl"
    Room sampleEnv closed "file:///a.pl" ∧
      (∀ each ∈ ["2;", "3;"], Fits sampleEnv closed "file:///a.pl" each) ∧
      ¬ ReopenServed sampleEnv index "file:///a.pl" "2;" ["3;"] := by
  refine ⟨.inl (by decide), ?_, fun served => ?_⟩
  · exact List.forall_mem_cons.mpr ⟨⟨"2;", sample_parse _ (by decide), by decide⟩,
      List.forall_mem_singleton.mpr ⟨"3;", sample_parse _ (by decide), by decide⟩⟩
  · exact absurd served.2.2.1 (by decide)

end PerlLsp.WorkspaceReopen
