import PerlLsp.WorkspaceEffects

/-! Commits of workspace/workspace_index.rs that fail: what is left of the index when a
text is refused, and the bounds that hold between operations. -/
namespace PerlLsp.WorkspaceCommits
open Std Tables Workspace WorkspaceIndex WorkspaceEffects Runs Option

structure BetweenOperations (index : WorkspaceIndex) : Prop where
  settled : staleFileCount index.files = 0
  files : index.files.size ≤ index.limits.maxFiles
  symbols : symbolCount index.files ≤ index.limits.maxTotalSymbols

def committedPart (file : FileIndex) : FileIndex := { file with pendingGeneration := 0 }

/-- Nothing that a reader or a later commit asks for has changed. -/
structure Untouched (before after : WorkspaceIndex) : Prop where
  files : ∀ key : String, after.files[key]?.map committedPart =
    before.files[key]?.map committedPart
  highWater : ∀ key : String, after.files[key]?.map FileIndex.highWater =
    before.files[key]?.map FileIndex.highWater
  symbols : after.symbols = before.symbols
  searchIndex : after.searchIndex = before.searchIndex
  globalReferences : after.globalReferences = before.globalReferences
  factShards : after.factShards = before.factShards
  semanticReferenceIndex : after.semanticReferenceIndex = before.semanticReferenceIndex
  semanticImportExportIndex : after.semanticImportExportIndex = before.semanticImportExportIndex
  semanticPackageGraphIndex : after.semanticPackageGraphIndex = before.semanticPackageGraphIndex
  documentStore : after.documentStore = before.documentStore

section Calls
variable {Ast : Type} (env : Env Ast)

def Failed (index : WorkspaceIndex) : Call → Prop
  | .indexInitialFile uri text =>
    (∃ message, (index.indexFileWithGenerationOutcome env uri text 0).1 = .error message) ∨
      (index.indexFileWithGenerationOutcome env uri text 0).1 = .ok .rejectedStale
  | .indexFileWithGeneration uri text generation =>
    (∃ message, (index.indexFileWithGenerationOutcome env uri text generation).1 =
        .error message) ∨
      (index.indexFileWithGenerationOutcome env uri text generation).1 = .ok .rejectedStale
  | .indexLiveFile uri text commit =>
    (∃ message, (index.indexLiveFile env uri text commit).1 = .failed message) ∨
      (index.indexLiveFile env uri text commit).1 = .rejectedStale
  | _ => False

end Calls

theorem settled_iff (files : TreeMap String FileIndex) : staleFileCount files = 0 ↔
    ∀ (key : String) (file : FileIndex), files[key]? = some file →
      file.pendingGeneration ≤ file.generation := by
  rw [staleFileCount, List.countP_eq_zero]
  constructor
  · intro none key file found
    exact Nat.not_lt.mp fun stale => none file (mem_rows files key file found) (decide_eq_true stale)
  · intro every file member stale
    obtain ⟨⟨key, row⟩, listed, rfl⟩ := List.mem_map.mp member
    exact Nat.not_lt.mpr (every key row (TreeMap.mem_toList_iff_getElem?_eq_some.mp listed))
      (of_decide_eq_true stale)

variable {key : String}

theorem settled_inserted {files after : TreeMap String FileIndex} {file : FileIndex}
    (inserted : ∀ other, after[other]? = if key = other then some file else files[other]?)
    (settled : staleFileCount files = 0) (own : file.pendingGeneration ≤ file.generation) :
    staleFileCount after = 0 := by
  rw [settled_iff] at settled ⊢
  intro other row found
  rw [inserted] at found
  split at found
  · exact Option.some.inj found ▸ own
  · exact settled other row found

theorem between_inserted {before after : WorkspaceIndex} {key : String} {file : FileIndex}
    (between : BetweenOperations before) (limits : after.limits = before.limits)
    (inserted : ∀ other, after.files[other]? =
      if key = other then some file else before.files[other]?)
    (own : file.pendingGeneration ≤ file.generation)
    (room : key ∈ before.files ∨ before.files.size < before.limits.maxFiles)
    (within : symbolCount (before.files.erase key) + file.symbols.length ≤
      before.limits.maxTotalSymbols) : BetweenOperations after where
  settled := settled_inserted inserted between.settled own
  files := by
    rw [limits, size_inserted inserted]
    split
    · exact between.files
    next absent => exact room.resolve_left absent
  symbols := by
    rw [limits, symbolCount_inserted inserted]
    exact within

theorem between_stable : Stable BetweenOperations := by
  intro before after key change ⟨changed, recounted⟩ between
  have limits : after.limits = before.limits := by rw [changed.frame]
  cases found : before.files[key]? with
  | none =>
    have same : ∀ other : String, after.files[other]? = before.files[other]? := by
      intro other
      rw [changed.files]
      split
      next here => rw [← here, found, map_none]
      next => rfl
    have perm : (rows after.files).Perm (rows before.files) :=
      (toList_perm after.files before.files same).map Prod.snd
    refine ⟨?_, ?_, ?_⟩
    · rw [settled_iff]
      intro other file there
      exact (settled_iff _).mp between.settled other file (same other ▸ there)
    · rw [limits, ← length_rows, perm.length_eq]
      exact length_rows before.files ▸ between.files
    · rw [limits, symbolCount_perm perm]
      exact between.symbols
  | some file =>
    have inserted : ∀ other, after.files[other]? =
        if key = other then some (change file) else before.files[other]? := by
      intro other
      rw [changed.files]
      split
      next here => rw [← here, found, map_some]
      next => rfl
    have counted := symbolCount_split before.files key
    rw [found, elim_some] at counted
    refine between_inserted between limits inserted
      ((recounted file found).settled ((settled_iff _).mp between.settled key file found))
      (.inl (mem_of_found _ key file found)) ?_
    rw [(recounted file found).symbols, ← counted]
    exact between.symbols

variable (generation : Nat) (file : FileIndex)

theorem rollBack_committed : committedPart (rollBack generation file) = committedPart file := by
  rw [rollBack]
  split
  · rfl
  · rfl

/-- Between operations nothing is reserved, so the released counter is what it was. -/
theorem rollBack_highWater (own : file.pendingGeneration ≤ file.generation) :
    (rollBack generation file).highWater = file.highWater := by
  rw [rollBack]
  split
  · rw [FileIndex.highWater, FileIndex.highWater, Nat.max_eq_left own]
    exact Nat.max_self _
  · rfl

theorem untouched_rollBack {before after : WorkspaceIndex} {generation : Nat}
    (settled : staleFileCount before.files = 0)
    (changed : FilesAfter before after key (rollBack generation)) : Untouched before after := by
  have each : ∀ {View : Type} (view : FileIndex → View),
      (∀ file, file.pendingGeneration ≤ file.generation → view (rollBack generation file) = view file) →
      ∀ other : String, after.files[other]?.map view = before.files[other]?.map view := by
    intro View view kept other
    rw [changed.files]
    split
    · cases found : before.files[other]? with
      | none => rfl
      | some file =>
        exact congrArg some (kept file ((settled_iff _).mp settled other file found))
    · rfl
  rw [changed.frame]
  exact
    { files := each committedPart fun file _ => rollBack_committed generation file
      highWater := each FileIndex.highWater (rollBack_highWater generation)
      symbols := rfl
      searchIndex := rfl
      globalReferences := rfl
      factShards := rfl
      semanticReferenceIndex := rfl
      semanticImportExportIndex := rfl
      semanticPackageGraphIndex := rfl
      documentStore := rfl }

theorem untouched_refl (index : WorkspaceIndex) : Untouched index index :=
  ⟨fun _ => rfl, fun _ => rfl, rfl, rfl, rfl, rfl, rfl, rfl, rfl, rfl⟩

section Indexing
variable {Ast : Type} (env : Env Ast)

theorem effect_untouched {index after : WorkspaceIndex} {uri text : String} {generation : Nat}
    {outcome : Except String IndexFileWithGenerationOutcome} (settled : staleFileCount index.files = 0)
    (effect : IndexEffect env index uri text generation outcome after)
    (failed : (∃ message, outcome = .error message) ∨ outcome = .ok .rejectedStale) :
    Untouched index after := by
  cases effect with
  | noOp existing found unchanged => rcases failed with ⟨_, ended⟩ | ended <;> cases ended
  | stale existing found changed tracked old => exact untouched_refl index
  | refused after message fresh refusal files => exact untouched_rollBack settled files
  | accepted ast stored fresh admitted version same =>
    rcases failed with ⟨_, ended⟩ | ended <;> cases ended

theorem failed_untouched (index : WorkspaceIndex) (uri text : String) (generation : Nat)
    (settled : staleFileCount index.files = 0)
    (failed : (∃ message, (index.indexFileWithGenerationOutcome env uri text generation).1 =
        .error message) ∨
      (index.indexFileWithGenerationOutcome env uri text generation).1 = .ok .rejectedStale) :
    Untouched index (index.indexFileWithGenerationOutcome env uri text generation).2 := by
  obtain ⟨after, ended, effect⟩ := indexFile_effect env index uri text generation
  have kept : Untouched index.bumpWriteVersion after := effect_untouched env settled effect failed
  rw [ended]
  exact ⟨kept.files, kept.highWater, kept.symbols, kept.searchIndex, kept.globalReferences,
    kept.factShards, kept.semanticReferenceIndex, kept.semanticImportExportIndex,
    kept.semanticPackageGraphIndex, kept.documentStore⟩

theorem live_failed_untouched (index : WorkspaceIndex) (uri text : String) (commit : SourceCommit)
    (settled : staleFileCount index.files = 0)
    (failed : (∃ message, (index.indexLiveFile env uri text commit).1 = .failed message) ∨
      (index.indexLiveFile env uri text commit).1 = .rejectedStale) :
    Untouched index (index.indexLiveFile env uri text commit).2 := by
  have checked := checkLive_effect env index uri text commit
  rw [indexLiveFile] at failed ⊢
  cases result : index.checkLive env uri text commit with
  | mk outcome after =>
    rw [result] at checked failed
    cases checked with
    | stale existing found old => exact untouched_refl index
    | noOp existing found above unchanged => rcases failed with ⟨_, ended⟩ | ended <;> cases ended
    | proceed fresh =>
      simp only at failed ⊢
      rw [commitLive_eq] at failed ⊢
      refine failed_untouched env index uri text commit.generation settled ?_
      generalize index.indexFileWithGenerationOutcome env uri text commit.generation = ended at failed ⊢
      rcases ended with ⟨_ | outcome, later⟩
      · exact .inl ⟨_, rfl⟩
      · cases outcome with
        | accepted | noOp => rcases failed with ⟨_, ended⟩ | ended <;> cases ended
        | rejectedStale => exact .inr rfl

theorem call_untouched (index : WorkspaceIndex) (call : Call)
    (settled : staleFileCount index.files = 0) (failed : Failed env index call) :
    Untouched index (apply env index call) := by
  cases call with
  | indexInitialFile uri text => exact failed_untouched env index uri text 0 settled failed
  | indexFileWithGeneration uri text generation =>
    exact failed_untouched env index uri text generation settled failed
  | indexLiveFile uri text commit =>
    exact live_failed_untouched env index uri text commit settled failed
  | indexFilesBatch | removeFile | removeFolder | resetGenerationForClose | clear
  | setWorkspaceFolders => exact failed.elim

theorem indexFile_between (index : WorkspaceIndex) (uri text : String) (generation : Nat)
    (between : BetweenOperations index) :
    BetweenOperations (index.indexFileWithGenerationOutcome env uri text generation).2 := by
  refine between_stable.indexFile between uri text generation fun ast stored _ admitted _ => ?_
  have stores := committed_stores env index.bumpWriteVersion uri text generation ast stored
  obtain ⟨room, within⟩ := (admitted_iff _ _ _ _).mp admitted.within
  exact between_inserted (between_stable.bump between) stores.limits stores.files (Nat.zero_le _) room within

theorem erased_between {before after : WorkspaceIndex} {key : String}
    (between : BetweenOperations before) (limits : after.limits = before.limits)
    (files : after.files = before.files.erase key) : BetweenOperations after := by
  refine ⟨?_, ?_, ?_⟩
  · rw [settled_iff, files]
    intro other file found
    rw [TreeMap.getElem?_erase] at found
    split at found
    · cases found
    · exact (settled_iff _).mp between.settled other file found
  · rw [limits, files]
    exact Nat.le_trans TreeMap.size_erase_le between.files
  · rw [limits, files]
    refine Nat.le_trans ?_ between.symbols
    rw [symbolCount_split before.files key]
    exact Nat.le_add_right _ _

theorem removeFile_between {index : WorkspaceIndex} (between : BetweenOperations index)
    (uri : String) : BetweenOperations (index.removeFile env uri) := by
  have removed : BetweenOperations (index.bumpWriteVersion.removeIndexed (env.uriKey (env.normalizeUri uri))
        (env.normalizeUri uri)) := by
    unfold removeIndexed
    split
    · exact between_stable.bump between
    · exact erased_between between rfl rfl
  exact ⟨removed.settled, removed.files, removed.symbols⟩

theorem commitItems_between (items : List ParsedItem) (index : WorkspaceIndex)
    (untracked : ∀ item ∈ items, item.fileIndex.pendingGeneration = 0)
    (between : BetweenOperations index) : BetweenOperations (commitItems env items index).2 := by
  induction items generalizing index with
  | nil => exact between
  | cons item rest ih =>
    obtain ⟨first, others⟩ := List.forall_mem_cons.mp untracked
    rw [commitItems_cons]
    refine ih _ others ?_
    rcases commitItem_cases env index item with
      ⟨kind, _, ended⟩ | ⟨stored, _, _, limit, ended⟩
    · rw [ended]
      exact ⟨between.settled, between.files, between.symbols⟩
    obtain ⟨graph, frame⟩ := filedItem_frame env index item stored
    obtain ⟨room, within⟩ := (admitted_iff _ _ _ _).mp limit
    rw [ended, frame]
    refine between_inserted between rfl (getElem?_insert index.files item.key item.fileIndex) ?_ room within
    rw [first]
    exact Nat.zero_le _

theorem batch_between (index : WorkspaceIndex) (filesToIndex : List (String × String))
    (between : BetweenOperations index) : BetweenOperations (index.indexFilesBatch env filesToIndex).2 := by
  have kept := commitItems_between env
    (parsedItems ((deduplicate env filesToIndex).filterMap (parseItem env index.bumpWriteVersion)))
    index.bumpWriteVersion (fun item member => (parsed_item env _ item member).2.2.2)
    (between_stable.bump between)
  exact ⟨kept.settled, kept.files, kept.symbols⟩

theorem call_between (index : WorkspaceIndex) (call : Call) (between : BetweenOperations index) :
    BetweenOperations (apply env index call) :=
  between_stable.call between
    (fun uri text generation => indexFile_between env index uri text generation between)
    (fun filesToIndex => batch_between env index filesToIndex between)
    (removeFile_between env) ⟨rfl, Nat.zero_le _, Nat.zero_le _⟩
    (fun _ => ⟨between.settled, between.files, between.symbols⟩) call

theorem between_new (limits : IndexResourceLimits) : BetweenOperations (new limits) :=
  ⟨rfl, Nat.zero_le _, Nat.zero_le _⟩

/-- Along every run the limits are kept and nothing stays reserved, and a failing call leaves every
store as it was. -/
theorem failed_commits_change_nothing (limits : IndexResourceLimits) (calls : List Call) :
    Along (apply env)
      (fun index => BetweenOperations index ∧
        ∀ call, Failed env index call → Untouched index (apply env index call))
      (new limits) calls := by
  have bounded := along_of_invariant (apply env) BetweenOperations (call_between env) (new limits)
    calls (between_new limits)
  refine along_mono (apply env) (fun index between => ?_) _ _ bounded
  exact ⟨between, fun call => call_untouched env index call between.settled⟩

end Indexing

end PerlLsp.WorkspaceCommits
