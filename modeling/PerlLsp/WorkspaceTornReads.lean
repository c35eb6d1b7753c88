import PerlLsp.WorkspaceEffects
import PerlLsp.WorkspaceQueries

/-! Queries of the references while the index is written (`find_references_filtered`, `count_usages`
and `WriteVersionGuard` of workspace/workspace_index.rs). Every section under a lock is one step: a
write holds the lifecycle guard of its URI, and `files` from its second critical section on, but
takes the global references twice, to remove and to add. What completed writes left of the
references is kept beside the state. -/
namespace PerlLsp.WorkspaceTornReads
open Std Buckets Workspace WorkspaceIndex WorkspaceEffects WorkspaceQueries Runs List

abbrev References := TreeMap String (List SymbolReference)

/-- What `publish` does, lock by lock. -/
inductive PublishSection where
  | dropReferences | dropSymbols | addSymbols | addReferences | factShard | imports | packageEdges
  deriving DecidableEq

def PublishSection.next : PublishSection → Option PublishSection
  | dropReferences => some dropSymbols
  | dropSymbols => some addSymbols
  | addSymbols => some addReferences
  | addReferences => some factShard
  | factShard => some imports
  | imports => some packageEdges
  | packageEdges => none

/-- The old references are gone and the new ones not there yet. -/
def PublishSection.betweenReferences : PublishSection → Bool
  | dropSymbols => true
  | addSymbols => true
  | addReferences => true
  | _ => false

def publishSection (key uri : String) (fileId : Nat) (candidate : Candidate)
    (index : WorkspaceIndex) : PublishSection → WorkspaceIndex
  | .dropReferences => index.dropOldReferences key uri
  | .dropSymbols => index.dropOldSymbols key
  | .addSymbols => (index.setFile key candidate.fileIndex).addNewSymbols candidate.fileIndex
  | .addReferences => index.addNewReferences candidate.fileIndex
  | .factShard => (index.replaceFactShardIncremental key candidate.factShard).2
  | .imports => index.publishImports uri fileId candidate
  | .packageEdges => index.publishPackageEdges uri fileId candidate.packageEdges

/-- What `remove_file` does once the file is out of `files`, lock by lock. -/
inductive RemoveSection where
  | factShard | semanticReferences | importExport | packageGraph | symbols | references
  deriving DecidableEq

def RemoveSection.next : RemoveSection → Option RemoveSection
  | factShard => some semanticReferences
  | semanticReferences => some importExport
  | importExport => some packageGraph
  | packageGraph => some symbols
  | symbols => some references
  | references => none

def removedReferences (globalRefs : References) (file : FileIndex) (uri : String) : References :=
  retainAll (removeFileGlobalRefs globalRefs file uri) fun reference =>
    reference.uri ∉ removedUris uri file

def removeSection (key uri : String) (file : FileIndex) (index : WorkspaceIndex) :
    RemoveSection → WorkspaceIndex
  | .factShard => { index with factShards := index.factShards.erase key }
  | .semanticReferences =>
    { index with semanticReferenceIndex := index.semanticReferenceIndex.removeFile uri }
  | .importExport =>
    { index with
      semanticImportExportIndex :=
        ((index.semanticImportExportIndex.removeFileImports uri).removeModuleExports uri
          ).removeFileUseLib uri }
  | .packageGraph =>
    { index with
      semanticPackageGraphIndex := index.semanticPackageGraphIndex.removeEdgesForFile uri }
  | .symbols =>
    { index with
      symbols := retainAll (incrementalRemoveSymbols index.symbols file)
        fun candidate => candidate.location.uri ∉ removedUris uri file
      searchIndex := retainAll (incrementalRemoveSearch index.searchIndex file)
        fun symbol => symbol.uri ∉ removedUris uri file }
  | .references =>
    { index with globalReferences := removedReferences index.globalReferences file uri }

/-- Where a call is. It holds `files` while it is admitted or publishing; the candidate it replaces
is the file then found under its key. -/
inductive IndexPlace where
  | started
  | guarded
  | entered (reserved : Option Nat)
  | extracted (reserved : Option Nat) (candidate : Candidate)
  | admitted (reserved : Option Nat) (candidate : Candidate)
  | limited (kind : ResourceKind) (reserved : Option Nat)
  | publishing (replaced : Option FileIndex) (candidate : Candidate) (left : Option PublishSection)
  | releasing (reserved : Option Nat)
  | leaving
  | returned

/-- Where a call of `remove_file` is. -/
inductive RemovePlace where
  | started
  | guarded
  | removing (file : FileIndex) (left : Option RemoveSection)
  | closing
  | leaving
  | returned

inductive WriteCall where
  | indexFile (uri text : String) (generation : Nat) (place : IndexPlace)
  | removeFile (uri : String) (place : RemovePlace)

namespace WriteCall

def holdsFiles : WriteCall → Bool
  | indexFile _ _ _ (.admitted _ _) => true
  | indexFile _ _ _ (.publishing _ _ _) => true
  | removeFile _ (.removing _ _) => true
  | _ => false

def holdsGuard : WriteCall → Bool
  | indexFile _ _ _ .started => false
  | indexFile _ _ _ .leaving => false
  | indexFile _ _ _ .returned => false
  | removeFile _ .started => false
  | removeFile _ .leaving => false
  | removeFile _ .returned => false
  | _ => true

/-- The next section needs `files`. -/
def takesFiles : WriteCall → Bool
  | indexFile _ _ _ .guarded => true
  | indexFile _ _ _ (.extracted _ _) => true
  | indexFile _ _ _ (.releasing reserved) => reserved.isSome
  | removeFile _ .guarded => true
  | _ => false

def takesGuard : WriteCall → Bool
  | indexFile _ _ _ .started => true
  | removeFile _ .started => true
  | _ => false

/-- The next step is the drop of the version guard. -/
def bumps : WriteCall → Bool
  | indexFile _ _ _ .leaving => true
  | removeFile _ .leaving => true
  | _ => false

def midWrite : WriteCall → Bool
  | indexFile _ _ _ (.publishing (some _) _ (some left)) => left.betweenReferences
  | _ => false

end WriteCall

section Writes
variable {Ast : Type} (env : Env Ast)

def WriteCall.key : WriteCall → String
  | indexFile uri _ _ _ => env.uriKey uri
  | removeFile uri _ => env.uriKey (env.normalizeUri uri)

/-- One section of `index_file_with_generation_outcome`. What extraction reads of the other files it
reads in one step. -/
def indexSection (uri text : String) (generation : Nat) (index : WorkspaceIndex) :
    IndexPlace → IndexPlace × WorkspaceIndex
  | .started => (.guarded, index)
  | .guarded =>
    match index.earlyGuard (env.uriKey uri) (env.contentHash text) generation with
    | .limited kind => (.limited kind none, index)
    | .noOp index => (.leaving, index)
    | .rejectedStale => (.leaving, index)
    | .proceed index reserved => (.entered reserved, index)
  | .entered reserved =>
    match env.parse text with
    | .error _ => (.releasing reserved, index)
    | .ok ast =>
      (.extracted reserved
        (index.extract env uri text (env.contentHash text) generation ast), index)
  | .extracted reserved candidate =>
    if index.staleAgainst (env.uriKey uri) generation then (.releasing reserved, index)
    else
      match admissionLimitFor index.limits index.files (env.uriKey uri) candidate.fileIndex with
      | some kind => (.limited kind reserved, index)
      | none => (.admitted reserved candidate, index)
  | .admitted reserved candidate =>
    match acceptCandidate env index.documentStore uri (docVersion generation) text
        (decide (0 < generation)) with
    | (false, _) => (.releasing reserved, index)
    | (true, documents) =>
      (.publishing index.files[env.uriKey uri]? candidate (some .dropReferences),
        { index with documentStore := documents })
  | .limited kind reserved => (.releasing reserved, index.recordResourceLimitRejection kind)
  | .publishing replaced candidate (some left) =>
    (.publishing replaced candidate left.next,
      publishSection (env.uriKey uri) uri (env.hashUriToFileId uri) candidate index left)
  | .publishing _ _ none => (.leaving, index)
  | .releasing reserved => (.leaving, index.releaseReservation (env.uriKey uri) reserved)
  | .leaving => (.returned, index.bumpWriteVersion)
  | .returned => (.returned, index)

/-- One section of `remove_file`. -/
def removeFileSection (uri : String) (index : WorkspaceIndex) :
    RemovePlace → RemovePlace × WorkspaceIndex
  | .started => (.guarded, index)
  | .guarded =>
    match index.files[env.uriKey (env.normalizeUri uri)]? with
    | none => (.closing, index)
    | some file =>
      (.removing file (some .factShard),
        { index with files := index.files.erase (env.uriKey (env.normalizeUri uri)) })
  | .removing file (some left) =>
    (.removing file left.next,
      removeSection (env.uriKey (env.normalizeUri uri)) (env.normalizeUri uri) file index left)
  | .removing _ none => (.closing, index)
  | .closing =>
    (.leaving,
      { index with documentStore := closeDocument env index.documentStore (env.normalizeUri uri) })
  | .leaving => (.returned, index.bumpWriteVersion)
  | .returned => (.returned, index)

def writeSection (index : WorkspaceIndex) : WriteCall → WriteCall × WorkspaceIndex
  | .indexFile uri text generation place =>
    let (place, index) := indexSection env uri text generation index place
    (.indexFile uri text generation place, index)
  | .removeFile uri place =>
    let (place, index) := removeFileSection env uri index place
    (.removeFile uri place, index)

end Writes

def replacedReferences (globalRefs : References) (replaced : Option FileIndex) (uri : String)
    (file : FileIndex) : References :=
  addFileGlobalRefs (replaced.elim globalRefs fun old => removeFileGlobalRefs globalRefs old uri) file

namespace WriteCall
variable {Ast : Type} (env : Env Ast)

/-- The references as the completed writes leave them once the next section is through. -/
def completes (globalRefs : References) : WriteCall → References
  | indexFile uri _ _ (.publishing replaced candidate (some .addReferences)) =>
    replacedReferences globalRefs replaced uri candidate.fileIndex
  | removeFile uri (.removing file (some .references)) =>
    removedReferences globalRefs file (env.normalizeUri uri)
  | _ => globalRefs

def after (globalRefs : References) : WriteCall → Option References
  | indexFile uri _ _ (.publishing (some old) candidate (some left)) =>
    if left.betweenReferences then
      some (replacedReferences globalRefs (some old) uri candidate.fileIndex)
    else none
  | _ => none

end WriteCall

inductive Query where
  | findReferences (symbolName : String) (excludeCoderef : Bool)
  | countUsages (symbolName : String)

inductive Answer where
  | locations (found : List Location)
  | usages (count : Nat)
  deriving DecidableEq

def Query.inner {Ast : Type} (env : Env Ast) (documents : TreeMap String Document)
    (globalRefs : References) : Query → Answer
  | findReferences symbolName excludeCoderef =>
    .locations (findReferencesInner env documents globalRefs symbolName excludeCoderef)
  | countUsages symbolName => .usages (countUsagesInner env documents globalRefs symbolName)

/-- `find_references` first counts the stale files, for the log. -/
def Query.takesFiles : Query → Bool
  | findReferences _ _ => true
  | countUsages _ => false

/-- The answer of an attempt and how things stood: the documents, the references before and after
the write that was at them, and whether one was. -/
structure Reading where
  answer : Answer
  documents : TreeMap String Document
  around : List References
  midWrite : Bool

/-- Where the reader is; `left` attempts remain, and `crossed` notes a write started or ended since
the first version was read. -/
inductive Reader where
  | idle
  | attempting (query : Query) (left : Nat)
  | versioned (query : Query) (left version : Nat) (crossed : Bool)
  | answered (query : Query) (left version : Nat) (crossed : Bool) (reading : Reading)
  | fallingBack (query : Query)

def Reader.cross : Reader → Reader
  | versioned query left version _ => versioned query left version true
  | answered query left version _ reading => answered query left version true reading
  | reader => reader

structure State where
  index : WorkspaceIndex
  writes : List WriteCall
  reader : Reader
  completed : References
  returned : List (Query × Reading)

inductive Op where
  | indexFile (uri text : String) (generation : Nat)
  | removeFile (uri : String)
  | advance (write : Nat)
  | ask (query : Query)
  | readVersion
  | readReferences
  | compareVersions
  | fallBack

def State.filesFree (state : State) : Bool := state.writes.all fun call => !call.holdsFiles

section Steps
variable {Ast : Type} (env : Env Ast)
variable (state : State)

def State.guardFree (key : String) : Bool :=
  state.writes.all fun call => !(call.holdsGuard && call.key env == key)

def State.mayAdvance (call : WriteCall) : Bool :=
  (!call.takesFiles || state.filesFree) && (!call.takesGuard || state.guardFree env (call.key env))

/-- `WriteVersionGuard::new`. -/
def State.startWrite (call : WriteCall) : State :=
  { state with
    index := state.index.bumpWriteVersion
    writes := state.writes ++ [call]
    reader := state.reader.cross }

def State.read (query : Query) : Reading where
  answer := query.inner env state.index.documentStore state.index.globalReferences
  documents := state.index.documentStore
  around := state.completed :: state.writes.filterMap (WriteCall.after state.completed)
  midWrite := state.writes.any WriteCall.midWrite

def step : Op → State
  | .indexFile uri text generation => state.startWrite (.indexFile uri text generation .started)
  | .removeFile uri => state.startWrite (.removeFile uri .started)
  | .advance write =>
    match state.writes[write]? with
    | none => state
    | some call =>
      if state.mayAdvance env call then
        { state with
          index := (writeSection env state.index call).2
          writes := state.writes.set write (writeSection env state.index call).1
          reader := if call.bumps then state.reader.cross else state.reader
          completed := call.completes env state.completed }
      else state
  | .ask query =>
    match state.reader with
    | .idle =>
      if query.takesFiles && !state.filesFree then state
      else { state with reader := .attempting query 2 }
    | _ => state
  | .readVersion =>
    match state.reader with
    | .attempting query left =>
      { state with reader := .versioned query left state.index.writeVersion false }
    | _ => state
  | .readReferences =>
    match state.reader with
    | .versioned query left version crossed =>
      { state with reader := .answered query left version crossed (state.read env query) }
    | _ => state
  | .compareVersions =>
    match state.reader with
    | .answered query left version _ reading =>
      if version = state.index.writeVersion then
        { state with reader := .idle, returned := state.returned ++ [(query, reading)] }
      else
        match left with
        | 0 => { state with reader := .fallingBack query }
        | left + 1 => { state with reader := .attempting query left }
    | _ => state
  | .fallBack =>
    match state.reader with
    | .fallingBack _ => { state with reader := .idle }
    | _ => state

end Steps

section Alone
variable {Ast : Type} (env : Env Ast)

def alone (sections : Nat) (index : WorkspaceIndex) (call : WriteCall) : WriteCall × WorkspaceIndex :=
  (fun state : WriteCall × WorkspaceIndex => writeSection env state.2 state.1)^[sections] (call, index)

end Alone

section Sections
variable {Ast : Type} (env : Env Ast)

section
variable (key uri : String) (fileId : Nat) (candidate : Candidate) (index : WorkspaceIndex)
    (left : PublishSection)
include key uri fileId candidate index left

theorem publishSection_version :
    (publishSection key uri fileId candidate index left).writeVersion = index.writeVersion := by
  cases left with
  | dropReferences =>
    simp only [publishSection, dropOldReferences]
    split
    · rfl
    · rfl
  | dropSymbols =>
    simp only [publishSection, dropOldSymbols]
    split
    · rfl
    · rfl
  | addSymbols => rfl
  | addReferences => rfl
  | factShard =>
    obtain ⟨references, importExport, factShards, frame⟩ :=
      replaceFactShardIncremental_frame index key candidate.factShard
    rw [publishSection, frame]
  | imports => rfl
  | packageEdges => rfl

theorem publishSection_references (notDrop : left ≠ .dropReferences) (notAdd : left ≠ .addReferences) :
    (publishSection key uri fileId candidate index left).globalReferences = index.globalReferences := by
  cases left with
  | dropReferences => exact absurd rfl notDrop
  | dropSymbols =>
    simp only [publishSection, dropOldSymbols]
    split
    · rfl
    · rfl
  | addSymbols => rfl
  | addReferences => exact absurd rfl notAdd
  | factShard =>
    obtain ⟨references, importExport, factShards, frame⟩ :=
      replaceFactShardIncremental_frame index key candidate.factShard
    rw [publishSection, frame]
  | imports => rfl
  | packageEdges => rfl

end

theorem earlyGuard_references (index after : WorkspaceIndex) (key : String)
    (contentHash generation : Nat) (result : index.earlyGuard key contentHash generation = .noOp after ∨
      ∃ reserved, index.earlyGuard key contentHash generation = .proceed after reserved) :
    after.globalReferences = index.globalReferences ∧ after.writeVersion = index.writeVersion := by
  unfold earlyGuard at result
  cases found : index.files[key]? with
  | none =>
    simp only [found] at result
    split at result
    · simp at result
    · simp only [reduceCtorEq, EarlyGuard.proceed.injEq, false_or, exists_eq_right'] at result
      exact ⟨by rw [result], by rw [result]⟩
  | some existing =>
    simp only [found] at result
    split at result
    · simp only [EarlyGuard.noOp.injEq, reduceCtorEq, exists_false, or_false] at result
      exact ⟨by rw [← result]; rfl, by rw [← result]; rfl⟩
    split at result
    · simp at result
    split at result
    · simp only [reduceCtorEq, EarlyGuard.proceed.injEq, false_or, exists_and_left,
        exists_eq', and_true] at result
      exact ⟨by rw [← result]; rfl, by rw [← result]; rfl⟩
    · simp only [reduceCtorEq, EarlyGuard.proceed.injEq, false_or, exists_eq_right'] at result
      exact ⟨by rw [result], by rw [result]⟩

theorem releaseReservation_stores (index : WorkspaceIndex) (key : String) (reserved : Option Nat) :
    (index.releaseReservation key reserved).globalReferences = index.globalReferences ∧
      (index.releaseReservation key reserved).writeVersion = index.writeVersion := by
  unfold releaseReservation
  split
  · split
    · exact ⟨rfl, rfl⟩
    · exact ⟨rfl, rfl⟩
  · exact ⟨rfl, rfl⟩

/-- The references as a write in this place has them, if they stood at `globalRefs` before. -/
def WriteCall.standing (globalRefs : References) : WriteCall → References
  | indexFile uri _ _ (.publishing (some old) _ (some left)) =>
    if left.betweenReferences then removeFileGlobalRefs globalRefs old uri else globalRefs
  | _ => globalRefs

def WriteCall.foresees (files : TreeMap String FileIndex) : WriteCall → Prop
  | indexFile uri _ _ (.publishing replaced _ (some .dropReferences)) =>
    files[env.uriKey uri]? = replaced
  | _ => True

theorem standing_next (completed : References) (uri text : String) (generation : Nat)
    (replaced : Option FileIndex) (candidate : Candidate) (left : PublishSection)
    (notDrop : left ≠ .dropReferences) (notAdd : left ≠ .addReferences) :
    (WriteCall.indexFile uri text generation (.publishing replaced candidate left.next)).standing completed =
      (WriteCall.indexFile uri text generation
        (.publishing replaced candidate (some left))).standing completed := by
  cases replaced with
  | none =>
    cases left with
    | packageEdges => rfl
    | _ => rfl
  | some old =>
    cases left with
    | dropReferences => exact absurd rfl notDrop
    | addReferences => exact absurd rfl notAdd
    | _ => rfl

/-- Publishing: the references are those the place calls for, before and after. -/
theorem publishing_section (index : WorkspaceIndex) (completed : References) (uri : String)
    (replaced : Option FileIndex) (candidate : Candidate) (left : PublishSection)
    (text : String) (generation : Nat)
    (standing : index.globalReferences = (WriteCall.indexFile uri text generation
      (.publishing replaced candidate (some left))).standing completed)
    (foresees : (WriteCall.indexFile uri text generation
      (.publishing replaced candidate (some left))).foresees env index.files) :
    (publishSection (env.uriKey uri) uri (env.hashUriToFileId uri) candidate index left).globalReferences =
      (WriteCall.indexFile uri text generation (.publishing replaced candidate left.next)).standing
          ((WriteCall.indexFile uri text generation
            (.publishing replaced candidate (some left))).completes env completed) := by
  by_cases drops : left = .dropReferences
  · subst drops
    have file : index.files[env.uriKey uri]? = replaced := foresees
    simp only [publishSection, dropOldReferences, file]
    cases replaced with
    | none => exact standing
    | some old =>
      exact congrArg (fun globalRefs => removeFileGlobalRefs globalRefs old uri) standing
  by_cases adds : left = .addReferences
  · subst adds
    simp only [publishSection, addNewReferences, WriteCall.completes, standing]
    cases replaced with
    | none => rfl
    | some old => rfl
  · rw [publishSection_references _ _ _ _ _ _ drops adds, standing,
      show (WriteCall.indexFile uri text generation
        (.publishing replaced candidate (some left))).completes env completed = completed by
        cases left <;> first | rfl | exact absurd rfl adds,
      standing_next completed uri text generation replaced candidate left drops adds]

theorem holder_section (index : WorkspaceIndex) (completed : References) (call : WriteCall)
    (holds : call.holdsFiles = true) (standing : index.globalReferences = call.standing completed)
    (foresees : call.foresees env index.files) : (writeSection env index call).2.globalReferences =
        (writeSection env index call).1.standing (call.completes env completed) ∧
      (writeSection env index call).1.foresees env (writeSection env index call).2.files := by
  cases call with
  | removeFile uri place =>
    cases place with
    | removing file left =>
      cases left with
      | none => exact ⟨standing, trivial⟩
      | some left =>
        cases left with
        | references =>
          exact ⟨congrArg (fun globalRefs =>
            removedReferences globalRefs file (env.normalizeUri uri)) standing, trivial⟩
        | factShard | semanticReferences | importExport | packageGraph | symbols =>
          exact ⟨standing, trivial⟩
    | _ => cases holds
  | indexFile uri text generation place =>
    cases place with
    | admitted reserved candidate =>
      have stood : index.globalReferences = completed := standing
      simp only [writeSection, indexSection]
      split
      · exact ⟨stood, trivial⟩
      refine ⟨?_, rfl⟩
      simp only [WriteCall.standing, WriteCall.completes]
      cases index.files[env.uriKey uri]? with
      | none => exact stood
      | some old => exact stood
    | publishing replaced candidate left =>
      cases left with
      | none =>
        refine ⟨?_, trivial⟩
        rw [show (writeSection env index (.indexFile uri text generation
          (.publishing replaced candidate none))).2 = index from rfl, standing]
        cases replaced with
        | none => rfl
        | some old => rfl
      | some left =>
        refine ⟨publishing_section env index completed uri replaced candidate left text
          generation standing foresees, ?_⟩
        cases left with
        | dropReferences => trivial
        | _ => trivial
    | _ => cases holds

/-- A section of a write that does not hold `files` yet, or no more. -/
structure OtherSection (index : WorkspaceIndex) (completed : References) (call : WriteCall) : Prop where
  references : (writeSection env index call).2.globalReferences = index.globalReferences
  completes : call.completes env completed = completed
  standing : (writeSection env index call).1.standing completed = completed
  foresees : (writeSection env index call).1.foresees env (writeSection env index call).2.files
  files : call.takesFiles = false → (writeSection env index call).2.files = index.files
  holds : call.takesFiles = false → (writeSection env index call).1.holdsFiles = false

theorem other_section (index : WorkspaceIndex) (completed : References) (call : WriteCall)
    (free : call.holdsFiles = false) : OtherSection env index completed call := by
  cases call with
  | removeFile uri place =>
    cases place with
    | removing file left => cases free
    | guarded =>
      refine ⟨?_, rfl, ?_, ?_, nofun, nofun⟩
      all_goals
        simp only [writeSection, removeFileSection]
        cases index.files[env.uriKey (env.normalizeUri uri)]? with
        | none => trivial
        | some file => trivial
    | started | closing | leaving | returned =>
      exact ⟨rfl, rfl, rfl, trivial, fun _ => rfl, fun _ => rfl⟩
  | indexFile uri text generation place =>
    cases place with
    | admitted reserved candidate => cases free
    | publishing replaced candidate left => cases free
    | started | limited kind reserved | leaving | returned =>
      exact ⟨rfl, rfl, rfl, trivial, fun _ => rfl, fun _ => rfl⟩
    | guarded =>
      have early := earlyGuard_references index
      refine ⟨?_, rfl, ?_, ?_, nofun, nofun⟩
      all_goals
        simp only [writeSection, indexSection]
        cases guard : index.earlyGuard (env.uriKey uri) (env.contentHash text) generation with
        | limited kind => trivial
        | rejectedStale => trivial
        | noOp after =>
          first
          | trivial
          | exact (early after _ _ _ (.inl guard)).1
        | proceed after reserved =>
          first
          | trivial
          | exact (early after _ _ _ (.inr ⟨reserved, guard⟩)).1
    | entered reserved =>
      refine ⟨?_, rfl, ?_, ?_, fun _ => ?_, fun _ => ?_⟩
      all_goals
        simp only [writeSection, indexSection]
        cases env.parse text with
        | error message => trivial
        | ok ast => trivial
    | extracted reserved candidate =>
      refine ⟨?_, rfl, ?_, ?_, nofun, nofun⟩
      all_goals
        simp only [writeSection, indexSection]
        split
        · trivial
        · split
          · trivial
          · trivial
    | releasing reserved =>
      refine ⟨?_, rfl, rfl, trivial, fun unreserved => ?_, fun _ => rfl⟩
      · exact (releaseReservation_stores index (env.uriKey uri) reserved).1
      · cases reserved with
        | none =>
          exact congrArg WorkspaceIndex.files (releaseReservation_none index (env.uriKey uri))
        | some generation => cases unreserved

/-- The version moves at the start of a write and at its end, nowhere between. -/
theorem writeSection_version (index : WorkspaceIndex) (call : WriteCall) :
    (writeSection env index call).2.writeVersion = index.writeVersion + if call.bumps then 1 else 0 := by
  cases call with
  | removeFile uri place =>
    cases place with
    | guarded =>
      simp only [writeSection, removeFileSection]
      cases index.files[env.uriKey (env.normalizeUri uri)]? with
      | none => rfl
      | some file => rfl
    | removing file left =>
      cases left with
      | none => rfl
      | some left => cases left <;> rfl
    | _ => rfl
  | indexFile uri text generation place =>
    cases place with
    | guarded =>
      have early := earlyGuard_references index
      simp only [writeSection, indexSection]
      cases guard : index.earlyGuard (env.uriKey uri) (env.contentHash text) generation with
      | limited kind => rfl
      | rejectedStale => rfl
      | noOp after => exact (early after _ _ _ (.inl guard)).2
      | proceed after reserved => exact (early after _ _ _ (.inr ⟨reserved, guard⟩)).2
    | entered reserved =>
      simp only [writeSection, indexSection]
      cases env.parse text with
      | error message => rfl
      | ok ast => rfl
    | extracted reserved candidate =>
      simp only [writeSection, indexSection]
      split
      · rfl
      · split
        · rfl
        · rfl
    | admitted reserved candidate =>
      simp only [writeSection, indexSection]
      split
      · rfl
      · rfl
    | publishing replaced candidate left =>
      cases left with
      | none => rfl
      | some left => exact publishSection_version _ _ _ _ index left
    | releasing reserved => exact (releaseReservation_stores index (env.uriKey uri) reserved).2
    | _ => rfl

end Sections

section Claims
variable {Ast : Type} (env : Env Ast)

def Whole (query : Query) (reading : Reading) : Prop :=
  ∃ globalRefs ∈ reading.around, reading.answer = query.inner env reading.documents globalRefs

/-- Every answer that the equality of the versions let through is. -/
def Protected (state : State) : Prop :=
  ∀ entry ∈ state.returned, Whole env entry.1 entry.2

/-- When an attempt compares its versions and no write has started or ended in between, it did not
read between the removal and the adding of a file's references. -/
def OutsideWrites (state : State) : Op → Prop
  | .compareVersions =>
    match state.reader with
    | .answered _ _ _ crossed reading => crossed = false → reading.midWrite = false
    | _ => True
  | _ => True

/-- What the version read first says about the one to be read. -/
def Timed (index : WorkspaceIndex) (version : Nat) (crossed : Bool) : Prop :=
  if crossed then version < index.writeVersion else version = index.writeVersion

def ReaderFact (index : WorkspaceIndex) : Reader → Prop
  | .versioned _ _ version crossed => Timed index version crossed
  | .answered query _ version crossed reading =>
    Timed index version crossed ∧ (reading.midWrite = false → Whole env query reading)
  | _ => True

structure Invariant (state : State) : Prop where
  oneHolder : ∀ (i j : Nat) (first second : WriteCall), state.writes[i]? = some first →
    state.writes[j]? = some second →
    first.holdsFiles = true → second.holdsFiles = true → i = j
  held : ∀ call ∈ state.writes, call.holdsFiles = true →
    state.index.globalReferences = call.standing state.completed ∧ call.foresees env state.index.files
  free : state.filesFree = true → state.index.globalReferences = state.completed
  reader : ReaderFact env state.index state.reader
  returned : Protected env state

end Claims

section Preservation
variable {Ast : Type} {env : Env Ast} {state : State}

theorem filesFree_iff (state : State) :
    state.filesFree = true ↔ ∀ call ∈ state.writes, call.holdsFiles = false := by
  simp [State.filesFree]

theorem standing_outside (call : WriteCall) (outside : call.midWrite = false)
    (globalRefs : References) : call.standing globalRefs = globalRefs := by
  unfold WriteCall.standing
  split
  · exact if_neg (by simpa [WriteCall.midWrite] using outside)
  · rfl

/-- Outside the middle of a write the references are those of the completed writes. -/
theorem settled_references (invariant : Invariant env state)
    (outside : ∀ call ∈ state.writes, call.midWrite = false) :
    state.index.globalReferences = state.completed := by
  by_cases free : state.filesFree = true
  · exact invariant.free free
  rw [filesFree_iff] at free
  push Not at free
  obtain ⟨call, member, holds⟩ := free
  rw [(invariant.held call member (by simpa using holds)).1]
  exact standing_outside call (outside call member) state.completed

theorem whole_read (invariant : Invariant env state) (query : Query)
    (outside : (state.read env query).midWrite = false) : Whole env query (state.read env query) := by
  have settled : state.index.globalReferences = state.completed := by
    apply settled_references invariant
    intro call member
    exact Bool.eq_false_iff.mpr (any_eq_false.mp outside call member)
  exact ⟨state.completed, mem_cons_self, by rw [← settled]; rfl⟩

theorem readerFact_cross {index : WorkspaceIndex} {version : Nat} (reader : Reader)
    (fact : ReaderFact env index reader) (later : index.writeVersion < version) :
    ReaderFact env { index with writeVersion := version } reader.cross := by
  have timed (first : Nat) (crossed : Bool) (before : Timed index first crossed) :
      first < version := by
    unfold Timed at before
    split at before
    · omega
    · omega
  cases reader with
  | versioned query left first crossed => exact timed first crossed fact
  | answered query left first crossed reading => exact ⟨timed first crossed fact.1, fact.2⟩
  | idle => trivial
  | attempting query left => trivial
  | fallingBack query => trivial

theorem readerFact_version {index after : WorkspaceIndex} (reader : Reader)
    (fact : ReaderFact env index reader) (same : after.writeVersion = index.writeVersion) :
    ReaderFact env after reader := by
  have timed (first : Nat) (crossed : Bool) (before : Timed index first crossed) :
      Timed after first crossed := by
    rw [Timed, same]
    exact before
  cases reader with
  | versioned query left first crossed => exact timed first crossed fact
  | answered query left first crossed reading => exact ⟨timed first crossed fact.1, fact.2⟩
  | idle => trivial
  | attempting query left => trivial
  | fallingBack query => trivial

theorem invariant_reader (invariant : Invariant env state) (reader : Reader)
    (fact : ReaderFact env state.index reader) : Invariant env { state with reader := reader } :=
  { oneHolder := invariant.oneHolder
    held := invariant.held
    free := invariant.free
    reader := fact
    returned := invariant.returned }

theorem invariant_start (invariant : Invariant env state) (call : WriteCall)
    (free : call.holdsFiles = false) : Invariant env (state.startWrite call) := by
  have old (i : Nat) (other : WriteCall) (found : (state.writes ++ [call])[i]? = some other)
      (holds : other.holdsFiles = true) : state.writes[i]? = some other := by
    rw [getElem?_append] at found
    split at found
    · exact found
    rw [getElem?_singleton] at found
    split at found
    · cases found
      rw [free] at holds
      cases holds
    · cases found
  refine ⟨?_, ?_, ?_, ?_, invariant.returned⟩
  · intro i j first second atI atJ firstHolds secondHolds
    exact invariant.oneHolder i j first second (old i first atI firstHolds)
      (old j second atJ secondHolds) firstHolds secondHolds
  · intro other member holds
    obtain ⟨i, found⟩ := mem_iff_getElem?.mp member
    have fact := invariant.held other (mem_of_getElem? (old i other found holds)) holds
    exact fact
  · intro filesFree
    apply invariant.free
    rw [filesFree_iff] at filesFree ⊢
    intro other member
    exact filesFree other (mem_append_left _ member)
  · exact readerFact_cross state.reader invariant.reader (Nat.lt_succ_self _)

theorem standing_free (call : WriteCall) (free : call.holdsFiles = false) (globalRefs : References) :
    call.standing globalRefs = globalRefs := by
  apply standing_outside
  unfold WriteCall.midWrite
  split
  · cases free
  · rfl

theorem invariant_of_holder (index : WorkspaceIndex) (writes : List WriteCall) (reader : Reader)
    (completed : References) (returned : List (Query × Reading)) (write : Nat) (call : WriteCall)
    (found : writes[write]? = some call)
    (others : ∀ i other, writes[i]? = some other → i ≠ write → other.holdsFiles = false)
    (standing : index.globalReferences = call.standing completed)
    (foresees : call.foresees env index.files) (fact : ReaderFact env index reader)
    (protects : ∀ entry ∈ returned, Whole env entry.1 entry.2) :
    Invariant env ⟨index, writes, reader, completed, returned⟩ := by
  have holder (i : Nat) (other : WriteCall) (at_i : writes[i]? = some other)
      (holds : other.holdsFiles = true) : i = write := by
    by_contra distinct
    rw [others i other at_i distinct] at holds
    cases holds
  refine ⟨?_, ?_, ?_, fact, protects⟩
  · intro i j first second atI atJ firstHolds secondHolds
    exact (holder i first atI firstHolds).trans (holder j second atJ secondHolds).symm
  · intro other member holds
    obtain ⟨i, at_i⟩ := mem_iff_getElem?.mp member
    obtain rfl := holder i other at_i holds
    obtain rfl := Option.some.inj (found.symm.trans at_i)
    exact ⟨standing, foresees⟩
  · intro free
    rw [filesFree_iff] at free
    rw [standing, standing_free call (free call (mem_of_getElem? found))]

theorem invariant_advance (invariant : Invariant env state) (write : Nat) (call : WriteCall)
    (found : state.writes[write]? = some call) (may : state.mayAdvance env call = true) :
    Invariant env { state with
      index := (writeSection env state.index call).2
      writes := state.writes.set write (writeSection env state.index call).1
      reader := if call.bumps then state.reader.cross else state.reader
      completed := call.completes env state.completed } := by
  have member : call ∈ state.writes := mem_of_getElem? found
  have below : write < state.writes.length := (List.getElem?_eq_some_iff.mp found).1
  have reader : ReaderFact env (writeSection env state.index call).2
      (if call.bumps then state.reader.cross else state.reader) := by
    have version := writeSection_version env state.index call
    split
    · rename_i bumps
      rw [if_pos bumps] at version
      exact readerFact_version _ (readerFact_cross state.reader invariant.reader
        (Nat.lt_succ_self _)) version
    · rename_i still
      rw [if_neg still] at version
      exact readerFact_version _ invariant.reader version
  have later : (state.writes.set write (writeSection env state.index call).1)[write]? =
      some (writeSection env state.index call).1 := by
    rw [getElem?_set_self below]
  have old (i : Nat) (other : WriteCall)
      (at_i : (state.writes.set write (writeSection env state.index call).1)[i]? = some other)
      (distinct : i ≠ write) : state.writes[i]? = some other := by
    rwa [getElem?_set_ne (Ne.symm distinct)] at at_i
  cases holds : call.holdsFiles with
  | true =>
    obtain ⟨stood, foresaw⟩ := invariant.held call member holds
    obtain ⟨standing, foresees⟩ :=
      holder_section env state.index state.completed call holds stood foresaw
    refine invariant_of_holder _ _ _ _ _ write _ later ?_ standing foresees reader invariant.returned
    intro i other at_i distinct
    by_contra held
    exact distinct (invariant.oneHolder i write other call (old i other at_i distinct) found
      (by simpa using held) holds)
  | false =>
    obtain ⟨references, completes, standing, foresees, files, frees⟩ :=
      other_section env state.index state.completed call holds
    cases takes : call.takesFiles with
    | true =>
      have free : state.filesFree = true := by
        simpa [State.mayAdvance, takes] using (Bool.and_eq_true_iff.mp may).1
      refine invariant_of_holder _ _ _ _ _ write _ later ?_ ?_ foresees reader invariant.returned
      · intro i other at_i distinct
        exact (filesFree_iff state).mp free other (mem_of_getElem? (old i other at_i distinct))
      · rw [completes, standing, references, invariant.free free]
    | false =>
      have kept (i : Nat) (other : WriteCall)
          (at_i : (state.writes.set write (writeSection env state.index call).1)[i]? = some other)
          (held : other.holdsFiles = true) : state.writes[i]? = some other := by
        apply old i other at_i
        rintro rfl
        rw [later, Option.some.injEq] at at_i
        rw [← at_i, frees takes] at held
        cases held
      rw [completes]
      refine ⟨?_, ?_, ?_, reader, invariant.returned⟩
      · intro i j first second atI atJ firstHolds secondHolds
        exact invariant.oneHolder i j first second (kept i first atI firstHolds)
          (kept j second atJ secondHolds) firstHolds secondHolds
      · intro other listed held
        obtain ⟨i, at_i⟩ := mem_iff_getElem?.mp listed
        have before := invariant.held other (mem_of_getElem? (kept i other at_i held)) held
        exact ⟨references.trans before.1, by rw [files takes]; exact before.2⟩
      · intro free
        rw [filesFree_iff] at free
        refine references.trans (invariant.free ((filesFree_iff state).mpr ?_))
        intro other listed
        obtain ⟨i, at_i⟩ := mem_iff_getElem?.mp listed
        by_cases same : i = write
        · subst same
          rw [found, Option.some.injEq] at at_i
          rw [← at_i, holds]
        apply free other
        apply mem_of_getElem?
        rw [getElem?_set_ne (Ne.symm same)]
        exact at_i

theorem invariant_step (state : State) (op : Op) (outside : OutsideWrites state op)
    (invariant : Invariant env state) : Invariant env (step env state op) := by
  cases op with
  | indexFile uri text generation | removeFile uri => exact invariant_start invariant _ rfl
  | advance write =>
    simp only [step]
    cases found : state.writes[write]? with
    | none => exact invariant
    | some call =>
      simp only
      split
      · rename_i may
        exact invariant_advance invariant write call found may
      · exact invariant
  | ask query =>
    simp only [step]
    split
    · split
      · exact invariant
      · exact invariant_reader invariant _ trivial
    · exact invariant
  | readVersion =>
    simp only [step]
    split
    · exact invariant_reader invariant _ rfl
    · exact invariant
  | readReferences =>
    simp only [step]
    split
    · rename_i query left version crossed at_reader
      have fact := invariant.reader
      rw [at_reader] at fact
      exact invariant_reader invariant _ ⟨fact, whole_read invariant query⟩
    · exact invariant
  | compareVersions =>
    simp only [step]
    split
    · rename_i query left version crossed reading at_reader
      have fact := invariant.reader
      rw [at_reader] at fact
      simp only [OutsideWrites, at_reader] at outside
      split
      · rename_i same
        have uncrossed : crossed = false := by
          cases crossed with
          | false => rfl
          | true => exact absurd same fact.1.ne
        refine ⟨invariant.oneHolder, invariant.held, invariant.free, trivial, ?_⟩
        intro entry member
        rw [mem_append, mem_singleton] at member
        obtain before | rfl := member
        · exact invariant.returned entry before
        · exact fact.2 (outside uncrossed)
      · split
        · exact invariant_reader invariant _ trivial
        · exact invariant_reader invariant _ trivial
    · exact invariant
  | fallBack =>
    simp only [step]
    split
    · exact invariant_reader invariant _ trivial
    · exact invariant

end Preservation

def atRest (index : WorkspaceIndex) : State := ⟨index, [], .idle, index.globalReferences, []⟩

theorem invariant_atRest {Ast : Type} (env : Env Ast) (index : WorkspaceIndex) :
    Invariant env (atRest index) where
  oneHolder := by
    intro i j first second atI
    simp [atRest] at atI
  held _ member := absurd member not_mem_nil
  free _ := rfl
  reader := trivial
  returned _ member := absurd member not_mem_nil

/-- Whatever the order of the sections, an answer let through by equal versions is that on
the references around complete writes, provided no attempt falls inside a write. -/
theorem unmixed_answers {Ast : Type} (env : Env Ast) (index : WorkspaceIndex) (ops : List Op)
    (outside : StepsMeet (step env) OutsideWrites (atRest index) ops) :
    Along (step env) (Protected env) (atRest index) ops := by
  apply along_mono (step env) (fun state (invariant : Invariant env state) => invariant.returned)
  exact along_of_steps (step env) (Invariant env) OutsideWrites
    (fun state op invariant outside => invariant_step state op outside invariant) _ ops
    (invariant_atRest env index) outside

/-- Every text calls `foo` once, in its first line. -/
def callingEnv : Env String :=
  { sampleEnv with
    visitUnified := fun _ _ _ =>
      ⟨[], (∅ : TreeMap String (List ReferenceRow)).insert "foo"
        [⟨⟨⟨0, 0, 0⟩, ⟨3, 0, 3⟩⟩, .usage, none⟩], []⟩ }

/-- One attempt to count the usages of `foo`. -/
def countFoo : List Op := [.ask (.countUsages "foo"), .readVersion, .readReferences,
  .compareVersions]

def editFoo (sections : Nat) : List Op :=
  .indexFile "file:///a.pl" "foo();" 0 :: List.replicate 14 (.advance 0) ++
    .indexFile "file:///a.pl" "foo(1);" 0 :: List.replicate sections (.advance 1)

instance {Ast : Type} (env : Env Ast) (state : State) : Decidable (Protected env state) :=
  inferInstanceAs (Decidable (∀ entry ∈ state.returned, ∃ globalRefs ∈ entry.2.around,
    entry.2.answer = entry.1.inner env entry.2.documents globalRefs))

instance (state : State) (op : Op) : Decidable (OutsideWrites state op) := by
  unfold OutsideWrites
  split
  · split <;> infer_instance
  · infer_instance

theorem unmixed_answers_edited :
    Along (step callingEnv) (Protected callingEnv) (atRest (new sampleLimits))
      (editFoo 5 ++ countFoo) :=
  unmixed_answers callingEnv (new sampleLimits) (editFoo 5 ++ countFoo) (by decide)

/-- Between the removal and the adding of the edited file's references the count is let through as
zero, though the file has one usage before and after. -/
theorem counted_inside_write :
    ¬ Along (step callingEnv) (Protected callingEnv) (atRest (new sampleLimits))
      (editFoo 6 ++ countFoo) := by
  intro along
  rw [along_iff_prefixes] at along
  exact absurd (along (editFoo 6 ++ countFoo) [] (append_nil _).symm) (by decide)

end PerlLsp.WorkspaceTornReads
