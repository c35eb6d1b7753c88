import PerlLsp.Buckets
import PerlLsp.ClientRequests

/-! The breakpoint store of breakpoints.rs: the records a client asked for under each source path,
and the debugger engine's acknowledgements under the record ids. Every method is one step under the
lock of the records. The validator of a source is a parameter. -/
namespace PerlLsp.Breakpoints
open List hiding getElem?_insert
open Std Tables Buckets Runs Bool
open ClientRequests (u64Max saturatingSucc)

structure BreakpointRecord where
  id : Int
  line : Int
  column : Option Int
  condition : Option String
  hitCondition : Option String
  logMessage : Option String
  hitCount : Nat
  verified : Bool
  message : Option String
deriving DecidableEq

structure Breakpoint where
  id : Int
  verified : Bool
  line : Int
  column : Option Int
  message : Option String
deriving DecidableEq

def BreakpointRecord.toProtocol (record : BreakpointRecord) : Breakpoint :=
  ⟨record.id, record.verified, record.line, record.column, record.message⟩

structure SourceBreakpoint where
  line : Int
  column : Option Int
  condition : Option String
  hitCondition : Option String
  logMessage : Option String

structure SetBreakpointsArguments where
  sourcePath : Option String
  breakpoints : Option (List SourceBreakpoint)

structure EngineInstallation where
  sourcePath : String
  sessionGeneration : Nat
  sourceDigest : String
  line : Int
deriving DecidableEq

structure EngineBreakpointHitOutcome where
  matched : Bool
  shouldStop : Bool
  logMessages : List String
  hitBreakpointIds : List Int
deriving DecidableEq

structure Verdict where
  verified : Bool
  line : Int
  message : Option String

structure AstBreakpointValidator where
  validateWithColumn : Int → Option Int → Verdict
  validateCondition : Int → String → Bool

/-- Nothing when the source file cannot be read, the error's text when it gives no validator. -/
abbrev SourceContent : Type := Option (Except String AstBreakpointValidator)

def parseHitConditionOperand (raw : List Char) : Option Nat := Text.parseUsize (Text.trim raw)

def evaluateHitCondition (raw : Option String) (hitCount : Nat) : Option Bool :=
  match raw with
  | none => some true
  | some raw =>
    match Text.trim raw.toList with
    | [] => some true
    | '>' :: '=' :: rest => (parseHitConditionOperand rest).map fun n => decide (n ≤ hitCount)
    | '<' :: '=' :: rest => (parseHitConditionOperand rest).map fun n => decide (hitCount ≤ n)
    | '=' :: '=' :: rest => (parseHitConditionOperand rest).map fun n => decide (hitCount = n)
    | '=' :: rest => (parseHitConditionOperand rest).map fun n => decide (hitCount = n)
    | '>' :: rest => (parseHitConditionOperand rest).map fun n => decide (n < hitCount)
    | '<' :: rest => (parseHitConditionOperand rest).map fun n => decide (hitCount < n)
    | '%' :: rest =>
      (parseHitConditionOperand rest).bind fun n =>
        if n = 0 then none else some (decide (hitCount % n = 0))
    | expr => (parseHitConditionOperand expr).map fun n => decide (hitCount = n)

def isValidHitCondition (raw : String) : Bool := (evaluateHitCondition (some raw) 1).isSome

def pathSuffixMatches (haystack suffix : List Char) : Bool :=
  suffix.isSuffixOf haystack &&
    match (haystack.take (haystack.length - suffix.length)).getLast? with
    | none => true
    | some before => before == '/' || before == '\\'

def isPathSeparator (windows : Bool) (character : Char) : Bool :=
  character == '/' || (windows && character == '\\')

def samePathComponents (windows : Bool) (a b : List Char) : Bool :=
  (a.splitOnP (isPathSeparator windows)).filter (!·.isEmpty) ==
    (b.splitOnP (isPathSeparator windows)).filter (!·.isEmpty)

def filePathsMatch (windows : Bool) (stored observed : String) : Bool :=
  stored == observed || samePathComponents windows stored.toList observed.toList ||
    pathSuffixMatches stored.toList observed.toList || pathSuffixMatches observed.toList stored.toList

def combineConditionMessage (prior : Option String) : Option String :=
  let error := "Conditional breakpoint expression is invalid"
  some (match prior with
    | some message => message ++ "; " ++ error
    | none => error)

def hasNewline (text : List Char) : Bool := text.contains '\n' || text.contains '\r'

def recordOf (id : Int) (bp : SourceBreakpoint) (verdict : Verdict) : BreakpointRecord where
  id := id
  line := verdict.line
  column := bp.column
  condition := bp.condition
  hitCondition := bp.hitCondition
  logMessage := bp.logMessage
  hitCount := 0
  verified := verdict.verified
  message := verdict.message

abbrev ValidationCache : Type := List ((Int × Option Int) × Verdict)

def validate (source : SourceContent) (bp : SourceBreakpoint) : Verdict :=
  match source with
  | some (.ok validator) => validator.validateWithColumn bp.line bp.column
  | some (.error error) => ⟨false, bp.line, some error⟩
  | none => ⟨false, bp.line, some "Unable to read source file"⟩

def validateCached (source : SourceContent) (cache : ValidationCache) (bp : SourceBreakpoint) :
    Verdict × ValidationCache :=
  match cache.lookup (bp.line, bp.column) with
  | some cached => (cached, cache)
  | none => (validate source bp, ((bp.line, bp.column), validate source bp) :: cache)

def withCondition (source : SourceContent) (bp : SourceBreakpoint) (verdict : Verdict) : Verdict :=
  match source, bp.condition with
  | some (.ok validator), some condition =>
    if verdict.verified && !validator.validateCondition verdict.line condition then
      { verdict with verified := false, message := combineConditionMessage verdict.message }
    else verdict
  | _, _ => verdict

def refusal (bp : SourceBreakpoint) : Option String :=
  if bp.line ≤ 0 then some "Line number must be positive"
  else if bp.condition.any (hasNewline ·.toList) then
    some "Breakpoint condition cannot contain newlines"
  else
    match bp.hitCondition with
    | none => none
    | some hitCondition =>
      let hitCondition := String.ofList (Text.trim hitCondition.toList)
      if hasNewline hitCondition.toList then some "Hit condition cannot contain newlines"
      else if !isValidHitCondition hitCondition then
        some ("Invalid hitCondition `" ++ hitCondition ++
          "` (expected numeric expression like `10`, `>= 5`, `%2`)")
      else none

def createRecord (source : SourceContent) (cache : ValidationCache) (id : Int)
    (bp : SourceBreakpoint) : BreakpointRecord × ValidationCache :=
  match refusal bp with
  | some message => (recordOf id bp ⟨false, bp.line, some message⟩, cache)
  | none =>
    let (verdict, cache) := validateCached source cache bp
    (recordOf id bp (withCondition source bp verdict), cache)

def createRecords (source : SourceContent) : ValidationCache → Int → List SourceBreakpoint →
    List BreakpointRecord × Int
  | _, nextId, [] => ([], nextId)
  | cache, nextId, bp :: rest =>
    let (record, cache) := createRecord source cache nextId bp
    let (records, nextId) := createRecords source cache (nextId + 1) rest
    (record :: records, nextId)

structure BreakpointStore where
  breakpoints : TreeMap String (List BreakpointRecord)
  nextId : Int
  engineInstallations : TreeMap Int EngineInstallation

open BreakpointStore

namespace BreakpointStore

def new : BreakpointStore := ⟨∅, 1, ∅⟩

def markEngineInstalled (store : BreakpointStore) (id : Int) (sourcePath : String) (line : Int)
    (sessionGeneration : Nat) (sourceDigest : String) : Bool × BreakpointStore :=
  match store.breakpoints[sourcePath]? with
  | none => (false, store)
  | some records =>
    if records.any fun record => record.id == id && record.verified && record.line == line then
      (true, { store with engineInstallations :=
        store.engineInstallations.insert id ⟨sourcePath, sessionGeneration, sourceDigest, line⟩ })
    else (false, store)

def setBreakpoints (store : BreakpointStore) (args : SetBreakpointsArguments)
    (source : SourceContent) : List Breakpoint × BreakpointStore :=
  match args.sourcePath with
  | none => ([], store)
  | some path =>
    let oldIds := (bucket store.breakpoints path).map BreakpointRecord.id
    let (records, nextId) := createRecords source [] store.nextId (args.breakpoints.getD [])
    let kept := store.breakpoints.erase path
    (records.map BreakpointRecord.toProtocol,
      { breakpoints := if records.isEmpty then kept else kept.insert path records
        nextId := nextId
        engineInstallations := oldIds.foldl TreeMap.erase store.engineInstallations })

def clearBreakpoints (store : BreakpointStore) (path : String) : BreakpointStore :=
  let ids := (bucket store.breakpoints path).map BreakpointRecord.id
  { store with
    breakpoints := store.breakpoints.erase path
    engineInstallations := ids.foldl TreeMap.erase store.engineInstallations }

def allRecords (store : BreakpointStore) : List BreakpointRecord := (rows store.breakpoints).flatten

def clearAll (store : BreakpointStore) : BreakpointStore :=
  let ids := store.allRecords.map BreakpointRecord.id
  { store with
    breakpoints := ∅
    engineInstallations := ids.foldl TreeMap.erase store.engineInstallations }

end BreakpointStore

structure EngineHit where
  sourcePath : String
  line : Int
  sessionGeneration : Nat
  sourceDigest : String

def credits (windows : Bool) (installations : TreeMap Int EngineInstallation) (hit : EngineHit)
    (record : BreakpointRecord) : Bool :=
  match installations[record.id]? with
  | none => false
  | some installation =>
    installation.sessionGeneration == hit.sessionGeneration &&
      filePathsMatch windows installation.sourcePath hit.sourcePath &&
      installation.line == hit.line && installation.sourceDigest == hit.sourceDigest &&
      record.line == hit.line && record.verified

def countHit (record : BreakpointRecord) : BreakpointRecord :=
  { record with hitCount := saturatingSucc record.hitCount }

def addHit (outcome : EngineBreakpointHitOutcome) (record : BreakpointRecord) :
    EngineBreakpointHitOutcome :=
  let outcome := { outcome with matched := true }
  if (evaluateHitCondition record.hitCondition record.hitCount).getD false then
    match record.logMessage with
    | some message => { outcome with logMessages := outcome.logMessages ++ [message] }
    | none =>
      { outcome with
        shouldStop := true
        hitBreakpointIds := outcome.hitBreakpointIds ++ [record.id] }
  else outcome

namespace BreakpointStore

def registerEngineBreakpointHit (windows : Bool) (store : BreakpointStore) (hit : EngineHit) :
    EngineBreakpointHitOutcome × BreakpointStore :=
  let credited := credits windows store.engineInstallations hit
  let records := (store.breakpoints.toList.filter
    fun entry => filePathsMatch windows entry.1 hit.sourcePath).flatMap Prod.snd
  (((records.filter credited).map countHit).foldl addHit ⟨false, false, [], []⟩,
    { store with breakpoints := store.breakpoints.map fun stored records =>
        if filePathsMatch windows stored hit.sourcePath then
          records.map fun record => if credited record then countHit record else record
        else records })

end BreakpointStore

/-- The record keeps what was asked, has no hits yet, and is verified only where the source's
validator says so, on the line it gives. -/
structure MadeFor (source : SourceContent) (bp : SourceBreakpoint) (record : BreakpointRecord) :
    Prop where
  column : record.column = bp.column
  condition : record.condition = bp.condition
  hitCondition : record.hitCondition = bp.hitCondition
  logMessage : record.logMessage = bp.logMessage
  hitCount : record.hitCount = 0
  verified : record.verified = true → refusal bp = none ∧ (validate source bp).verified = true ∧
    record.line = (validate source bp).line

def CacheSound (source : SourceContent) (cache : ValidationCache) : Prop :=
  ∀ bp : SourceBreakpoint, ∀ verdict, cache.lookup (bp.line, bp.column) = some verdict →
    verdict = validate source bp

section
variable (source : SourceContent)
include source

theorem validate_place (bp twin : SourceBreakpoint)
    (line : bp.line = twin.line) (column : bp.column = twin.column) :
    validate source bp = validate source twin := by
  simp only [validate, line, column]

theorem validate_cached (cache : ValidationCache) (bp : SourceBreakpoint)
    (sound : CacheSound source cache) : (validateCached source cache bp).1 = validate source bp ∧
      CacheSound source (validateCached source cache bp).2 := by
  rw [validateCached]
  cases held : cache.lookup (bp.line, bp.column) with
  | some cached => exact ⟨sound bp cached held, sound⟩
  | none =>
    refine ⟨rfl, ?_⟩
    intro twin verdict found
    rw [lookup_cons] at found
    by_cases same : (twin.line, twin.column) = (bp.line, bp.column)
    · rw [beq_iff_eq.mpr same] at found
      have place := Prod.mk.inj same
      rw [← Option.some.inj found, validate_place source twin bp place.1 place.2]
    · rw [beq_eq_false_iff_ne.mpr same] at found
      exact sound twin verdict found

theorem condition_verdict (bp : SourceBreakpoint) (verdict : Verdict)
    (verified : (withCondition source bp verdict).verified = true) :
    verdict.verified = true ∧ (withCondition source bp verdict).line = verdict.line := by
  simp only [withCondition] at verified ⊢
  split at verified
  · split at verified
    · cases verified
    · next kept => exact ⟨verified, by rw [if_neg kept]⟩
  · exact ⟨verified, rfl⟩

theorem create_record (cache : ValidationCache) (id : Int)
    (bp : SourceBreakpoint) (sound : CacheSound source cache) :
    (createRecord source cache id bp).1.id = id ∧ MadeFor source bp (createRecord source cache id bp).1 ∧
      CacheSound source (createRecord source cache id bp).2 := by
  rw [createRecord]
  cases refused : refusal bp with
  | some message => exact ⟨rfl, ⟨rfl, rfl, rfl, rfl, rfl, nofun⟩, sound⟩
  | none =>
    have verdict := validate_cached source cache bp sound
    dsimp only
    rw [verdict.1]
    refine ⟨rfl, ⟨rfl, rfl, rfl, rfl, rfl, fun verified => ?_⟩, verdict.2⟩
    have kept := condition_verdict source bp _ verified
    exact ⟨refused, kept.1, kept.2⟩

end

def idsFrom (first : Int) (count : Nat) : List Int :=
  (List.range count).map fun i : Nat => first + (i : Int)

variable (first : Int) (count : Nat)

theorem ids_from_succ : idsFrom first (count + 1) = first :: idsFrom (first + 1) count := by
  rw [idsFrom, range_succ_eq_map, map_cons, map_map]
  refine congr (congrArg List.cons (Int.add_zero first)) (map_congr_left fun i _ => ?_)
  change first + ((i + 1 : Nat) : Int) = first + 1 + (i : Int)
  omega

variable {path : String} (windows : Bool) (store : BreakpointStore) (id : Int)

theorem mem_ids_from (among : id ∈ idsFrom first count) : first ≤ id ∧ id < first + count := by
  obtain ⟨i, below, rfl⟩ := mem_map.mp among
  have bound := mem_range.mp below
  omega

theorem ids_from_increasing : (idsFrom first count).Pairwise (· < ·) := by
  refine pairwise_map.mpr (pairwise_lt_range.imp ?_)
  omega

variable (args : SetBreakpointsArguments) (source : SourceContent)

theorem create_records (requested : List SourceBreakpoint) (cache : ValidationCache) (nextId : Int)
    (sound : CacheSound source cache) :
    List.Forall₂ (MadeFor source) requested (createRecords source cache nextId requested).1 ∧
      (createRecords source cache nextId requested).1.map BreakpointRecord.id =
        idsFrom nextId requested.length ∧
      (createRecords source cache nextId requested).2 = nextId + requested.length := by
  induction requested generalizing cache nextId with
  | nil => exact ⟨.nil, rfl, (Int.add_zero nextId).symm⟩
  | cons bp rest ih =>
    have first := create_record source cache nextId bp sound
    have others := ih _ (nextId + 1) first.2.2
    refine ⟨.cons first.2.1 others.1, ?_, ?_⟩
    · rw [length_cons, ids_from_succ, ← others.2.1, createRecords, map_cons, first.1]
    · rw [createRecords, length_cons]
      have last := others.2.2
      dsimp only at last ⊢
      omega

def Acknowledged (store : BreakpointStore) (path : String) (record : BreakpointRecord)
    (installation : EngineInstallation) : Prop :=
  record ∈ bucket store.breakpoints path ∧ record.verified = true ∧
    store.engineInstallations[record.id]? = some installation ∧
    installation.sourcePath = path ∧ installation.line = record.line

structure Linked (store : BreakpointStore) : Prop where
  below : ∀ path : String, ∀ record ∈ bucket store.breakpoints path, record.id < store.nextId
  unique : ∀ path other : String, ∀ record ∈ bucket store.breakpoints path,
    ∀ twin ∈ bucket store.breakpoints other, record.id = twin.id → path = other ∧ record = twin
  installed : ∀ (id : Int) (installation : EngineInstallation),
    store.engineInstallations[id]? = some installation →
      ∃ record, record.id = id ∧ Acknowledged store installation.sourcePath record installation

theorem new_linked : Linked BreakpointStore.new where
  below path record among := by
    exact absurd among not_mem_nil
  unique path other record among := by
    exact absurd among not_mem_nil
  installed id installation found := by
    cases found

structure Replaced (store after : BreakpointStore) (path : String)
    (records : List BreakpointRecord) : Prop where
  own : bucket after.breakpoints path = records
  others : ∀ other : String, other ≠ path → after.breakpoints[other]? = store.breakpoints[other]?
  fresh : ∀ record ∈ records, store.nextId ≤ record.id ∧ record.id < after.nextId
  increasing : (records.map BreakpointRecord.id).Pairwise (· < ·)
  advances : store.nextId ≤ after.nextId
  installations : ∀ id : Int, after.engineInstallations[id]? =
    if id ∈ (bucket store.breakpoints path).map BreakpointRecord.id then none
    else store.engineInstallations[id]?

variable {records : List BreakpointRecord}

theorem Replaced.bucket_other {store after : BreakpointStore}
    (replaced : Replaced store after path records) (other : String) (apart : other ≠ path) :
    bucket after.breakpoints other = bucket store.breakpoints other := by
  rw [bucket, bucket, replaced.others other apart]

theorem eq_of_increasing (increasing : (records.map BreakpointRecord.id).Pairwise (· < ·))
    (record : BreakpointRecord) (among : record ∈ records) (twin : BreakpointRecord)
    (other : twin ∈ records) (same : record.id = twin.id) : record = twin :=
  inj_on_of_nodup_map (increasing.imp fun before => Int.ne_of_lt before) among other same

theorem Replaced.linked {store after : BreakpointStore}
    (replaced : Replaced store after path records) (linked : Linked store) : Linked after where
  below := by
    intro other record among
    by_cases own : other = path
    · rw [own, replaced.own] at among
      exact (replaced.fresh record among).2
    · rw [replaced.bucket_other other own] at among
      exact Int.lt_of_lt_of_le (linked.below other record among) replaced.advances
  unique := by
    intro left right record among twin among' same
    by_cases ownLeft : left = path
    · rw [ownLeft, replaced.own] at among
      by_cases ownRight : right = path
      · rw [ownRight, replaced.own] at among'
        exact ⟨ownLeft.trans ownRight.symm,
          eq_of_increasing replaced.increasing record among twin among' same⟩
      rw [replaced.bucket_other right ownRight] at among'
      have old := linked.below right twin among'
      have new := (replaced.fresh record among).1
      omega
    · rw [replaced.bucket_other left ownLeft] at among
      by_cases ownRight : right = path
      · rw [ownRight, replaced.own] at among'
        have old := linked.below left record among
        have new := (replaced.fresh twin among').1
        omega
      · rw [replaced.bucket_other right ownRight] at among'
        exact linked.unique left right record among twin among' same
  installed := by
    intro id installation found
    rw [replaced.installations] at found
    split at found
    · cases found
    next kept =>
      obtain ⟨record, named, among, verified, held, own, line⟩ := linked.installed id installation found
      have apart : installation.sourcePath ≠ path := by
        intro same
        exact kept (mem_map.mpr ⟨record, same ▸ among, named⟩)
      refine ⟨record, named, ?_, verified, ?_, own, line⟩
      · rw [replaced.bucket_other _ apart]
        exact among
      · rw [replaced.installations, named, if_neg kept]
        exact found

section

include store

theorem set_breakpoints_replaces (args : SetBreakpointsArguments)
    (source : SourceContent) (path : String) (given : args.sourcePath = some path) :
    Replaced store (store.setBreakpoints args source).2 path
      (createRecords source [] store.nextId (args.breakpoints.getD [])).1 := by
  have made := create_records source (args.breakpoints.getD []) [] store.nextId fun _ _ => nofun
  simp only [setBreakpoints, given]
  generalize createRecords source [] store.nextId (args.breakpoints.getD []) = created at made ⊢
  obtain ⟨records, nextId⟩ := created
  obtain ⟨-, ids, last⟩ := made
  dsimp only at ids last ⊢
  exact {
    own := by
      by_cases empty : records = []
      · subst empty
        rw [isEmpty_nil, if_pos rfl, bucket, TreeMap.getElem?_erase_self]
        rfl
      · rw [if_neg fun isEmpty => empty (List.isEmpty_iff.mp isEmpty), bucket_insert, if_pos rfl]
    others := by
      intro other apart
      have different : compare path other ≠ .eq := fun same =>
        apart (Std.compare_eq_iff_eq.mp same).symm
      split
      · rw [TreeMap.getElem?_erase, if_neg different]
      · rw [getElem?_insert, if_neg (Ne.symm apart), TreeMap.getElem?_erase, if_neg different]
    fresh := by
      intro record among
      rw [last]
      refine mem_ids_from store.nextId _ record.id ?_
      rw [← ids]
      exact mem_map_of_mem among
    increasing := by
      rw [ids]
      exact ids_from_increasing _ _
    advances := by
      rw [last]
      exact Int.le_add_of_nonneg_right (Int.natCast_nonneg _)
    installations := fun id => getElem?_erase_all _ _ _ }

theorem clear_breakpoints_replaces (path : String) :
    Replaced store (store.clearBreakpoints path) path [] where
  own := by
    rw [clearBreakpoints, bucket, TreeMap.getElem?_erase_self]
    rfl
  others := by
    intro other apart
    rw [clearBreakpoints, TreeMap.getElem?_erase,
      if_neg fun same => apart (Std.compare_eq_iff_eq.mp same).symm]
  fresh := fun record among => absurd among not_mem_nil
  increasing := .nil
  advances := Int.le_refl _
  installations := fun id => getElem?_erase_all _ _ _

theorem mem_all_records (path : String) (record : BreakpointRecord)
    (among : record ∈ bucket store.breakpoints path) : record ∈ store.allRecords := by
  cases found : store.breakpoints[path]? with
  | none =>
    rw [bucket, found] at among
    exact absurd among not_mem_nil
  | some records =>
    rw [bucket, found] at among
    exact mem_flatten.mpr ⟨records, mem_rows _ path records found, among⟩

/-- Clearing everything drops every acknowledgement: each belongs to a stored record. -/
theorem clear_all_installations (linked : Linked store) (id : Int) :
    store.clearAll.engineInstallations[id]? = none := by
  rw [clearAll, getElem?_erase_all]
  split
  · rfl
  next kept =>
    cases found : store.engineInstallations[id]? with
    | none => rfl
    | some installation =>
      obtain ⟨record, named, among, -⟩ := linked.installed id installation found
      exact absurd (mem_map.mpr ⟨record, mem_all_records store _ record among, named⟩) kept

theorem clear_all_linked (linked : Linked store) : Linked store.clearAll where
  below path record among := by
    exact absurd among not_mem_nil
  unique path other record among := by
    exact absurd among not_mem_nil
  installed id installation found := by
    rw [clear_all_installations store linked] at found
    cases found

theorem mark_engine_installed_linked (id : Int) (path : String)
    (line : Int) (generation : Nat) (digest : String) (linked : Linked store) :
    Linked (store.markEngineInstalled id path line generation digest).2 := by
  rw [markEngineInstalled]
  cases found : store.breakpoints[path]? with
  | none => exact linked
  | some records =>
    dsimp only
    split
    next live =>
      obtain ⟨target, among, is⟩ := any_eq_true.mp live
      simp only [and_eq_true, beq_iff_eq] at is
      have stored : target ∈ bucket store.breakpoints path := by
        rw [bucket, found]
        exact among
      refine ⟨linked.below, linked.unique, ?_⟩
      intro other installation held
      rw [getElem?_insert] at held
      by_cases own : id = other
      · rw [if_pos own] at held
        cases held
        refine ⟨target, is.1.1.trans own, stored, is.1.2, ?_, rfl, is.2.symm⟩
        rw [getElem?_insert, if_pos is.1.1.symm]
      · rw [if_neg own] at held
        obtain ⟨record, named, among, verified, held, rest⟩ := linked.installed other installation held
        refine ⟨record, named, among, verified, ?_, rest⟩
        rw [getElem?_insert, if_neg fun same => own (same.trans named)]
        exact held
    next => exact linked

end

section Hits
/-- The record may be credited with the stop: the engine acknowledged this very record for the
stop's session and text. -/
def Credited (store : BreakpointStore) (hit : EngineHit) (path : String)
    (record : BreakpointRecord) : Prop :=
  filePathsMatch windows path hit.sourcePath = true ∧ record.line = hit.line ∧
    ∃ installation, Acknowledged store path record installation ∧
      installation.sessionGeneration = hit.sessionGeneration ∧
      installation.sourceDigest = hit.sourceDigest

theorem credits_iff (store : BreakpointStore) (linked : Linked store) (hit : EngineHit)
    (path : String) (spelled : filePathsMatch windows path hit.sourcePath = true)
    (record : BreakpointRecord) (among : record ∈ bucket store.breakpoints path) :
    credits windows store.engineInstallations hit record = true ↔
      Credited windows store hit path record := by
  constructor
  · intro credited
    rw [credits] at credited
    cases held : store.engineInstallations[record.id]? with
    | none =>
      rw [held] at credited
      cases credited
    | some installation =>
      rw [held] at credited
      simp only [and_eq_true, beq_iff_eq] at credited
      obtain ⟨⟨⟨⟨⟨generation, -⟩, -⟩, digest⟩, line⟩, -⟩ := credited
      obtain ⟨owner, named, stored, verified, again, own, sameLine⟩ :=
        linked.installed record.id installation held
      -- the acknowledged record carries the same id, so it is this record
      obtain ⟨samePath, rfl⟩ := linked.unique path _ record among owner stored named.symm
      refine ⟨spelled, line, installation, ?_, generation, digest⟩
      exact ⟨among, verified, held, samePath.symm, sameLine⟩
  · rintro ⟨-, line, installation, ⟨-, verified, held, own, sameLine⟩, generation, digest⟩
    simp only [credits, held, and_eq_true, beq_iff_eq]
    exact ⟨⟨⟨⟨⟨generation, own ▸ spelled⟩, sameLine.trans line⟩, digest⟩, line⟩, verified⟩

theorem add_hit_cases (outcome : EngineBreakpointHitOutcome) (record : BreakpointRecord) :
    (addHit outcome record).matched = true ∧ (∀ id ∈ (addHit outcome record).hitBreakpointIds,
        id ∈ outcome.hitBreakpointIds ∨ record.id = id) ∧
      (∀ message ∈ (addHit outcome record).logMessages,
        message ∈ outcome.logMessages ∨ record.logMessage = some message) ∧
      ((outcome.shouldStop = true ↔ outcome.hitBreakpointIds ≠ []) →
        ((addHit outcome record).shouldStop = true ↔ (addHit outcome record).hitBreakpointIds ≠ [])) := by
  simp only [addHit]
  split
  · cases logged : record.logMessage with
    | some text =>
      refine ⟨rfl, fun id => .inl, ?_, id⟩
      intro message among
      refine (mem_append.mp among).imp id fun last => ?_
      rw [mem_singleton.mp last]
    | none =>
      refine ⟨rfl, ?_, fun message => .inl, fun _ => ?_⟩
      · intro id among
        exact (mem_append.mp among).imp_right fun last => (mem_singleton.mp last).symm
      · exact iff_of_true rfl (append_ne_nil_of_right_ne_nil _ (cons_ne_nil _ _))
  · exact ⟨rfl, fun id => .inl, fun message => .inl, id⟩

theorem fold_hits (records : List BreakpointRecord) (outcome : EngineBreakpointHitOutcome) :
    ((records.foldl addHit outcome).matched = true ↔ outcome.matched = true ∨ records ≠ []) ∧
      (∀ id ∈ (records.foldl addHit outcome).hitBreakpointIds,
        id ∈ outcome.hitBreakpointIds ∨ ∃ record ∈ records, record.id = id) ∧
      (∀ message ∈ (records.foldl addHit outcome).logMessages,
        message ∈ outcome.logMessages ∨ ∃ record ∈ records, record.logMessage = some message) ∧
      ((outcome.shouldStop = true ↔ outcome.hitBreakpointIds ≠ []) →
        ((records.foldl addHit outcome).shouldStop = true ↔
          (records.foldl addHit outcome).hitBreakpointIds ≠ [])) := by
  induction records generalizing outcome with
  | nil =>
    refine ⟨?_, fun id => .inl, fun message => .inl, id⟩
    exact ⟨.inl, fun either => either.resolve_right fun nonempty => nonempty rfl⟩
  | cons first rest ih =>
    obtain ⟨matched, ids, messages, stops⟩ := add_hit_cases outcome first
    obtain ⟨matchedRest, idsRest, messagesRest, stopsRest⟩ := ih (addHit outcome first)
    rw [foldl_cons]
    refine ⟨?_, ?_, ?_, fun stop => stopsRest (stops stop)⟩
    · exact iff_of_true (matchedRest.mpr (.inl matched)) (.inr (cons_ne_nil _ _))
    · intro id among
      rcases idsRest id among with held | ⟨record, later, same⟩
      · refine (ids id held).imp_right fun same => ?_
        exact ⟨first, mem_cons_self, same⟩
      · exact .inr ⟨record, mem_cons_of_mem first later, same⟩
    · intro message among
      rcases messagesRest message among with held | ⟨record, later, same⟩
      · refine (messages message held).imp_right fun same => ?_
        exact ⟨first, mem_cons_self, same⟩
      · exact .inr ⟨record, mem_cons_of_mem first later, same⟩

/-- A stop counts a hit of acknowledged records and of no other record, and what it reports comes
from them. -/
structure HitsCredited (store after : BreakpointStore) (hit : EngineHit)
    (outcome : EngineBreakpointHitOutcome) : Prop where
  counted : ∃ count : String → BreakpointRecord → BreakpointRecord, ∀ path : String,
    bucket after.breakpoints path = (bucket store.breakpoints path).map (count path) ∧
      ∀ record ∈ bucket store.breakpoints path,
        (Credited windows store hit path record → count path record = countHit record) ∧
          (¬ Credited windows store hit path record → count path record = record)
  matched : outcome.matched = true ↔ ∃ path record, Credited windows store hit path record
  stops : outcome.shouldStop = true ↔ outcome.hitBreakpointIds ≠ []
  ids : ∀ id ∈ outcome.hitBreakpointIds, ∃ path record,
    Credited windows store hit path record ∧ record.id = id
  messages : ∀ message ∈ outcome.logMessages, ∃ path record,
    Credited windows store hit path record ∧ record.logMessage = some message
  nextId : after.nextId = store.nextId
  installations : after.engineInstallations = store.engineInstallations

theorem mem_hit_records (store : BreakpointStore) (linked : Linked store) (hit : EngineHit)
    (record : BreakpointRecord) : record ∈ ((store.breakpoints.toList.filter
        fun entry => filePathsMatch windows entry.1 hit.sourcePath).flatMap Prod.snd).filter
          (credits windows store.engineInstallations hit) ↔
      ∃ path, Credited windows store hit path record := by
  rw [mem_filter, mem_flatMap]
  constructor
  · rintro ⟨⟨⟨path, records⟩, entry, among⟩, credited⟩
    obtain ⟨listed, spelled⟩ := mem_filter.mp entry
    have held := TreeMap.mem_toList_iff_getElem?_eq_some.mp listed
    have stored : record ∈ bucket store.breakpoints path := by
      rw [bucket, held]
      exact among
    exact ⟨path, (credits_iff windows store linked hit path spelled record stored).mp credited⟩
  · rintro ⟨path, credited⟩
    obtain ⟨spelled, -, installation, ⟨stored, -⟩, -⟩ := id credited
    refine ⟨?_, (credits_iff windows store linked hit path spelled record stored).mpr credited⟩
    cases held : store.breakpoints[path]? with
    | none =>
      rw [bucket, held] at stored
      exact absurd stored not_mem_nil
    | some records =>
      rw [bucket, held] at stored
      refine ⟨(path, records), mem_filter.mpr ⟨?_, spelled⟩, stored⟩
      exact TreeMap.mem_toList_iff_getElem?_eq_some.mpr held

theorem register_hit_credits (store : BreakpointStore) (linked : Linked store) (hit : EngineHit) :
    HitsCredited windows store (store.registerEngineBreakpointHit windows hit).2 hit
      (store.registerEngineBreakpointHit windows hit).1 := by
  have listed := mem_hit_records windows store linked hit
  rw [registerEngineBreakpointHit]
  generalize ((store.breakpoints.toList.filter
    fun entry => filePathsMatch windows entry.1 hit.sourcePath).flatMap Prod.snd).filter
      (credits windows store.engineInstallations hit) = credited at listed ⊢
  have outcome := fold_hits (credited.map countHit) ⟨false, false, [], []⟩
  obtain ⟨matched, ids, messages, stops⟩ := outcome
  exact {
    counted := by
      refine ⟨fun path record => if filePathsMatch windows path hit.sourcePath &&
        credits windows store.engineInstallations hit record then countHit record else record,
        fun path => ⟨?_, fun record among => ?_⟩⟩
      · rw [bucket, TreeMap.getElem?_map, bucket]
        cases store.breakpoints[path]? with
        | none => rfl
        | some records =>
          cases spelled : filePathsMatch windows path hit.sourcePath with
          | true => simp only [Option.map_some, spelled, if_true, Bool.true_and, Option.getD_some]
          | false =>
            simp only [Option.map_some, spelled, Bool.false_and, false_eq_true, if_false, map_id']
      · by_cases spelled : filePathsMatch windows path hit.sourcePath = true
        · have credited := credits_iff windows store linked hit path spelled record among
          simp only [spelled]
          exact ⟨fun is => if_pos (credited.mpr is), fun not => if_neg (mt credited.mp not)⟩
        · refine ⟨fun is => absurd is.1 spelled, fun _ => if_neg fun both => spelled ?_⟩
          exact (Bool.and_eq_true_iff.mp both).1
    matched := by
      rw [matched]
      constructor
      · rintro (no | some)
        · cases no
        · obtain ⟨counted, among⟩ := exists_mem_of_ne_nil _ some
          obtain ⟨record, among, -⟩ := mem_map.mp among
          obtain ⟨path, is⟩ := (listed record).mp among
          exact ⟨path, record, is⟩
      · rintro ⟨path, record, is⟩
        exact .inr (ne_nil_of_mem (mem_map_of_mem ((listed record).mpr ⟨path, is⟩)))
    stops := stops (iff_of_false Bool.false_ne_true fun nonempty => nonempty rfl)
    ids := by
      intro id among
      obtain ⟨counted, inside, named⟩ := (ids id among).resolve_left not_mem_nil
      obtain ⟨record, own, rfl⟩ := mem_map.mp inside
      obtain ⟨path, is⟩ := (listed record).mp own
      exact ⟨path, record, is, named⟩
    messages := by
      intro message among
      obtain ⟨counted, inside, logged⟩ := (messages message among).resolve_left not_mem_nil
      obtain ⟨record, own, rfl⟩ := mem_map.mp inside
      obtain ⟨path, is⟩ := (listed record).mp own
      exact ⟨path, record, is, logged⟩
    nextId := rfl
    installations := rfl }

theorem HitsCredited.linked {windows : Bool} {store after : BreakpointStore} {hit : EngineHit}
    {outcome : EngineBreakpointHitOutcome} (credited : HitsCredited windows store after hit outcome)
    (linked : Linked store) : Linked after := by
  obtain ⟨count, counted⟩ := credited.counted
  -- counting a hit leaves what the link is about
  have same : ∀ path : String, ∀ record ∈ bucket store.breakpoints path,
      (count path record).id = record.id ∧ (count path record).line = record.line ∧
        (count path record).verified = record.verified := by
    intro path record among
    by_cases is : Credited windows store hit path record
    · rw [((counted path).2 record among).1 is]
      exact ⟨rfl, rfl, rfl⟩
    · rw [((counted path).2 record among).2 is]
      exact ⟨rfl, rfl, rfl⟩
  have old : ∀ path : String, ∀ record ∈ bucket after.breakpoints path,
      ∃ before ∈ bucket store.breakpoints path, count path before = record := by
    intro path record among
    rw [(counted path).1] at among
    exact mem_map.mp among
  constructor
  · intro path record among
    obtain ⟨before, inside, rfl⟩ := old path record among
    rw [(same path before inside).1, credited.nextId]
    exact linked.below path before inside
  · intro path other record among twin among' ids
    obtain ⟨before, inside, rfl⟩ := old path record among
    obtain ⟨beforeTwin, insideTwin, rfl⟩ := old other twin among'
    rw [(same path before inside).1, (same other beforeTwin insideTwin).1] at ids
    obtain ⟨rfl, rfl⟩ := linked.unique path other before inside beforeTwin insideTwin ids
    exact ⟨rfl, rfl⟩
  · intro id installation found
    rw [credited.installations] at found
    obtain ⟨record, named, among, verified, held, own, line⟩ := linked.installed id installation found
    obtain ⟨sameId, sameLine, sameVerified⟩ := same _ record among
    refine ⟨count installation.sourcePath record, sameId.trans named, ?_,
      sameVerified.trans verified, ?_, rfl, line.trans sameLine.symm⟩
    · rw [(counted installation.sourcePath).1]
      exact mem_map_of_mem among
    · rw [credited.installations, sameId]
      exact held

end Hits

inductive Op where
  | setBreakpoints (args : SetBreakpointsArguments) (source : SourceContent)
  | clearBreakpoints (path : String)
  | clearAll
  | markEngineInstalled (id : Int) (path : String) (line : Int) (sessionGeneration : Nat)
      (sourceDigest : String)
  | registerEngineBreakpointHit (hit : EngineHit)

/-- The store with the ids in the replies so far, in order, and those of the records that were
replaced or cleared. -/
structure Session where
  store : BreakpointStore
  handedOut : List Int
  retired : List Int

def Session.new : Session := ⟨.new, [], []⟩

def retires (store : BreakpointStore) : Op → List Int
  | .setBreakpoints args _ =>
    match args.sourcePath with
    | none => []
    | some path => (bucket store.breakpoints path).map BreakpointRecord.id
  | .clearBreakpoints path => (bucket store.breakpoints path).map BreakpointRecord.id
  | .clearAll => store.allRecords.map BreakpointRecord.id
  | .markEngineInstalled .. => []
  | .registerEngineBreakpointHit _ => []

def replyIds (store : BreakpointStore) : Op → List Int
  | .setBreakpoints args source => (store.setBreakpoints args source).1.map Breakpoint.id
  | _ => []

def storeAfter (windows : Bool) (store : BreakpointStore) : Op → BreakpointStore
  | .setBreakpoints args source => (store.setBreakpoints args source).2
  | .clearBreakpoints path => store.clearBreakpoints path
  | .clearAll => store.clearAll
  | .markEngineInstalled id path line generation digest =>
    (store.markEngineInstalled id path line generation digest).2
  | .registerEngineBreakpointHit hit => (store.registerEngineBreakpointHit windows hit).2

def step (windows : Bool) (t : Session) (op : Op) : Session where
  store := storeAfter windows t.store op
  handedOut := t.handedOut ++ replyIds t.store op
  retired := t.retired ++ retires t.store op

/-- What an operation does to the ids: records stay, are retired, or are new under an id of the
reply. -/
structure Moves (store after : BreakpointStore) (replied retired : List Int) : Prop where
  linked : Linked after
  advances : store.nextId ≤ after.nextId
  increasing : replied.Pairwise (· < ·)
  fresh : ∀ id ∈ replied, store.nextId ≤ id ∧ id < after.nextId
  known : ∀ id ∈ retired, id < store.nextId
  live : ∀ path : String, ∀ record ∈ bucket after.breakpoints path,
    record.id ∈ replied ∨ record.id ∉ retired ∧
      ∃ old ∈ bucket store.breakpoints path, old.id = record.id

theorem Replaced.moves {store after : BreakpointStore}
    (replaced : Replaced store after path records) (linked : Linked store) :
    Moves store after (records.map BreakpointRecord.id)
      ((bucket store.breakpoints path).map BreakpointRecord.id) where
  linked := replaced.linked linked
  advances := replaced.advances
  increasing := replaced.increasing
  fresh := by
    intro id among
    obtain ⟨record, inside, rfl⟩ := mem_map.mp among
    exact replaced.fresh record inside
  known := by
    intro id among
    obtain ⟨record, inside, rfl⟩ := mem_map.mp among
    exact linked.below path record inside
  live := by
    intro other record among
    by_cases own : other = path
    · rw [own, replaced.own] at among
      exact .inl (mem_map_of_mem among)
    rw [replaced.bucket_other other own] at among
    refine .inr ⟨fun gone => ?_, record, among, rfl⟩
    obtain ⟨old, inside, same⟩ := mem_map.mp gone
    exact own (linked.unique other path record among old inside same.symm).1

theorem all_records_below (linked : Linked store) (record : BreakpointRecord)
    (among : record ∈ store.allRecords) : record.id < store.nextId := by
  obtain ⟨records, listed, inside⟩ := mem_flatten.mp among
  obtain ⟨⟨path, filed⟩, entry, rfl⟩ := mem_map.mp listed
  have held := TreeMap.mem_toList_iff_getElem?_eq_some.mp entry
  refine linked.below path record ?_
  rw [bucket, held]
  exact inside

theorem set_breakpoints_reply (path : String) (given : args.sourcePath = some path) :
    (store.setBreakpoints args source).1 =
      (createRecords source [] store.nextId (args.breakpoints.getD [])).1.map
        BreakpointRecord.toProtocol := by
  simp only [setBreakpoints, given]

theorem mark_engine_installed_records (path : String) (line : Int) (generation : Nat) (digest : String) :
    (store.markEngineInstalled id path line generation digest).2.breakpoints = store.breakpoints ∧
      (store.markEngineInstalled id path line generation digest).2.nextId = store.nextId := by
  rw [markEngineInstalled]
  cases store.breakpoints[path]? with
  | none => exact ⟨rfl, rfl⟩
  | some records =>
    dsimp only
    split
    · exact ⟨rfl, rfl⟩
    · exact ⟨rfl, rfl⟩

theorem moves_still (after : BreakpointStore) (linked : Linked after) (nextId : after.nextId = store.nextId)
    (old : ∀ path : String, ∀ record ∈ bucket after.breakpoints path,
      ∃ before ∈ bucket store.breakpoints path, before.id = record.id) : Moves store after [] [] where
  linked := linked
  advances := Int.le_of_eq nextId.symm
  increasing := .nil
  fresh := fun id among => absurd among not_mem_nil
  known := fun id among => absurd among not_mem_nil
  live := fun path record among => .inr ⟨not_mem_nil, old path record among⟩

theorem step_moves (linked : Linked store) (op : Op) :
    Moves store (storeAfter windows store op) (replyIds store op) (retires store op) := by
  cases op with
  | setBreakpoints args source =>
    cases given : args.sourcePath with
    | none =>
      have unchanged : store.setBreakpoints args source = ([], store) := by
        simp only [setBreakpoints, given]
      simp only [storeAfter, replyIds, retires, given, unchanged]
      exact moves_still store store linked rfl fun path record among => ⟨record, among, rfl⟩
    | some path =>
      have moves := (set_breakpoints_replaces store args source path given).moves linked
      simp only [replyIds, retires, given, set_breakpoints_reply store args source path given, map_map]
      exact moves
  | clearBreakpoints path => exact (clear_breakpoints_replaces store path).moves linked
  | clearAll =>
    exact {
      linked := clear_all_linked store linked
      advances := Int.le_refl _
      increasing := .nil
      fresh := fun id among => absurd among not_mem_nil
      known := by
        intro id among
        obtain ⟨record, inside, rfl⟩ := mem_map.mp among
        exact all_records_below store linked record inside
      live := by
        intro path record among
        exact absurd among not_mem_nil }
  | markEngineInstalled id path line generation digest =>
    have records := mark_engine_installed_records store id path line generation digest
    refine moves_still store _ (mark_engine_installed_linked store id path line generation digest
      linked) records.2 fun other record among => ⟨record, ?_, rfl⟩
    rw [← records.1]
    exact among
  | registerEngineBreakpointHit hit =>
    have credited := register_hit_credits windows store linked hit
    refine moves_still store _ (credited.linked linked) credited.nextId fun path record among => ?_
    obtain ⟨count, counted⟩ := credited.counted
    rw [storeAfter, (counted path).1] at among
    obtain ⟨before, inside, rfl⟩ := mem_map.mp among
    refine ⟨before, inside, ?_⟩
    by_cases is : Credited windows store hit path before
    · rw [((counted path).2 before inside).1 is]
      rfl
    · rw [((counted path).2 before inside).2 is]

structure IdsKept (t : Session) : Prop where
  linked : Linked t.store
  increasing : t.handedOut.Pairwise (· < ·)
  handedBelow : ∀ id ∈ t.handedOut, id < t.store.nextId
  retiredBelow : ∀ id ∈ t.retired, id < t.store.nextId
  live : ∀ path : String, ∀ record ∈ bucket t.store.breakpoints path,
    record.id ∈ t.handedOut ∧ record.id ∉ t.retired

theorem new_ids_kept : IdsKept Session.new where
  linked := new_linked
  increasing := .nil
  handedBelow := fun id among => absurd among not_mem_nil
  retiredBelow := fun id among => absurd among not_mem_nil
  live := by
    intro path record among
    exact absurd among not_mem_nil

theorem ids_kept_step (t : Session) (op : Op) (kept : IdsKept t) : IdsKept (step windows t op) := by
  have moves := step_moves windows t.store kept.linked op
  constructor
  case linked => exact moves.linked
  case increasing =>
    refine pairwise_append.mpr ⟨kept.increasing, moves.increasing, ?_⟩
    intro id handed new among
    exact Int.lt_of_lt_of_le (kept.handedBelow id handed) (moves.fresh new among).1
  case handedBelow =>
    intro id among
    rcases mem_append.mp among with handed | new
    · exact Int.lt_of_lt_of_le (kept.handedBelow id handed) moves.advances
    · exact (moves.fresh id new).2
  case retiredBelow =>
    intro id among
    rcases mem_append.mp among with retired | gone
    · exact Int.lt_of_lt_of_le (kept.retiredBelow id retired) moves.advances
    · exact Int.lt_of_lt_of_le (moves.known id gone) moves.advances
  case live =>
    intro path record among
    rcases moves.live path record among with new | ⟨stays, old, inside, same⟩
    · refine ⟨mem_append_right _ new, fun gone => ?_⟩
      have bound := (moves.fresh _ new).1
      rcases mem_append.mp gone with retired | gone
      · have before := kept.retiredBelow _ retired
        omega
      · have before := moves.known _ gone
        omega
    · have before := kept.live path old inside
      rw [same] at before
      refine ⟨mem_append_left _ before.1, fun gone => ?_⟩
      exact (mem_append.mp gone).elim before.2 stays

/-- The reply to a request: a breakpoint for each requested one, in order; only the records of that
source are replaced. -/
structure Answered (store : BreakpointStore) (args : SetBreakpointsArguments)
    (source : SourceContent) (path : String) : Prop where
  reply : (store.setBreakpoints args source).1 =
    (bucket (store.setBreakpoints args source).2.breakpoints path).map BreakpointRecord.toProtocol
  each : List.Forall₂ (MadeFor source) (args.breakpoints.getD [])
    (bucket (store.setBreakpoints args source).2.breakpoints path)
  length : (store.setBreakpoints args source).1.length = (args.breakpoints.getD []).length
  others : ∀ other : String, other ≠ path →
    (store.setBreakpoints args source).2.breakpoints[other]? = store.breakpoints[other]?

theorem set_breakpoints_answered (path : String) (given : args.sourcePath = some path) :
    Answered store args source path := by
  have replaced := set_breakpoints_replaces store args source path given
  have reply := set_breakpoints_reply store args source path given
  have made := (create_records source (args.breakpoints.getD []) [] store.nextId fun _ _ => nofun).1
  constructor
  case reply => rw [replaced.own, reply]
  case each =>
    rw [replaced.own]
    exact made
  case length => rw [reply, length_map, made.length_eq]
  case others => exact replaced.others

/-- The store at any time: the ids handed out ascend, requests are answered one for one,
acknowledgements belong to live verified records of the same path and line, and a stop counts for
such records only. -/
structure Accounted (windows : Bool) (t : Session) : Prop where
  increasing : t.handedOut.Pairwise (· < ·)
  live : ∀ path : String, ∀ record ∈ bucket t.store.breakpoints path,
    record.id ∈ t.handedOut ∧ record.id ∉ t.retired
  answered : ∀ args source path, args.sourcePath = some path → Answered t.store args source path
  installed : ∀ (id : Int) (installation : EngineInstallation),
    t.store.engineInstallations[id]? = some installation → id ∉ t.retired ∧
      ∃ record, record.id = id ∧ Acknowledged t.store installation.sourcePath record installation
  hits : ∀ hit, HitsCredited windows t.store (t.store.registerEngineBreakpointHit windows hit).2 hit
      (t.store.registerEngineBreakpointHit windows hit).1 ∧
    ∀ path record, Credited windows t.store hit path record → record.id ∉ t.retired

theorem breakpoints_accounted (windows : Bool) (ops : List Op) :
    Along (step windows) (Accounted windows) Session.new ops := by
  have kept : Along (step windows) IdsKept Session.new ops :=
    along_of_invariant (step windows) IdsKept (ids_kept_step windows) Session.new ops new_ids_kept
  refine along_mono (step windows) (fun t kept => ?_) Session.new ops kept
  constructor
  case increasing => exact kept.increasing
  case live => exact kept.live
  case answered => exact set_breakpoints_answered t.store
  case installed =>
    intro id installation found
    obtain ⟨record, named, is⟩ := kept.linked.installed id installation found
    exact ⟨named ▸ (kept.live _ record is.1).2, record, named, is⟩
  case hits =>
    intro hit
    refine ⟨register_hit_credits windows t.store kept.linked hit, ?_⟩
    rintro path record ⟨-, -, installation, is, -⟩
    exact (kept.live path record is.1).2

end PerlLsp.Breakpoints
