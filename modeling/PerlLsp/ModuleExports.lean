import PerlLsp.ImportExport
import PerlLsp.Runs

/-! Exports over the life of a workspace: semantic/imports.rs as indexing and removing
files drive it. The index keeps one owner for each module name; the record beside it
keeps what every file exports since its latest update. -/
namespace PerlLsp.ImportExport
open Std Tables Runs Option

namespace ImportExportIndex

/-- What indexing a file does to the exports: the old ones go, the new ones are added. -/
def replaceModuleExports (index : ImportExportIndex) (sourceUri : String)
    (exports : List (String × ExportSet)) : ImportExportIndex :=
  exports.foldl (fun index entry => index.addModuleExports sourceUri entry.1 entry.2)
    (index.removeModuleExports sourceUri)

end ImportExportIndex

inductive ExportOp where
  | update (sourceUri : String) (exports : List (String × ExportSet))
  | remove (sourceUri : String)

namespace ExportOp

def sourceUri : ExportOp → String
  | update sourceUri _ => sourceUri
  | remove sourceUri => sourceUri

def exports : ExportOp → List (String × ExportSet)
  | update _ exports => exports
  | remove _ => []

end ExportOp

def declaredSet : List (String × ExportSet) → String → Option ExportSet
  | [], _ => none
  | entry :: rest, moduleName =>
    match declaredSet rest moduleName with
    | some set => some set
    | none => if entry.1 = moduleName then some entry.2 else none

structure ExportState where
  index : ImportExportIndex
  latest : String → List (String × ExportSet)

namespace ExportState

def new : ExportState := ⟨.new, fun _ => []⟩

def step (s : ExportState) (op : ExportOp) : ExportState where
  index :=
    match op with
    | .update sourceUri exports => s.index.replaceModuleExports sourceUri exports
    | .remove sourceUri => s.index.removeModuleExports sourceUri
  latest := fun other => if other = op.sourceUri then op.exports else s.latest other

def Available (s : ExportState) : Prop :=
  ∀ moduleName,
    ((∃ set, s.index.getExportsForModule moduleName = some set) ↔
      ∃ file set, declaredSet (s.latest file) moduleName = some set) ∧
    ∀ set, s.index.getExportsForModule moduleName = some set →
      ∃ file, declaredSet (s.latest file) moduleName = some set

def GivesUpAlone (s : ExportState) (op : ExportOp) : Prop :=
  ∀ moduleName, s.index.moduleToSourceUri[moduleName]? = some op.sourceUri →
    declaredSet op.exports moduleName = none →
    ∀ other, other ≠ op.sourceUri → declaredSet (s.latest other) moduleName = none

structure Owned (s : ExportState) : Prop where
  ofOwner : ∀ moduleName, s.index.getExportsForModule moduleName =
    s.index.moduleToSourceUri[moduleName]?.bind fun owner => declaredSet (s.latest owner) moduleName
  declares : ∀ moduleName owner, s.index.moduleToSourceUri[moduleName]? = some owner →
    ∃ set, declaredSet (s.latest owner) moduleName = some set

end ExportState

namespace ImportExportIndex

def ownedModules (index : ImportExportIndex) (sourceUri : String) : List String :=
  index.moduleToSourceUri.toList.filterMap fun entry =>
    if entry.2 = sourceUri then some entry.1 else none

section
variable (index : ImportExportIndex) (sourceUri moduleName : String)
include index sourceUri moduleName

theorem mem_owned_modules : moduleName ∈ index.ownedModules sourceUri ↔
      index.moduleToSourceUri[moduleName]? = some sourceUri := by
  rw [ownedModules, List.mem_filterMap, ← TreeMap.mem_toList_iff_getElem?_eq_some]
  constructor
  · rintro ⟨⟨name, owner⟩, among, kept⟩
    split at kept
    next same =>
      cases kept
      cases same
      exact among
    · cases kept
  · intro among
    exact ⟨(moduleName, sourceUri), among, if_pos rfl⟩

theorem remove_owner : (index.removeModuleExports sourceUri).moduleToSourceUri[moduleName]? =
      if index.moduleToSourceUri[moduleName]? = some sourceUri then none
      else index.moduleToSourceUri[moduleName]? := by
  have owned := index.mem_owned_modules sourceUri moduleName
  rw [removeModuleExports, getElem?_erase_all]
  exact if_congr owned rfl rfl

theorem remove_found : (index.removeModuleExports sourceUri).getExportsForModule moduleName =
      if index.moduleToSourceUri[moduleName]? = some sourceUri then none
      else index.getExportsForModule moduleName := by
  have owned := index.mem_owned_modules sourceUri moduleName
  rw [removeModuleExports, getExportsForModule, getElem?_erase_all]
  exact if_congr owned rfl rfl

end

theorem add_all (exports : List (String × ExportSet)) (index : ImportExportIndex)
    (sourceUri moduleName : String) :
    let added := exports.foldl (fun index entry => index.addModuleExports sourceUri entry.1 entry.2) index
    added.getExportsForModule moduleName =
        (declaredSet exports moduleName).or (index.getExportsForModule moduleName) ∧
      added.moduleToSourceUri[moduleName]? = ((declaredSet exports moduleName).map fun _ => sourceUri).or
          index.moduleToSourceUri[moduleName]? := by
  induction exports generalizing index with
  | nil => exact ⟨rfl, rfl⟩
  | cons entry rest ih =>
    obtain ⟨found, owner⟩ := ih (index.addModuleExports sourceUri entry.1 entry.2)
    rw [List.foldl_cons, declaredSet]
    constructor
    · rw [found, getExportsForModule, addModuleExports, getElem?_insert]
      cases declaredSet rest moduleName with
      | some set => rfl
      | none =>
        by_cases same : entry.1 = moduleName
        · simp only [if_pos same, none_or, some_or]
        · simp only [if_neg same, none_or, getExportsForModule]
    · rw [owner, addModuleExports, getElem?_insert]
      cases declaredSet rest moduleName with
      | some set => rfl
      | none =>
        by_cases same : entry.1 = moduleName
        · simp only [if_pos same, map_none, none_or, map_some, some_or]
        · simp only [if_neg same, map_none, none_or]

end ImportExportIndex

namespace ExportState

section
variable (s : ExportState) (op : ExportOp)
include s op

theorem step_found (moduleName : String) :
    (s.step op).index.getExportsForModule moduleName = (declaredSet op.exports moduleName).or
        (if s.index.moduleToSourceUri[moduleName]? = some op.sourceUri then none
        else s.index.getExportsForModule moduleName) := by
  cases op with
  | update sourceUri exports =>
    have added := ImportExportIndex.add_all exports (s.index.removeModuleExports sourceUri)
      sourceUri moduleName
    rw [ImportExportIndex.remove_found] at added
    exact added.1
  | remove sourceUri => exact ImportExportIndex.remove_found s.index sourceUri moduleName

theorem step_owner (moduleName : String) : (s.step op).index.moduleToSourceUri[moduleName]? =
      ((declaredSet op.exports moduleName).map fun _ => op.sourceUri).or
        (if s.index.moduleToSourceUri[moduleName]? = some op.sourceUri then none
        else s.index.moduleToSourceUri[moduleName]?) := by
  cases op with
  | update sourceUri exports =>
    have added := ImportExportIndex.add_all exports (s.index.removeModuleExports sourceUri)
      sourceUri moduleName
    rw [ImportExportIndex.remove_owner] at added
    exact added.2
  | remove sourceUri => exact ImportExportIndex.remove_owner s.index sourceUri moduleName

theorem step_latest (file : String) :
    (s.step op).latest file = if file = op.sourceUri then op.exports else s.latest file := rfl

end

theorem Owned.new : Owned new where
  ofOwner := by
    intro moduleName
    rfl
  declares := by
    intro moduleName owner found
    cases found

section
variable {s : ExportState} (owned : Owned s)
include s owned

theorem Owned.step (op : ExportOp) : Owned (s.step op) where
  ofOwner := by
    intro moduleName
    rw [step_found, step_owner]
    cases declared : declaredSet op.exports moduleName with
    | some set =>
      have own : declaredSet ((s.step op).latest op.sourceUri) moduleName = some set := by
        rw [step_latest, if_pos rfl, declared]
      exact own.symm
    | none =>
      rw [map_none, none_or, none_or, owned.ofOwner]
      split
      · rfl
      next others =>
        cases found : s.index.moduleToSourceUri[moduleName]? with
        | none => rfl
        | some owner =>
          have apart : owner ≠ op.sourceUri := fun same => others (same ▸ found)
          rw [bind_some, bind_some, step_latest, if_neg apart]
  declares := by
    intro moduleName owner found
    rw [step_owner] at found
    rw [step_latest]
    cases declared : declaredSet op.exports moduleName with
    | some set =>
      rw [declared] at found
      cases found
      rw [if_pos rfl]
      exact ⟨set, declared⟩
    | none =>
      rw [declared, map_none] at found
      split at found
      · cases found
      next others =>
        rw [if_neg fun same : owner = op.sourceUri => others (same ▸ found)]
        exact owned.declares moduleName owner found

/-- What is found is always the set of a file that exports the module. -/
theorem Owned.available_iff :
    Available s ↔ ∀ moduleName file set, declaredSet (s.latest file) moduleName = some set →
      ∃ owner, s.index.moduleToSourceUri[moduleName]? = some owner := by
  have ofFile (moduleName : String) (set : ExportSet)
      (found : s.index.getExportsForModule moduleName = some set) :
      ∃ file, declaredSet (s.latest file) moduleName = some set := by
    rw [owned.ofOwner] at found
    obtain ⟨owner, _, declared⟩ := Option.bind_eq_some_iff.mp found
    exact ⟨owner, declared⟩
  constructor
  · intro available moduleName file set declared
    obtain ⟨found, there⟩ := (available moduleName).1.mpr ⟨file, set, declared⟩
    rw [owned.ofOwner] at there
    obtain ⟨owner, owns, _⟩ := Option.bind_eq_some_iff.mp there
    exact ⟨owner, owns⟩
  · intro owners moduleName
    refine ⟨⟨?_, ?_⟩, ofFile moduleName⟩
    · rintro ⟨set, found⟩
      obtain ⟨file, declared⟩ := ofFile moduleName set found
      exact ⟨file, set, declared⟩
    · rintro ⟨file, set, declared⟩
      obtain ⟨owner, owns⟩ := owners moduleName file set declared
      obtain ⟨own, declares⟩ := owned.declares moduleName owner owns
      exact ⟨own, by rw [owned.ofOwner, owns, bind_some, declares]⟩

/-- One step keeps the exports available exactly when it takes nothing from another file. -/
theorem Owned.step_available (available : Available s)
    (op : ExportOp) : Available (s.step op) ↔ GivesUpAlone s op := by
  have owners := owned.available_iff.mp available
  rw [(owned.step op).available_iff]
  constructor
  · intro after moduleName owns given other apart
    cases declared : declaredSet (s.latest other) moduleName with
    | none => rfl
    | some set =>
      have still : declaredSet ((s.step op).latest other) moduleName = some set := by
        rw [step_latest, if_neg apart, declared]
      obtain ⟨owner, found⟩ := after moduleName other set still
      rw [step_owner, given, if_pos owns] at found
      cases found
  · intro alone moduleName file set declared
    rw [step_owner]
    rw [step_latest] at declared
    cases given : declaredSet op.exports moduleName with
    | some own => exact ⟨op.sourceUri, rfl⟩
    | none =>
      split at declared
      · rw [given] at declared
        cases declared
      next apart =>
        split
        next owns =>
          rw [alone moduleName owns given file apart] at declared
          cases declared
        · exact owners moduleName file set declared

end

/-- Exports stay available exactly when no file that is re-indexed or removed gives up a module it
owns while another file exports it. -/
theorem exports_available_iff (ops : List ExportOp) :
    Along step Available new ops ↔ StepsMeet step GivesUpAlone new ops := by
  have fresh : Available new := by
    rw [Owned.new.available_iff]
    intro moduleName file set declared
    cases declared
  calc Along step Available new ops ↔ Along step (fun s => Owned s ∧ Available s) new ops := by
        apply along_iff_of_invariant step Owned
        · exact fun _ op owned => owned.step op
        · exact fun _ owned => (and_iff_right owned).symm
        · exact Owned.new
    _ ↔ StepsMeet step GivesUpAlone new ops := by
        apply along_iff_steps
        · intro s op both
          rw [and_iff_right (both.1.step op)]
          exact both.1.step_available both.2 op
        · exact ⟨Owned.new, fresh⟩

def sharedPackage : List ExportOp :=
  let set : ExportSet := ⟨["helper"], [], [], .exactAst, .high, some "Shared", none⟩
  [.update "file:///a.pm" [("Shared", set)], .update "file:///b.pm" [("Shared", set)],
    .remove "file:///b.pm"]

theorem shared_package_lost : ¬ ∀ ops, Along step Available new ops := by
  intro every
  have last := (along_iff_prefixes step Available new sharedPackage).mp (every sharedPackage)
    sharedPackage [] (List.append_nil _).symm
  obtain ⟨set, found⟩ := (last "Shared").1.mpr ⟨"file:///a.pm", _, rfl⟩
  cases found

end ExportState

end PerlLsp.ImportExport
