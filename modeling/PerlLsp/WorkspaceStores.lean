import PerlLsp.WorkspaceEffects

/-! The stores that workspace/workspace_index.rs keeps beside its files: the symbol
cache, the search index and the global references. Each is patched where a file comes or
goes; here it is compared with what a rebuild from the files would give. -/
namespace PerlLsp.WorkspaceStores
open Std Tables Buckets StableSort Workspace WorkspaceIndex WorkspaceEffects Runs List

def definitionsAt (files : List FileIndex) (name : String) : List DefinitionCandidate :=
  files.flatMap fun file => filed (symbolEntries file) name

def searchedAt (files : List FileIndex) (name : String) : List WorkspaceSymbol :=
  files.flatMap fun file => filed (searchEntries file) name

def referencesAt (files : List FileIndex) (name : String) : List SymbolReference :=
  files.flatMap fun file => bucket file.references name

structure Derived (files : List FileIndex) (symbols : TreeMap String (List DefinitionCandidate))
    (searchIndex : TreeMap String (List WorkspaceSymbol))
    (globalReferences : TreeMap String (List SymbolReference)) : Prop where
  tidySymbols : Tidy symbols
  symbols : ∀ name, bucket symbols name = canonical compareCandidates (definitionsAt files name)
  tidySearch : Tidy searchIndex
  search : ∀ name, (bucket searchIndex name).Perm (searchedAt files name)
  references : ∀ name, (bucket globalReferences name).Perm (referencesAt files name)

def Apart (files : List FileIndex) : Prop :=
  files.Pairwise fun left right => left.sourceUri ≠ right.sourceUri

variable {symbol : WorkspaceSymbol} {candidate : DefinitionCandidate}
  {others files : List FileIndex}

theorem apart_perm (perm : files.Perm others) (apart : Apart files) : Apart others :=
  (perm.pairwise_iff fun different => Ne.symm different).mp apart

instance : TransCmp compareCandidates := by
  unfold compareCandidates
  infer_instance

theorem tied_uri {left right : DefinitionCandidate} (tied : compareCandidates left right = .eq) :
    left.location.uri = right.location.uri := by
  rw [compareCandidates, compareLex_eq_eq, compareLex_eq_eq] at tied
  exact Std.compare_eq_iff_eq.mp tied.2.1

variable {file : FileIndex}

theorem definition_uri {name : String} (member : candidate ∈ filed (symbolEntries file) name) :
    candidate.location.uri = file.sourceUri := by
  obtain ⟨symbol, listed, among⟩ := mem_flatMap.mp ((mem_filed _ _ _).mp member)
  obtain ⟨_, _, same⟩ := mem_map.mp among
  cases same
  exact file.ownSymbols symbol listed

theorem searched_uri {name : String} (member : symbol ∈ filed (searchEntries file) name) :
    symbol.uri = file.sourceUri := by
  obtain ⟨listed, inside, among⟩ := mem_flatMap.mp ((mem_filed _ _ _).mp member)
  rcases mem_cons.mp among with same | among
  · cases same
    exact file.ownSymbols _ inside
  · obtain ⟨_, _, same⟩ := mem_map.mp among
    cases same
    exact file.ownSymbols _ inside

theorem canonical_perm (perm : files.Perm others) (apart : Apart files) (name : String) :
    canonical compareCandidates (definitionsAt files name) =
      canonical compareCandidates (definitionsAt others name) := by
  refine canonical_groups _ perm (apart.imp fun {left right} different => ?_)
  intro first firstHere second secondHere tied
  exact different ((definition_uri firstHere).symm.trans ((tied_uri tied).trans (definition_uri secondHere)))

variable {globalRefs : TreeMap String (List SymbolReference)}
  {searchIndex : TreeMap String (List WorkspaceSymbol)}
  {symbols : TreeMap String (List DefinitionCandidate)}

theorem derived_perm {globalReferences : TreeMap String (List SymbolReference)}
    (perm : files.Perm others) (apart : Apart files)
    (derived : Derived files symbols searchIndex globalReferences) :
    Derived others symbols searchIndex globalReferences where
  tidySymbols := derived.tidySymbols
  symbols name := (derived.symbols name).trans (canonical_perm perm apart name)
  tidySearch := derived.tidySearch
  search name := (derived.search name).trans (perm.flatMap_right _)
  references name := (derived.references name).trans (perm.flatMap_right _)

theorem mem_symbolNames {name : String} (member : candidate ∈ filed (symbolEntries file) name) :
    name ∈ file.symbols.flatMap WorkspaceSymbol.names := by
  obtain ⟨symbol, listed, among⟩ := mem_flatMap.mp ((mem_filed _ _ _).mp member)
  obtain ⟨_, named, same⟩ := mem_map.mp among
  cases same
  exact mem_flatMap.mpr ⟨symbol, listed, named⟩

theorem mem_searchNames {name : String} (member : symbol ∈ filed (searchEntries file) name) :
    name ∈ file.symbols.flatMap WorkspaceSymbol.names := by
  obtain ⟨listed, inside, among⟩ := mem_flatMap.mp ((mem_filed _ _ _).mp member)
  refine mem_flatMap.mpr ⟨listed, inside, mem_append.mpr ?_⟩
  rcases mem_cons.mp among with same | among
  · cases same
    exact .inr mem_cons_self
  · obtain ⟨_, qualified, same⟩ := mem_map.mp among
    cases same
    exact .inl qualified

theorem retain_symbols {Row : Type} (uriOf : Row → String) (sourceUri : String)
    (symbols : List WorkspaceSymbol) (own : ∀ symbol ∈ symbols, symbol.uri = sourceUri)
    (table : TreeMap String (List Row)) : symbols.foldl (fun table symbol =>
        retainEach table symbol.names fun row => uriOf row != symbol.uri) table =
      retainEach table (symbols.flatMap WorkspaceSymbol.names) fun row => uriOf row != sourceUri := by
  induction symbols generalizing table with
  | nil => rfl
  | cons symbol rest ih =>
    obtain ⟨first, others⟩ := forall_mem_cons.mp own
    rw [foldl_cons, ih others, first, flatMap_cons, retainEach, retainEach, retainEach, foldl_append]

theorem removed_symbols (symbols : TreeMap String (List DefinitionCandidate)) (old : FileIndex) :
    incrementalRemoveSymbols symbols old = retainEach symbols (old.symbols.flatMap WorkspaceSymbol.names)
        fun candidate => candidate.location.uri != old.sourceUri :=
  retain_symbols (fun candidate : DefinitionCandidate => candidate.location.uri) _ _ old.ownSymbols symbols

theorem removed_search (searchIndex : TreeMap String (List WorkspaceSymbol)) (old : FileIndex) :
    incrementalRemoveSearch searchIndex old =
      retainEach searchIndex (old.symbols.flatMap WorkspaceSymbol.names)
        fun symbol => symbol.uri != old.sourceUri :=
  retain_symbols WorkspaceSymbol.uri _ _ old.ownSymbols searchIndex

theorem filter_foreign {Row : Type} (uriOf : Row → String) (uri : String)
    (own others : List Row) (mine : ∀ row ∈ own, uriOf row = uri)
    (foreign : ∀ row ∈ others, uriOf row ≠ uri) :
    (own ++ others).filter (fun row => uriOf row != uri) = others := by
  rw [filter_append, filter_eq_nil_iff.mpr fun row member kept =>
      bne_iff_ne.mp kept (mine row member), nil_append,
    filter_eq_self.mpr fun row member => bne_iff_ne.mpr (foreign row member)]

section
variable {uri : String} (apart : ∀ file ∈ files, file.sourceUri ≠ uri) (name : String)
include files uri apart name

theorem foreign_definitions : ∀ candidate ∈ definitionsAt files name, candidate.location.uri ≠ uri := by
  intro candidate member same
  obtain ⟨file, inside, here⟩ := mem_flatMap.mp member
  exact apart file inside ((definition_uri here).symm.trans same)

theorem foreign_searched : ∀ symbol ∈ searchedAt files name, symbol.uri ≠ uri := by
  intro symbol member same
  obtain ⟨file, inside, here⟩ := mem_flatMap.mp member
  exact apart file inside ((searched_uri here).symm.trans same)

theorem foreign_references : ∀ reference ∈ referencesAt files name, reference.uri ≠ uri := by
  intro reference member same
  obtain ⟨file, inside, here⟩ := mem_flatMap.mp member
  exact apart file inside ((file.ownReferences name reference here).symm.trans same)

end

section Removal
variable {old : FileIndex}

theorem bucket_removed_symbols (symbols : TreeMap String (List DefinitionCandidate))
    (apart : ∀ file ∈ files, file.sourceUri ≠ old.sourceUri) (name : String)
    (before : bucket symbols name = canonical compareCandidates (definitionsAt (old :: files) name)) :
    bucket (incrementalRemoveSymbols symbols old) name =
      canonical compareCandidates (definitionsAt files name) := by
  have split : definitionsAt (old :: files) name =
      filed (symbolEntries old) name ++ definitionsAt files name := flatMap_cons
  rw [removed_symbols, bucket_retainEach, before]
  by_cases named : name ∈ old.symbols.flatMap WorkspaceSymbol.names
  · rw [if_pos named, ← canonical_filter _ _ fun left right tied => by rw [tied_uri tied], split]
    exact congrArg _ (filter_foreign (fun candidate : DefinitionCandidate => candidate.location.uri)
      _ _ _ (fun _ => definition_uri) (foreign_definitions apart name))
  · have nothing : filed (symbolEntries old) name = [] :=
      eq_nil_iff_forall_not_mem.mpr fun _ member => named (mem_symbolNames member)
    rw [if_neg named, split, nothing, nil_append]

theorem bucket_removed_search (searchIndex : TreeMap String (List WorkspaceSymbol))
    (apart : ∀ file ∈ files, file.sourceUri ≠ old.sourceUri) (name : String)
    (before : (bucket searchIndex name).Perm (searchedAt (old :: files) name)) :
    (bucket (incrementalRemoveSearch searchIndex old) name).Perm (searchedAt files name) := by
  have split : searchedAt (old :: files) name =
      filed (searchEntries old) name ++ searchedAt files name := flatMap_cons
  rw [split] at before
  rw [removed_search, bucket_retainEach]
  by_cases named : name ∈ old.symbols.flatMap WorkspaceSymbol.names
  · rw [if_pos named]
    refine (before.filter _).trans (List.Perm.of_eq ?_)
    exact filter_foreign WorkspaceSymbol.uri _ _ _ (fun _ => searched_uri) (foreign_searched apart name)
  · have nothing : filed (searchEntries old) name = [] :=
      eq_nil_iff_forall_not_mem.mpr fun _ member => named (mem_searchNames member)
    rw [if_neg named]
    rwa [nothing, nil_append] at before

/-- The references are cleared of the URI the caller gives, which need not be the one the removed
file was stored under. -/
theorem bucket_removed_references (globalRefs : TreeMap String (List SymbolReference))
    (uri : String) (apart : ∀ file ∈ files, file.sourceUri ≠ uri)
    (own : old.sourceUri = uri ∨ ∀ name, bucket old.references name = []) (name : String)
    (before : (bucket globalRefs name).Perm (referencesAt (old :: files) name)) :
    (bucket (removeFileGlobalRefs globalRefs old uri) name).Perm (referencesAt files name) := by
  have split : referencesAt (old :: files) name =
      bucket old.references name ++ referencesAt files name := flatMap_cons
  rw [split] at before
  have mine : ∀ reference ∈ bucket old.references name, reference.uri = uri := by
    intro reference member
    rcases own with same | nothing
    · exact (old.ownReferences name reference member).trans same
    · rw [nothing name] at member
      cases member
  rw [removeFileGlobalRefs, bucket_retainEach]
  by_cases named : name ∈ old.references.keys
  · rw [if_pos named]
    refine (before.filter _).trans (List.Perm.of_eq ?_)
    exact filter_foreign (fun reference : SymbolReference => reference.uri) uri _ _ mine
      (foreign_references apart name)
  · have nothing : bucket old.references name = [] := by
      rw [bucket, TreeMap.getElem?_eq_none (mt TreeMap.mem_keys.mpr named)]
      rfl
    rw [if_neg named]
    rwa [nothing, nil_append] at before

theorem tidy_removed_symbols {symbols : TreeMap String (List DefinitionCandidate)}
    (tidy : Tidy symbols) : Tidy (incrementalRemoveSymbols symbols old) := by
  rw [removed_symbols]
  exact tidy_retainEach _ _ tidy

theorem tidy_removed_search {searchIndex : TreeMap String (List WorkspaceSymbol)}
    (tidy : Tidy searchIndex) : Tidy (incrementalRemoveSearch searchIndex old) := by
  rw [removed_search]
  exact tidy_retainEach _ _ tidy

section

include symbols searchIndex globalRefs

theorem derived_remove (uri : String) (derived : Derived (old :: files) symbols searchIndex globalRefs)
    (apart : Apart (old :: files)) (foreign : ∀ file ∈ files, file.sourceUri ≠ uri)
    (own : old.sourceUri = uri ∨ ∀ name, bucket old.references name = []) :
    Derived files (incrementalRemoveSymbols symbols old) (incrementalRemoveSearch searchIndex old)
      (removeFileGlobalRefs globalRefs old uri) := by
  have others : ∀ file ∈ files, file.sourceUri ≠ old.sourceUri :=
    fun file member => ((pairwise_cons.mp apart).1 file member).symm
  exact
    { tidySymbols := tidy_removed_symbols derived.tidySymbols
      symbols := fun name => bucket_removed_symbols symbols others name (derived.symbols name)
      tidySearch := tidy_removed_search derived.tidySearch
      search := fun name => bucket_removed_search searchIndex others name (derived.search name)
      references := fun name =>
        bucket_removed_references globalRefs uri foreign own name (derived.references name) }

theorem derived_sweep (gone : List String) (derived : Derived files symbols searchIndex globalRefs)
    (foreign : ∀ file ∈ files, file.sourceUri ∉ gone) :
    Derived files (retainAll symbols fun candidate => candidate.location.uri ∉ gone)
      (retainAll searchIndex fun symbol => symbol.uri ∉ gone)
      (retainAll globalRefs fun reference => reference.uri ∉ gone) where
  tidySymbols := tidy_retainAll _ _
  symbols name := by
    rw [bucket_retainAll, derived.symbols]
    refine filter_eq_self.mpr fun candidate member => decide_eq_true fun swept => ?_
    have listed : candidate ∈ definitionsAt files name :=
      (mem_canonical candidate _).mp member
    obtain ⟨file, inside, here⟩ := mem_flatMap.mp listed
    exact foreign file inside (definition_uri here ▸ swept)
  tidySearch := tidy_retainAll _ _
  search name := by
    rw [bucket_retainAll, filter_eq_self.mpr ?_]
    · exact derived.search name
    · refine fun symbol member => decide_eq_true fun swept => ?_
      obtain ⟨file, inside, here⟩ := mem_flatMap.mp ((derived.search name).mem_iff.mp member)
      exact foreign file inside (searched_uri here ▸ swept)
  references name := by
    rw [bucket_retainAll, filter_eq_self.mpr ?_]
    · exact derived.references name
    · refine fun reference member => decide_eq_true fun swept => ?_
      obtain ⟨file, inside, here⟩ :=
        mem_flatMap.mp ((derived.references name).mem_iff.mp member)
      exact foreign file inside (file.ownReferences name reference here ▸ swept)

end

end Removal

theorem bucket_added_symbols (symbols : TreeMap String (List DefinitionCandidate))
    (file : FileIndex) (files : List FileIndex) (apart : Apart (file :: files)) (name : String)
    (before : bucket symbols name = canonical compareCandidates (definitionsAt files name)) :
    bucket (incrementalAddSymbols symbols file) name =
      canonical compareCandidates (definitionsAt (file :: files) name) := by
  have swapped : canonical compareCandidates (definitionsAt files name ++ filed (symbolEntries file) name) =
      canonical compareCandidates (definitionsAt (file :: files) name) := by
    have perm : (files ++ [file]).Perm (file :: files) := perm_append_singleton file files
    rw [← canonical_perm perm (apart_perm perm.symm apart) name, definitionsAt, definitionsAt,
      flatMap_append, flatMap_singleton]
  rw [incrementalAddSymbols, bucket_modifyEach sortAndDedupDefinitionCandidates
    (fun rows => canonical_canonical rows) rfl, bucket_pushAll, before]
  by_cases touched : name ∈ ((symbolEntries file).map Prod.fst).eraseDups
  · rw [if_pos touched, sortAndDedupDefinitionCandidates, canonical_append, swapped]
  have nothing : filed (symbolEntries file) name = [] :=
    filed_eq_nil _ _ fun among => touched (mem_eraseDups.mpr among)
  rw [nothing, append_nil] at swapped
  rw [if_neg touched, nothing, append_nil, swapped]

theorem tidy_added_symbols (tidy : Tidy symbols) (file : FileIndex) :
    Tidy (incrementalAddSymbols symbols file) := by
  refine tidy_modifyEach _ (fun rows filled empty => filled ?_) _ (tidy_pushAll _ tidy)
  exact (canonical_eq_nil rows).mp empty

/-- The references of one file under one name, added bucket by bucket. -/
theorem bucket_extendAll {Row : Type} (entries : List (String × List Row))
    (distinct : (entries.map Prod.fst).Nodup) (table : TreeMap String (List Row)) (key : String) :
    bucket (entries.foldl (fun table entry => extend table entry.1 entry.2) table) key =
      bucket table key ++ ((entries.find? fun entry => entry.1 == key).map Prod.snd).getD [] := by
  induction entries generalizing table with
  | nil => exact (append_nil _).symm
  | cons entry rest ih =>
    obtain ⟨fresh, others⟩ := nodup_cons.mp distinct
    rw [foldl_cons, ih others, bucket_extend, find?_cons]
    by_cases same : entry.1 = key
    · have none : rest.find? (fun entry => entry.1 == key) = none := by
        refine find?_eq_none.mpr fun other among equal => fresh ?_
        exact mem_map.mpr ⟨other, among, (beq_iff_eq.mp equal).trans same.symm⟩
      rw [if_pos same, none, beq_iff_eq.mpr same]
      exact append_nil _
    · rw [if_neg same, beq_eq_false_iff_ne.mpr same, append_nil]

theorem bucket_added_references (globalRefs : TreeMap String (List SymbolReference))
    (file : FileIndex) (name : String) : bucket (addFileGlobalRefs globalRefs file) name =
      bucket globalRefs name ++ bucket file.references name := by
  rw [addFileGlobalRefs, bucket_extendAll _ (keys_nodup file.references)]
  congr 1
  rw [bucket]
  cases found : file.references.toList.find? fun entry => entry.1 == name with
  | none =>
    have absent : file.references[name]? = none := by
      refine Option.eq_none_iff_forall_ne_some.mpr fun rows there => ?_
      exact find?_eq_none.mp found (name, rows)
        (TreeMap.mem_toList_iff_getElem?_eq_some.mpr there) (beq_iff_eq.mpr rfl)
    rw [absent]
    rfl
  | some entry =>
    have there := TreeMap.mem_toList_iff_getElem?_eq_some.mp (mem_of_find?_eq_some found)
    have same : entry.1 = name :=
      beq_iff_eq.mp (find?_some (a := entry) found)
    rw [← same, there]
    rfl

theorem derived_add (file : FileIndex) (derived : Derived files symbols searchIndex globalRefs)
    (apart : Apart (file :: files)) : Derived (file :: files) (incrementalAddSymbols symbols file)
      (incrementalAddSearch searchIndex file) (addFileGlobalRefs globalRefs file) where
  tidySymbols := tidy_added_symbols derived.tidySymbols file
  symbols name := bucket_added_symbols symbols file files apart name (derived.symbols name)
  tidySearch := tidy_pushAll _ derived.tidySearch
  search name := by
    rw [incrementalAddSearch, bucket_pushAll]
    exact ((derived.search name).append_right _).trans perm_append_comm
  references name := by
    rw [bucket_added_references]
    exact ((derived.references name).append_right _).trans perm_append_comm

/-- Only the symbols and references of a file reach the stores. -/
theorem derived_replace (old new : FileIndex) (sameSymbols : new.symbols = old.symbols)
    (sameReferences : new.references = old.references)
    (derived : Derived (old :: files) symbols searchIndex globalRefs) :
    Derived (new :: files) symbols searchIndex globalRefs := by
  have definitions : ∀ name, definitionsAt (new :: files) name = definitionsAt (old :: files) name := by
    intro name
    simp only [definitionsAt, flatMap_cons, symbolEntries, sameSymbols]
  have searched : ∀ name, searchedAt (new :: files) name = searchedAt (old :: files) name := by
    intro name
    simp only [searchedAt, flatMap_cons, searchEntries, sameSymbols]
  have references : ∀ name, referencesAt (new :: files) name = referencesAt (old :: files) name := by
    intro name
    simp only [referencesAt, flatMap_cons, sameReferences]
  exact
    { tidySymbols := derived.tidySymbols
      symbols := fun name => (derived.symbols name).trans (by rw [definitions])
      tidySearch := derived.tidySearch
      search := fun name => searched name ▸ derived.search name
      references := fun name => references name ▸ derived.references name }

section Index
variable {Ast : Type} (env : Env Ast)

def Keyed (files : TreeMap String FileIndex) : Prop :=
  ∀ (key : String) (file : FileIndex), files[key]? = some file → key = env.uriKey file.sourceUri

structure Consistent (index : WorkspaceIndex) : Prop where
  keyed : Keyed env index.files
  derived : Derived (rows index.files) index.symbols index.searchIndex index.globalReferences

def SpelledOrBare (old : FileIndex) (uri : String) : Prop :=
  old.sourceUri = uri ∨ ∀ name, bucket old.references name = []

variable {env} {index : WorkspaceIndex}
variable {files : TreeMap String FileIndex}

theorem foreign_rows (keyed : Keyed env files)
    (key uri : String) (own : key = env.uriKey uri) (file : FileIndex)
    (member : file ∈ rows (files.erase key)) : file.sourceUri ≠ uri := by
  intro same
  obtain ⟨⟨other, row⟩, listed, rfl⟩ := mem_map.mp member
  have found := TreeMap.mem_toList_iff_getElem?_eq_some.mp listed
  rw [TreeMap.getElem?_erase] at found
  split at found
  · cases found
  next apart =>
      refine apart (Std.compare_eq_iff_eq.mpr ?_)
      rw [own, ← same]
      exact (keyed other row found).symm

theorem apart_rows (keyed : Keyed env files) : Apart (rows files) := by
  have distinct := keys_nodup files
  refine pairwise_map.mpr ((pairwise_map.mp distinct).imp_of_mem ?_)
  intro left right leftListed rightListed different same
  have leftKey := keyed left.1 left.2 (TreeMap.mem_toList_iff_getElem?_eq_some.mp leftListed)
  have rightKey := keyed right.1 right.2 (TreeMap.mem_toList_iff_getElem?_eq_some.mp rightListed)
  exact different (leftKey.trans (by rw [same, ← rightKey]))

theorem keyed_inserted {after : TreeMap String FileIndex} (keyed : Keyed env files)
    {key : String} {file : FileIndex} (own : key = env.uriKey file.sourceUri)
    (inserted : ∀ other, after[other]? = if key = other then some file else files[other]?) :
    Keyed env after := by
  intro other row found
  rw [inserted] at found
  split at found
  next same => exact same ▸ Option.some.inj found ▸ own
  next => exact keyed other row found

section
variable (consistent : Consistent env index)
include consistent

theorem derived_others (key uri : String) (own : key = env.uriKey uri)
    (spelled : ∀ old, index.files[key]? = some old → SpelledOrBare old uri) :
    Derived (rows (index.files.erase key)) (index.dropOldSymbols key).symbols
      (index.dropOldSymbols key).searchIndex (index.dropOldReferences key uri).globalReferences := by
  have apart := apart_rows consistent.keyed
  unfold dropOldSymbols dropOldReferences
  cases found : index.files[key]? with
  | none => exact derived_perm (rows_absent index.files key found) apart consistent.derived
  | some old =>
    have perm := rows_present index.files key old found
    exact derived_remove uri (derived_perm perm apart consistent.derived) (apart_perm perm apart)
      (foreign_rows consistent.keyed key uri own) (spelled old found)

theorem apart_inserted (key uri : String)
    (own : key = env.uriKey uri) (file : FileIndex) (named : file.sourceUri = uri) :
    Apart (file :: rows (index.files.erase key)) := by
  refine pairwise_cons.mpr ⟨fun other member same => ?_, ?_⟩
  · exact foreign_rows consistent.keyed key uri own other member (same.symm.trans named)
  · have apart := apart_rows consistent.keyed
    cases found : index.files[key]? with
    | none => exact apart_perm (rows_absent index.files key found) apart
    | some old =>
      exact (pairwise_cons.mp (apart_perm (rows_present index.files key old found) apart)).2

theorem consistent_committed {after : WorkspaceIndex}
    {uri : String} {file : FileIndex} {stored : Document} (named : file.sourceUri = uri)
    (spelled : ∀ old, index.files[env.uriKey uri]? = some old → SpelledOrBare old uri)
    (stores : CommittedAs env index after uri file stored) : Consistent env after where
  keyed := keyed_inserted consistent.keyed (by rw [named]) stores.files
  derived := by
    have apart := apart_inserted consistent _ uri rfl file named
    have added := derived_add file (derived_others consistent _ uri rfl spelled) apart
    rw [stores.symbols, stores.searchIndex, stores.globalReferences]
    exact derived_perm (rows_inserted stores.files).symm apart added

end

theorem consistent_stable : Stable (Consistent env) := by
  intro index after key change ⟨changed, recounted⟩ consistent
  have apart := apart_rows consistent.keyed
  cases found : index.files[key]? with
  | none =>
    have same : ∀ other : String, after.files[other]? = index.files[other]? := by
      intro other
      rw [changed.files]
      split
      next here => rw [← here, found, Option.map_none]
      next => rfl
    have perm : (rows index.files).Perm (rows after.files) :=
      ((toList_perm after.files index.files same).map Prod.snd).symm
    refine ⟨fun other file there => consistent.keyed other file (same other ▸ there), ?_⟩
    rw [changed.frame]
    exact derived_perm perm apart consistent.derived
  | some old =>
    have inserted : ∀ other, after.files[other]? =
        if key = other then some (change old) else index.files[other]? := by
      intro other
      rw [changed.files]
      split
      next here => rw [← here, found, Option.map_some]
      next => rfl
    have own := consistent.keyed key old found
    have same := recounted old found
    refine ⟨keyed_inserted consistent.keyed (by rw [same.sourceUri]; exact own) inserted, ?_⟩
    have perm := rows_present index.files key old found
    have replaced := derived_replace old (change old) same.symbols same.references
      (derived_perm perm apart consistent.derived)
    rw [changed.frame]
    exact derived_perm (rows_inserted inserted).symm
      (apart_inserted consistent key old.sourceUri own _ same.sourceUri) replaced

theorem removedUris_cases {uri : String} {file : FileIndex} {gone : String}
    (member : gone ∈ removedUris uri file) : gone = uri ∨ gone = file.sourceUri := by
  rcases mem_cons.mp member with same | observed
  · exact .inl same
  refine .inr ?_
  rcases mem_append.mp observed with among | among
  · obtain ⟨symbol, listed, rfl⟩ := mem_map.mp among
    exact file.ownSymbols symbol listed
  obtain ⟨reference, listed, rfl⟩ := mem_map.mp among
  obtain ⟨references, inside, here⟩ := mem_flatten.mp listed
  obtain ⟨⟨name, _⟩, there, rfl⟩ := mem_map.mp inside
  refine file.ownReferences name reference ?_
  rw [bucket, TreeMap.mem_toList_iff_getElem?_eq_some.mp there]
  exact here

theorem removedUris_reference (uri : String) (file : FileIndex) (name : String)
    (reference : SymbolReference) (member : reference ∈ bucket file.references name) :
    reference.uri ∈ removedUris uri file := by
  refine mem_cons_of_mem _ (mem_append.mpr (.inr (mem_map.mpr ⟨reference, ?_, rfl⟩)))
  rw [bucket] at member
  cases found : file.references[name]? with
  | none =>
    rw [found] at member
    cases member
  | some references =>
    rw [found] at member
    exact mem_flatten.mpr ⟨references, mem_rows file.references name references found, member⟩

theorem bucket_swept_references (globalRefs : TreeMap String (List SymbolReference))
    (file : FileIndex) (uri : String) (gone : List String) (among : uri ∈ gone) (name : String) :
    bucket (retainAll (removeFileGlobalRefs globalRefs file uri)
        fun reference => reference.uri ∉ gone) name =
      (bucket globalRefs name).filter fun reference => reference.uri ∉ gone := by
  rw [bucket_retainAll, removeFileGlobalRefs, bucket_retainEach]
  split
  · rw [filter_filter]
    refine filter_congr fun reference _ => ?_
    by_cases swept : reference.uri ∈ gone
    · rw [decide_eq_false (not_not.mpr swept), Bool.false_and]
    · have other : reference.uri ≠ uri := fun same => swept (same ▸ among)
      rw [decide_eq_true swept, Bool.true_and, bne_iff_ne.mpr other]
  · rfl

theorem derived_swept {files : List FileIndex} {old : FileIndex} (uri : String)
    (derived : Derived (old :: files) index.symbols index.searchIndex index.globalReferences)
    (apart : Apart (old :: files)) (foreign : ∀ file ∈ files, file.sourceUri ≠ uri) :
    Derived files (retainAll (incrementalRemoveSymbols index.symbols old)
        fun candidate => candidate.location.uri ∉ removedUris uri old)
      (retainAll (incrementalRemoveSearch index.searchIndex old)
        fun symbol => symbol.uri ∉ removedUris uri old)
      (retainAll (removeFileGlobalRefs index.globalReferences old uri)
        fun reference => reference.uri ∉ removedUris uri old) := by
  have others : ∀ file ∈ files, file.sourceUri ≠ old.sourceUri :=
    fun file member => ((pairwise_cons.mp apart).1 file member).symm
  have outside : ∀ file ∈ files, file.sourceUri ∉ removedUris uri old := by
    intro file member swept
    rcases removedUris_cases swept with same | same
    · exact foreign file member same
    · exact others file member same
  have taken := derived_sweep (removedUris uri old)
    (derived_remove old.sourceUri derived apart others (.inl rfl)) outside
  refine ⟨taken.tidySymbols, taken.symbols, taken.tidySearch, taken.search, fun name => ?_⟩
  have split : referencesAt (old :: files) name =
      bucket old.references name ++ referencesAt files name := flatMap_cons
  rw [bucket_swept_references _ old uri (removedUris uri old) mem_cons_self]
  refine ((derived.references name).filter _).trans (List.Perm.of_eq ?_)
  rw [split, filter_append, filter_eq_nil_iff.mpr ?_, nil_append, filter_eq_self.mpr ?_]
  · intro reference member
    refine decide_eq_true fun swept => ?_
    obtain ⟨file, inside, here⟩ := mem_flatMap.mp member
    exact outside file inside (file.ownReferences name reference here ▸ swept)
  · intro reference member kept
    exact of_decide_eq_true kept (removedUris_reference uri old name reference member)

theorem consistent_removeIndexed (consistent : Consistent env index) (key uri : String)
    (own : key = env.uriKey uri) : Consistent env (index.removeIndexed key uri) := by
  unfold removeIndexed
  cases found : index.files[key]? with
  | none => exact consistent
  | some old =>
    have apart := apart_rows consistent.keyed
    have perm := rows_present index.files key old found
    refine ⟨fun other file there => ?_, ?_⟩
    · have still : (index.files.erase key)[other]? = some file := there
      rw [TreeMap.getElem?_erase] at still
      split at still
      · cases still
      · exact consistent.keyed other file still
    · exact derived_swept uri (derived_perm perm apart consistent.derived)
        (apart_perm perm apart) (foreign_rows consistent.keyed key uri own)

theorem consistent_removeFile (consistent : Consistent env index) (uri : String) :
    Consistent env (index.removeFile env uri) := by
  have before : Consistent env index.bumpWriteVersion := ⟨consistent.keyed, consistent.derived⟩
  have removed := consistent_removeIndexed before _ (env.normalizeUri uri) rfl
  exact ⟨removed.keyed, removed.derived⟩

variable (files : List FileIndex)

theorem rebuilt_symbols (name : String) : bucket (rebuildSymbolCache files) name =
      canonical compareCandidates (definitionsAt files name) := by
  have pushed : bucket (pushAll ∅ (files.flatMap symbolEntries)) name = definitionsAt files name := by
    rw [bucket_pushAll, bucket_empty, filed_flatMap]
    rfl
  rw [← pushed, bucket, rebuildSymbolCache, TreeMap.getElem?_map, bucket]
  cases (pushAll ∅ (files.flatMap symbolEntries))[name]? with
  | none => rfl
  | some entries => rfl

theorem rebuilt_tidy : Tidy (rebuildSymbolCache files) := by
  intro name found
  rw [rebuildSymbolCache, TreeMap.getElem?_map] at found
  obtain ⟨entries, there, empty⟩ := Option.map_eq_some_iff.mp found
  have nothing := (canonical_eq_nil entries).mp empty
  exact tidy_pushAll _ tidy_empty name (nothing ▸ there)

theorem rebuilt_search (name : String) : bucket (rebuildSearchIndex files) name = searchedAt files name := by
  rw [rebuildSearchIndex, bucket_pushAll, bucket_empty, filed_flatMap]
  rfl

/-- What a batch keeps while the symbols wait for their rebuild. -/
structure ReferencesKept (env : Env Ast) (index : WorkspaceIndex) : Prop where
  keyed : Keyed env index.files
  references : ∀ name,
    (bucket index.globalReferences name).Perm (referencesAt (rows index.files) name)

theorem consistent_rebuilt (kept : ReferencesKept env index) : Consistent env index.rebuildCaches where
  keyed := kept.keyed
  derived :=
    { tidySymbols := rebuilt_tidy _
      symbols := rebuilt_symbols _
      tidySearch := tidy_pushAll _ tidy_empty
      search := fun name => List.Perm.of_eq (rebuilt_search _ name)
      references := kept.references }

theorem references_others (kept : ReferencesKept env index) (key uri : String) (own : key = env.uriKey uri)
    (spelled : ∀ old, index.files[key]? = some old → SpelledOrBare old uri) (name : String) :
    (bucket (index.dropOldReferences key uri).globalReferences name).Perm
      (referencesAt (rows (index.files.erase key)) name) := by
  unfold dropOldReferences
  cases found : index.files[key]? with
  | none => exact (kept.references name).trans ((rows_absent index.files key found).flatMap_right _)
  | some old =>
    have perm := rows_present index.files key old found
    exact bucket_removed_references _ uri (foreign_rows kept.keyed key uri own)
      (spelled old found) name ((kept.references name).trans (perm.flatMap_right _))

def OwnItem (env : Env Ast) (item : ParsedItem) : Prop :=
  item.key = env.uriKey item.uri ∧ item.fileIndex.sourceUri = item.uri

def ItemSpelled (index : WorkspaceIndex) (item : ParsedItem) : Prop :=
  admissionLimitFor index.limits index.files item.key item.fileIndex = none →
    ∀ old, index.files[item.key]? = some old → SpelledOrBare old item.uri

theorem kept_commitItem (kept : ReferencesKept env index) (item : ParsedItem)
    (own : OwnItem env item) (spelled : ItemSpelled index item) :
    ReferencesKept env (commitItem env index item).2 := by
  rcases commitItem_cases env index item with ⟨kind, _, ended⟩ | ⟨stored, _, _, admitted, ended⟩
  · rw [ended]
    exact ⟨kept.keyed, kept.references⟩
  obtain ⟨graph, frame⟩ := filedItem_frame env index item stored
  rw [ended, frame]
  have inserted := getElem?_insert index.files item.key item.fileIndex
  refine ⟨keyed_inserted kept.keyed (own.1.trans (by rw [own.2])) inserted, fun name => ?_⟩
  have others := references_others kept item.key item.uri own.1 (spelled admitted) name
  rw [bucket_added_references]
  have put : (referencesAt (item.fileIndex :: rows (index.files.erase item.key)) name).Perm
      (referencesAt (rows (index.files.insert item.key item.fileIndex)) name) :=
    (rows_inserted inserted).symm.flatMap_right _
  exact ((others.append_right _).trans perm_append_comm).trans put

theorem kept_commitItems (items : List ParsedItem) (kept : ReferencesKept env index)
    (own : ∀ item ∈ items, OwnItem env item)
    (spelled : StepsMeet (fun index item => (commitItem env index item).2) ItemSpelled index items) :
    ReferencesKept env (commitItems env items index).2 := by
  induction items generalizing index with
  | nil => exact kept
  | cons item rest ih =>
    obtain ⟨first, others⟩ := forall_mem_cons.mp own
    exact ih (kept_commitItem kept item first spelled.1) others spelled.2

theorem ownItems (index : WorkspaceIndex) (items : List (String × String)) (item : ParsedItem)
    (member : item ∈ parsedItems (items.filterMap (parseItem env index))) : OwnItem env item :=
  ⟨(parsed_item env index item member).1, (parsed_item env index item member).2.1⟩

/-- Where the text takes the place of an indexed one, the file is named as it is stored. -/
def TextSpelled (env : Env Ast) (index : WorkspaceIndex) (uri text : String) (generation : Nat) :
    Prop :=
  ∀ old ast, index.files[env.uriKey uri]? = some old → old.contentHash ≠ env.contentHash text →
    (0 < generation → old.highWater ≤ generation) →
    Admitted env index uri text generation ast → SpelledOrBare old uri

def CallSpelled (env : Env Ast) (index : WorkspaceIndex) : Call → Prop
  | .indexInitialFile uri text => TextSpelled env index uri text 0
  | .indexFileWithGeneration uri text generation => TextSpelled env index uri text generation
  | .indexLiveFile uri text commit => TextSpelled env index uri text commit.generation
  | .indexFilesBatch filesToIndex =>
    StepsMeet (fun index item => (commitItem env index item).2) ItemSpelled
      index.bumpWriteVersion
      (parsedItems ((deduplicate env filesToIndex).filterMap
        (parseItem env index.bumpWriteVersion)))
  | _ => True

section
variable (consistent : Consistent env index)
include consistent

theorem consistent_indexFile (uri text : String)
    (generation : Nat) (spelled : TextSpelled env index uri text generation) :
    Consistent env (index.indexFileWithGenerationOutcome env uri text generation).2 := by
  refine consistent_stable.indexFile consistent uri text generation fun ast stored fresh admitted _ => ?_
  refine consistent_committed (consistent_stable.bump consistent) ?_ (fun old found => ?_)
    (committed_stores env index.bumpWriteVersion uri text generation ast stored)
  · rfl
  · exact spelled old ast found (fresh old found).1 (fresh old found).2
      ⟨admitted.room, admitted.parsed, admitted.within, admitted.version⟩

theorem consistent_batch (filesToIndex : List (String × String))
    (spelled : CallSpelled env index (.indexFilesBatch filesToIndex)) :
    Consistent env (index.indexFilesBatch env filesToIndex).2 := by
  have before : ReferencesKept env index.bumpWriteVersion :=
    ⟨consistent.keyed, consistent.derived.references⟩
  have kept := kept_commitItems _ before
    (ownItems index.bumpWriteVersion (deduplicate env filesToIndex)) spelled
  exact consistent_stable.bump (consistent_rebuilt kept)

end

theorem derived_nothing : Derived [] ∅ ∅ ∅ where
  tidySymbols := tidy_empty
  symbols name := bucket_empty name
  tidySearch := tidy_empty
  search name := List.Perm.of_eq (bucket_empty name)
  references name := List.Perm.of_eq (bucket_empty name)

theorem keyed_nothing : Keyed env ∅ := by
  intro key file found
  cases found

theorem consistent_call (consistent : Consistent env index) (call : Call)
    (spelled : CallSpelled env index call) : Consistent env (apply env index call) := by
  cases call with
  | indexInitialFile uri text => exact consistent_indexFile consistent uri text 0 spelled
  | indexFileWithGeneration uri text generation =>
    exact consistent_indexFile consistent uri text generation spelled
  | indexLiveFile uri text commit =>
    exact consistent_stable.live consistent uri text commit
      (consistent_indexFile consistent uri text commit.generation spelled)
  | indexFilesBatch filesToIndex => exact consistent_batch consistent filesToIndex spelled
  | removeFile uri => exact consistent_removeFile consistent uri
  | removeFolder folderUri => exact removeFolder_keeps consistent consistent_removeFile folderUri
  | resetGenerationForClose uri => exact consistent_stable.reset consistent uri
  | clear => exact ⟨keyed_nothing, derived_nothing⟩
  | setWorkspaceFolders folders => exact ⟨consistent.keyed, consistent.derived⟩

/-- Each derived store is what a rebuild from the files gives: the symbols exactly, the search index
up to order, the references as multisets. -/
structure DerivedStores (index : WorkspaceIndex) : Prop where
  symbols : ∀ name : String,
    index.symbols[name]? = (rebuildSymbolCache (rows index.files))[name]?
  searchIndex : ∀ name : String,
    (name ∈ index.searchIndex ↔ name ∈ rebuildSearchIndex (rows index.files)) ∧
      (bucket index.searchIndex name).Perm (bucket (rebuildSearchIndex (rows index.files)) name)
  globalReferences : ∀ name : String, (bucket index.globalReferences name).Perm
    ((rows index.files).flatMap fun file => bucket file.references name)

theorem tidy_mem {Row : Type} {table : TreeMap String (List Row)} (tidy : Tidy table)
    (name : String) : name ∈ table ↔ bucket table name ≠ [] := by
  rw [TreeMap.mem_iff_isSome_getElem?, tidy.getElem?]
  cases bucket table name with
  | nil => exact ⟨nofun, fun filled => absurd rfl filled⟩
  | cons row rest => exact ⟨fun _ => cons_ne_nil row rest, fun _ => rfl⟩

theorem derived_stores (consistent : Consistent env index) : DerivedStores index where
  symbols name := by
    rw [consistent.derived.tidySymbols.getElem?, (rebuilt_tidy _).getElem?, rebuilt_symbols,
      consistent.derived.symbols]
  searchIndex name := by
    have same := consistent.derived.search name
    have tidy : Tidy (rebuildSearchIndex (rows index.files)) := tidy_pushAll _ tidy_empty
    rw [tidy_mem consistent.derived.tidySearch, tidy_mem tidy, rebuilt_search]
    exact ⟨not_congr ⟨fun empty => (empty ▸ same).symm.eq_nil, fun empty => (empty ▸ same).eq_nil⟩, same⟩
  globalReferences := consistent.derived.references

end Index

theorem textSpelled_of_stored {Ast : Type} (env : Env Ast) (index : WorkspaceIndex)
    (uri text : String) (generation : Nat)
    (stored : ((index.files[env.uriKey uri]?).all fun old => old.sourceUri = uri) = true) :
    TextSpelled env index uri text generation := by
  intro old ast found _ _ _
  rw [found] at stored
  exact .inl (of_decide_eq_true stored)

/-- Along every run in which no file is replaced under another spelling, the derived stores
stay what the files say. -/
theorem derived_stores_kept {Ast : Type} (env : Env Ast) (limits : IndexResourceLimits)
    (calls : List Call) (spelled : StepsMeet (apply env) (CallSpelled env) (new limits) calls) :
    Along (apply env) DerivedStores (new limits) calls := by
  have start : Consistent env (new limits) := ⟨keyed_nothing, derived_nothing⟩
  have along := along_of_steps (apply env) (Consistent env) (CallSpelled env)
    (fun _ call consistent => consistent_call consistent call) (new limits) calls start spelled
  exact along_mono (apply env) (fun _ => derived_stores) _ _ along

theorem derived_stores_kept_edited :
    Along (apply sampleEnv) DerivedStores (new sampleLimits)
      [.indexInitialFile "file:///C:/a.pl" "foo();", .indexInitialFile "file:///C:/a.pl" "1;"] :=
  derived_stores_kept sampleEnv sampleLimits _
    ⟨textSpelled_of_stored _ _ _ _ _ (by decide), textSpelled_of_stored _ _ _ _ _ (by decide), trivial⟩

/-- The drive letter in another case: the file is replaced, its references stay. -/
theorem respelled_file_leaves_references :
    ¬ Along (apply sampleEnv) DerivedStores (new sampleLimits)
      [.indexInitialFile "file:///C:/a.pl" "foo();", .indexInitialFile "file:///c:/a.pl" "1;"] := by
  intro along
  have last := (along_iff_prefixes _ _ _ _).mp along _ [] (append_nil _).symm
  have counted := (last.globalReferences "foo").length_eq
  exact absurd counted (by decide)

end PerlLsp.WorkspaceStores
