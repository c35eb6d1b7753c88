import PerlLsp.SymbolSearch
import PerlLsp.WorkspaceStores

/-! `search_source_symbols` of workspace/workspace_index.rs over the search index that the
calls have left: what a client finds is what the files hold. -/
namespace PerlLsp.WorkspaceSymbols
open Tables Buckets Workspace WorkspaceIndex WorkspaceStores SymbolSearch Runs List
variable (toLowercase : List Char → List Char) (query : List Char)

def searchSourceSymbols (index : WorkspaceIndex) (cap : Option Nat) : List WorkspaceSymbol :=
  searchSourceSymbolsFromBuckets toLowercase index.searchIndex.toList (compile toLowercase query) cap

def Matches (symbol : WorkspaceSymbol) : Prop :=
  ∃ name ∈ symbol.names,
    (matchSearchableKey toLowercase (compile toLowercase query) name (keyRoleOf name)).isSome = true

def place (symbol : WorkspaceSymbol) : String × Nat := (symbol.uri, symbol.range.start.byte)

theorem mem_searched (files : List FileIndex) (name : String) (symbol : WorkspaceSymbol) :
    symbol ∈ searchedAt files name ↔ ∃ file ∈ files, symbol ∈ file.symbols ∧ name ∈ symbol.names := by
  simp only [searchedAt, mem_flatMap, mem_filed, searchEntries, mem_cons, mem_map, Prod.mk.injEq,
    WorkspaceSymbol.names, mem_append, mem_nil_iff, or_false]
  constructor
  · rintro ⟨file, among, other, inside, ⟨rfl, rfl⟩ | ⟨_, named, rfl, rfl⟩⟩
    · exact ⟨file, among, inside, .inr rfl⟩
    · exact ⟨file, among, inside, .inl named⟩
  · rintro ⟨file, among, inside, named | rfl⟩
    · exact ⟨file, among, symbol, inside, .inr ⟨_, named, rfl, rfl⟩⟩
    · exact ⟨file, among, symbol, inside, .inl ⟨rfl, rfl⟩⟩

/-- After any calls, a search finds symbols of indexed files that the query matches by a name, at
every place where there is one, and no place twice. -/
theorem search_finds_indexed {Ast : Type} (env : Env Ast) (limits : IndexResourceLimits)
    (calls : List Call) (spelled : StepsMeet (apply env) (CallSpelled env) (new limits) calls) :
    let index := run (apply env) (new limits) calls
    let found := searchSourceSymbols toLowercase query index none
    (∀ symbol ∈ found, Matches toLowercase query symbol ∧
      ∃ file ∈ rows index.files, symbol ∈ file.symbols) ∧
    (∀ file ∈ rows index.files, ∀ symbol ∈ file.symbols, Matches toLowercase query symbol →
      place symbol ∈ found.map place) ∧ (found.map place).Nodup := by
  intro index found
  have consistent : Consistent env index := by
    have along := along_of_steps (apply env) (Consistent env) (CallSpelled env)
      (fun _ call held => consistent_call held call) (new limits) calls
      ⟨keyed_nothing, derived_nothing⟩ spelled
    exact (along_iff_prefixes _ _ _ _).mp along calls [] (append_nil _).symm
  have filed (name : String) (symbol : WorkspaceSymbol) :
      (∃ bucket ∈ index.searchIndex.toList, bucket.1 = name ∧ symbol ∈ bucket.2) ↔
        ∃ file ∈ rows index.files, symbol ∈ file.symbols ∧ name ∈ symbol.names := by
    rw [← mem_searched, ← (consistent.derived.search name).mem_iff, bucket]
    constructor
    · rintro ⟨⟨_, symbols⟩, among, rfl, inside⟩
      rw [Std.TreeMap.mem_toList_iff_getElem?_eq_some.mp among]
      exact inside
    · intro inside
      cases there : index.searchIndex[name]? with
      | none => cases there ▸ inside
      | some symbols =>
        rw [there] at inside
        exact ⟨(name, symbols), Std.TreeMap.mem_toList_iff_getElem?_eq_some.mpr there, rfl, inside⟩
  have ranked := scored_ranked toLowercase (compile toLowercase query) index.searchIndex.toList
  have places : found.map place = (scoredSymbols toLowercase (compile toLowercase query)
    index.searchIndex.toList).map dedupKey := map_map
  refine ⟨fun symbol member => ?_, fun file among symbol inside matched => ?_, places ▸ ranked.once⟩
  · obtain ⟨row, kept, rfl⟩ := mem_map.mp member
    obtain ⟨bucket, among, evidence, matched, inside, -⟩ := ranked.offered row kept
    obtain ⟨file, held, owned, named⟩ := (filed bucket.1 row.2).mp ⟨bucket, among, rfl, inside⟩
    exact ⟨⟨bucket.1, named, matched ▸ rfl⟩, file, held, owned⟩
  · obtain ⟨name, named, admitted⟩ := matched
    obtain ⟨bucket, listed, rfl, here⟩ := (filed name symbol).mpr ⟨file, among, inside, named⟩
    rw [places]
    exact (ranked.complete _).mpr ⟨bucket, listed, admitted, symbol, here, rfl⟩

def symbolEnv : Env String where
  __ := sampleEnv
  visitUnified _ _ _ := ⟨[(sampleSymbol "" "run" 4).toSymbolRow], ∅, []⟩

theorem search_finds_run :
    let found := (searchSourceSymbols asciiLowercase ['r'] (apply symbolEnv (new sampleLimits)
      (.indexInitialFile "file:///a.pl" "1;")) none).map place
    found = [("file:///a.pl", 4)] ∧ found.Nodup :=
  ⟨by decide +kernel, (search_finds_indexed asciiLowercase ['r'] symbolEnv sampleLimits
    [.indexInitialFile _ _] ⟨textSpelled_of_stored _ _ _ _ _ (by decide), trivial⟩).2.2⟩

end PerlLsp.WorkspaceSymbols
