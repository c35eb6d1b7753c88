import PerlLsp.PositionConvert
import PerlLsp.Workspace

/-! The reference queries of workspace/workspace_index.rs: what `find_references_inner`
and `count_usages_inner` make of the global references and the documents they find. The
two walk the same references and differ in the kind they leave out. -/
namespace PerlLsp.WorkspaceQueries
open Std Buckets StableSort Workspace PositionConvert

/-- `rfind("::")` and `rsplit_once("::")`. -/
def rsplitOnce : List Char → Option (List Char × List Char)
  | [] => none
  | scalar :: rest =>
    match rsplitOnce rest with
    | some (before, after) => some (scalar :: before, after)
    | none => if scalar = ':' ∧ rest.head? = some ':' then some ([], rest.tail) else none

/-- `split_once("->")`. -/
def splitArrow : List Char → Option (List Char × List Char)
  | '-' :: '>' :: rest => some ([], rest)
  | scalar :: rest => (splitArrow rest).map fun parts => (scalar :: parts.1, parts.2)
  | [] => none

def isQualifiedVariantOf (candidate bareSymbol : String) : Bool :=
  (rsplitOnce candidate.toList).any fun parts => parts.2 == bareSymbol.toList

def offsetOf (lineIndex : LineIndex) (position : Position) : Option Nat :=
  (lineIndex.positionToOffset (UInt32.ofNat position.line) (UInt32.ofNat position.column)).join

section Matching
variable {Ast : Type} (env : Env Ast)
variable (documents : TreeMap String Document)

def methodReferenceHasSelfReceiver (symRef : SymbolReference) : Bool :=
  match documents[env.uriKey symRef.uri]? with
  | none => false
  | some document =>
    let lineIndex := LineIndex.new document.text.toList
    match offsetOf lineIndex symRef.range.start, offsetOf lineIndex symRef.range.finish with
    | some start, some finish =>
      match (Utf8.slice document.text.toList start finish).bind splitArrow with
      | some (receiver, _) =>
        Text.trim receiver == "$self".toList || Text.trim receiver == "$this".toList
      | none => false
    | _, _ => false

def bareReferenceMatchesPackage (symRef : SymbolReference) (package : List Char) : Bool :=
  symRef.package == some (String.ofList package) ||
    (symRef.kind == .methodCall && methodReferenceHasSelfReceiver env documents symRef)

def matching (globalRefs : TreeMap String (List SymbolReference)) (symbolName : String)
    (keep : ReferenceKind → Bool) : List SymbolReference :=
  let kept (refs : List SymbolReference) := refs.filter fun symRef => keep symRef.kind
  kept (bucket globalRefs symbolName) ++
    match rsplitOnce symbolName.toList with
    | some (package, bareName) =>
      (kept (bucket globalRefs (String.ofList bareName))).filter fun symRef =>
        bareReferenceMatchesPackage env documents symRef package
    | none =>
      globalRefs.toList.flatMap fun entry =>
        if isQualifiedVariantOf entry.1 symbolName then kept entry.2 else []

end Matching

def locationOf (symRef : SymbolReference) : Location := ⟨symRef.uri, symRef.range⟩

def locationKey (location : Location) : String × List Nat :=
  (location.uri,
    [location.range.start.line, location.range.start.column, location.range.finish.line,
      location.range.finish.column])

def compareLocations : Location → Location → Ordering :=
  compareLex (compareOn fun location => (locationKey location).1)
    (compareOn fun location => (locationKey location).2)

instance : TransCmp compareLocations := by
  unfold compareLocations
  infer_instance

/-- `seen.insert(key)` before a location is pushed. -/
def addDistinct (kept : List Location) (location : Location) : List Location :=
  if locationKey location ∈ kept.map locationKey then kept else kept ++ [location]

def distinctLocations (locations : List Location) : List Location := locations.foldl addDistinct []

section Queries
variable {Ast : Type} (env : Env Ast)
variable (documents : TreeMap String Document)
variable (globalRefs : TreeMap String (List SymbolReference))

def findReferencesInner (symbolName : String) (excludeCoderef : Bool) : List Location :=
  sortBy compareLocations (distinctLocations
    ((matching env documents globalRefs symbolName fun kind =>
      !(excludeCoderef && kind == .coderef)).map locationOf))

def countUsagesInner (symbolName : String) : Nat :=
  (distinctLocations ((matching env documents globalRefs symbolName fun kind =>
    kind != .definition).map locationOf)).length

end Queries

section Answers
variable {Ast : Type} (env : Env Ast) (documents : TreeMap String Document)
  (globalRefs : TreeMap String (List SymbolReference)) (symbolName : String)

end Answers

end PerlLsp.WorkspaceQueries
