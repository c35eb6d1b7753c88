import PerlLsp.SemanticFacts

/-! The index of imports and exports across files: semantic/imports.rs with its fact
types. Files are removed by their URI, imports are looked up by file identifier and
exports by module name. -/
namespace PerlLsp.ImportExport
open Std Tables SemanticFacts

inductive ImportKind where
  | use | useEmpty | useExplicitList | useTag | require | requireThenImport | useConstant
  | dynamicRequire | manualImport
  deriving DecidableEq

inductive ImportSymbols where
  | default
  | none
  | explicit (names : List String)
  | tags (tags : List String)
  | mixed (tags names : List String)
  | dynamic
  deriving DecidableEq

structure ImportSpec where
  module_ : String
  kind : ImportKind
  symbols : ImportSymbols
  provenance : Provenance
  confidence : Confidence
  fileId : Option Nat
  anchorId : Option Nat
  scopeId : Option Nat
  spanStartByte : Option Nat
  deriving DecidableEq

structure UseLibFact where
  path : String
  isActive : Bool
  fileId : Nat
  anchorId : Option Nat
  provenance : Provenance
  confidence : Confidence
  deriving DecidableEq

structure ExportTag where
  name : String
  members : List String
  deriving DecidableEq

structure ExportSet where
  defaultExports : List String
  optionalExports : List String
  tags : List ExportTag
  provenance : Provenance
  confidence : Confidence
  moduleName : Option String
  anchorId : Option Nat
  deriving DecidableEq

structure ImportExportIndex where
  importsByFile : TreeMap Nat (List ImportSpec)
  exportsByModule : TreeMap String ExportSet
  fileUriToId : TreeMap String Nat
  moduleToSourceUri : TreeMap String String
  useLibByFile : TreeMap Nat (List UseLibFact)
  useLibUriToId : TreeMap String Nat

namespace ImportExportIndex

def new : ImportExportIndex := ⟨∅, ∅, ∅, ∅, ∅, ∅⟩

variable (index : ImportExportIndex)
variable (sourceUri : String)

def addFileImports (fileId : Nat) (imports : List ImportSpec) : ImportExportIndex :=
  { index with
    fileUriToId := index.fileUriToId.insert sourceUri fileId
    importsByFile := index.importsByFile.insert fileId imports }

def removeFileImports : ImportExportIndex :=
  match index.fileUriToId[sourceUri]? with
  | none => index
  | some fileId =>
    { index with
      fileUriToId := index.fileUriToId.erase sourceUri
      importsByFile := index.importsByFile.erase fileId }

def addFileUseLib (fileId : Nat) (facts : List UseLibFact) : ImportExportIndex :=
  { index with
    useLibUriToId := index.useLibUriToId.insert sourceUri fileId
    useLibByFile := index.useLibByFile.insert fileId facts }

def removeFileUseLib : ImportExportIndex :=
  match index.useLibUriToId[sourceUri]? with
  | none => index
  | some fileId =>
    { index with
      useLibUriToId := index.useLibUriToId.erase sourceUri
      useLibByFile := index.useLibByFile.erase fileId }

def addModuleExports (moduleName : String) (exports : ExportSet) : ImportExportIndex :=
  { index with
    moduleToSourceUri := index.moduleToSourceUri.insert moduleName sourceUri
    exportsByModule := index.exportsByModule.insert moduleName exports }

def removeModuleExports : ImportExportIndex :=
  let modules := index.moduleToSourceUri.toList.filterMap fun entry =>
    if entry.2 = sourceUri then some entry.1 else none
  { index with
    exportsByModule := modules.foldl TreeMap.erase index.exportsByModule
    moduleToSourceUri := modules.foldl TreeMap.erase index.moduleToSourceUri }

def getImportsForFile (fileId : Nat) : List ImportSpec :=
  index.importsByFile[fileId]?.getD []

def getUseLibForFile (fileId : Nat) : List UseLibFact :=
  index.useLibByFile[fileId]?.getD []

def getExportsForModule (moduleName : String) : Option ExportSet :=
  index.exportsByModule[moduleName]?

end ImportExportIndex

end PerlLsp.ImportExport
