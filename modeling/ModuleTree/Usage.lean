import ModuleTree.Format
import ModuleTree.ImportMap
import ModuleTree.Path.Basic
import ModuleTree.Text.Quoted
/- What a caller may ask for. All rules about it hold before any file is touched. -/
namespace ModuleTree

structure Settings where
  format : Format := .amd
  imports : ImportMap := .empty
  moduleName : Option String := none
  inferName : Bool := false
  graph : Bool := false
  globalName : Option String := none

inductive UsageError where
  | unknownFormat (text : String)
  | malformedImport (piece : String)
  | inferNameWithModuleName
  | inferNameWithStream (format : Format)
  | missingDestination
  | missingImports
  | unexpectedImports (format : Format)
  | noInputs
  deriving DecidableEq, Repr

def UsageError.message : UsageError → String
  | unknownFormat text =>
    s!"unknown output type {Text.quoted text}, expected one of \"amd\", \"yui\", \"cjs\" or \"globals\""
  | malformedImport piece => s!"malformed import mapping {Text.quoted piece}, expected PATH:GLOBAL"
  | inferNameWithModuleName => "--infer-name and --module-name cannot be used together"
  | inferNameWithStream format =>
    s!"--infer-name cannot be used with --stdio for {format.text} output"
  | missingDestination => "an output directory (--to) is required unless --stdio is used"
  | missingImports => "--imports is required for globals output"
  | unexpectedImports format => s!"--imports is only valid for globals output, not {format.text}"
  | noInputs => "no input paths given"

def Format.ofText (text : String) : Except UsageError Format :=
  match ofText? text with
  | some format => .ok format
  | none => .error (.unknownFormat text)

def ImportMap.read (text : String) : Except UsageError ImportMap :=
  (ofText text).mapError .malformedImport

structure Usage where
  inputs : List Path := []
  stream : Bool := false
  destination : Option Path := none
  format : Format := .amd
  imports : Option ImportMap := none
  graph : Bool := false
  inferName : Bool := false
  moduleName : Option String := none
  globalName : Option String := none

inductive Plan where
  | stream (settings : Settings)
  | tree (roots : List Path) (destination : Path) (settings : Settings)

namespace Usage

def givenImports (u : Usage) : Option ImportMap := u.imports.filter (!·.isEmpty)

def settings (u : Usage) : Settings where
  format := u.format
  imports := u.givenImports.getD .empty
  moduleName := u.moduleName
  inferName := u.inferName
  graph := u.graph
  globalName := u.globalName

def checkImports (u : Usage) : Except UsageError Unit :=
  match u.givenImports, u.format with
  | none, .globals => .error .missingImports
  | some _, .globals => .ok ()
  | none, _ => .ok ()
  | some _, format => .error (.unexpectedImports format)

def plan (u : Usage) : Except UsageError Plan := do
  if u.inferName && u.moduleName.isSome then throw .inferNameWithModuleName
  if u.stream && u.inferName && u.format.isNamed then throw (.inferNameWithStream u.format)
  u.checkImports
  if u.stream then return .stream u.settings
  match u.destination with
  | none => throw .missingDestination
  | some destination =>
    if u.inputs.isEmpty then throw .noInputs
    return .tree u.inputs destination u.settings

end Usage

end ModuleTree
