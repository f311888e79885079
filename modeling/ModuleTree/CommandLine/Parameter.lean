import ModuleTree.Usage
import ModuleTree.Text.Terminal
/- What a command line may hold. -/
namespace ModuleTree

inductive Parameter where
  | inputs
  | format
  | destination
  | imports
  | graph
  | inferName
  | moduleName
  | stream
  | globalName
  | jobs
  | compiler
  | compilerArgument
  | help
  | version
  deriving DecidableEq, Repr

namespace Parameter

def options : List Parameter :=
  [format, destination, imports, graph, inferName, moduleName, stream, globalName, jobs, compiler,
    compilerArgument, help, version]

/-- The name of an option behind two dashes. Inputs are the only parameter without one. -/
def name : Parameter → String
  | inputs => ""
  | format => "type"
  | destination => "to"
  | imports => "imports"
  | graph => "graph"
  | inferName => "infer-name"
  | moduleName => "module-name"
  | stream => "stdio"
  | globalName => "global"
  | jobs => "jobs"
  | compiler => "compiler"
  | compilerArgument => "compiler-arg"
  | help => "help"
  | version => "version"

def letter? : Parameter → Option Char
  | moduleName => some 'm'
  | stream => some 's'
  | jobs => some 'j'
  | help => some 'h'
  | version => some 'V'
  | _ => none

def valueName? : Parameter → Option String
  | inputs => some "INPUTS"
  | format => some "FORMAT"
  | destination => some "TO"
  | imports => some "IMPORTS"
  | moduleName => some "MODULE_NAME"
  | globalName => some "GLOBAL"
  | jobs => some "JOBS"
  | compiler => some "COMPILER"
  | compilerArgument => some "COMPILER_ARGS"
  | graph | inferName | stream | help | version => none

def takesValue (p : Parameter) : Bool := p.valueName?.isSome

/-- Whether anything at all is taken for the value, even what looks like an option. -/
def takesAnything (p : Parameter) : Bool := p = compilerArgument

def text (p : Parameter) : String :=
  match p, p.valueName? with
  | inputs, _ => "[INPUTS]..."
  | _, some value => "--" ++ p.name ++ " <" ++ value ++ ">"
  | _, none => "--" ++ p.name

def ofName? (name : String) : Option Parameter := options.find? (·.name = name)

def ofLetter? (letter : Char) : Option Parameter := options.find? (·.letter? = some letter)

def about : Parameter → String
  | inputs => "Files or directories to compile"
  | format => "The type of output (one of \"amd\", \"yui\", \"cjs\", or \"globals\") [default: amd]"
  | destination => "A directory in which to write the resulting files"
  | imports => "A list of path:global pairs, comma separated (e.g. jquery:$,ember:Ember)"
  | graph => "Generate a json file containing the dependency graph"
  | inferName => "Automatically generate names for AMD and YUI modules"
  | moduleName => "The name of the outputted module"
  | stream => "Use stdin and stdout to process a file"
  | globalName => "When the type is `globals`, the name of the global to export into"
  | jobs => "Number of files to compile in parallel"
  | compiler => "Program that compiles a single module"
  | compilerArgument => "Extra argument passed to the compiler program, may be repeated"
  | help => "Print help"
  | version => "Print version"

end Parameter

inductive NumberFault where
  | empty
  | digit
  | tooLarge
  deriving DecidableEq, Repr

def NumberFault.message : NumberFault → String
  | empty => "cannot parse integer from empty string"
  | digit => "invalid digit found in string"
  | tooLarge => "number too large to fit in target type"

inductive ArgumentError where
  | unexpected (argument : String)
  | unexpectedValue (parameter : Parameter) (value : String)
  | missingValue (parameter : Parameter)
  | repeated (parameter : Parameter)
  | badSetting (parameter : Parameter) (value : String) (error : UsageError)
  | badNumber (parameter : Parameter) (value : String) (fault : NumberFault)
  | missing (parameter : Parameter)
  | usage (error : UsageError)
  deriving DecidableEq, Repr

namespace ArgumentError

def badValue (p : Parameter) (value reason : String) : String :=
  s!"invalid value '{Text.visible value}' for '{p.text}': {reason}"

def message : ArgumentError → String
  | unexpected argument => s!"unexpected argument '{Text.visible argument}' found"
  | unexpectedValue p value =>
    s!"unexpected value '{Text.visible value}' for '{p.text}' found; no more were expected"
  | missingValue p => s!"a value is required for '{p.text}' but none was supplied"
  | repeated p => s!"the argument '{p.text}' cannot be used multiple times"
  | badSetting p value error => badValue p value error.message
  | badNumber p value fault => badValue p value fault.message
  | missing p => s!"the following required arguments were not provided:\n  {p.text}"
  | usage error => error.message

end ArgumentError

end ModuleTree
