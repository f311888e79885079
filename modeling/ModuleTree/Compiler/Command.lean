import ModuleTree.Compiler.Basic
import ModuleTree.Shell.Utility
/- Compilers that are programs of their own. The source of a module is their input, and
   they print what they make of it. -/
namespace ModuleTree

abbrev Spawn := String → List String → Bytes → Except IoError Shell.Outcome

structure Command where
  program : String
  arguments : List String
  deriving DecidableEq, Repr

namespace Command

def option (name : String) : Option String → List String
  | none => []
  | some value => [name, value]

def argumentsFor (c : Command) (r : Request) : List String :=
  let s := r.settings
  c.arguments ++ ["--type", s.format.text]
    ++ option "--module-name" r.moduleName
    ++ option "--global" s.globalName
    ++ option "--imports" (if s.imports.isEmpty then none else some (ImportMap.text s.imports))

def line (c : Command) (r : Request) : String :=
  c.program ++ " " ++ " ".intercalate (c.argumentsFor r)

/-- What a finished program has to say. Only an ending with status 0 counts; then its
output has to be text and that text an answer. -/
def answer (c : Command) (r : Request) (outcome : Shell.Outcome) : Except CompileError Compiled :=
  if outcome.ending ≠ .exit 0 then .error (.exit (c.line r) outcome.errors)
  else
    match Text.decode ⟨outcome.output.toArray⟩ with
    | .error fault => .error (.invalidUtf8 fault)
    | .ok text =>
      match Compiled.ofJson text with
      | .error fault => .error (.response fault text)
      | .ok compiled => .ok compiled

def compile (spawn : Spawn) (c : Command) (r : Request) : Except CompileError Compiled :=
  match spawn c.program (c.argumentsFor r) r.source.toUTF8.toList with
  | .error e => .error (.spawn e)
  | .ok outcome => c.answer r outcome

def compiler (spawn : Spawn) (c : Command) : Compiler where
  announce r := [⟨.trace, .compiler, c.line r⟩]
  compile := c.compile spawn

end Command

end ModuleTree
