import ModuleTree.CommandLine.Parameter
import ModuleTree.Text.Words
/- The texts with which the program explains itself. -/
namespace ModuleTree.CommandLine

def programName : String := "compile-modules"

def version : String := programName ++ " 0.0.0-semantic-release-managed\n"

def optionText (p : Parameter) : String :=
  (match p.letter? with
    | some letter => String.ofList [' ', ' ', '-', letter, ',', ' ']
    | none => "      ") ++ p.text

def optionWidth : Nat := Parameter.options.foldl (fun width p => max width (optionText p).length) 0

def optionLine (p : Parameter) : String :=
  Text.leftColumn optionWidth (optionText p) ++ "  " ++ p.about ++ "\n"

def usageLine : String := "Usage: " ++ programName ++ " [OPTIONS] --compiler <COMPILER> [INPUTS]...\n"

def help : String :=
  "Compile ES6 modules into AMD, CJS, YUI or globals\n\n" ++ usageLine
    ++ "\nArguments:\n  " ++ Parameter.inputs.text ++ "  " ++ Parameter.inputs.about ++ "\n"
    ++ "\nOptions:\n" ++ String.join (Parameter.options.map optionLine)
    ++ "\nUsing files:\n  " ++ programName
    ++ " INPUT --to DIR [--infer-name] [--type TYPE] [--imports PATH:GLOBAL]\n"
    ++ "\nUsing stdio:\n  " ++ programName
    ++ " --stdio [--type TYPE] [--imports PATH:GLOBAL] [--module-name MOD]\n"

def complaint (e : ArgumentError) : String :=
  "error: " ++ e.message ++ "\n\n" ++ usageLine ++ "\nFor more information, try '--help'.\n"

end ModuleTree.CommandLine
