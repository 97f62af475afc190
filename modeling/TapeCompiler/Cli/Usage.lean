import TapeCompiler.Cli.Setting
import TapeCompiler.Text.Quoted

/-!
# Usage and help texts
-/

namespace TapeCompiler
namespace Cli

open Text

/-- The summary of the command line. -/
def usage : String :=
  "usage: bfc [-h] [--strict] [--memory-size MEMORY_SIZE] [--ilasm ILASM]\n" ++
  "           [--keep-il] [--emit-il | --run] [-v]\n" ++
  "           source\n"

/-- The full help. -/
def helpText : String :=
  usage ++
  "\n" ++
  "Compile Brainfuck source into a .NET executable via ilasm.\n" ++
  "\n" ++
  "positional arguments:\n" ++
  "  source                Brainfuck source file (<source>.txt is tried if it\n" ++
  "                        does not exist)\n" ++
  "\n" ++
  "options:\n" ++
  "  -h, --help            show this help message and exit\n" ++
  "  --strict              Reject a \x27]\x27 that closes no open loop\n" ++
  "  --memory-size MEMORY_SIZE\n" ++
  "                        Tape size in bytes (default 2550000)\n" ++
  "  --ilasm ILASM         Path to the ilasm assembler\n" ++
  "  --keep-il             Keep the intermediate .il file\n" ++
  "  --emit-il             Print the CIL program instead of assembling it\n" ++
  "  --run                 Simulate the generated code with stdin as input\n" ++
  "                        instead of assembling it\n" ++
  "  -v, --verbose         Log toolchain activity\n" ++
  "\n" ++
  "Exit status is 0 on success and 1 when a syntax, file or assembler error was\n" ++
  "reported.\n"

/-- What is wrong with the arguments of a call. -/
inductive UsageError where
  /-- A shortened option could be several. -/
  | ambiguous (argument : String) (spellings : List String)
  /-- A value was given to an option that takes none. -/
  | unexpectedValue (setting : Setting) (value : String)
  /-- An option that takes a value got none. -/
  | missingValue (setting : Setting)
  /-- The value of an option is no integer. -/
  | notAnInteger (setting : Setting) (value : String)
  /-- Two options exclude each other. -/
  | conflict (setting earlier : Setting)
  /-- There is no source. -/
  | missingSource
  /-- There are arguments without a use. -/
  | unrecognized (arguments : List String)
deriving DecidableEq, Repr

/-- A message about one option. -/
def aboutSetting (setting : Setting) (message : String) : String :=
  s!"argument {setting.label}: {message}"

/-- The message of a usage error. -/
def UsageError.message : UsageError → String
  | .ambiguous argument spellings =>
      let matching := ", ".intercalate spellings
      s!"ambiguous option: {argument} could match {matching}"
  | .unexpectedValue setting value =>
      aboutSetting setting s!"ignored explicit argument {quoted value}"
  | .missingValue setting => aboutSetting setting "expected one argument"
  | .notAnInteger setting value => aboutSetting setting s!"invalid int value: {quoted value}"
  | .conflict setting earlier =>
      aboutSetting setting s!"not allowed with argument {earlier.label}"
  | .missingSource => "the following arguments are required: source"
  | .unrecognized arguments => "unrecognized arguments: " ++ " ".intercalate arguments

/-- The report on a usage error. -/
def UsageError.report (error : UsageError) : String :=
  usage ++ s!"bfc: error: {error.message}\n"

end Cli
end TapeCompiler
