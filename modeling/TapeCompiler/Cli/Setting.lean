/-!
# Command-line settings

The options of the command line, how each is spelled, and which of them take a
value.
-/

namespace TapeCompiler
namespace Cli

/-- An option of the command line. -/
inductive Setting where
  /-- Show the help. -/
  | help
  /-- Check the brackets strictly. -/
  | strict
  /-- Choose the tape size. -/
  | tapeSize
  /-- Choose the assembler. -/
  | assembler
  /-- Keep the assembly text. -/
  | keepAssembly
  /-- Print the assembly text instead of assembling it. -/
  | emit
  /-- Run the program instead of assembling it. -/
  | run
  /-- Show the log. -/
  | verbose
deriving DecidableEq, Repr

namespace Setting

/-- The options in the order in which messages list them. -/
def all : List Setting :=
  [help, strict, tapeSize, assembler, keepAssembly, emit, run, verbose]

/-- How an option is written.  The spellings with one dash are those of
options without a value. -/
def spellings : Setting → List String
  | help => ["-h", "--help"]
  | strict => ["--strict"]
  | tapeSize => ["--memory-size"]
  | assembler => ["--ilasm"]
  | keepAssembly => ["--keep-il"]
  | emit => ["--emit-il"]
  | run => ["--run"]
  | verbose => ["-v", "--verbose"]

/-- The name of an option in messages. -/
def label (setting : Setting) : String :=
  "/".intercalate setting.spellings

/-- Whether an option takes a value. -/
def takesValue : Setting → Bool
  | tapeSize => true
  | assembler => true
  | _ => false

/-- All spellings with their options. -/
def spelled : List (String × Setting) :=
  all.flatMap fun setting => setting.spellings.map fun spelling => (spelling, setting)

/-- The option with a given spelling. -/
def ofSpelling? (text : String) : Option Setting :=
  spelled.lookup text

end Setting
end Cli
end TapeCompiler
