import TapeCompiler.Compiler.Compilation
import TapeCompiler.Workspace.Assemble

/-!
# Building from source files

A source file is found under its own name or with `.txt` added, read in some
encoding, compiled, and, for a build, assembled into an executable beside it.
-/

namespace TapeCompiler
namespace Workspace

open Text

/-- The choices that a build depends on. -/
structure BuildOptions extends Compiler.Options where
  /-- The assembler to use. -/
  assembler : Option String := none
  /-- Whether to keep the assembly text beside the executable. -/
  keepAssembly : Bool := false
deriving DecidableEq, Repr

/-- The source file that a path means: the path itself, or with `.txt` added
if only that is a file. -/
def resolveSource (path : Path) : Task Path := do
  if ← Task.ask path.render (·.hasNode path.render) then
    return path
  let textual ← besides path ".txt"
  if ← Task.ask textual.render (·.hasFile textual.render) then
    return textual
  return path

/-- Reads a source file. -/
def readSource (path : Path) (encoding : String) : Task String := do
  Task.requireNamable path.render
  let bytes ← Task.ask path.render (·.read path.render)
  match Encoding.ofName? encoding with
  | some known => return known.readText bytes
  | none => throw (.unknownEncoding encoding)

/-- The encoding of source files where none is asked for. -/
def defaultEncoding : String := "ascii"

/-- Compiles a source file.  A program without a name gets that of the file. -/
def compileFile (path : Path) (options : Compiler.Options) (encoding : String) :
    Task Compiler.Compilation := do
  let file ← resolveSource path
  let source ← readSource file encoding
  let program := options.program.getD file.programName
  let (result, progress) :=
    Compiler.compileSource { options with program := some program } source
  Task.record (progress.map .compiler)
  match result with
  | .ok compilation => return compilation
  | .error error => throw (.compile error)

/-- Compiles a source file and assembles it into an executable beside it. -/
def buildExecutable (path : Path) (options : BuildOptions) : Task Path := do
  let compilation ← compileFile path options.toOptions defaultEncoding
  let file ← resolveSource path
  match file.withoutSuffix? with
  | none => throw (.emptyName file)
  | some base =>
      assemble compilation.assembly base options.assembler options.keepAssembly

end Workspace
end TapeCompiler
