import TapeCompiler.Cli.Command

/-!
# The command-line program

The outermost layer: reads the source file and standard input, makes one call
of the command, prints what it reports, and writes the files that it changed.
Programs are not started from here, so a build finds no assembler.
-/

namespace TapeCompiler
namespace Cli

open Workspace

/-- Adds a file of the working directory to a store, if it can be read. -/
def loadFile (store : Store) (path : String) : IO Store := do
  try
    let bytes ← IO.FS.readBinFile path
    return store.place path (.file { content := .data bytes.toList })
  catch _ =>
    return store

/-- The files that a command line may read. -/
def sourceFiles (arguments : List String) : List String :=
  match Arguments.read arguments with
  | .ok understood =>
      let path := (Path.ofString understood.source).render
      [path, path ++ ".txt"]
  | .error _ => []

/-- The whole of an input stream. -/
partial def readAll (stream : IO.FS.Stream) : IO String := do
  let line ← stream.getLine
  if line.isEmpty then
    return ""
  return line ++ (← readAll stream)

/-- Standard input, if the command line asks to run a program. -/
def inputFor (arguments : List String) : IO String := do
  match Arguments.read arguments with
  | .ok understood => if understood.choices.run then readAll (← IO.getStdin) else return ""
  | .error _ => return ""

/-- Writes the files that differ between two stores and removes those that are
gone. -/
def saveFiles (before after : Store) : IO Unit := do
  for (path, file) in after.files do
    if before.files.lookup path != some file then
      IO.FS.writeBinFile path ⟨file.bytes.toArray⟩
  for (path, _) in before.files do
    if (after.files.lookup path).isNone then
      IO.FS.removeFile path

end Cli
end TapeCompiler

open TapeCompiler Cli Workspace in
/-- One call of the command line on the files of the working directory. -/
def main (arguments : List String) : IO UInt32 := do
  let store ← (sourceFiles arguments).foldlM loadFile {}
  let environment :=
    { searchPath := ← IO.getEnv "PATH"
      assembler := ← IO.getEnv "BFCIL_ILASM" }
  let input ← inputFor arguments
  let (report, after) := command arguments input { store, environment }
  IO.print report.stdout
  IO.eprint report.stderr
  saveFiles store after.store
  return report.status.toUInt32
