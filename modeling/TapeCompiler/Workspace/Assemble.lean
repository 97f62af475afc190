import TapeCompiler.Text.Blank
import TapeCompiler.Workspace.Task

/-!
# Assembling

Assembly text is written to a file beside the executable to be made, the
assembler is run on it, and the file is removed again, also when the assembler
fails, unless it is to be kept.
-/

namespace TapeCompiler
namespace Workspace

open Text

/-- The assembler of the last resort. -/
def systemAssembler : String :=
  "C:\\Windows\\Microsoft.NET\\Framework\\v4.0.30319\\ilasm.exe"

/-- The assembler that is meant by a name or path: a program that the search
finds, or else a file of that path. -/
def resolveAssembler (candidate : String) : Task String := do
  let bench ← get
  match bench.store.search bench.environment.path candidate with
  | some found => return found
  | none =>
      let path := (Path.ofString candidate).render
      if ← Task.ask path (·.hasFile path) then
        return candidate
      else
        throw (.tool (.notFound candidate))

/-- The assembler that is asked for, in the call or in the environment.  An
empty name asks for none. -/
def requestedAssembler (explicit fallback : Option String) : Option String :=
  [explicit, fallback].findSome? fun candidate =>
    candidate.bind fun name => if name = "" then none else some name

/-- Finds the assembler to use. -/
def findAssembler (explicit : Option String) : Task String := do
  let bench ← get
  match requestedAssembler explicit bench.environment.assembler with
  | some candidate => resolveAssembler candidate
  | none =>
      match bench.store.search bench.environment.path "ilasm" with
      | some found => return found
      | none =>
          if ← Task.ask systemAssembler (·.hasFile systemAssembler) then
            return systemAssembler
          else
            throw (.tool .noneFound)

/-- A path with a suffix added to its name. -/
def besides (base : Path) (suffix : String) : Task Path :=
  match base.withName? (base.name ++ suffix) with
  | some path => return path
  | none => throw (.emptyName base)

/-- Writes an ASCII text to a file.  The file is emptied before the text is
looked at. -/
def writeAscii (path : String) (text : String) : Task Unit := do
  Task.requireNamable path
  Task.setStore (← Task.ask path (·.write path []))
  match Encoding.asciiBytes? text with
  | some bytes => Task.setStore (← Task.ask path (·.write path bytes))
  | none => throw .notAscii

/-- Captured output as text. -/
def capturedText (bytes : List UInt8) : Task String :=
  match Utf8.decode bytes with
  | .ok text => return String.ofList (normalizeNewlines text)
  | .error error => throw (.notUtf8 error)

/-- Runs the assembler and judges its status. -/
def runAssembler (assembler : String) (arguments : List String) : Task Unit := do
  let bench ← get
  match bench.store.launch bench.environment.path assembler arguments with
  | .error error => throw (.tool (.launchFailed assembler error))
  | .ok (finished, store) =>
      Task.setStore store
      let stdout ← capturedText finished.stdout
      let stderr ← capturedText finished.stderr
      if finished.status = 0 then
        Task.record [.assemblerOutput stdout]
      else
        throw (.tool (.rejected finished.status (trimmed (stdout ++ stderr))))

/-- The arguments of the assembler. -/
def assemblerArguments (source target : Path) : List String :=
  ["/exe", "/output=" ++ target.render, source.render]

/-- Removes a file from the store of the task. -/
def discard (path : String) : Task Unit :=
  modify fun bench => { bench with store := bench.store.remove path }

/-- Makes an executable from assembly text and gives its path. -/
def assemble (text : String) (base : Path) (explicit : Option String) (keep : Bool) :
    Task Path := do
  let source ← besides base ".il"
  let target ← besides base ".exe"
  let assembler ← findAssembler explicit
  writeAscii source.render text
  let arguments := assemblerArguments source target
  Task.record [.running (assembler :: arguments)]
  let outcome ← Task.attempt (runAssembler assembler arguments)
  if !keep then discard source.render
  Task.conclude outcome
  return target

end Workspace
end TapeCompiler
