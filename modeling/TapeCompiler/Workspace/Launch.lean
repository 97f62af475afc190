import TapeCompiler.Workspace.Interpreter
import TapeCompiler.Workspace.Store

/-!
# Finding and launching programs

A program is searched for by name over the directories of a search path, where
an empty entry stands for the working directory.  A name with a slash is a path
already.  Searching and launching differ: an empty search path finds nothing,
but launches from the working directory; and a launch reports why it failed.

A file of data is launched through its interpreter, which gets its own argument
and the file's path in front of the arguments.  Arguments are bytes, since that
of an interpreter need not be text.
-/

namespace TapeCompiler
namespace Workspace

open Text

/-- The settings of the surroundings that searching depends on. -/
structure Environment where
  /-- The directories to search, separated by colons, if they are set. -/
  searchPath : Option String := none
  /-- The assembler to use where none is asked for. -/
  assembler : Option String := none
deriving DecidableEq, Repr

/-- The directories that are searched where none are set. -/
def systemSearchPath : String :=
  "/bin:/usr/bin"

/-- The directories to search.  Setting none is not the same as setting an empty
text. -/
def Environment.path (environment : Environment) : String :=
  environment.searchPath.getD systemSearchPath

/-- The directories of a search path. -/
def searchEntries (searchPath : String) : List String :=
  (splitAt ':' searchPath.toList).map String.ofList

/-- The path of a name in a directory of a search path. -/
def inDirectory (directory name : String) : String :=
  if directory = "" ∨ directory.toList.getLast? = some '/' then directory ++ name
  else directory ++ "/" ++ name

/-- Whether a name is a path already. -/
def hasSlash (name : String) : Bool :=
  name.toList.contains '/'

/-- How many files can stand in a launch: the one launched, its interpreter, the
interpreter of that, and so on. -/
def maxLoads : Nat := 6

/-- The path of an interpreter.  An empty name stands for the working directory,
which is no program. -/
def Interpreter.path (interpreter : Interpreter) : String :=
  if interpreter.name.isEmpty then "." else pathOfBytes interpreter.name

/-- What a program left behind: its status and what it wrote. -/
structure Finished where
  status : Int
  stdout : List UInt8
  stderr : List UInt8
deriving DecidableEq, Repr

/-- The status that is seen from outside; of a regular status only the lowest
eight bits are. -/
def Assembler.exitStatus (assembler : Assembler) : Int :=
  if assembler.status < 0 then assembler.status else assembler.status % 256

namespace Store

/-- Whether a path leads to a file that may be executed. -/
def isProgram (store : Store) (path : String) : Bool :=
  isNamable path &&
    match store.find path with
    | .ok (.file file) => file.executable
    | _ => false

/-- Searches for a program. -/
def search (store : Store) (searchPath name : String) : Option String :=
  if hasSlash name then
    if store.isProgram name then some name else none
  else if searchPath = "" then
    none
  else
    ((searchEntries searchPath).map (inDirectory · name)).find? store.isProgram

/-- The file that a path leads to, if it may be executed. -/
def openProgram (store : Store) (path : String) : Except SystemError File := do
  match ← store.find path with
  | .directory => throw .permissionDenied
  | .file file => if file.executable then return file else throw .permissionDenied

/-- The assembler that a path launches and the arguments that it gets, if so
many files can still be loaded.  A hosted assembler is loaded together with the
machine that runs it, so it takes two of them.  A file is opened before it is
known that it is one too many. -/
def load (store : Store) :
    Nat → String → List (List UInt8) → Except SystemError (Assembler × List (List UInt8))
  | 0, path, _ => do
      let _ ← store.openProgram path
      throw .tooManyLevels
  | loads + 1, path, arguments => do
      let file ← store.openProgram path
      match file.content with
      | .program assembler =>
          if loads = 0 ∧ assembler.hosted then throw .tooManyLevels
          else return (assembler, arguments)
      | .data bytes =>
          match Interpreter.ofFile? bytes with
          | none => throw .execFormat
          | some interpreter =>
              store.load loads interpreter.path
                (interpreter.argument.toList ++ Utf8.encode path :: arguments)

/-- Loads the first of several paths that can be.  If none can, the reason is
the first one other than that there is nothing at the path, or else the last. -/
def loadFirst (store : Store) (arguments : List (List UInt8)) :
    SystemError → List String → Except SystemError (Assembler × List (List UInt8))
  | reason, [] => .error reason
  | reason, path :: rest =>
      match store.load maxLoads path arguments with
      | .ok loaded => .ok loaded
      | .error error =>
          let absent := reason = .noEntry ∨ reason = .notDirectory
          store.loadFirst arguments (if absent then error else reason) rest

/-- What an assembler produces from arguments. -/
def product (store : Store) (arguments : List (List UInt8)) : Product → List UInt8
  | .bytes bytes => bytes
  | .echo =>
      let source :=
        match arguments.getLast? with
        | none => []
        | some path => (store.read (pathOfBytes path)).toOption.getD []
      arguments.flatMap (· ++ [0x0A]) ++ source

/-- The file that the arguments of an assembler ask it to produce.  The last
argument that asks for one counts. -/
def outputArgument? (arguments : List (List UInt8)) : Option String :=
  let mark := Utf8.encode "/output="
  arguments.reverse.findSome? fun argument =>
    if mark.isPrefixOf argument then
      some (pathOfBytes (argument.drop mark.length))
    else
      none

/-- The store after an assembler has run. -/
def afterRun (store : Store) (assembler : Assembler) (arguments : List (List UInt8)) : Store :=
  match assembler.produces, outputArgument? arguments with
  | true, some path =>
      match store.write path (store.product arguments assembler.product) with
      | .ok written => written
      | .error _ => store
  | _, _ => store

/-- Launches a program by name with arguments and waits for its end. -/
def launch (store : Store) (searchPath name : String) (arguments : List String) :
    Except SystemError (Finished × Store) := do
  let paths :=
    if hasSlash name then [name]
    else (searchEntries searchPath).map (inDirectory · name)
  let (assembler, arguments) ← store.loadFirst (arguments.map Utf8.encode) .noEntry paths
  let finished :=
    { status := assembler.exitStatus
      stdout := assembler.stdout
      stderr := assembler.stderr }
  return (finished, store.afterRun assembler arguments)

end Store
end Workspace
end TapeCompiler
