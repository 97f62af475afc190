import TapeCompiler.Table
import TapeCompiler.Text.Encoding
import TapeCompiler.Workspace.SystemError

/-!
# The file store

A store holds directories and files by location, a list of names from the root
directory down, and has a working directory.  A path text is followed name by
name: `..` leads to the directory above, and every name but the last has to be
that of a directory.  There are no links.

A file holds bytes, or it is an assembler, of which the store keeps what it
does when it is run.
-/

namespace TapeCompiler
namespace Workspace

open Text

/-- What an assembler puts into its output file. -/
inductive Product where
  /-- Its arguments, one on each line, and then the file that the last of them
  names. -/
  | echo
  | bytes (bytes : List UInt8)
deriving DecidableEq, Repr

/-- What an assembler does when it is run: the status it ends with, what it
writes to its two output channels, and whether it produces its output file and
with what in it.  A negative status is that of an assembler ended by a signal. -/
structure Assembler where
  status : Int := 0
  stdout : List UInt8 := []
  stderr : List UInt8 := []
  produces : Bool := true
  product : Product := .echo
  /-- Whether it is run by a machine of its own, which is loaded with it. -/
  hosted : Bool := true
deriving DecidableEq, Repr

/-- What a file holds. -/
inductive Content where
  | data (bytes : List UInt8)
  | program (assembler : Assembler)
deriving DecidableEq, Repr

/-- A file. -/
structure File where
  content : Content
  executable : Bool := false
deriving DecidableEq, Repr

/-- The bytes of a file.  Those of an assembler are not kept. -/
def File.bytes (file : File) : List UInt8 :=
  match file.content with
  | .data bytes => bytes
  | .program _ => []

/-- What stands at a location. -/
inductive Node where
  | directory
  | file (file : File)
deriving DecidableEq, Repr

/-- The names that lead from the root directory to a node. -/
abbrev Location := List String

/-- The location that a name leads to from another one.  Two dots lead to the
directory above, and the root directory is its own; no name and a single dot
stay where they are. -/
def Location.enter (location : Location) (name : String) : Location :=
  if name = "" ∨ name = "." then location
  else if name = ".." then location.dropLast
  else location ++ [name]

/-- Files and directories, with a working directory. -/
structure Store where
  nodes : Table Location Node := []
  here : Location := []
deriving DecidableEq, Repr

/-- The path text that bytes spell.  A zero character stands for bytes that are
no text; no name in a store holds one, so such a path leads to no node. -/
def pathOfBytes (bytes : List UInt8) : String :=
  String.ofList (Utf8.decodeWith '\x00' bytes)

/-- The greatest number of bytes of a name. -/
def maxNameBytes : Nat := 255

/-- The number of bytes that a path text stays below. -/
def pathBytesLimit : Nat := 4096

namespace Store

/-- The node at a location.  The root directory is always there. -/
def node? (store : Store) (location : Location) : Option Node :=
  if location = [] then some .directory else store.nodes.get? location

/-- Sets the node at a location. -/
def set (store : Store) (location : Location) (node : Node) : Store :=
  { store with nodes := store.nodes.define location node }

/-- Removes the node at a location. -/
def erase (store : Store) (location : Location) : Store :=
  { store with nodes := store.nodes.erase location }

/-- Below the root directory, a set location holds the node and every other
location what it held. -/
theorem node?_set (store : Store) {location : Location} (hbelow : location ≠ [])
    (other : Location) (node : Node) :
    (store.set location node).node? other =
      if other = location then some node else store.node? other := by
  unfold node? set
  by_cases hroot : other = []
  · simp [hroot, hbelow.symm]
  · simp [hroot, Table.get?_define]

/-- Below the root directory, an erased location holds nothing and every other
location what it held. -/
theorem node?_erase (store : Store) {location : Location} (hbelow : location ≠ [])
    (other : Location) :
    (store.erase location).node? other =
      if other = location then none else store.node? other := by
  unfold node? erase
  by_cases hroot : other = []
  · simp [hroot, hbelow.symm]
  · simp [hroot, Table.get?_erase]

/-- Follows names from a location.  The last one need not exist. -/
def follow (store : Store) : Location → List String → Except SystemError Location
  | location, [] => .ok location
  | location, name :: rest =>
      match store.node? location with
      | none => .error .noEntry
      | some (.file _) => .error .notDirectory
      | some .directory =>
          if maxNameBytes < name.utf8ByteSize then .error .nameTooLong
          else store.follow (location.enter name) rest

/-- The location that a path text leads to. -/
def locate (store : Store) (path : String) : Except SystemError Location :=
  if path = "" then
    .error .noEntry
  else if pathBytesLimit ≤ path.utf8ByteSize then
    .error .nameTooLong
  else
    let names := (splitAt '/' path.toList).map String.ofList
    store.follow (if path.toList.head? = some '/' then [] else store.here) names

/-- The node that a path text leads to. -/
def find (store : Store) (path : String) : Except SystemError Node := do
  let location ← store.locate path
  match store.node? location with
  | some node => return node
  | none => throw .noEntry

/-- Whether a path text can be passed to the operating system at all. -/
def isNamable (path : String) : Bool :=
  !path.toList.contains '\x00'

/-- Whether a path leads to a node with some property.  A path that leads
nowhere has none; a path that is too long is an error. -/
def test (store : Store) (path : String) (property : Node → Bool) : Except SystemError Bool :=
  if isNamable path then
    match store.find path with
    | .ok node => .ok (property node)
    | .error .noEntry => .ok false
    | .error .notDirectory => .ok false
    | .error error => .error error
  else
    .ok false

/-- Whether a path leads anywhere. -/
def hasNode (store : Store) (path : String) : Except SystemError Bool :=
  store.test path fun _ => true

/-- Whether a path leads to a file. -/
def hasFile (store : Store) (path : String) : Except SystemError Bool :=
  store.test path fun node => node matches .file _

/-- Reads a file. -/
def read (store : Store) (path : String) : Except SystemError (List UInt8) := do
  match ← store.find path with
  | .directory => throw .isDirectory
  | .file file => return file.bytes

/-- Writes a file.  A file that is there keeps its permission. -/
def write (store : Store) (path : String) (bytes : List UInt8) : Except SystemError Store := do
  let location ← store.locate path
  match store.node? location with
  | some .directory => throw .isDirectory
  | some (.file file) => return store.set location (.file { file with content := .data bytes })
  | none => return store.set location (.file { content := .data bytes })

/-- Removes a file, if it is there. -/
def remove (store : Store) (path : String) : Store :=
  match store.locate path with
  | .ok location => store.erase location
  | .error _ => store

/-- Follows names from a location and makes a directory wherever there is
nothing.  Gives the store and the location reached. -/
def makeDirectories (store : Store) : Location → List String → Store × Location
  | location, [] => (store, location)
  | location, name :: rest =>
      let next := location.enter name
      match store.node? next with
      | some _ => store.makeDirectories next rest
      | none => (store.set next .directory).makeDirectories next rest

/-- Puts a node where a path from the working directory leads, and makes the
directories on the way. -/
def place (store : Store) (path : String) (node : Node) : Store :=
  let names := (splitAt '/' path.toList).map String.ofList
  let (opened, above) := store.makeDirectories store.here names.dropLast
  opened.set (above.enter (names.getLast?.getD "")) node

/-- The files below the working directory, by their paths from there. -/
def files (store : Store) : List (String × File) :=
  store.nodes.filterMap fun (location, node) =>
    match node with
    | .directory => none
    | .file file =>
        if store.here.isPrefixOf location then
          some ("/".intercalate (location.drop store.here.length), file)
        else
          none

end Store
end Workspace
end TapeCompiler
