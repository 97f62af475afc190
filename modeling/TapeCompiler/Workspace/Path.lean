import TapeCompiler.Assembly.Name
import TapeCompiler.Text.Quoted
import TapeCompiler.Text.Split

/-!
# Path names

A path name is a root and a list of components.  Reading one drops empty
components and `.`; `..` stays, since what it stands for depends on the files.
Two slashes in front, but not three, are a root of their own.  The suffix of a
path starts at the last dot of its last component, unless that dot is the
first or the last character.
-/

namespace TapeCompiler
namespace Workspace

open Text

/-- What a path name starts from. -/
inductive Root where
  /-- The working directory. -/
  | relative
  /-- The root directory, written `/`. -/
  | slash
  /-- The root directory, written `//`. -/
  | doubleSlash
deriving DecidableEq, Repr

/-- The text of a root. -/
def Root.text : Root → String
  | .relative => ""
  | .slash => "/"
  | .doubleSlash => "//"

/-- A path name. -/
structure Path where
  root : Root := .relative
  parts : List String := []
deriving DecidableEq, Repr

namespace Path

/-- Whether a component says anything. -/
def isPart (part : String) : Bool :=
  part != "" && part != "."

/-- The root that a text starts with. -/
def rootOf (text : List Char) : Root :=
  match (text.takeWhile (· == '/')).length with
  | 0 => .relative
  | 2 => .doubleSlash
  | _ => .slash

/-- Reads a path name. -/
def ofString (text : String) : Path :=
  { root := rootOf text.toList
    parts := ((splitAt '/' text.toList).map String.ofList).filter isPart }

/-- The text of a path name. -/
def render (path : Path) : String :=
  match path.root, path.parts with
  | .relative, [] => "."
  | root, parts => root.text ++ "/".intercalate parts

/-- The last component, or nothing for a path that has none. -/
def name (path : Path) : String :=
  path.parts.getLast?.getD ""

/-- The suffix of a name, with its dot, and the stem before it. -/
def splitSuffix (name : String) : String × String :=
  let reversed := name.toList.reverse
  let ending := reversed.takeWhile (· != '.')
  let before := (reversed.dropWhile (· != '.')).drop 1
  if ending.isEmpty || before.isEmpty then
    (name, "")
  else
    (String.ofList before.reverse, String.ofList ('.' :: ending.reverse))

/-- The last component without its suffix. -/
def stem (path : Path) : String :=
  (splitSuffix path.name).1

/-- The path with another last component, if it has one. -/
def withName? (path : Path) (name : String) : Option Path :=
  if path.parts.isEmpty then none
  else some { path with parts := path.parts.dropLast ++ [name] }

/-- The path without its suffix, if it has a last component.  A stem that is
`.` says nothing and is dropped. -/
def withoutSuffix? (path : Path) : Option Path :=
  (path.withName? path.stem).map fun shorter =>
    { shorter with parts := shorter.parts.filter isPart }

/-- The name of the program in a file. -/
def programName (path : Path) : String :=
  Assembly.identifierOf path.stem

end Path
end Workspace
end TapeCompiler
