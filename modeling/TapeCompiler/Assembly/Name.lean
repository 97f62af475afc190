import TapeCompiler.Text.Quoted

/-!
# Quoted names

Names in assembly text stand between apostrophes, so that no name is taken for
a keyword.  A backslash goes before every apostrophe and every backslash of
the name; `unquote` reads such a literal back.  A name made from some other
text, such as that of a file, is an identifier of ASCII letters, digits and
underscores.
-/

namespace TapeCompiler
namespace Assembly

open Text

/-- How one character of a name is written between apostrophes. -/
def escapeNameChar (c : Char) : List Char :=
  if c = backslash ∨ c = apostrophe then [backslash, c] else [c]

/-- A name as an assembly literal. -/
def quoteName (name : String) : String :=
  String.ofList (apostrophe :: name.toList.flatMap escapeNameChar ++ [apostrophe])

/-- The content of a literal whose opening apostrophe has been read, and the
text behind the closing one.  A backslash makes the next character stand for
itself. -/
def unquoteRest : List Char → Option (List Char × List Char)
  | [] => none
  | c :: rest =>
      if c = apostrophe then
        some ([], rest)
      else if c = backslash then
        match rest with
        | [] => none
        | next :: behind => (unquoteRest behind).map fun (name, text) => (next :: name, text)
      else
        (unquoteRest rest).map fun (name, text) => (c :: name, text)

/-- Reads a quoted name from the front of a text. -/
def unquote : List Char → Option (List Char × List Char)
  | c :: rest => if c = apostrophe then unquoteRest rest else none
  | [] => none

/-- The name of a program that is given none. -/
def defaultName : String := "Program"

/-- Whether a character may stand in an identifier. -/
def isIdentifierChar (c : Char) : Bool :=
  c.isAlphanum || c == '_'

/-- The identifier made from a text: an underscore for each character that may
not stand in one and in front of a leading digit, and the default name for the
empty text. -/
def identifierOf (text : String) : String :=
  match text.toList.map fun c => if isIdentifierChar c then c else '_' with
  | [] => defaultName
  | c :: rest => String.ofList (if c.isDigit then '_' :: c :: rest else c :: rest)

end Assembly
end TapeCompiler
