import TapeCompiler.Text.Printable

/-!
# Quoted text

Text that stands inside a message is quoted so that every character of it can
be told from the message.  Apostrophes enclose it, or double quotes when it
holds an apostrophe and no double quote.  The enclosing quote and the
backslash get a backslash in front; what is not printable is written by its
code point.
-/

namespace TapeCompiler
namespace Text

/-- The character `'`. -/
def apostrophe : Char := '\x27'

/-- The character `"`. -/
def doubleQuote : Char := '\x22'

/-- The character `\`. -/
def backslash : Char := '\x5c'

/-- A number in lower-case hexadecimal, with zeros in front up to a width. -/
def hexadecimal (width n : Nat) : List Char :=
  let digits := Nat.toDigits 16 n
  List.replicate (width - digits.length) '0' ++ digits

/-- How one character is written between quotes. -/
def escaped (quote c : Char) : List Char :=
  if c = quote ∨ c = backslash then [backslash, c]
  else if c = '\n' then [backslash, 'n']
  else if c = '\r' then [backslash, 'r']
  else if c = '\t' then [backslash, 't']
  else if isPrintable c then [c]
  else if c.toNat < 0x100 then backslash :: 'x' :: hexadecimal 2 c.toNat
  else if c.toNat < 0x10000 then backslash :: 'u' :: hexadecimal 4 c.toNat
  else backslash :: 'U' :: hexadecimal 8 c.toNat

/-- The quote that encloses a text. -/
def enclosingQuote (text : List Char) : Char :=
  if apostrophe ∈ text ∧ doubleQuote ∉ text then doubleQuote else apostrophe

/-- A text in quotes. -/
def quoted (text : String) : String :=
  let quote := enclosingQuote text.toList
  String.ofList (quote :: text.toList.flatMap (escaped quote) ++ [quote])

end Text
end TapeCompiler
