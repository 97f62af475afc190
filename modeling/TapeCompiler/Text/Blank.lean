/-!
# Blank characters

The blanks that separate words of instruction text and surround captured
output: the Unicode white space characters together with the four information
separators `U+001C` to `U+001F`.  Trimming and splitting into a first word and
a remainder are defined on lists of characters, where each is a `takeWhile` or
a `dropWhile`.
-/

namespace TapeCompiler
namespace Text

/-- White space in the Unicode sense, the information separators included. -/
def isBlank (c : Char) : Bool :=
  let n := c.toNat
  (0x09 ≤ n && n ≤ 0x0D) || (0x1C ≤ n && n ≤ 0x20) || n == 0x85 || n == 0xA0 ||
    n == 0x1680 || (0x2000 ≤ n && n ≤ 0x200A) || n == 0x2028 || n == 0x2029 ||
    n == 0x202F || n == 0x205F || n == 0x3000

/-- The text from its first character that is not blank. -/
def trimLeft (text : List Char) : List Char :=
  text.dropWhile isBlank

/-- The text up to its last character that is not blank. -/
def trimRight (text : List Char) : List Char :=
  (text.reverse.dropWhile isBlank).reverse

/-- The text without blanks at either end. -/
def trim (text : List Char) : List Char :=
  trimRight (trimLeft text)

/-- The characters before the first blank. -/
def firstWord (text : List Char) : List Char :=
  text.takeWhile fun c => !isBlank c

/-- What follows the first word and the blanks behind it. -/
def afterFirstWord (text : List Char) : List Char :=
  trimLeft (text.dropWhile fun c => !isBlank c)

/-- `trim` on strings. -/
def trimmed (text : String) : String :=
  String.ofList (trim text.toList)

end Text
end TapeCompiler
