import TapeCompiler.Text.Split
import TapeCompiler.Text.Utf8

/-!
# Encodings of source files

A source file is read in one of three encodings.  Bytes that an encoding does
not know become replacement characters: they can stand only in comments.
Newlines are made uniform after decoding.
-/

namespace TapeCompiler
namespace Text

/-- An encoding of source files. -/
inductive Encoding where
  | ascii
  | utf8
  | latin1
deriving DecidableEq, Repr

namespace Encoding

/-- The encoding with a given name. -/
def ofName? (name : String) : Option Encoding :=
  if name = "ascii" then some ascii
  else if name = "utf-8" then some utf8
  else if name = "latin-1" then some latin1
  else none

/-- A byte as the character with its code point. -/
def byteChar (byte : UInt8) : Char :=
  Char.ofNat byte.toNat

/-- The characters of a byte string. -/
def decode (encoding : Encoding) (bytes : List UInt8) : List Char :=
  match encoding with
  | ascii => bytes.map fun byte => if byte < 0x80 then byteChar byte else '\ufffd'
  | utf8 => Utf8.decodeReplacing bytes
  | latin1 => bytes.map byteChar

/-- The text of a file. -/
def readText (encoding : Encoding) (bytes : List UInt8) : String :=
  String.ofList (normalizeNewlines (encoding.decode bytes))

/-- The bytes of an ASCII text. -/
def asciiBytes? (text : String) : Option (List UInt8) :=
  if text.toList.all fun c => c.toNat < 0x80 then
    some (text.toList.map fun c => UInt8.ofNat c.toNat)
  else
    none

end Encoding
end Text
end TapeCompiler
