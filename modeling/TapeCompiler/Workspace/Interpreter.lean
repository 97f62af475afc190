/-!
# Interpreter lines

A file of data can be launched if it starts with `#!` and a line that names an
interpreter.  Behind the name, after a gap of spaces and tabs, one argument can
stand; it reaches to the end of the line and may hold gaps itself.

Only the start of the file is looked at, and a shorter file counts as if zero
bytes followed it.  A zero byte ends the name or the argument, but not the
line, and no newline behind a zero byte is seen.
-/

namespace TapeCompiler
namespace Workspace

/-- An interpreter as a file names it, by bytes that need not be text. -/
structure Interpreter where
  name : List UInt8
  argument : Option (List UInt8)
deriving DecidableEq, Repr

/-- How many bytes of a file are looked at for an interpreter. -/
def headerBytes : Nat := 256

/-- Whether a byte is a space or a tab. -/
def isGap (byte : UInt8) : Bool :=
  byte == 0x20 || byte == 0x09

/-- Whether a byte ends the name of an interpreter. -/
def endsName (byte : UInt8) : Bool :=
  isGap byte || byte == 0x00

/-- Bytes without the gaps at both ends. -/
def trimGaps (bytes : List UInt8) : List UInt8 :=
  ((bytes.dropWhile isGap).reverse.dropWhile isGap).reverse

namespace Interpreter

/-- The line at the start of the given bytes.  Without a newline it reaches up
to the last byte, but only if the name on it is seen to end: a name that breaks
off is not taken for a whole one. -/
def line? (bytes : List UInt8) : Option (List UInt8) :=
  if (bytes.takeWhile (· != 0x00)).contains 0x0A then
    some (bytes.takeWhile (· != 0x0A))
  else if (bytes.dropWhile isGap).any endsName then
    some bytes.dropLast
  else
    none

/-- The interpreter that a line without gaps at its ends names.  A gap behind
the name announces an argument, which is empty if a zero byte follows. -/
def ofLine (line : List UInt8) : Interpreter :=
  let behind := line.dropWhile (!endsName ·)
  { name := line.takeWhile (!endsName ·)
    argument :=
      if behind.head?.any isGap then
        some ((behind.dropWhile isGap).takeWhile (· != 0x00))
      else
        none }

/-- The interpreter that the start of a file names.  A line of gaps alone names
none. -/
def ofFile? (bytes : List UInt8) : Option Interpreter :=
  match (bytes.take headerBytes).rightpad headerBytes 0x00 with
  | 0x23 :: 0x21 :: rest =>
      match (line? rest).map trimGaps with
      | none => none
      | some [] => none
      | some line => some (ofLine line)
  | _ => none

end Interpreter
end Workspace
end TapeCompiler
