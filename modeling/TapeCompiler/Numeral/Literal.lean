import TapeCompiler.Text.Blank
import TapeCompiler.Text.Digit
import TapeCompiler.Text.Quoted

/-!
# Integer literals

A literal is a sign, an optional radix mark, and digits in which single
underscores may stand between two digits or right behind the radix mark;
blanks may surround it.  The radix is either fixed at ten or taken from the
mark `0x`, `0o` or `0b`.  In the second case a number without a mark is
decimal and has no leading zeros, zero itself apart.  A decimal digit of any
script counts as its value.

Decimal literals of more than `maxDigits` digits are refused as such, before
anything behind the digits is looked at; the other radices have no limit.
-/

namespace TapeCompiler
namespace Numeral

open Text

/-- How the radix of a literal is found. -/
inductive Radix where
  /-- From the mark in front of the digits; decimal without one. -/
  | marked
  /-- Always ten. -/
  | ten
deriving DecidableEq, Repr

/-- The number that stands for the radix in messages. -/
def Radix.number : Radix → Nat
  | .marked => 0
  | .ten => 10

/-- Why a text is no integer literal. -/
inductive LiteralError where
  /-- The text does not have the form of a literal. -/
  | malformed (radix : Radix) (text : String)
  /-- A decimal literal with too many digits. -/
  | tooLong (digits : Nat)
deriving DecidableEq, Repr

/-- The greatest number of digits of a decimal literal. -/
def maxDigits : Nat := 4300

/-- The report on a refused literal.  The quoted text is cut to 200 characters. -/
def LiteralError.message : LiteralError → String
  | .malformed radix text =>
      let shown := String.ofList ((quoted text).toList.take 200)
      s!"invalid literal for int() with base {radix.number}: {shown}"
  | .tooLong digits =>
      s!"Exceeds the limit ({maxDigits} digits) for integer string conversion: " ++
        s!"value has {digits} digits; use sys.set_int_max_str_digits() to increase the limit"

/-- A blank around a literal.  Of the ASCII blanks the information separators
do not count. -/
def isMargin (c : Char) : Bool :=
  if c.toNat < 0x80 then c == ' ' || (0x09 ≤ c.toNat && c.toNat ≤ 0x0D) else isBlank c

/-- The value of a digit or letter in a radix up to thirty-six. -/
def digitValue? (c : Char) : Option Nat :=
  match decimalValue? c with
  | some value => some value
  | none =>
      if 'a' ≤ c ∧ c ≤ 'z' then some (c.toNat - 'a'.toNat + 10)
      else if 'A' ≤ c ∧ c ≤ 'Z' then some (c.toNat - 'A'.toNat + 10)
      else none

/-- Whether a character is a digit of the radix. -/
def isDigitOf (radix : Nat) (c : Char) : Bool :=
  match digitValue? c with
  | some value => value < radix
  | none => false

/-- Whether a text has the value zero as its first character. -/
def startsWithZero : List Char → Bool
  | c :: _ => decimalValue? c == some 0
  | [] => false

/-- The sign in front of a literal, as a factor, and the text behind it. -/
def takeSign : List Char → Int × List Char
  | '+' :: rest => (1, rest)
  | '-' :: rest => (-1, rest)
  | rest => (1, rest)

/-- The radix that a mark letter stands for. -/
def markedRadix? (c : Char) : Option Nat :=
  if c = 'x' ∨ c = 'X' then some 16
  else if c = 'o' ∨ c = 'O' then some 8
  else if c = 'b' ∨ c = 'B' then some 2
  else none

/-- The radix and the text behind its mark.  One underscore may follow the
mark. -/
def takeRadix (radix : Radix) (text : List Char) : Nat × List Char :=
  match radix, startsWithZero text, text with
  | .marked, true, _ :: mark :: rest =>
      match markedRadix? mark with
      | some found =>
          match rest with
          | '_' :: digits => (found, digits)
          | _ => (found, rest)
      | none => (10, text)
  | _, _, _ => (10, text)

/-- Underscores stand only between two digits. -/
def underscoresBetween : List Char → Bool
  | [] => true
  | ['_'] => false
  | '_' :: '_' :: _ => false
  | _ :: rest => underscoresBetween rest

/-- The value of digits in a radix; underscores are passed over. -/
def digitsValue (radix : Nat) (digits : List Char) : Nat :=
  digits.foldl
    (fun total c =>
      match digitValue? c with
      | some value => total * radix + value
      | none => total)
    0

/-- Reads a text as an integer literal. -/
def readLiteral (radix : Radix) (text : String) : Except LiteralError Int :=
  let (sign, unsigned) := takeSign (text.toList.dropWhile isMargin)
  let (base, body) := takeRadix radix unsigned
  let digits := body.takeWhile fun c => isDigitOf base c || c == '_'
  let behind := body.dropWhile fun c => isDigitOf base c || c == '_'
  let count := digits.countP (· != '_')
  let value := digitsValue base digits
  let zeroOnly := radix == .marked && base == 10 && startsWithZero body
  if digits.head? = some '_' ∨ underscoresBetween digits = false then
    .error (.malformed radix text)
  else if base = 10 ∧ maxDigits < count then
    .error (.tooLong count)
  else if (zeroOnly ∧ value ≠ 0) ∨ count = 0 ∨ behind.all isMargin = false then
    .error (.malformed radix text)
  else
    .ok (sign * value)

end Numeral
end TapeCompiler
