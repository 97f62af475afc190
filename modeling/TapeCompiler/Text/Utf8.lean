/-!
# UTF-8

Bytes as text.  A byte string is cut from the left into pieces, each a
character or an ill-formed sequence.  An ill-formed sequence is as long as it
could still have become a character, and at least one byte; so it never holds
a byte that could start a character of its own.  Reading with replacement puts
one `U+FFFD` for each ill-formed sequence; strict reading reports the first.
-/

namespace TapeCompiler
namespace Text
namespace Utf8

/-- The bytes of a text. -/
def encode (text : String) : List UInt8 :=
  text.toList.flatMap String.utf8EncodeChar

/-- What is wrong with an ill-formed sequence. -/
inductive Reason where
  /-- The byte starts no character. -/
  | invalidStart
  /-- The next byte does not continue the character. -/
  | invalidContinuation
  /-- The bytes end inside the character. -/
  | unexpectedEnd
deriving DecidableEq, Repr

/-- The reason in words. -/
def Reason.text : Reason → String
  | .invalidStart => "invalid start byte"
  | .invalidContinuation => "invalid continuation byte"
  | .unexpectedEnd => "unexpected end of data"

/-- A stretch of bytes: a character or an ill-formed sequence. -/
inductive Piece where
  | character (c : Char)
  | illFormed (bytes : List UInt8) (reason : Reason)
deriving DecidableEq, Repr

/-- What the first byte of a character of several bytes says: how many bytes
follow, and the bounds of the first of them. -/
def lead? (byte : UInt8) : Option (Nat × UInt8 × UInt8) :=
  if byte < 0xC2 then none
  else if byte < 0xE0 then some (1, 0x80, 0xBF)
  else if byte = 0xE0 then some (2, 0xA0, 0xBF)
  else if byte = 0xED then some (2, 0x80, 0x9F)
  else if byte < 0xF0 then some (2, 0x80, 0xBF)
  else if byte = 0xF0 then some (3, 0x90, 0xBF)
  else if byte < 0xF4 then some (3, 0x80, 0xBF)
  else if byte = 0xF4 then some (3, 0x80, 0x8F)
  else none

/-- The bytes, at most `count`, that continue a character; the first of them
lies within the given bounds. -/
def continuation : Nat → UInt8 → UInt8 → List UInt8 → List UInt8
  | 0, _, _, _ => []
  | _ + 1, _, _, [] => []
  | count + 1, low, high, byte :: rest =>
      if low ≤ byte ∧ byte ≤ high then byte :: continuation count 0x80 0xBF rest else []

/-- The value of the data bits in the first byte of a character with one, two
or three bytes more. -/
def leadBits (following : Nat) (byte : UInt8) : Nat :=
  match following with
  | 1 => byte.toNat % 32
  | 2 => byte.toNat % 16
  | _ => byte.toNat % 8

/-- The character made of a first byte and the bytes that continue it. -/
def assembleChar (byte : UInt8) (following : List UInt8) : Char :=
  Char.ofNat (following.foldl (fun total next => total * 64 + next.toNat % 64)
    (leadBits following.length byte))

/-- The piece that starts with a byte, and how many of the bytes behind it
belong to it. -/
def firstPiece (byte : UInt8) (rest : List UInt8) : Piece × Nat :=
  if byte < 0x80 then
    (.character (Char.ofNat byte.toNat), 0)
  else
    match lead? byte with
    | none => (.illFormed [byte] .invalidStart, 0)
    | some (count, low, high) =>
        let following := continuation count low high rest
        if following.length = count then
          (.character (assembleChar byte following), count)
        else if following.length = rest.length then
          (.illFormed (byte :: following) .unexpectedEnd, following.length)
        else
          (.illFormed (byte :: following) .invalidContinuation, following.length)

/-- The pieces of a byte string of which the first `skip` bytes belong to an
earlier piece. -/
def piecesFrom : Nat → List UInt8 → List Piece
  | _, [] => []
  | skip + 1, _ :: rest => piecesFrom skip rest
  | 0, byte :: rest =>
      let (piece, count) := firstPiece byte rest
      piece :: piecesFrom count rest

/-- The pieces of a byte string. -/
def pieces (bytes : List UInt8) : List Piece :=
  piecesFrom 0 bytes

/-- The text of a byte string, with a character in the place of each ill-formed
sequence. -/
def decodeWith (substitute : Char) (bytes : List UInt8) : List Char :=
  (pieces bytes).map fun
    | .character c => c
    | .illFormed _ _ => substitute

/-- The text of a byte string, with replacement characters. -/
def decodeReplacing (bytes : List UInt8) : List Char :=
  decodeWith '\ufffd' bytes

/-- The first ill-formed sequence of a byte string and where it stands. -/
structure DecodeError where
  start : Nat
  bytes : List UInt8
  reason : Reason
deriving DecidableEq, Repr

/-- A byte in two hexadecimal digits. -/
def hexByte (byte : UInt8) : String :=
  let digits := Nat.toDigits 16 byte.toNat
  String.ofList (List.replicate (2 - digits.length) '0' ++ digits)

/-- The report on an ill-formed sequence. -/
def DecodeError.message (error : DecodeError) : String :=
  match error.bytes with
  | [byte] =>
      s!"\x27utf-8\x27 codec can\x27t decode byte 0x{hexByte byte} in position " ++
        s!"{error.start}: {error.reason.text}"
  | bytes =>
      let last := error.start + bytes.length - 1
      s!"\x27utf-8\x27 codec can\x27t decode bytes in position " ++
        s!"{error.start}-{last}: {error.reason.text}"

/-- The text of pieces that start at the given place, if all are characters. -/
def decodePieces : Nat → List Piece → Except DecodeError (List Char)
  | _, [] => .ok []
  | start, .character c :: rest =>
      (decodePieces (start + c.utf8Size) rest).map (c :: ·)
  | start, .illFormed bytes reason :: _ => .error { start, bytes, reason }

/-- The text of a byte string without ill-formed sequences. -/
def decode (bytes : List UInt8) : Except DecodeError (List Char) :=
  decodePieces 0 (pieces bytes)

end Utf8
end Text
end TapeCompiler
