import TapeCompiler.Machine.Fault
import TapeCompiler.Machine.Operation
import TapeCompiler.Machine.State

/-!
# Operations at work

An operation works on the machine in place.  It takes values from the stack,
examines them, changes the state and pushes results, each in its turn, and the
first fault ends it.  Nothing is taken back then: the machine stays as it has
been changed by that time.

Values are taken from the stack in order, top first, and each is examined as
late as possible: a binary operation takes both operands before it looks at
either, while an indirect store looks at the value before it takes the
address.
-/

namespace TapeCompiler
namespace Machine

/-- A change of state. -/
inductive Action where
  | none
  | writeCell (index : Nat) (value : UInt8)
  | setCounter (value : Int)
  | setScratch (value : Nat)
  | emit (codePoint : Nat)
  | consume
deriving DecidableEq, Repr

/-- Where execution goes on. -/
inductive Control where
  | next
  | goTo (target : Nat)
  | stop
deriving DecidableEq, Repr

/-- Carries out a change of state. -/
def State.apply (state : State) : Action → State
  | .none => state
  | .writeCell index value => { state with tape := state.tape.write index value }
  | .setCounter value => { state with counter := value }
  | .setScratch value => { state with scratch := value }
  | .emit codePoint => { state with output := state.output.push codePoint }
  | .consume =>
      match state.unread with
      | [] => state
      | _ :: rest => { state with unread := rest, consumed := state.consumed + 1 }

/-! ### Values -/

/-- The number that a value is. -/
def Value.toWord : Value → Except Fault Int
  | .word n => .ok n
  | _ => .error .notAWord

/-- The cell that a value is the address of. -/
def Value.toAddress : Value → Except Fault Nat
  | .address index => .ok index
  | _ => .error .notAnAddress

/-- The cell that a value is the index of. -/
def Value.toIndex (tape : Tape) (value : Value) : Except Fault Nat := do
  let index ← value.toWord
  if 0 ≤ index ∧ index < tape.size then
    return index.toNat
  else
    throw (.indexOutOfRange index)

/-- The character that a number is the code point of. -/
def toCodePoint (n : Int) : Except Fault Nat :=
  if 0 ≤ n ∧ n < 0x110000 then .ok n.toNat else .error .notACharacter

/-- A cell value as a word. -/
def byteWord (value : UInt8) : Value :=
  .word value.toNat

/-- The word that reading a character pushes: its code point, or `-1` at the
end of the input. -/
def nextInput : List Char → Value
  | [] => .word (-1)
  | c :: _ => .word c.toNat

/-- Where a jump to a label goes. -/
def landing (label : String) : Option Nat → Except Fault Control
  | some target => .ok (.goTo target)
  | none => .error (.unknownLabel label)

/-! ### Procedures -/

/-- A procedure on a machine that may meet a fault.  What it has done to the
machine by then stays done. -/
abbrev Procedure := ExceptT Fault (StateM Config)

namespace Procedure

/-- Puts a value on the stack. -/
def push (value : Value) : Procedure Unit :=
  modify fun config => { config with stack := value :: config.stack }

/-- Takes the top value from the stack. -/
def pop : Procedure Value := do
  match (← get).stack with
  | [] => throw .stackUnderflow
  | value :: rest =>
      modify fun config => { config with stack := rest }
      return value

/-- Goes on with what an examination has found, unless that is a fault. -/
def check {α : Type} (examined : Except Fault α) : Procedure α :=
  ExceptT.mk (pure examined)

/-- The cell of the tape that a value is the index of. -/
def checkIndex (position : Value) : Procedure Nat := do
  check (position.toIndex (← get).state.tape)

/-- Changes the state. -/
def act (action : Action) : Procedure Unit :=
  modify fun config => { config with state := config.state.apply action }

/-- Combines the two topmost words. -/
def arithmetic (combine : Int → Int → Int) : Procedure Control := do
  let second ← pop
  let first ← pop
  let a ← check first.toWord
  let b ← check second.toWord
  push (.word (Numeral.wrap (combine a b)))
  return .next

/-- Takes the next character of the input. -/
def readInput : Procedure Value := do
  let value := nextInput (← get).state.unread
  act .consume
  return value

/-- Carries out an operation and tells where execution goes on. -/
def carryOut (operation : Operation) : Procedure Control := do
  match operation with
  | .skip => return .next
  | .halt => return .stop
  | .loadTape =>
      push .tape
      return .next
  | .loadCounter =>
      push (.word (← get).state.counter)
      return .next
  | .storeTape => throw .readOnlyField
  | .storeCounter =>
      let value ← pop
      let n ← check value.toWord
      act (.setCounter (Numeral.wrap n))
      return .next
  | .accessField operand => throw (.unknownField operand)
  | .push (.ok n) =>
      push (.word n)
      return .next
  | .push (.error error) => throw (.badLiteral error)
  | .add => arithmetic (· + ·)
  | .subtract => arithmetic (· - ·)
  | .toByte =>
      let value ← pop
      let n ← check value.toWord
      push (byteWord (Numeral.lowByte n))
      return .next
  | .duplicate =>
      let value ← pop
      push value
      push value
      return .next
  | .loadAddress =>
      let position ← pop
      let _ ← pop
      let index ← checkIndex position
      push (.address index)
      return .next
  | .loadIndirect =>
      let pointer ← pop
      let index ← check pointer.toAddress
      push (byteWord ((← get).state.tape.cell index))
      return .next
  | .storeIndirect =>
      let value ← pop
      let n ← check value.toWord
      let pointer ← pop
      let index ← check pointer.toAddress
      act (.writeCell index (Numeral.lowByte n))
      return .next
  | .loadElement =>
      let position ← pop
      let _ ← pop
      let index ← checkIndex position
      push (byteWord ((← get).state.tape.cell index))
      return .next
  | .storeElement =>
      let value ← pop
      let position ← pop
      let _ ← pop
      let n ← check value.toWord
      let index ← checkIndex position
      act (.writeCell index (Numeral.lowByte n))
      return .next
  | .storeScratch =>
      let value ← pop
      let n ← check value.toWord
      act (.setScratch (Numeral.lowSixteen n))
      return .next
  | .loadScratch =>
      push (.word (← get).state.scratch)
      return .next
  | .writeChar =>
      let value ← pop
      let n ← check value.toWord
      let codePoint ← check (toCodePoint n)
      act (.emit codePoint)
      return .next
  | .readChar =>
      let value ← readInput
      push value
      return .next
  | .callMethod operand => throw (.unknownCall operand)
  | .jumpIfZero label target =>
      let value ← pop
      if value = .word 0 then
        check (landing label target)
      else
        return .next
  | .jump label target => check (landing label target)
  | .unknown opcode => throw (.unknownInstruction opcode)

end Procedure
end Machine
end TapeCompiler
