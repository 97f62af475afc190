/-!
# Tape commands

The eight commands of a Brainfuck program, each written as one character.
They move a cursor over a tape of byte cells, change the cell under it, write
and read it, and loop while it is not zero.  Every other character is comment.
-/

namespace TapeCompiler
namespace Source

/-- A command of a tape program. -/
inductive Command where
  /-- `>`: move the cursor to the next cell. -/
  | right
  /-- `<`: move the cursor to the cell before. -/
  | left
  /-- `+`: add one to the cell under the cursor. -/
  | increment
  /-- `-`: take one from the cell under the cursor. -/
  | decrement
  /-- `.`: write the cell under the cursor as a character. -/
  | write
  /-- `,`: read a character into the cell under the cursor. -/
  | read
  /-- `[`: skip the loop when the cell under the cursor is zero. -/
  | loopStart
  /-- `]`: go back to the start of the loop. -/
  | loopEnd
deriving DecidableEq, Repr

namespace Command

/-- The character of a command. -/
def toChar : Command → Char
  | right => '>'
  | left => '<'
  | increment => '+'
  | decrement => '-'
  | write => '.'
  | read => ','
  | loopStart => '['
  | loopEnd => ']'

/-- The command that a character stands for. -/
def ofChar? (c : Char) : Option Command :=
  if c = '>' then some right
  else if c = '<' then some left
  else if c = '+' then some increment
  else if c = '-' then some decrement
  else if c = '.' then some write
  else if c = ',' then some read
  else if c = '[' then some loopStart
  else if c = ']' then some loopEnd
  else none

@[simp] theorem ofChar?_toChar (command : Command) : ofChar? command.toChar = some command := by
  cases command <;> decide

/-- A character stands for a command exactly when it is the command's own. -/
theorem ofChar?_eq_some_iff {c : Char} {command : Command} :
    ofChar? c = some command ↔ c = command.toChar := by
  constructor
  · intro h
    unfold ofChar? at h
    repeat' split at h
    all_goals cases h
    all_goals assumption
  · rintro rfl
    exact ofChar?_toChar command

/-- The name of a command in listings of runs. -/
def mnemonic : Command → String
  | right => "INC_PTR"
  | left => "DEC_PTR"
  | increment => "INC_PTD"
  | decrement => "DEC_PTD"
  | write => "WRITE"
  | read => "READ"
  | loopStart => "BRANCH_START"
  | loopEnd => "BRANCH_END"

/-- Whether a text is exactly one command character. -/
def isCommandText (text : String) : Bool :=
  match text.toList with
  | [c] => (ofChar? c).isSome
  | _ => false

end Command
end Source
end TapeCompiler
