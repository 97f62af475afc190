import TapeCompiler.Source.Command

/-!
# Runs of commands

A run is a maximal block of adjacent occurrences of one command.  Comment
characters belong to no run and end the one before them.  The runs of a source
are built from its end: a command character extends the run that starts right
behind it, if that run is of the same command, and starts a new run otherwise.
-/

namespace TapeCompiler
namespace Source

/-- `count` adjacent occurrences of `command`, the first of them at `pos`. -/
structure Run where
  command : Command
  count : Nat
  pos : Nat
deriving DecidableEq, Repr

namespace Run

/-- A run as listed: the name of the command and the number of occurrences. -/
def text (run : Run) : String :=
  s!"{run.command.mnemonic}({run.count})"

/-- Agreement of runs up to where they stand. -/
def agrees (first second : Run) : Bool :=
  first.command == second.command && first.count == second.count

/-- Agreement of two lists of runs, run by run. -/
def listsAgree : List Run → List Run → Bool
  | [], [] => true
  | first :: firsts, second :: seconds => first.agrees second && listsAgree firsts seconds
  | _, _ => false

/-- One more source character, with its index, in front of the runs behind it. -/
def extend (placed : Char × Nat) (behind : List Run) : List Run :=
  match Command.ofChar? placed.1 with
  | none => behind
  | some command =>
      match behind with
      | [] => [⟨command, 1, placed.2⟩]
      | run :: rest =>
          if run.command = command ∧ run.pos = placed.2 + 1 then
            ⟨command, run.count + 1, placed.2⟩ :: rest
          else
            ⟨command, 1, placed.2⟩ :: run :: rest

end Run

/-- The maximal runs of a source, in order. -/
def runs (source : List Char) : List Run :=
  source.zipIdx.foldr Run.extend []

end Source
end TapeCompiler
