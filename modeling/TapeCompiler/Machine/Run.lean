import TapeCompiler.Machine.Procedure

/-!
# Runs of the machine

A run executes operations one at a time, each counted as a step, until one
stops it, execution leaves the program, or a fault is met.  The number of
steps over all runs of a machine is bounded: an instruction that would exceed
the limit is counted and not executed.  What is left of the limit is the
measure on which the definition of a run recurses.
-/

namespace TapeCompiler
namespace Machine

open Assembly

/-- How a step of execution leaves the machine. -/
inductive Step where
  /-- Execution goes on. -/
  | running (config : Config)
  /-- The program has stopped. -/
  | stopped (state : State)
  /-- The instruction met a fault. -/
  | faulted (fault : Fault) (state : State)
deriving DecidableEq, Repr

/-- Executes one operation in a configuration.  The step is counted first, and
what the operation has changed stays changed whatever comes of it. -/
def step (operation : Operation) (config : Config) : Step :=
  match config with
  | ⟨pc, stack, state⟩ =>
      match (Procedure.carryOut operation).run ⟨pc, stack, state.tick⟩ with
      | (.error fault, after) => .faulted fault after.state
      | (.ok .next, after) => .running { after with pc := pc + 1 }
      | (.ok (.goTo target), after) => .running { after with pc := target }
      | (.ok .stop, after) => .stopped after.state

/-- How a run ended: with a fault at an instruction, or by itself. -/
structure Outcome where
  state : State
  fault : Option (Fault × Nat) := none
deriving DecidableEq, Repr

/-- Runs operations from a configuration, with `budget` steps left of
`limit`. -/
def execute (operations : Array Operation) (limit : Int) : Nat → Config → Outcome
  | budget, config =>
      if h : config.pc < operations.size then
        match budget with
        | 0 =>
            { state := config.state.tick, fault := some (.stepLimit limit, config.pc) }
        | budget + 1 =>
            let pc := config.pc
            match step operations[config.pc] config with
            | .running next => execute operations limit budget next
            | .stopped state => { state }
            | .faulted fault state => { state, fault := some (fault, pc) }
      else
        { state := config.state }

/-- Execution that has left the program is over. -/
theorem execute_of_size_le (operations : Array Operation) (limit : Int) (budget : Nat)
    (config : Config) (h : operations.size ≤ config.pc) :
    execute operations limit budget config = { state := config.state } := by
  unfold execute
  rw [dif_neg (Nat.not_lt.mpr h)]

/-- The number of steps that a machine may take over all its runs, unless told
otherwise. -/
def defaultStepLimit : Int := 10000000

/-- Runs instruction text on a machine with the given input. -/
def State.run (state : State) (limit : Int) (body : String) (input : String) : Outcome :=
  let operations := Operation.ofListing (Listing.read body)
  let budget := (limit - state.steps).toNat
  execute operations limit budget { state := state.feed input.toList }

end Machine
end TapeCompiler
