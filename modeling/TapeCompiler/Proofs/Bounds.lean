import TapeCompiler.Proofs.Progress
import TapeCompiler.Proofs.Simulation

/-!
# What every run keeps within bounds

Instruction text may be anything, and a run of it may come to any end.  Still
the machine stays well formed: the tape keeps its size and holds nothing
outside it, the cursor and every number on the stack are words, the scratch
variable has sixteen bits, every address on the stack is that of a cell, and
the place in the input does not leave the input.

The argument is about effects and actions only.  What an operation makes of
bounded things is bounded, a bounded action keeps the state bounded
(`State.Bounded.apply`), and the rest follows for steps, for runs, and for any
number of runs in turn.
-/

namespace TapeCompiler
namespace Machine

open Assembly Numeral

/-! ### Bounded values and actions -/

/-- A value that may stand on the stack of a machine with `size` cells. -/
def Value.Bounded (size : Nat) : Value → Prop
  | .word n => IsWord n
  | .tape => True
  | .address index => index < size

def Stack.Bounded (size : Nat) (stack : Stack) : Prop :=
  ∀ value ∈ stack, value.Bounded size

/-- An operation whose literal, if it has one, is a word. -/
def Operation.Bounded : Operation → Prop
  | .push (.ok n) => IsWord n
  | _ => True

/-- What holds of a machine with `size` cells whatever it has run. -/
structure State.Bounded (size : Nat) (state : State) : Prop where
  tape : state.tape.size = size
  /-- Nothing is held outside the tape. -/
  held : state.tape.cells.size ≤ size
  counter : IsWord state.counter
  scratch : state.scratch < 0x10000

theorem Stack.bounded_nil {size : Nat} : Stack.Bounded size [] :=
  fun _ hvalue => absurd hvalue List.not_mem_nil

theorem Stack.Bounded.of_made {size : Nat} {operation : Operation} {state : State}
    {found left : Stack} (hoperation : operation.Bounded) (hfound : found.Bounded size)
    (hstate : state.Bounded size) (hleft : Stack.Made operation state found left) :
    left.Bounded size := by
  intro value hvalue
  rcases hleft value hvalue with hold | hmade
  · exact hfound value hold
  · cases value with
    | tape => trivial
    | address index => exact hstate.tape ▸ hmade
    | word n =>
        rcases hmade with hword | rfl | rfl | hliteral
        · exact hword
        · exact hstate.counter
        · have hscratch := hstate.scratch
          exact isWord_natCast (by omega)
        · rw [hliteral] at hoperation
          exact hoperation

/-! ### Decoded operations -/

/-- A literal is wrapped as it is decoded. -/
theorem Operation.bounded_decode (labels : Labels) (instruction : Instruction) :
    (decode labels instruction).Bounded := by
  unfold decode
  dsimp only
  split <;> try trivial
  · unfold loadField
    split <;> trivial
  · unfold storeField
    split <;> trivial
  · cases Numeral.readLiteral .marked instruction.operand with
    | error error => trivial
    | ok n => exact isWord_wrap n
  · unfold call
    split
    · trivial
    · split <;> trivial

theorem Operation.bounded_of_ofListing {listing : Listing} {pc : Nat} {operation : Operation}
    (hoperation : (ofListing listing)[pc]? = some operation) : operation.Bounded := by
  rw [ofListing, Array.getElem?_map] at hoperation
  obtain ⟨instruction, -, rfl⟩ := Option.map_eq_some_iff.mp hoperation
  exact bounded_decode _ _

/-! ### States -/

/-- Writing holds the cells up to the written one. -/
theorem Tape.size_cells_write (tape : Tape) (index : Nat) (value : UInt8) :
    (tape.write index value).cells.size = max tape.cells.size (index + 1) := by
  obtain ⟨size, cells⟩ := tape
  simp only [write, Array.size_setIfInBounds]
  split
  · omega
  · rw [Array.size_append, Array.size_replicate]
    omega

/-- The machine stands at a place of the input. -/
structure State.Placed (input : List Char) (state : State) : Prop where
  fed : state.Fed input
  position : state.consumed ≤ input.length

section States

variable {size : Nat} {operation : Operation} {state : State} {action : Action} {found : Stack}
  {input : List Char}

/-- What an operation that has found a bounded stack does keeps the state
bounded. -/
theorem State.Bounded.apply (hstate : state.Bounded size) (hfound : found.Bounded size)
    (haction : action.Made operation state found) : (state.apply action).Bounded size := by
  cases action with
  | none => exact hstate
  | writeCell index value =>
      have hheld := hstate.held
      have hindex : index < size := haction.elim (hstate.tape ▸ ·) (hfound (.address index))
      refine ⟨hstate.tape, ?_, hstate.counter, hstate.scratch⟩
      rw [State.apply, Tape.size_cells_write]
      omega
  | setCounter value => exact ⟨hstate.tape, hstate.held, haction, hstate.scratch⟩
  | setScratch value => exact ⟨hstate.tape, hstate.held, hstate.counter, haction⟩
  | emit codePoint => exact ⟨hstate.tape, hstate.held, hstate.counter, hstate.scratch⟩
  | consume =>
      obtain ⟨htape, hheld, hcounter, hscratch⟩ := hstate
      constructor <;> simpa

theorem State.Placed.apply (hplaced : state.Placed input) :
    (state.apply action).Placed input := by
  cases action with
  | consume =>
      refine ⟨hplaced.fed.consume.1, ?_⟩
      -- A character was left to be read, so the place was not the end.
      have hlength := congrArg List.length (show state.unread = _ from hplaced.fed)
      rw [List.length_drop] at hlength
      rw [State.apply]
      split
      · exact hplaced.position
      · rename_i c rest hunread
        rw [hunread, List.length_cons] at hlength
        change state.consumed + 1 ≤ input.length
        omega
  | _ => exact ⟨hplaced.fed, hplaced.position⟩

theorem State.Bounded.tick (hstate : state.Bounded size) : state.tick.Bounded size :=
  ⟨hstate.tape, hstate.held, hstate.counter, hstate.scratch⟩

theorem State.Placed.tick (hplaced : state.Placed input) : state.tick.Placed input :=
  ⟨hplaced.fed, hplaced.position⟩

theorem State.Bounded.feed (hstate : state.Bounded size) (input : List Char) :
    (state.feed input).Bounded size :=
  ⟨hstate.tape, hstate.held, hstate.counter, hstate.scratch⟩

theorem State.placed_feed (state : State) (input : List Char) : (state.feed input).Placed input :=
  ⟨state.fed_feed input, Nat.zero_le _⟩

end States

/-! ### Runs -/

section Placed

variable {operations : Array Operation} {input : List Char} {config : Config}

/-- A run stays in its input, whatever operations it goes through. -/
theorem State.Placed.of_reaches {count : Nat} {last : Config}
    (hreaches : Reaches operations count config last) (hplaced : config.state.Placed input) :
    last.state.Placed input := by
  induction hreaches with
  | refl config => exact hplaced
  | head hoperation hstep hrest ih =>
      obtain ⟨effect, -, -, hnext⟩ := effect_of_running hstep
      exact ih (hnext ▸ hplaced.apply.tick)

theorem State.Placed.of_endsAt {limit : Int} {outcome : Outcome}
    (hplaced : config.state.Placed input) (hends : EndsAt operations limit config outcome) :
    outcome.state.Placed input := by
  cases hends with
  | left hpc => exact hplaced
  | stopped hoperation hstep =>
      obtain ⟨effect, -, rfl⟩ := effect_of_stopped hstep
      exact hplaced.apply.tick
  | faulted hoperation hstep =>
      obtain ⟨-, rfl⟩ := effect_of_faulted hstep
      exact hplaced.tick
  | exhausted hpc => exact hplaced.tick

end Placed

theorem State.placed_run (state : State) (limit : Int) (body input : String) :
    (state.run limit body input).state.Placed input.toList := by
  obtain ⟨count, last, -, hreaches, hends⟩ := state.run_endsWithin limit body input
  exact (State.Placed.of_reaches hreaches (state.placed_feed _)).of_endsAt hends

/-- What holds at every instruction of a run. -/
structure Config.Bounded (size : Nat) (input : List Char) (config : Config) : Prop where
  state : config.state.Bounded size
  stack : config.stack.Bounded size
  placed : config.state.Placed input

section Runs

variable {size : Nat} {input : List Char} {listing : Listing} {config : Config}

/-- Every configuration that a run reaches is bounded. -/
theorem Config.Bounded.of_reaches {count : Nat} {last : Config}
    (hreaches : Reaches (Operation.ofListing listing) count config last)
    (hconfig : config.Bounded size input) : last.Bounded size input := by
  refine hreaches.invariant (fun config next operation hconfig hoperation hstep => ?_) hconfig
  obtain ⟨effect, heffect, hstack, hstate⟩ := effect_of_running hstep
  have hmade := Operation.effect_made heffect
  constructor
  · rw [hstate]
    exact (hconfig.state.apply hconfig.stack hmade.action).tick
  · rw [hstack]
    exact .of_made (Operation.bounded_of_ofListing hoperation) hconfig.stack hconfig.state
      hmade.stack
  · rw [hstate]
    exact hconfig.placed.apply.tick

theorem Config.Bounded.of_endsAt {limit : Int} {outcome : Outcome}
    (hconfig : config.Bounded size input)
    (hends : EndsAt (Operation.ofListing listing) limit config outcome) :
    outcome.state.Bounded size := by
  cases hends with
  | left hpc => exact hconfig.state
  | stopped hoperation hstep =>
      obtain ⟨effect, heffect, rfl⟩ := effect_of_stopped hstep
      exact (hconfig.state.apply hconfig.stack (Operation.effect_made heffect).action).tick
  | faulted hoperation hstep =>
      obtain ⟨-, rfl⟩ := effect_of_faulted hstep
      exact hconfig.state.tick
  | exhausted hpc => exact hconfig.state.tick

end Runs

/-- The machine behind texts that are run in turn, each with its input and
whatever comes of it. -/
def State.afterRuns (limit : Int) (state : State) (jobs : List (String × String)) : State :=
  jobs.foldl (fun state job => (state.run limit job.1 job.2).state) state

section Histories

variable {size : Nat} {state : State}

/-- Every configuration on the way of a bounded machine's run is bounded, and so
is the end of the run. -/
theorem State.Bounded.run (hstate : state.Bounded size) (limit : Int) (body input : String) :
    (∀ count config, Reaches (Operation.ofListing (Listing.read body)) count
        { state := state.feed input.toList } config → config.Bounded size input.toList) ∧
      (state.run limit body input).state.Bounded size := by
  have hstart : Config.Bounded size input.toList { state := state.feed input.toList } :=
    ⟨hstate.feed _, Stack.bounded_nil, state.placed_feed _⟩
  obtain ⟨count, last, -, hreaches, hends⟩ := state.run_endsWithin limit body input
  exact ⟨fun _ _ hway => .of_reaches hway hstart, (hstart.of_reaches hreaches).of_endsAt hends⟩

theorem State.Bounded.afterRuns (hstate : state.Bounded size) (limit : Int)
    (jobs : List (String × String)) : (state.afterRuns limit jobs).Bounded size := by
  induction jobs generalizing state with
  | nil => exact hstate
  | cons job rest ih => exact ih (hstate.run limit job.1 job.2).2

theorem State.bounded_new {size : Int} {machine : State} (hnew : State.new size = .ok machine) :
    machine.Bounded size.toNat := by
  unfold State.new at hnew
  split at hnew
  · cases hnew
  · split at hnew
    · cases hnew
    · cases hnew
      exact ⟨rfl, Nat.zero_le _, isWord_natCast (Nat.zero_lt_succ _), Nat.zero_lt_succ _⟩

/-- A run takes no output back and at most one step more than its limit
leaves. -/
theorem State.run_progress (state : State) (limit : Int) (body input : String) :
    let outcome := state.run limit body input
    state.output.toList <+: outcome.state.output.toList ∧ state.steps ≤ outcome.state.steps ∧
      outcome.state.steps ≤ state.steps + (limit - state.steps).toNat + 1 := by
  intro outcome
  obtain ⟨count, last, hcount, hreaches, hends⟩ := state.run_endsWithin limit body input
  change EndsAt _ limit last outcome at hends
  have hsteps : last.state.steps = state.steps + count := hreaches.steps_eq
  have houtput : state.output.toList <+: last.state.output.toList := hreaches.output_prefix
  rcases hends.state_eq with ⟨hleft, -⟩ | ⟨hend, -, hgrown⟩
  · have hstate : outcome.state = last.state := congrArg Outcome.state hleft
    rw [hstate]
    exact ⟨houtput, by omega, by omega⟩
  · exact ⟨houtput.trans hgrown, by omega, by omega⟩

end Histories

/-- A machine stays within its bounds whatever texts it runs, with whatever
input, and whatever comes of them.  At every instruction and after every run the
tape has the size that it was made with and holds bytes, the cursor and the
numbers on the stack are words, the scratch variable has sixteen bits, the
addresses on the stack are those of cells, and the place in the input lies in
the input.  Output is only appended to.  Every run ends, after at most one step
more than its limit leaves. -/
theorem runs_keep_bounds {size : Int} {machine : State} (hnew : State.new size = .ok machine)
    (limit : Int) (earlier : List (String × String)) (body input : String) :
    let start := machine.afterRuns limit earlier
    let first : Config := { state := start.feed input.toList }
    let operations := Operation.ofListing (Listing.read body)
    let outcome := start.run limit body input
    (∀ count config, Reaches operations count first config →
      config.Bounded size.toNat input.toList ∧
      (∀ byte ∈ config.state.tape.bytes, byte.toNat ≤ 255) ∧
      start.output.toList <+: config.state.output.toList ∧
      ∀ more later, Reaches operations more config later →
        config.state.output.toList <+: later.state.output.toList) ∧
    (∃ count last, Reaches operations count first last ∧ EndsAt operations limit last outcome) ∧
    outcome.state.Bounded size.toNat ∧
    outcome.state.Placed input.toList ∧
    (∀ byte ∈ outcome.state.tape.bytes, byte.toNat ≤ 255) ∧
    start.output.toList <+: outcome.state.output.toList ∧
    start.steps ≤ outcome.state.steps ∧
    (outcome.state.steps : Int) ≤ start.steps + (max 0 (limit - start.steps) + 1) := by
  intro start first operations outcome
  have hstart : start.Bounded size.toNat := (State.bounded_new hnew).afterRuns limit earlier
  have hbyte (byte : UInt8) : byte.toNat ≤ 255 := Nat.le_of_lt_succ byte.toNat_lt
  obtain ⟨hway, hbounded⟩ := hstart.run limit body input
  obtain ⟨houtput, hmore, hsteps⟩ := start.run_progress limit body input
  obtain ⟨count, last, -, hreaches, hends⟩ := start.run_endsWithin limit body input
  refine ⟨fun count config hreaches => ?_, ⟨count, last, hreaches, hends⟩, hbounded,
    start.placed_run limit body input, fun byte _ => hbyte byte, houtput, hmore, ?_⟩
  · exact ⟨hway count config hreaches, fun byte _ => hbyte byte, hreaches.output_prefix,
      fun more later hlater => hlater.output_prefix⟩
  · change outcome.state.steps ≤ start.steps + (limit - start.steps).toNat + 1 at hsteps
    omega

/-- A machine of two cells on which a text that moves the cursor and then faults
has been run. -/
theorem runs_keep_bounds_after_fault :
    ∃ machine, State.new 2 = .ok machine ∧
      let start := machine.afterRuns 100 [("ldc.i4 0x1_0000_0001\nstsfld ::Counter\nadd", "")]
      let outcome := start.run 100 "call Console::Read()\nstloc.0\nldsfld ::Memory" "xyz"
      start.counter = 1 ∧ outcome.state.consumed = 1 ∧ outcome.state.steps = 6 ∧
        outcome.state.Bounded 2 ∧ outcome.state.Placed "xyz".toList := by
  refine ⟨_, rfl, by decide +kernel, by decide +kernel, by decide +kernel, ?_⟩
  obtain ⟨-, -, hbounded, hplaced, -⟩ := @runs_keep_bounds 2 _ rfl 100
    [("ldc.i4 0x1_0000_0001\nstsfld ::Counter\nadd", "")]
    "call Console::Read()\nstloc.0\nldsfld ::Memory" "xyz"
  exact ⟨hbounded, hplaced⟩

end Machine
end TapeCompiler
