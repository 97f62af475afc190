import TapeCompiler.Numeral.Word
import TapeCompiler.Proofs.Segments

/-!
# The meaning of a source

A source means what its commands do, one at a time, to a list of byte cells, a
counter, a place in the input and a list of written code points.  Nothing here
knows of instructions: brackets are followed by looking for their matches in
the source.  A run takes at most a given number of commands; it goes on, halts
behind the last command, or faults at a command that finds the counter outside
the memory.
-/

namespace TapeCompiler
namespace Reference

open Source

/-- What the commands of a source act on. -/
structure State where
  memory : List UInt8
  counter : Int
  /-- How many characters of the input have been read. -/
  position : Nat
  output : List Nat
deriving DecidableEq, Repr

namespace State

/-- The cell under the counter, if there is one. -/
def cell? (state : State) : Option UInt8 :=
  if 0 ≤ state.counter then state.memory[state.counter.toNat]? else none

def store (state : State) (value : UInt8) : State :=
  { state with memory := state.memory.set state.counter.toNat value }

/-- Goes one character further in the input, if there is one. -/
def consume (input : List Char) (state : State) : State :=
  if state.position < input.length then { state with position := state.position + 1 } else state

end State

/-- What reading at a place of the input gives: the character's code point
modulo 256, or 255 behind the last character. -/
def inputByte (input : List Char) (position : Nat) : UInt8 :=
  match input[position]? with
  | some c => UInt8.ofNat (c.toNat % 256)
  | none => 255

/-- What a command does to the state, or the state in which it faults. -/
def act (input : List Char) (state : State) : Command → Except State State
  | .right => .ok { state with counter := Numeral.wrap (state.counter + 1) }
  | .left => .ok { state with counter := Numeral.wrap (state.counter - 1) }
  | .increment =>
      match state.cell? with
      | some value => .ok (state.store (value + 1))
      | none => .error state
  | .decrement =>
      match state.cell? with
      | some value => .ok (state.store (value - 1))
      | none => .error state
  | .write =>
      match state.cell? with
      | some value => .ok { state with output := state.output ++ [value.toNat] }
      | none => .error state
  | .read =>
      -- The character is taken before the cell is looked at.
      match state.cell? with
      | some _ => .ok ((state.consume input).store (inputByte input state.position))
      | none => .error (state.consume input)
  | .loopStart =>
      match state.cell? with
      | some _ => .ok state
      | none => .error state
  | .loopEnd => .ok state

/-- A state together with the index of the next command. -/
structure Config where
  place : Nat
  state : State
deriving DecidableEq, Repr

/-- Where execution goes on behind a command.  A bracket without a match goes
nowhere. -/
def nextPlace (source : List Command) (config : Config) : Command → Nat
  | .loopStart =>
      if config.state.cell? = some 0 then
        match closingOf .loopStart .loopEnd source config.place with
        | some last => last + 1
        | none => config.place
      else
        config.place + 1
  | .loopEnd => (openingOf .loopStart .loopEnd source config.place).getD config.place
  | _ => config.place + 1

/-- How a run stands. -/
inductive Outcome where
  | running (config : Config)
  | halted (state : State)
  | faulted (state : State)
deriving DecidableEq, Repr

/-- Executes the next command. -/
def step (source : List Command) (input : List Char) (config : Config) : Outcome :=
  match source[config.place]? with
  | none => .halted config.state
  | some command =>
      match act input config.state command with
      | .error state => .faulted state
      | .ok state => .running ⟨nextPlace source config command, state⟩

/-- Executes commands up to a number. -/
def run (source : List Command) (input : List Char) : Nat → Config → Outcome
  | 0, config => .running config
  | fuel + 1, config =>
      match step source input config with
      | .running next => run source input fuel next
      | outcome => outcome

/-- A source run from a configuration halts in a state. -/
def Halts (source : List Command) (input : List Char) (config : Config) (final : State) : Prop :=
  ∃ fuel, run source input fuel config = .halted final

/-- A source run from a configuration faults in a state. -/
def Faults (source : List Command) (input : List Char) (config : Config) (final : State) : Prop :=
  ∃ fuel, run source input fuel config = .faulted final

/-- A source run from a configuration never comes to an end. -/
def Diverges (source : List Command) (input : List Char) (config : Config) : Prop :=
  ∀ fuel, ∃ next, run source input fuel config = .running next

section Run

variable {source : List Command} {input : List Char}

theorem run_succ {config next : Config} (hstep : step source input config = .running next)
    (fuel : Nat) : run source input (fuel + 1) config = run source input fuel next := by
  rw [run, hstep]

/-- A run goes on from any configuration that it comes to. -/
theorem run_add {first : Nat} {config middle : Config}
    (hfirst : run source input first config = .running middle) (second : Nat) :
    run source input (first + second) config = run source input second middle := by
  induction first generalizing config with
  | zero =>
      cases hfirst
      rw [Nat.zero_add]
  | succ first ih =>
      rw [run] at hfirst
      cases hstep : step source input config with
      | running next =>
          rw [hstep] at hfirst
          rw [Nat.add_right_comm, run_succ hstep]
          exact ih hfirst
      | halted state =>
          rw [hstep] at hfirst
          cases hfirst
      | faulted state =>
          rw [hstep] at hfirst
          cases hfirst

theorem run_ended {first : Nat} {config : Config} {outcome : Outcome}
    (hrun : run source input first config = outcome)
    (hended : ∀ next, outcome ≠ .running next) (extra : Nat) :
    run source input (first + extra) config = outcome := by
  induction first generalizing config with
  | zero => exact absurd hrun.symm (hended config)
  | succ first ih =>
      rw [run] at hrun
      rw [Nat.add_right_comm, run]
      cases hstep : step source input config with
      | running next =>
          rw [hstep] at hrun
          exact ih hrun
      | halted state =>
          rw [hstep] at hrun
          exact hrun
      | faulted state =>
          rw [hstep] at hrun
          exact hrun

/-- A source comes to one end only. -/
theorem ended_unique {first second : Nat} {config : Config} {outcome other : Outcome}
    (hfirst : run source input first config = outcome)
    (hsecond : run source input second config = other)
    (hended : ∀ next, outcome ≠ .running next) (hother : ∀ next, other ≠ .running next) :
    outcome = other := by
  rw [← run_ended hfirst hended second, Nat.add_comm, run_ended hsecond hother]

/-- A run that ends goes through every configuration that it comes to. -/
theorem run_of_ended {fuel first : Nat} {config middle : Config} {outcome : Outcome}
    (hrun : run source input fuel config = outcome) (hended : ∀ next, outcome ≠ .running next)
    (hfirst : run source input first config = .running middle) :
    ∃ rest, fuel = first + rest ∧ run source input rest middle = outcome := by
  rcases Nat.le_total first fuel with hle | hle
  · obtain ⟨rest, rfl⟩ := Nat.exists_eq_add_of_le hle
    rw [run_add hfirst] at hrun
    exact ⟨rest, rfl, hrun⟩
  · obtain ⟨extra, rfl⟩ := Nat.exists_eq_add_of_le hle
    rw [run_ended hrun hended] at hfirst
    exact absurd hfirst (hended middle)

theorem Halts.of_running {fuel : Nat} {config next : Config} {final : State}
    (hrun : run source input fuel config = .running next) (hhalts : Halts source input next final) :
    Halts source input config final := by
  obtain ⟨rest, hrest⟩ := hhalts
  exact ⟨fuel + rest, by rw [run_add hrun, hrest]⟩

theorem Faults.of_running {fuel : Nat} {config next : Config} {final : State}
    (hrun : run source input fuel config = .running next) (hfaults : Faults source input next final) :
    Faults source input config final := by
  obtain ⟨rest, hrest⟩ := hfaults
  exact ⟨fuel + rest, by rw [run_add hrun, hrest]⟩

/-- A run that is still going on has been going on all the time. -/
theorem running_of_le {fuel more : Nat} {config last : Config}
    (hrun : run source input more config = .running last) (hle : fuel ≤ more) :
    ∃ next, run source input fuel config = .running next := by
  obtain ⟨extra, rfl⟩ := Nat.exists_eq_add_of_le hle
  cases hfuel : run source input fuel config with
  | running next => exact ⟨next, rfl⟩
  | halted state =>
      rw [run_ended hfuel (by simp)] at hrun
      cases hrun
  | faulted state =>
      rw [run_ended hfuel (by simp)] at hrun
      cases hrun

/-- A source that comes back to a configuration never ends. -/
theorem diverges_of_cycle (first period : Nat) (middle : Config) {config : Config}
    (hfirst : run source input first config = .running middle)
    (hcycle : run source input (period + 1) middle = .running middle) :
    Diverges source input config := by
  have hrounds (rounds : Nat) :
      run source input (rounds * (period + 1)) middle = .running middle := by
    induction rounds with
    | zero => rw [Nat.zero_mul, run]
    | succ rounds ih => rw [Nat.succ_mul, run_add ih, hcycle]
  intro fuel
  refine running_of_le ((run_add hfirst _).trans (hrounds fuel)) ?_
  calc
    fuel ≤ fuel * (period + 1) := Nat.le_mul_of_pos_right fuel (Nat.zero_lt_succ period)
    _ ≤ first + fuel * (period + 1) := Nat.le_add_left _ first

theorem Diverges.not_halts {config : Config} {final : State}
    (hdiverges : Diverges source input config) : ¬ Halts source input config final := by
  rintro ⟨fuel, hrun⟩
  obtain ⟨next, hnext⟩ := hdiverges fuel
  rw [hrun] at hnext
  cases hnext

theorem Diverges.not_faults {config : Config} {final : State}
    (hdiverges : Diverges source input config) : ¬ Faults source input config final := by
  rintro ⟨fuel, hrun⟩
  obtain ⟨next, hnext⟩ := hdiverges fuel
  rw [hrun] at hnext
  cases hnext

end Run

/-! ### Commands in a row -/

section Row

theorem step_plain {command : Command} (hopening : command ≠ .loopStart)
    (hclosing : command ≠ .loopEnd) (input : List Char) (before behind : List Command)
    (state : State) :
    step (before ++ command :: behind) input ⟨before.length, state⟩ =
      match act input state command with
      | .error final => .faulted final
      | .ok final => .running ⟨before.length + 1, final⟩ := by
  have hcommand : (before ++ command :: behind)[before.length]? = some command := by
    rw [List.getElem?_append_right (Nat.le_refl _), Nat.sub_self]
    rfl
  have hplace : nextPlace (before ++ command :: behind) ⟨before.length, state⟩ command =
      before.length + 1 := by
    cases command with
    | loopStart => exact absurd rfl hopening
    | loopEnd => exact absurd rfl hclosing
    | _ => rfl
  rw [step, hcommand]
  dsimp only
  rw [hplace]

variable {input : List Char} {commands : List Command}
  (hplain : ∀ command ∈ commands, command ≠ .loopStart ∧ command ≠ .loopEnd)
include hplain

/-- Commands in a row that all succeed are executed in as many steps. -/
theorem run_row (before behind : List Command) {state final : State}
    (hacts : commands.foldlM (act input) state = .ok final) :
    run (before ++ commands ++ behind) input commands.length ⟨before.length, state⟩ =
      .running ⟨before.length + commands.length, final⟩ := by
  induction commands generalizing before state with
  | nil =>
      cases hacts
      rfl
  | cons command rest ih =>
      obtain ⟨hopening, hclosing⟩ := hplain command List.mem_cons_self
      rw [List.foldlM_cons] at hacts
      cases hact : act input state command with
      | error fault =>
          rw [hact] at hacts
          cases hacts
      | ok middle =>
          rw [hact] at hacts
          have hrest := ih (fun other hother => hplain other (List.mem_cons_of_mem _ hother))
            (before ++ [command]) hacts
          have hstep := step_plain hopening hclosing input before (rest ++ behind) state
          rw [hact] at hstep
          have hplace : before.length + [command].length + rest.length =
              before.length + (rest.length + 1) := by
            rw [List.length_singleton]
            omega
          rw [List.append_assoc, List.append_assoc, List.length_append, hplace] at hrest
          rw [List.append_assoc, List.cons_append, List.length_cons, run_succ hstep]
          exact hrest

/-- Commands in a row of which one fails come to its fault. -/
theorem faults_row (before behind : List Command) {state final : State}
    (hacts : commands.foldlM (act input) state = .error final) :
    Faults (before ++ commands ++ behind) input ⟨before.length, state⟩ final := by
  induction commands generalizing before state with
  | nil => cases hacts
  | cons command rest ih =>
      obtain ⟨hopening, hclosing⟩ := hplain command List.mem_cons_self
      have hstep := step_plain hopening hclosing input before (rest ++ behind) state
      rw [List.foldlM_cons] at hacts
      rw [List.append_assoc, List.cons_append]
      cases hact : act input state command with
      | error fault =>
          rw [hact] at hacts hstep
          cases hacts
          exact ⟨1, by rw [run, hstep]⟩
      | ok middle =>
          rw [hact] at hacts hstep
          have hrest := ih (fun other hother => hplain other (List.mem_cons_of_mem _ hother))
            (before ++ [command]) hacts
          rw [List.append_assoc, List.append_assoc, List.length_append] at hrest
          exact Faults.of_running (run_succ hstep 0) hrest

end Row

/-! ### Brackets -/

section Brackets

variable (input : List Char) (before behind : List Command) {body : List Command} (state : State)
  (hbody : Nested .loopStart .loopEnd body)
include hbody

/-- A loop start faults outside the memory, goes behind the loop when the cell
is zero, and into it otherwise. -/
theorem step_loopStart :
    step (before ++ .loopStart :: body ++ .loopEnd :: behind) input ⟨before.length, state⟩ =
      match state.cell? with
      | none => .faulted state
      | some value =>
          .running
            ⟨if value = 0 then (before ++ .loopStart :: body).length + 1 else before.length + 1,
              state⟩ := by
  have hmatching := hbody.matching_around before behind
  rw [step, hmatching.2.1]
  dsimp only
  cases hcell : state.cell? with
  | none => rw [act, hcell]
  | some value =>
      rw [act, hcell]
      dsimp only
      rw [nextPlace, hcell, hmatching.closingOf_eq (by decide)]
      simp only [Option.some.injEq]

theorem step_loopEnd :
    step (before ++ .loopStart :: body ++ .loopEnd :: behind) input
        ⟨(before ++ .loopStart :: body).length, state⟩ =
      .running ⟨before.length, state⟩ := by
  have hmatching := hbody.matching_around before behind
  rw [step, hmatching.2.2.1]
  dsimp only
  rw [act]
  dsimp only
  rw [nextPlace, hmatching.openingOf_eq (by decide), Option.getD_some]

end Brackets

end Reference
end TapeCompiler
