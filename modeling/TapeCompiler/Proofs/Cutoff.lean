import TapeCompiler.Proofs.Progress

/-!
# Runs that are cut short

The limit of a machine cuts a run after a number of its instructions and
changes nothing else.  So any state of a long run can be had as the end of a
shorter one, and a run that faults can be compared with the run that is cut
right before the faulting instruction: the two leave the same machine.  An
instruction works on the machine in place, and what it has changed before a fault
stays changed; that there is no such change is `carryOut_settles`.

Main statement: `run_cut_by_limit`.
-/

namespace TapeCompiler
namespace Machine

open Assembly

section Cut

variable {operations : Array Operation} {limit : Int} {config last : Config} {count : Nat}
  {outcome : Outcome}

/-- A run whose budget is used up at an instruction is cut there. -/
theorem execute_cut (hreaches : Reaches operations count config last)
    (hpc : last.pc < operations.size) :
    execute operations limit count config =
      { state := last.state.tick, fault := some (.stepLimit limit, last.pc) } := by
  have hrun := execute_of_reaches limit hreaches 0
  rw [Nat.add_zero, execute_zero limit hpc] at hrun
  exact hrun

/-- On the way to the end of a run there is an instruction after any smaller
number of steps, and the output by then is a part of the output at the end. -/
theorem EndsAt.exists_earlier (hends : EndsAt operations limit last outcome)
    (hreaches : Reaches operations count config last) {fewer : Nat}
    (hfewer : config.state.steps + fewer < outcome.state.steps) :
    ∃ middle, Reaches operations fewer config middle ∧ middle.pc < operations.size ∧
      middle.state.output.toList <+: outcome.state.output.toList := by
  have hsteps := hreaches.steps_eq
  have hoperation : fewer < count ∨ (fewer = count ∧ last.pc < operations.size) := by
    rcases hends.state_eq with ⟨rfl, -⟩ | ⟨hend, hpc, -⟩
    · exact .inl (by dsimp only at hfewer; omega)
    · rcases Nat.lt_or_ge fewer count with hlt | hge
      · exact .inl hlt
      · exact .inr ⟨by omega, hpc⟩
  have houtput : last.state.output.toList <+: outcome.state.output.toList := by
    rcases hends.state_eq with ⟨rfl, -⟩ | ⟨-, -, hgrown⟩
    · exact List.prefix_refl _
    · exact hgrown
  rcases hoperation with hlt | ⟨rfl, hpc⟩
  · obtain ⟨rest, rfl⟩ := Nat.exists_eq_add_of_lt hlt
    rw [Nat.add_assoc] at hreaches
    obtain ⟨middle, hfirst, hrest⟩ := hreaches.split
    exact ⟨middle, hfirst, hrest.pc_lt, hrest.output_prefix.trans houtput⟩
  · exact ⟨last, hreaches, hpc, houtput⟩

/-- A run that ends with a fault other than the limit ends at the faulting
instruction, which has done nothing but be counted. -/
theorem EndsAt.of_fault (hends : EndsAt operations limit last outcome) {fault : Fault} {pc : Nat}
    (hfault : outcome.fault = some (fault, pc)) (hlimit : ∀ reached, fault ≠ .stepLimit reached) :
    last.pc = pc ∧ last.pc < operations.size ∧ outcome.state = last.state.tick := by
  cases hends with
  | left hpc => cases hfault
  | stopped hoperation hstep => cases hfault
  | faulted hoperation hstep =>
      cases hfault
      exact ⟨rfl, (Array.getElem?_eq_some_iff.mp hoperation).1, (effect_of_faulted hstep).2⟩
  | exhausted hpc =>
      cases hfault
      exact absurd rfl (hlimit limit)

end Cut

section Run

variable {state : State} {body input : String} {count : Nat} {last : Config}

theorem State.run_cut
    (hreaches : Reaches (Operation.ofListing (Listing.read body)) count
      { state := state.feed input.toList } last)
    (hpc : last.pc < (Operation.ofListing (Listing.read body)).size) :
    state.run (state.steps + count) body input =
      { state := last.state.tick
        fault := some (.stepLimit (state.steps + count), last.pc) } := by
  have hbudget : ((state.steps + count : Int) - state.steps).toNat = count := by omega
  rw [State.run, hbudget]
  exact execute_cut hreaches hpc

end Run

/-- A run that takes `count` steps, the last of them perhaps a fault, is cut by
every smaller limit after just as many instructions as the limit allows, with a
part of the output.  If it faults, it leaves the machine as the run does that is
cut right before the faulting instruction: the fault itself has done nothing but
be counted. -/
theorem run_cut_by_limit (state : State) (limit : Int) (body input : String) :
    let full := state.run limit body input
    ∃ count : Nat, full.state.steps = state.steps + count ∧
      (∀ fewer < count,
        let cut := state.run (state.steps + fewer) body input
        (∃ pc, cut.fault = some (.stepLimit (state.steps + fewer), pc)) ∧
          cut.state.steps = state.steps + fewer + 1 ∧
          cut.state.output.toList <+: full.state.output.toList) ∧
      ∀ fault pc, full.fault = some (fault, pc) → (∀ reached, fault ≠ .stepLimit reached) →
        let cut := state.run (state.steps + count - 1) body input
        0 < count ∧ cut.fault = some (.stepLimit (state.steps + count - 1), pc) ∧
          full.state = cut.state := by
  intro full
  obtain ⟨count, last, -, hreaches, hends⟩ := state.run_endsWithin limit body input
  have hsteps : last.state.steps = state.steps + count := hreaches.steps_eq
  change EndsAt _ limit last full at hends
  have hmore : state.steps ≤ full.state.steps := by
    rcases hends.state_eq with ⟨hleft, -⟩ | ⟨hend, -⟩
    · rw [hleft]
      dsimp only
      omega
    · omega
  refine ⟨full.state.steps - state.steps, by omega, ?_, ?_⟩
  · intro fewer hfewer
    obtain ⟨middle, hmiddle, hpc, houtput⟩ := hends.exists_earlier hreaches
      (show state.steps + fewer < full.state.steps by omega)
    have hmiddleSteps : middle.state.steps = state.steps + fewer := hmiddle.steps_eq
    dsimp only
    rw [State.run_cut hmiddle hpc]
    exact ⟨⟨_, rfl⟩, by rw [State.steps_tick, hmiddleSteps], houtput⟩
  · intro fault pc hfault hnotLimit
    obtain ⟨rfl, hpc, hstate⟩ := hends.of_fault hfault hnotLimit
    have hlast : full.state.steps = state.steps + count + 1 := by
      rw [hstate, State.steps_tick, hsteps]
    have hlimit : (state.steps + (full.state.steps - state.steps : Nat) - 1 : Int) =
        state.steps + count := by omega
    dsimp only
    rw [hlimit, State.run_cut hreaches hpc]
    exact ⟨by omega, rfl, hstate⟩

/-- An indirect store to a word, which has taken both its operands when it finds that
the second is no address. -/
theorem run_cut_by_limit_store :
    let state : State := { tape := { size := 1 } }
    let body := "ldc.i4 7\nstloc.0\nldc.i4 0\nldc.i4 5\nstind.i1"
    (state.run 100 body "").fault = some (.notAnAddress, 4) ∧
      (state.run 4 body "").fault = some (.stepLimit 4, 4) ∧
      (state.run 100 body "").state.scratch = 7 ∧
      (state.run 100 body "").state = (state.run 4 body "").state := by
  intro state body
  have hfault : (state.run 100 body "").fault = some (.notAnAddress, 4) := by decide +kernel
  have hsteps : (state.run 100 body "").state.steps = 5 := by decide +kernel
  obtain ⟨count, hcount, -, hcut⟩ := run_cut_by_limit state 100 body ""
  obtain rfl : count = 5 := by
    have hzero : state.steps = 0 := rfl
    omega
  obtain ⟨-, hlimit, hstate⟩ := hcut _ _ hfault nofun
  exact ⟨hfault, hlimit, by decide +kernel, hstate⟩

end Machine
end TapeCompiler
