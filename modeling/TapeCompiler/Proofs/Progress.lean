import TapeCompiler.Proofs.Effects
import TapeCompiler.Proofs.Execution

/-!
# Progress of a run

What every step of every program can do.  The values that an operation leaves
on the stack were there before or are made by it, and it decides on one action;
`Operation.effect_made` says which values and which actions, operation by
operation, and everything that is proved here of arbitrary code rests on it.  A
step that does not fault carries out its action and is counted; a step that
faults is counted and does nothing else.

It follows that the steps between two configurations are the difference of their
counts, that output is only ever appended to, and that a run can be cut after
any number of its steps.
-/

namespace TapeCompiler
namespace Numeral

/-- A number lies in the signed 32-bit range. -/
def IsWord (n : Int) : Prop :=
  -0x80000000 ≤ n ∧ n < 0x80000000

theorem isWord_wrap (n : Int) : IsWord (wrap n) :=
  ⟨wrap_lower n, wrap_upper n⟩

theorem isWord_natCast {n : Nat} (hn : n < 0x80000000) : IsWord n := by
  unfold IsWord
  omega

end Numeral

namespace Machine

open Effects Numeral

/-! ### Effects -/

theorem pop_eq_ok {stack rest : Stack} {value : Value} (hpop : pop stack = .ok (value, rest)) :
    stack = value :: rest := by
  cases stack with
  | nil => cases hpop
  | cons top below =>
      cases hpop
      rfl

theorem toAddress_eq_ok {value : Value} {index : Nat} (haddress : value.toAddress = .ok index) :
    value = .address index := by
  cases value with
  | address other =>
      cases haddress
      rfl
  | word n => cases haddress
  | tape => cases haddress

theorem toIndex_lt {tape : Tape} {value : Value} {index : Nat}
    (hindex : value.toIndex tape = .ok index) : index < tape.size := by
  obtain ⟨n, -, hchecked⟩ := bind_eq_ok hindex
  split at hchecked
  · rename_i hrange
    cases hchecked
    exact (Int.toNat_lt hrange.1).mpr hrange.2
  · cases hchecked

theorem toCodePoint_lt {n : Int} {codePoint : Nat} (hcharacter : toCodePoint n = .ok codePoint) :
    codePoint < 0x110000 := by
  rw [toCodePoint] at hcharacter
  split at hcharacter
  · rename_i hrange
    cases hcharacter
    exact (Int.toNat_lt hrange.1).mpr hrange.2
  · cases hcharacter

/-- A value that an operation may make. -/
def Value.Made (operation : Operation) (state : State) : Value → Prop
  | .tape => True
  | .address index => index < state.tape.size
  | .word n => IsWord n ∨ n = state.counter ∨ n = state.scratch ∨ operation = .push (.ok n)

def Stack.Made (operation : Operation) (state : State) (found left : Stack) : Prop :=
  ∀ value ∈ left, value ∈ found ∨ value.Made operation state

def Action.Made (operation : Operation) (state : State) (found : Stack) : Action → Prop
  | .none => True
  | .writeCell index _ => index < state.tape.size ∨ .address index ∈ found
  | .setCounter value => IsWord value
  | .setScratch value => value < 0x10000
  | .emit codePoint => codePoint < 0x110000
  | .consume => operation = .readChar

structure Effect.Made (operation : Operation) (state : State) (found : Stack) (effect : Effect) :
    Prop where
  stack : Stack.Made operation state found effect.stack
  action : effect.action.Made operation state found

section Made

variable {operation : Operation} {state : State} {found left : Stack} {value : Value}

theorem Stack.Made.refl (stack : Stack) : Stack.Made operation state stack stack :=
  fun _ hvalue => .inl hvalue

theorem Stack.Made.push (hvalue : value.Made operation state)
    (hleft : Stack.Made operation state found left) :
    Stack.Made operation state found (value :: left) := by
  intro other hother
  rcases List.mem_cons.mp hother with rfl | hrest
  · exact .inr hvalue
  · exact hleft other hrest

theorem Stack.Made.pop (hleft : Stack.Made operation state found left) :
    Stack.Made operation state (value :: found) left :=
  fun other hother => (hleft other hother).imp_left (List.mem_cons_of_mem value)

theorem made_byteWord (value : UInt8) : (byteWord value).Made operation state := by
  have hvalue := value.toNat_lt
  exact .inl (isWord_natCast (by omega))

theorem made_nextInput (unread : List Char) : (nextInput unread).Made operation state := by
  cases unread with
  | nil => exact .inl ⟨by decide, by decide⟩
  | cons c rest =>
      have hc : c.toNat < 0x110000 := by
        rcases c.valid with hlow | ⟨-, hhigh⟩
        · exact Nat.lt_trans hlow (by decide)
        · exact hhigh
      exact .inl (isWord_natCast (by omega))

variable {stack : Stack} {effect : Effect}

theorem arithmetic_made {combine : Int → Int → Int}
    (heffect : arithmetic combine stack = .ok effect) :
    effect.Made operation state stack := by
  obtain ⟨⟨second, below⟩, hsecond, heffect⟩ := bind_eq_ok heffect
  obtain ⟨⟨first, rest⟩, hfirst, heffect⟩ := bind_eq_ok heffect
  obtain ⟨a, -, heffect⟩ := bind_eq_ok heffect
  obtain ⟨b, -, heffect⟩ := bind_eq_ok heffect
  cases heffect
  rw [pop_eq_ok hsecond, pop_eq_ok hfirst]
  exact ⟨(Stack.Made.refl rest).pop.pop.push (.inl (isWord_wrap _)), trivial⟩

/-- What the effect of each operation can be. -/
theorem Operation.effect_made (heffect : operation.effect stack state = .ok effect) :
    effect.Made operation state stack := by
  -- Values are popped one by one, and what is left below them was found there.
  cases operation with
  | skip | halt =>
      cases heffect
      exact ⟨.refl stack, trivial⟩
  | loadTape =>
      cases heffect
      exact ⟨(Stack.Made.refl stack).push trivial, trivial⟩
  | loadCounter =>
      cases heffect
      exact ⟨(Stack.Made.refl stack).push (.inr (.inl rfl)), trivial⟩
  | storeTape | accessField | callMethod | unknown => cases heffect
  | storeCounter =>
      obtain ⟨⟨value, rest⟩, hpop, heffect⟩ := bind_eq_ok heffect
      obtain ⟨n, -, heffect⟩ := bind_eq_ok heffect
      cases heffect
      rw [pop_eq_ok hpop]
      exact ⟨(Stack.Made.refl rest).pop, isWord_wrap n⟩
  | push literal =>
      cases literal with
      | error error => cases heffect
      | ok n =>
          cases heffect
          exact ⟨(Stack.Made.refl stack).push (.inr (.inr (.inr rfl))), trivial⟩
  | add => exact arithmetic_made heffect
  | subtract => exact arithmetic_made heffect
  | toByte =>
      obtain ⟨⟨value, rest⟩, hpop, heffect⟩ := bind_eq_ok heffect
      obtain ⟨n, -, heffect⟩ := bind_eq_ok heffect
      cases heffect
      rw [pop_eq_ok hpop]
      exact ⟨(Stack.Made.refl rest).pop.push (made_byteWord _), trivial⟩
  | duplicate =>
      obtain ⟨⟨value, rest⟩, hpop, heffect⟩ := bind_eq_ok heffect
      cases heffect
      rw [pop_eq_ok hpop]
      refine ⟨fun other hother => .inl ?_, trivial⟩
      rcases List.mem_cons.mp hother with rfl | hfound
      · exact List.mem_cons_self
      · exact hfound
  | loadAddress =>
      obtain ⟨⟨position, below⟩, hposition, heffect⟩ := bind_eq_ok heffect
      obtain ⟨⟨value, rest⟩, hvalue, heffect⟩ := bind_eq_ok heffect
      obtain ⟨index, hindex, heffect⟩ := bind_eq_ok heffect
      cases heffect
      rw [pop_eq_ok hposition, pop_eq_ok hvalue]
      exact ⟨(Stack.Made.refl rest).pop.pop.push (toIndex_lt hindex), trivial⟩
  | loadIndirect =>
      obtain ⟨⟨pointer, rest⟩, hpop, heffect⟩ := bind_eq_ok heffect
      obtain ⟨index, -, heffect⟩ := bind_eq_ok heffect
      cases heffect
      rw [pop_eq_ok hpop]
      exact ⟨(Stack.Made.refl rest).pop.push (made_byteWord _), trivial⟩
  | storeIndirect =>
      obtain ⟨⟨value, below⟩, hvalue, heffect⟩ := bind_eq_ok heffect
      obtain ⟨n, -, heffect⟩ := bind_eq_ok heffect
      obtain ⟨⟨pointer, rest⟩, hpointer, heffect⟩ := bind_eq_ok heffect
      obtain ⟨index, hindex, heffect⟩ := bind_eq_ok heffect
      cases heffect
      rw [pop_eq_ok hvalue, pop_eq_ok hpointer, toAddress_eq_ok hindex]
      exact ⟨(Stack.Made.refl rest).pop.pop, .inr (List.mem_cons_of_mem _ List.mem_cons_self)⟩
  | loadElement =>
      obtain ⟨⟨position, below⟩, hposition, heffect⟩ := bind_eq_ok heffect
      obtain ⟨⟨value, rest⟩, hvalue, heffect⟩ := bind_eq_ok heffect
      obtain ⟨index, -, heffect⟩ := bind_eq_ok heffect
      cases heffect
      rw [pop_eq_ok hposition, pop_eq_ok hvalue]
      exact ⟨(Stack.Made.refl rest).pop.pop.push (made_byteWord _), trivial⟩
  | storeElement =>
      obtain ⟨⟨value, below⟩, hvalue, heffect⟩ := bind_eq_ok heffect
      obtain ⟨⟨position, under⟩, hposition, heffect⟩ := bind_eq_ok heffect
      obtain ⟨⟨other, rest⟩, hother, heffect⟩ := bind_eq_ok heffect
      obtain ⟨n, -, heffect⟩ := bind_eq_ok heffect
      obtain ⟨index, hindex, heffect⟩ := bind_eq_ok heffect
      cases heffect
      rw [pop_eq_ok hvalue, pop_eq_ok hposition, pop_eq_ok hother]
      exact ⟨(Stack.Made.refl rest).pop.pop.pop, .inl (toIndex_lt hindex)⟩
  | storeScratch =>
      obtain ⟨⟨value, rest⟩, hpop, heffect⟩ := bind_eq_ok heffect
      obtain ⟨n, -, heffect⟩ := bind_eq_ok heffect
      cases heffect
      rw [pop_eq_ok hpop]
      exact ⟨(Stack.Made.refl rest).pop, lowSixteen_lt n⟩
  | loadScratch =>
      cases heffect
      exact ⟨(Stack.Made.refl stack).push (.inr (.inr (.inl rfl))), trivial⟩
  | writeChar =>
      obtain ⟨⟨value, rest⟩, hpop, heffect⟩ := bind_eq_ok heffect
      obtain ⟨n, -, heffect⟩ := bind_eq_ok heffect
      obtain ⟨codePoint, hcharacter, heffect⟩ := bind_eq_ok heffect
      cases heffect
      rw [pop_eq_ok hpop]
      exact ⟨(Stack.Made.refl rest).pop, toCodePoint_lt hcharacter⟩
  | readChar =>
      cases heffect
      exact ⟨(Stack.Made.refl stack).push (made_nextInput _), rfl⟩
  | jumpIfZero label target =>
      obtain ⟨⟨value, rest⟩, hpop, heffect⟩ := bind_eq_ok heffect
      dsimp only at heffect
      split at heffect
      · obtain ⟨control, -, heffect⟩ := bind_eq_ok heffect
        cases heffect
        rw [pop_eq_ok hpop]
        exact ⟨(Stack.Made.refl rest).pop, trivial⟩
      · cases heffect
        rw [pop_eq_ok hpop]
        exact ⟨(Stack.Made.refl rest).pop, trivial⟩
  | jump label target =>
      obtain ⟨control, -, heffect⟩ := bind_eq_ok heffect
      cases heffect
      exact ⟨.refl stack, trivial⟩

end Made

/-! ### One step -/

/-- What a step can come to. -/
inductive ComesTo (operation : Operation) (config : Config) : Step → Prop
  /-- The action is carried out, and execution goes on somewhere. -/
  | running {effect : Effect} (pc : Nat)
      (heffect : operation.effect config.stack config.state = .ok effect) :
      ComesTo operation config
        (.running ⟨pc, effect.stack, (config.state.apply effect.action).tick⟩)
  /-- The action is carried out, and the program stops. -/
  | stopped {effect : Effect} (heffect : operation.effect config.stack config.state = .ok effect) :
      ComesTo operation config (.stopped (config.state.apply effect.action).tick)
  /-- Nothing is done but the step is counted. -/
  | faulted {fault : Fault} (heffect : operation.effect config.stack config.state = .error fault) :
      ComesTo operation config (.faulted fault config.state.tick)

section Step

variable {operation : Operation} {config : Config}

theorem step_comesTo : ComesTo operation config (step operation config) := by
  obtain ⟨pc, stack, state⟩ := config
  rw [step_eq]
  cases heffect : operation.effect stack state with
  | error fault => exact .faulted heffect
  | ok effect =>
      obtain ⟨left, action, control⟩ := effect
      cases control with
      | next => exact @ComesTo.running operation ⟨pc, stack, state⟩ _ (pc + 1) heffect
      | goTo target => exact @ComesTo.running operation ⟨pc, stack, state⟩ _ target heffect
      | stop => exact @ComesTo.stopped operation ⟨pc, stack, state⟩ _ heffect

theorem effect_of_running {next : Config} (hstep : step operation config = .running next) :
    ∃ effect, operation.effect config.stack config.state = .ok effect ∧
      next.stack = effect.stack ∧ next.state = (config.state.apply effect.action).tick := by
  have hcomes : ComesTo operation config (.running next) := hstep ▸ step_comesTo
  cases hcomes with
  | running pc heffect => exact ⟨_, heffect, rfl, rfl⟩

theorem effect_of_stopped {final : State} (hstep : step operation config = .stopped final) :
    ∃ effect, operation.effect config.stack config.state = .ok effect ∧
      final = (config.state.apply effect.action).tick := by
  have hcomes : ComesTo operation config (.stopped final) := hstep ▸ step_comesTo
  cases hcomes with
  | stopped heffect => exact ⟨_, heffect, rfl⟩

theorem effect_of_faulted {fault : Fault} {final : State}
    (hstep : step operation config = .faulted fault final) :
    operation.effect config.stack config.state = .error fault ∧ final = config.state.tick := by
  have hcomes : ComesTo operation config (.faulted fault final) := hstep ▸ step_comesTo
  cases hcomes with
  | faulted heffect => exact ⟨heffect, rfl⟩

end Step

/-! ### Actions -/

section Actions

variable (state : State) (action : Action)

@[simp] theorem State.steps_tick : state.tick.steps = state.steps + 1 := rfl

@[simp] theorem State.output_tick : state.tick.output = state.output := rfl

@[simp] theorem State.tape_tick : state.tick.tape = state.tape := rfl

@[simp] theorem State.steps_apply : (state.apply action).steps = state.steps := by
  cases action with
  | consume => exact state.steps_consume
  | _ => rfl

@[simp] theorem State.size_tape_apply : (state.apply action).tape.size = state.tape.size := by
  cases action with
  | consume => rw [state.tape_consume]
  | _ => rfl

theorem State.output_prefix_apply : state.output.toList <+: (state.apply action).output.toList := by
  cases action with
  | emit codePoint =>
      rw [State.apply, Array.toList_push]
      exact List.prefix_append _ _
  | consume => rw [state.output_consume]
  | _ => exact List.prefix_refl _

end Actions

/-! ### Many steps -/

section Reaching

variable {operations : Array Operation} {count : Nat} {config last : Config}

/-- Every step is counted once. -/
theorem Reaches.steps_eq (hreaches : Reaches operations count config last) :
    last.state.steps = config.state.steps + count := by
  induction hreaches with
  | refl config => rfl
  | head hoperation hstep hrest ih =>
      obtain ⟨effect, -, -, hnext⟩ := effect_of_running hstep
      rw [ih, hnext, State.steps_tick, State.steps_apply]
      omega

/-- Output is only appended to. -/
theorem Reaches.output_prefix (hreaches : Reaches operations count config last) :
    config.state.output.toList <+: last.state.output.toList := by
  induction hreaches with
  | refl config => exact List.prefix_refl _
  | head hoperation hstep hrest ih =>
      obtain ⟨effect, -, -, hnext⟩ := effect_of_running hstep
      rw [hnext, State.output_tick] at ih
      exact (State.output_prefix_apply _ _).trans ih

/-- A configuration that is reached in some steps is reached through the one
that fewer steps lead to. -/
theorem Reaches.split {first second : Nat}
    (hreaches : Reaches operations (first + second) config last) :
    ∃ middle, Reaches operations first config middle ∧ Reaches operations second middle last := by
  induction first generalizing config with
  | zero =>
      rw [Nat.zero_add] at hreaches
      exact ⟨config, .refl config, hreaches⟩
  | succ first ih =>
      rw [Nat.add_right_comm] at hreaches
      cases hreaches with
      | head hoperation hstep hrest =>
          obtain ⟨middle, hfirst, hsecond⟩ := ih hrest
          exact ⟨middle, .head hoperation hstep hfirst, hsecond⟩

theorem Reaches.pc_lt (hreaches : Reaches operations (count + 1) config last) :
    config.pc < operations.size := by
  cases hreaches with
  | head hoperation hstep hrest => exact (Array.getElem?_eq_some_iff.mp hoperation).1

end Reaching

/-! ### The end of a run -/

/-- A run has not been cut by its limit. -/
def Outcome.Uncut (outcome : Outcome) : Prop :=
  ∀ reached pc, outcome.fault ≠ some (.stepLimit reached, pc)

section Ends

variable {operations : Array Operation} {limit : Int} {config : Config} {outcome : Outcome}

/-- The end of a run takes at most one more step, and takes no output back. -/
theorem EndsAt.state_eq (hends : EndsAt operations limit config outcome) :
    (outcome = { state := config.state } ∧ operations.size ≤ config.pc) ∨
      (outcome.state.steps = config.state.steps + 1 ∧ config.pc < operations.size ∧
        config.state.output.toList <+: outcome.state.output.toList) := by
  cases hends with
  | left hpc => exact .inl ⟨rfl, hpc⟩
  | stopped hoperation hstep =>
      obtain ⟨effect, -, rfl⟩ := effect_of_stopped hstep
      exact .inr ⟨by simp, (Array.getElem?_eq_some_iff.mp hoperation).1,
        State.output_prefix_apply _ _⟩
  | faulted hoperation hstep =>
      obtain ⟨-, rfl⟩ := effect_of_faulted hstep
      exact .inr ⟨rfl, (Array.getElem?_eq_some_iff.mp hoperation).1, List.prefix_refl _⟩
  | exhausted hpc => exact .inr ⟨rfl, hpc, List.prefix_refl _⟩

end Ends

section Uncut

variable {operations : Array Operation} {limit : Int} {budget count : Nat} {config last : Config}
  (huncut : (execute operations limit budget config).Uncut)
include huncut

/-- An uncut run goes through everything that is reached. -/
theorem execute_through (hreaches : Reaches operations count config last) :
    ∃ less, budget = count + less ∧
      execute operations limit budget config = execute operations limit less last := by
  rcases Nat.lt_or_ge budget count with hlt | hge
  · obtain ⟨pc, hcut⟩ := execute_of_reaches_lt limit hreaches hlt
    exact absurd hcut (huncut limit pc)
  · obtain ⟨less, rfl⟩ := Nat.exists_eq_add_of_le hge
    exact ⟨less, rfl, execute_of_reaches limit hreaches less⟩

/-- An uncut run has a step for every instruction that it comes to. -/
theorem count_lt_of_uncut (hreaches : Reaches operations count config last)
    (hpc : last.pc < operations.size) : count < budget := by
  by_contra hnot
  obtain ⟨pc, hcut⟩ := execute_of_reaches_le limit hreaches hpc (Nat.le_of_not_lt hnot)
  exact huncut limit pc hcut

/-- An uncut run ends at a fault that is reached. -/
theorem execute_faulted {operation : Operation} {fault : Fault} {after : State}
    (hreaches : Reaches operations count config last)
    (hoperation : operations[last.pc]? = some operation)
    (hstep : step operation last = .faulted fault after) :
    execute operations limit budget config = { state := after, fault := some (fault, last.pc) } := by
  have hcount := count_lt_of_uncut huncut hreaches (Array.getElem?_eq_some_iff.mp hoperation).1
  obtain ⟨less, rfl⟩ := Nat.exists_eq_add_of_lt hcount
  rw [Nat.add_assoc, execute_of_reaches limit hreaches, execute_succ limit hoperation, hstep]

end Uncut

/-- Every run of instruction text ends at a configuration that it reaches within
the steps that its limit leaves to it. -/
theorem State.run_endsWithin (state : State) (limit : Int) (body input : String) :
    ∃ count last, count ≤ (limit - state.steps).toNat ∧
      Reaches (Operation.ofListing (Assembly.Listing.read body)) count
        { state := state.feed input.toList } last ∧
      EndsAt (Operation.ofListing (Assembly.Listing.read body)) limit last
        (state.run limit body input) :=
  execute_endsWithin limit _ _

/-- A run that is not cut has taken no more steps than its limit left to it. -/
theorem State.steps_run_le {state : State} {limit : Int} {body input : String}
    (huncut : (state.run limit body input).Uncut) :
    (state.run limit body input).state.steps ≤ state.steps + (limit - state.steps).toNat := by
  obtain ⟨count, last, hcount, hreaches, hends⟩ := state.run_endsWithin limit body input
  have hsteps : last.state.steps = state.steps + count := hreaches.steps_eq
  rcases hends.state_eq with ⟨hleft, -⟩ | ⟨hend, hpc, -⟩
  · rw [hleft]
    exact (Nat.le_of_eq hsteps).trans (Nat.add_le_add_left hcount _)
  · have hlast : count < (limit - state.steps).toNat := count_lt_of_uncut huncut hreaches hpc
    omega

end Machine
end TapeCompiler
