import TapeCompiler.Proofs.Progress
import TapeCompiler.Proofs.Simulation

/-!
# Runs with more resources

A machine with more cells, more input and a higher limit goes through the same
run as a smaller one, as long as the smaller one does not notice its size: it
must not be cut by its limit, look for a cell that it does not have, or read at
the end of its input.

The two machines are compared step by step.  They stand at the same instruction
with the same stack, and what the larger one has in excess is untouched
(`Lockstep`).  No operation sees the excess except by asking for a cell outside
the smaller tape or by reading behind the shorter input, which is checked once
for all operations in `effect_richer`.  That addresses found on the stack lie on
the smaller tape is part of the comparison.
-/

namespace TapeCompiler
namespace Machine

open Assembly

/-! ### Machines with more cells and more input -/

/-- A machine that is the same but for `extra` more cells, all of them zero. -/
structure State.Extended (extra : Nat) (state other : State) : Prop where
  tape : other.tape.bytes = state.tape.bytes ++ List.replicate extra 0
  counter : other.counter = state.counter
  scratch : other.scratch = state.scratch
  steps : other.steps = state.steps
  output : other.output = state.output

/-- Such a machine at the same place of an input that goes on behind the end of
the other one's. -/
structure State.Richer (extra : Nat) (beyond : List Char) (state other : State) : Prop
    extends state.Extended extra other where
  consumed : other.consumed = state.consumed
  unread : other.unread = state.unread ++ beyond

/-- The addresses on a stack are those of the first `size` cells. -/
def Stack.Within (size : Nat) (stack : Stack) : Prop :=
  ∀ index, .address index ∈ stack → index < size

/-- On the way from a configuration no character is read at the end of the
input. -/
def ReadsWithin (operations : Array Operation) (start : Config) : Prop :=
  ∀ count config, Reaches operations count start config →
    operations[config.pc]? = some .readChar → config.state.unread ≠ []

section Richer

variable {extra : Nat} {beyond : List Char} {small large : State}

theorem State.Extended.size_eq (h : small.Extended extra large) :
    large.tape.size = small.tape.size + extra := by
  have hlength := congrArg List.length h.tape
  simpa using hlength

theorem State.Extended.cell_eq (h : small.Extended extra large) {index : Nat}
    (hindex : index < small.tape.size) : large.tape.cell index = small.tape.cell index := by
  have hsize := h.size_eq
  have hbytes := congrArg (fun bytes => bytes[index]?) h.tape
  rw [List.getElem?_append_left (by simpa using hindex), Tape.getElem?_bytes,
    if_pos (show index < large.tape.size by omega), Tape.getElem?_bytes, if_pos hindex] at hbytes
  exact Option.some.inj hbytes

/-- An index is the same on both tapes unless it is outside the smaller one. -/
theorem State.Extended.toIndex_eq (h : small.Extended extra large) (value : Value) :
    value.toIndex large.tape = value.toIndex small.tape ∨
      ∃ index, value.toIndex small.tape = .error (.indexOutOfRange index) := by
  have hsize := h.size_eq
  cases value with
  | tape => exact .inl rfl
  | address index => exact .inl rfl
  | word n =>
      change (if 0 ≤ n ∧ n < large.tape.size then Except.ok n.toNat else .error _) =
          (if 0 ≤ n ∧ n < small.tape.size then Except.ok n.toNat else .error _) ∨
        ∃ index, (if 0 ≤ n ∧ n < small.tape.size then Except.ok n.toNat else .error _) = _
      by_cases hrange : 0 ≤ n ∧ n < small.tape.size
      · rw [if_pos hrange, if_pos (by omega)]
        exact .inl rfl
      · rw [if_neg hrange]
        exact .inr ⟨n, rfl⟩

/-- A computation that begins with finding a cell does the same on both tapes,
if it does so in each cell of the smaller one. -/
theorem State.Extended.bind_toIndex (h : small.Extended extra large) {position : Value}
    {there here : Nat → Except Fault Effect}
    (heq : ∀ index < small.tape.size, there index = here index) :
    position.toIndex large.tape >>= there = position.toIndex small.tape >>= here ∨
      ∃ index, position.toIndex small.tape >>= here = .error (.indexOutOfRange index) := by
  rcases h.toIndex_eq position with hsame | ⟨index, herror⟩
  · rw [hsame]
    cases hindex : position.toIndex small.tape with
    | error fault => exact .inl rfl
    | ok index => exact .inl (heq index (toIndex_lt hindex))
  · rw [herror]
    exact .inr ⟨index, rfl⟩

/-- No operation tells the two machines apart, unless it misses a cell or reads
at the end of the shorter input. -/
theorem effect_richer (h : small.Richer extra beyond large) {operation : Operation} {stack : Stack}
    (hstack : stack.Within small.tape.size) (hread : operation = .readChar → small.unread ≠ []) :
    operation.effect stack large = operation.effect stack small ∨
      ∃ index, operation.effect stack small = .error (.indexOutOfRange index) := by
  -- Seven operations look at the state; the others decide from the stack alone.
  cases operation with
  | loadCounter => exact .inl (by rw [effect_loadCounter, effect_loadCounter, h.counter])
  | loadScratch => exact .inl (by rw [effect_loadScratch, effect_loadScratch, h.scratch])
  | loadAddress =>
      match stack with
      | [] | [_] => exact .inl rfl
      | position :: _ :: rest => exact h.bind_toIndex fun _ _ => rfl
  | loadElement =>
      match stack with
      | [] | [_] => exact .inl rfl
      | position :: _ :: rest =>
          exact h.bind_toIndex fun index hindex => by rw [h.cell_eq hindex]
  | storeElement =>
      match stack with
      | [] | [_] | [_, _] => exact .inl rfl
      | .word n :: position :: _ :: rest => exact h.bind_toIndex fun _ _ => rfl
      | .tape :: _ :: _ :: _ | .address _ :: _ :: _ :: _ => exact .inl rfl
  | loadIndirect =>
      match stack with
      | [] | .word _ :: _ | .tape :: _ => exact .inl rfl
      | .address index :: rest =>
          have hindex := hstack index List.mem_cons_self
          exact .inl (by rw [effect_loadIndirect, effect_loadIndirect, h.cell_eq hindex])
  | readChar =>
      obtain ⟨c, rest, hunread⟩ := List.exists_cons_of_ne_nil (hread rfl)
      exact .inl (by rw [effect_readChar, effect_readChar, h.unread, hunread]; rfl)
  | push literal => cases literal <;> exact .inl rfl
  | _ => exact .inl rfl

/-- An action that an operation has decided on leaves the excess untouched. -/
theorem State.Richer.apply (h : small.Richer extra beyond large) {operation : Operation}
    {found : Stack} {action : Action} (hfound : found.Within small.tape.size)
    (haction : action.Made operation small found)
    (hread : operation = .readChar → small.unread ≠ []) :
    (small.apply action).Richer extra beyond (large.apply action) := by
  obtain ⟨⟨htape, hcounter, hscratch, hsteps, houtput⟩, hconsumed, hunread⟩ := h
  cases action with
  | none => exact ⟨⟨htape, hcounter, hscratch, hsteps, houtput⟩, hconsumed, hunread⟩
  | writeCell index value =>
      have hindex : index < small.tape.size := haction.elim id (hfound index)
      refine ⟨⟨?_, hcounter, hscratch, hsteps, houtput⟩, hconsumed, hunread⟩
      change (large.tape.write index value).bytes = (small.tape.write index value).bytes ++ _
      rw [Tape.bytes_write, Tape.bytes_write, htape,
        List.set_append_left _ _ (by simpa using hindex)]
  | setCounter value => exact ⟨⟨htape, rfl, hscratch, hsteps, houtput⟩, hconsumed, hunread⟩
  | setScratch value => exact ⟨⟨htape, hcounter, rfl, hsteps, houtput⟩, hconsumed, hunread⟩
  | emit codePoint =>
      exact ⟨⟨htape, hcounter, hscratch, hsteps, congrArg (·.push codePoint) houtput⟩, hconsumed,
        hunread⟩
  | consume =>
      obtain ⟨c, rest, hsmall⟩ := List.exists_cons_of_ne_nil (hread haction)
      rw [hsmall, List.cons_append] at hunread
      simp only [State.apply, hsmall, hunread]
      exact ⟨⟨htape, hcounter, hscratch, hsteps, houtput⟩, congrArg (· + 1) hconsumed, rfl⟩

theorem State.Richer.tick (h : small.Richer extra beyond large) :
    small.tick.Richer extra beyond large.tick :=
  ⟨⟨h.tape, h.counter, h.scratch, congrArg (· + 1) h.steps, h.output⟩, h.consumed, h.unread⟩

end Richer

/-! ### Lock step -/

/-- Two machines stand at the same instruction with the same stack, and one is
richer than the other. -/
structure Lockstep (extra : Nat) (beyond : List Char) (small large : Config) : Prop where
  pc : large.pc = small.pc
  stack : large.stack = small.stack
  within : small.stack.Within small.state.tape.size
  state : small.state.Richer extra beyond large.state

/-- What comes of one step on both machines. -/
inductive Step.Alike (extra : Nat) (beyond : List Char) : Step → Step → Prop
  | running {small large : Config} (h : Lockstep extra beyond small large) :
      Alike extra beyond (.running small) (.running large)
  | stopped {small large : State} (h : small.Richer extra beyond large) :
      Alike extra beyond (.stopped small) (.stopped large)
  | faulted (fault : Fault) {small large : State} (h : small.Richer extra beyond large) :
      Alike extra beyond (.faulted fault small) (.faulted fault large)
  /-- The smaller machine misses a cell. -/
  | outside (index : Int) (small : State) (other : Step) :
      Alike extra beyond (.faulted (.indexOutOfRange index) small) other

section Lockstep

variable {extra : Nat} {beyond : List Char} {operations : Array Operation} {count : Nat}
  {small large last : Config}

theorem Lockstep.step_alike (h : Lockstep extra beyond small large) {operation : Operation}
    (hread : operation = .readChar → small.state.unread ≠ []) :
    Step.Alike extra beyond (step operation small) (step operation large) := by
  obtain ⟨pc, stack, small⟩ := small
  obtain ⟨pc', stack', large⟩ := large
  obtain ⟨rfl, rfl, hwithin, hricher⟩ := h
  dsimp only at hread hwithin hricher
  rw [step_eq, step_eq]
  rcases effect_richer hricher hwithin hread with hsame | ⟨index, hmissed⟩
  · rw [hsame]
    cases heffect : operation.effect stack' small with
    | error fault => exact .faulted fault hricher.tick
    | ok effect =>
        obtain ⟨left, action, control⟩ := effect
        have hmade := Operation.effect_made heffect
        have hnext := (hricher.apply hwithin hmade.action hread).tick
        have hleft : left.Within (small.apply action).tick.tape.size := by
          intro index hindex
          rw [State.tape_tick, State.size_tape_apply]
          exact (hmade.stack _ hindex).elim (hwithin index) id
        cases control with
        | next => exact .running ⟨rfl, rfl, hleft, hnext⟩
        | goTo target => exact .running ⟨rfl, rfl, hleft, hnext⟩
        | stop => exact .stopped hnext
  · rw [hmissed]
    exact .outside index small.tick _

/-- The larger machine goes where the smaller one goes. -/
theorem Lockstep.reaches (h : Lockstep extra beyond small large)
    (hreaches : Reaches operations count small last) (hreads : ReadsWithin operations small) :
    ∃ there, Reaches operations count large there ∧ Lockstep extra beyond last there := by
  induction hreaches generalizing large with
  | refl config => exact ⟨large, .refl large, h⟩
  | @head count config next last operation hoperation hstep hrest ih =>
      have halike := h.step_alike fun hread : operation = .readChar =>
        hreads 0 config (.refl config) (hread ▸ hoperation)
      rw [hstep] at halike
      generalize hlarge : step operation large = other at halike
      cases halike with
      | running hnext =>
          obtain ⟨there, hthere, hlast⟩ := ih hnext fun count config hconfig =>
            hreads (count + 1) config (.head hoperation hstep hconfig)
          exact ⟨there, .head (h.pc ▸ hoperation) hlarge hthere, hlast⟩

/-- Where the smaller machine ends without having missed anything, the larger
one ends in the same way. -/
theorem Lockstep.ends (h : Lockstep extra beyond small large) {limit : Int} {outcome : Outcome}
    (hends : EndsAt operations limit small outcome) (huncut : outcome.Uncut)
    (hcells : ∀ index pc, outcome.fault ≠ some (.indexOutOfRange index, pc))
    (hread : operations[small.pc]? = some .readChar → small.state.unread ≠ []) (higher : Int)
    {budget : Nat} (hbudget : small.pc < operations.size → 0 < budget) :
    (execute operations higher budget large).fault = outcome.fault ∧
      outcome.state.Richer extra beyond (execute operations higher budget large).state := by
  cases hends with
  | left hpc =>
      rw [execute_of_size_le _ _ _ _ (h.pc ▸ hpc)]
      exact ⟨rfl, h.state⟩
  | exhausted hpc => exact absurd rfl (huncut limit _)
  | @stopped operation final hoperation hstep =>
      have halike := h.step_alike fun hsame : operation = .readChar => hread (hsame ▸ hoperation)
      obtain ⟨fewer, rfl⟩ := Nat.exists_eq_add_one.mpr
        (hbudget (Array.getElem?_eq_some_iff.mp hoperation).1)
      rw [execute_succ higher (h.pc ▸ hoperation)]
      rw [hstep] at halike
      generalize step operation large = other at halike
      cases halike with
      | stopped hfinal => exact ⟨rfl, hfinal⟩
  | @faulted operation fault final hoperation hstep =>
      have halike := h.step_alike fun hsame : operation = .readChar => hread (hsame ▸ hoperation)
      obtain ⟨fewer, rfl⟩ := Nat.exists_eq_add_one.mpr
        (hbudget (Array.getElem?_eq_some_iff.mp hoperation).1)
      rw [execute_succ higher (h.pc ▸ hoperation), h.pc]
      rw [hstep] at halike
      generalize step operation large = other at halike
      cases halike with
      | faulted fault hfinal => exact ⟨rfl, hfinal⟩
      | outside index => exact absurd rfl (hcells index _)

end Lockstep

/-- More resources change nothing for a run that does not run out of them.  Let a
run end without being cut by its limit, without missing a cell, and without
reading at the end of its input.  Then a machine with more cells, a higher limit
and a longer input goes through the same instructions with the same stacks and
ends in the same way; what it has in excess is left as it was. -/
theorem run_with_more_resources {extra : Nat} {state other : State}
    (hother : state.Extended extra other) {limit higher : Int} (hlimit : limit ≤ higher)
    (body input beyond : String)
    (hsteps : ∀ reached pc, (state.run limit body input).fault ≠ some (.stepLimit reached, pc))
    (hcells : ∀ index pc,
      (state.run limit body input).fault ≠ some (.indexOutOfRange index, pc))
    (hreads : ReadsWithin (Operation.ofListing (Listing.read body))
      { state := state.feed input.toList }) :
    let outcome := state.run limit body input
    let larger := other.run higher body (input ++ beyond)
    larger.fault = outcome.fault ∧
      outcome.state.Extended extra larger.state ∧
      larger.state.consumed = outcome.state.consumed ∧
      ∀ count config,
        Reaches (Operation.ofListing (Listing.read body)) count { state := state.feed input.toList }
          config →
        ∃ there, there.pc = config.pc ∧ there.stack = config.stack ∧
          Reaches (Operation.ofListing (Listing.read body)) count
            { state := other.feed (input ++ beyond).toList } there := by
  have hstart : Lockstep extra beyond.toList { state := state.feed input.toList }
      { state := other.feed (input ++ beyond).toList } := by
    refine ⟨rfl, rfl, fun index hindex => absurd hindex List.not_mem_nil, ⟨?_, rfl, ?_⟩⟩
    · exact ⟨hother.tape, hother.counter, hother.scratch, hother.steps, hother.output⟩
    · exact String.toList_append
  obtain ⟨count, last, hcount, hreaches, hends⟩ := state.run_endsWithin limit body input
  obtain ⟨there, hthere, hlast⟩ := hstart.reaches hreaches hreads
  have hbudget : (limit - state.steps).toNat ≤ (higher - other.steps).toNat := by
    rw [hother.steps]
    omega
  obtain ⟨more, hmore⟩ := Nat.exists_eq_add_of_le (hcount.trans hbudget)
  have hrun : other.run higher body (input ++ beyond) =
      execute (Operation.ofListing (Listing.read body)) higher more there := by
    rw [State.run, hmore]
    exact execute_of_reaches higher hthere more
  have hleft : last.pc < (Operation.ofListing (Listing.read body)).size → 0 < more := by
    intro hpc
    have hlast : count < (limit - state.steps).toNat := count_lt_of_uncut hsteps hreaches hpc
    omega
  obtain ⟨hfault, hricher⟩ :=
    hlast.ends hends hsteps hcells (hreads count last hreaches) higher hleft
  rw [← hrun] at hfault hricher
  refine ⟨hfault, hricher.toExtended, hricher.consumed, fun count config hconfig => ?_⟩
  obtain ⟨there, hthere, hlock⟩ := hstart.reaches hconfig hreads
  exact ⟨there, hlock.pc, hlock.stack, hthere⟩

/-- A machine of one cell and one of three that read a character and then find
the stack empty. -/
theorem run_with_more_resources_underflow :
    let body := "call Console::Read()\nstloc.0\nadd"
    let state : State := { tape := ⟨1, #[7]⟩ }
    let other : State := { tape := ⟨3, #[7]⟩ }
    (state.run 3 body "a").fault = some (.stackUnderflow, 2) ∧
      (other.run 100 body ("a" ++ "bc")).fault = some (.stackUnderflow, 2) ∧
      (state.run 3 body "a").state.Extended 2 (other.run 100 body ("a" ++ "bc")).state := by
  intro body state other
  have hother : state.Extended 2 other := ⟨by decide, rfl, rfl, rfl, rfl⟩
  have hfault : (state.run 3 body "a").fault = some (.stackUnderflow, 2) := by decide +kernel
  have hoperations : Operation.ofListing (Listing.read body) =
      #[.readChar, .storeScratch, .add] := by
    have hprogram : (Listing.read body).program =
        #[⟨"call", "Console::Read()"⟩, ⟨"stloc.0", ""⟩, ⟨"add", ""⟩] := by decide +kernel
    rw [Operation.ofListing, hprogram]
    simp only [List.map_toArray, List.map_cons, List.map_nil]
    rfl
  have hreads : ReadsWithin #[.readChar, .storeScratch, .add]
      { state := state.feed "a".toList } := by
    intro count config hreaches hread
    cases hreaches with
    | refl => decide
    | head hoperation hstep hrest =>
        cases hoperation
        cases hstep
        cases hrest with
        | refl => cases hread
        | head hoperation hstep hrest =>
            cases hoperation
            cases hstep
            cases hrest with
            | refl => cases hread
            | head hoperation hstep hrest =>
                cases hoperation
                cases hstep
  rw [← hoperations] at hreads
  obtain ⟨hsame, hextended, -⟩ := run_with_more_resources hother
    (show (3 : Int) ≤ 100 by decide) body "a" "bc" (fun reached pc hcut => by rw [hfault] at hcut; cases hcut)
    (fun index pc hmissed => by rw [hfault] at hmissed; cases hmissed) hreads
  exact ⟨hfault, hsame.trans hfault, hextended⟩

end Machine
end TapeCompiler
