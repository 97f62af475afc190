import TapeCompiler.Proofs.Layout
import TapeCompiler.Proofs.Transitions

/-!
# Execution

`Reaches` counts the steps between two configurations.  A run with a budget
goes through the configurations that are reached, and ends at one of them in
one of four ways; both directions are stated here once, so that later modules
argue about steps and never unfold `execute`.  A block of operations that
neither jump nor stop is executed as a whole by `perform`.
-/

namespace TapeCompiler
namespace Machine

/-! ### Effects -/

/-- A number added to or taken away from another. -/
def combine : Assembly.Direction → Int → Int → Int
  | .up, a, b => a + b
  | .down, a, b => a - b

/-- The cursor stands on a cell. -/
def State.InRange (state : State) : Prop :=
  0 ≤ state.counter ∧ state.counter < state.tape.size

instance (state : State) : Decidable state.InRange :=
  inferInstanceAs (Decidable (_ ∧ _))

def State.current (state : State) : UInt8 :=
  state.tape.cell state.counter.toNat

/-- The number that reading pushes. -/
def nextWord : List Char → Int
  | [] => -1
  | c :: _ => c.toNat

theorem nextInput_eq (unread : List Char) : nextInput unread = .word (nextWord unread) := by
  cases unread <;> rfl

section Consume

variable (state : State)

@[simp] theorem State.tape_consume : (state.apply .consume).tape = state.tape := by
  rw [State.apply]
  split <;> rfl

@[simp] theorem State.counter_consume : (state.apply .consume).counter = state.counter := by
  rw [State.apply]
  split <;> rfl

@[simp] theorem State.scratch_consume : (state.apply .consume).scratch = state.scratch := by
  rw [State.apply]
  split <;> rfl

@[simp] theorem State.steps_consume : (state.apply .consume).steps = state.steps := by
  rw [State.apply]
  split <;> rfl

@[simp] theorem State.output_consume : (state.apply .consume).output = state.output := by
  rw [State.apply]
  split <;> rfl

end Consume

section Effects

variable (state : State) (stack : Stack)

@[simp] theorem effect_skip : Operation.skip.effect stack state = .ok { stack } := rfl

@[simp] theorem effect_loadTape :
    Operation.loadTape.effect stack state = .ok { stack := .tape :: stack } := rfl

@[simp] theorem effect_loadCounter :
    Operation.loadCounter.effect stack state = .ok { stack := .word state.counter :: stack } := rfl

@[simp] theorem effect_storeCounter (n : Int) :
    Operation.storeCounter.effect (.word n :: stack) state =
      .ok { stack, action := .setCounter (Numeral.wrap n) } := rfl

@[simp] theorem effect_push (n : Int) :
    (Operation.push (.ok n)).effect stack state = .ok { stack := .word n :: stack } := rfl

@[simp] theorem effect_direction (direction : Assembly.Direction) (a b : Int) :
    direction.operation.effect (.word b :: .word a :: stack) state =
      .ok { stack := .word (Numeral.wrap (combine direction a b)) :: stack } := by
  cases direction <;> rfl

@[simp] theorem effect_toByte (n : Int) :
    Operation.toByte.effect (.word n :: stack) state =
      .ok { stack := byteWord (Numeral.lowByte n) :: stack } := rfl

@[simp] theorem effect_duplicate (value : Value) :
    Operation.duplicate.effect (value :: stack) state =
      .ok { stack := value :: value :: stack } := rfl

@[simp] theorem effect_loadIndirect (index : Nat) :
    Operation.loadIndirect.effect (.address index :: stack) state =
      .ok { stack := byteWord (state.tape.cell index) :: stack } := rfl

@[simp] theorem effect_storeIndirect (n : Int) (index : Nat) :
    Operation.storeIndirect.effect (.word n :: .address index :: stack) state =
      .ok { stack, action := .writeCell index (Numeral.lowByte n) } := rfl

@[simp] theorem effect_storeScratch (n : Int) :
    Operation.storeScratch.effect (.word n :: stack) state =
      .ok { stack, action := .setScratch (Numeral.lowSixteen n) } := rfl

@[simp] theorem effect_loadScratch :
    Operation.loadScratch.effect stack state = .ok { stack := .word state.scratch :: stack } := rfl

@[simp] theorem effect_readChar :
    Operation.readChar.effect stack state =
      .ok { stack := nextInput state.unread :: stack, action := .consume } := rfl

@[simp] theorem effect_jump (label : String) (target : Nat) :
    (Operation.jump label (some target)).effect stack state =
      .ok { stack, control := .goTo target } := rfl

theorem toIndex_counter :
    (Value.word state.counter).toIndex state.tape =
      if state.InRange then .ok state.counter.toNat else .error (.indexOutOfRange state.counter) :=
  rfl

theorem effect_loadAddress (value : Value) :
    Operation.loadAddress.effect (.word state.counter :: value :: stack) state =
      if state.InRange then .ok { stack := .address state.counter.toNat :: stack }
      else .error (.indexOutOfRange state.counter) := by
  change (do
    let index ← (Value.word state.counter).toIndex state.tape
    return ({ stack := .address index :: stack } : Effect)) = _
  rw [toIndex_counter]
  split <;> rfl

theorem effect_loadElement (value : Value) :
    Operation.loadElement.effect (.word state.counter :: value :: stack) state =
      if state.InRange then .ok { stack := byteWord state.current :: stack }
      else .error (.indexOutOfRange state.counter) := by
  change (do
    let index ← (Value.word state.counter).toIndex state.tape
    return ({ stack := byteWord (state.tape.cell index) :: stack } : Effect)) = _
  rw [toIndex_counter]
  split <;> rfl

theorem effect_storeElement (n : Int) (value : Value) :
    Operation.storeElement.effect (.word n :: .word state.counter :: value :: stack) state =
      if state.InRange then
        .ok { stack, action := .writeCell state.counter.toNat (Numeral.lowByte n) }
      else .error (.indexOutOfRange state.counter) := by
  change (do
    let index ← (Value.word state.counter).toIndex state.tape
    return ({ stack, action := .writeCell index (Numeral.lowByte n) } : Effect)) = _
  rw [toIndex_counter]
  split <;> rfl

theorem effect_writeChar {n : Int} (hlow : 0 ≤ n) (hhigh : n < 0x110000) :
    Operation.writeChar.effect (.word n :: stack) state = .ok { stack, action := .emit n.toNat } := by
  change (do
    let codePoint ← toCodePoint n
    return ({ stack, action := .emit codePoint } : Effect)) = _
  rw [toCodePoint, if_pos ⟨hlow, hhigh⟩]
  rfl

@[simp] theorem effect_writeChar_byte (value : UInt8) :
    Operation.writeChar.effect (.word value.toNat :: stack) state =
      .ok { stack, action := .emit value.toNat } := by
  have hvalue := value.toNat_lt
  rw [effect_writeChar state stack (by omega) (by omega), Int.toNat_natCast]

theorem effect_jumpIfZero (label : String) (target : Nat) (value : Value) :
    (Operation.jumpIfZero label (some target)).effect (value :: stack) state =
      .ok { stack, control := if value = .word 0 then .goTo target else .next } := by
  change (if value = .word 0 then
      (pure { stack, control := .goTo target } : Except Fault Effect)
    else pure { stack }) = _
  split <;> rfl

end Effects

/-! ### Steps -/

/-- Execution leads from one configuration to another in a number of steps. -/
inductive Reaches (operations : Array Operation) : Nat → Config → Config → Prop
  | refl (config : Config) : Reaches operations 0 config config
  | head {count : Nat} {config next last : Config} {operation : Operation}
      (hoperation : operations[config.pc]? = some operation)
      (hstep : step operation config = .running next)
      (hrest : Reaches operations count next last) :
      Reaches operations (count + 1) config last

section Reaching

variable {operations : Array Operation}

theorem Reaches.trans {first second : Nat} {config middle last : Config}
    (hfirst : Reaches operations first config middle)
    (hsecond : Reaches operations second middle last) :
    Reaches operations (first + second) config last := by
  induction hfirst with
  | refl config =>
      rw [Nat.zero_add]
      exact hsecond
  | head hoperation hstep hrest ih =>
      rw [Nat.add_right_comm]
      exact .head hoperation hstep (ih hsecond)

/-- What one step preserves, a whole run preserves. -/
theorem Reaches.invariant {P : Config → Prop}
    (hpreserved : ∀ config next operation, P config → operations[config.pc]? = some operation →
      step operation config = .running next → P next)
    {count : Nat} {config last : Config} (hreaches : Reaches operations count config last)
    (hconfig : P config) : P last := by
  induction hreaches with
  | refl config => exact hconfig
  | head hoperation hstep hrest ih => exact ih (hpreserved _ _ _ hconfig hoperation hstep)

variable {operation : Operation} {pc : Nat} {stack left : Stack} {state : State} {action : Action}

theorem step_next (heffect : operation.effect stack state = .ok ⟨left, action, .next⟩) :
    step operation ⟨pc, stack, state⟩ = .running ⟨pc + 1, left, (state.apply action).tick⟩ := by
  rw [step_eq, heffect]

theorem step_goTo {target : Nat}
    (heffect : operation.effect stack state = .ok ⟨left, action, .goTo target⟩) :
    step operation ⟨pc, stack, state⟩ = .running ⟨target, left, (state.apply action).tick⟩ := by
  rw [step_eq, heffect]

theorem step_fault {fault : Fault} (heffect : operation.effect stack state = .error fault) :
    step operation ⟨pc, stack, state⟩ = .faulted fault state.tick := by
  rw [step_eq, heffect]

end Reaching

/-! ### Runs with a budget -/

/-- How a run may end at a configuration. -/
inductive EndsAt (operations : Array Operation) (limit : Int) (config : Config) : Outcome → Prop
  /-- Execution has left the program. -/
  | left (hpc : operations.size ≤ config.pc) : EndsAt operations limit config { state := config.state }
  /-- An operation has stopped the program. -/
  | stopped {operation : Operation} {state : State}
      (hoperation : operations[config.pc]? = some operation)
      (hstep : step operation config = .stopped state) :
      EndsAt operations limit config { state }
  /-- An operation has met a fault. -/
  | faulted {operation : Operation} {fault : Fault} {state : State}
      (hoperation : operations[config.pc]? = some operation)
      (hstep : step operation config = .faulted fault state) :
      EndsAt operations limit config { state, fault := some (fault, config.pc) }
  /-- The steps have been used up. -/
  | exhausted (hpc : config.pc < operations.size) :
      EndsAt operations limit config
        { state := config.state.tick, fault := some (.stepLimit limit, config.pc) }

section Budget

variable {operations : Array Operation} (limit : Int)

theorem execute_zero {config : Config} (hpc : config.pc < operations.size) :
    execute operations limit 0 config =
      { state := config.state.tick, fault := some (.stepLimit limit, config.pc) } := by
  unfold execute
  rw [dif_pos hpc]

theorem execute_succ {config : Config} {operation : Operation}
    (hoperation : operations[config.pc]? = some operation) (budget : Nat) :
    execute operations limit (budget + 1) config =
      match step operation config with
      | .running next => execute operations limit budget next
      | .stopped state => { state }
      | .faulted fault state => { state, fault := some (fault, config.pc) } := by
  obtain ⟨hpc, rfl⟩ := Array.getElem?_eq_some_iff.mp hoperation
  rw [execute]
  exact dif_pos hpc

/-- A run goes on from any configuration that its budget reaches. -/
theorem execute_of_reaches {count : Nat} {config last : Config}
    (hreaches : Reaches operations count config last) (budget : Nat) :
    execute operations limit (count + budget) config = execute operations limit budget last := by
  induction hreaches with
  | refl config => rw [Nat.zero_add]
  | head hoperation hstep hrest ih =>
      rw [Nat.add_right_comm, execute_succ limit hoperation, hstep]
      exact ih

/-- A run whose budget does not reach a configuration ends on the way. -/
theorem execute_of_reaches_lt {count : Nat} {config last : Config}
    (hreaches : Reaches operations count config last) {budget : Nat} (hbudget : budget < count) :
    ∃ pc, (execute operations limit budget config).fault = some (.stepLimit limit, pc) := by
  induction hreaches generalizing budget with
  | refl config => cases hbudget
  | @head count config next last operation hoperation hstep hrest ih =>
      cases budget with
      | zero =>
          have hpc := (Array.getElem?_eq_some_iff.mp hoperation).1
          rw [execute_zero limit hpc]
          exact ⟨_, rfl⟩
      | succ budget =>
          rw [execute_succ limit hoperation, hstep]
          exact ih (by omega)

/-- A run whose budget is used up within the program ends there or before. -/
theorem execute_of_reaches_le {count : Nat} {config last : Config}
    (hreaches : Reaches operations count config last) (hpc : last.pc < operations.size)
    {budget : Nat} (hbudget : budget ≤ count) :
    ∃ pc, (execute operations limit budget config).fault = some (.stepLimit limit, pc) := by
  rcases Nat.lt_or_eq_of_le hbudget with hlt | rfl
  · exact execute_of_reaches_lt limit hreaches hlt
  · have hrun := execute_of_reaches limit hreaches 0
    rw [Nat.add_zero, execute_zero limit hpc] at hrun
    rw [hrun]
    exact ⟨_, rfl⟩

/-- Every run ends at a configuration that it reaches within its budget. -/
theorem execute_endsWithin (budget : Nat) (config : Config) :
    ∃ count last, count ≤ budget ∧ Reaches operations count config last ∧
      EndsAt operations limit last (execute operations limit budget config) := by
  induction budget generalizing config with
  | zero =>
      by_cases hpc : config.pc < operations.size
      · rw [execute_zero limit hpc]
        exact ⟨0, config, Nat.le_refl 0, .refl config, .exhausted hpc⟩
      · rw [execute_of_size_le _ _ _ _ (Nat.le_of_not_lt hpc)]
        exact ⟨0, config, Nat.le_refl 0, .refl config, .left (Nat.le_of_not_lt hpc)⟩
  | succ budget ih =>
      by_cases hpc : config.pc < operations.size
      · have hoperation := Array.getElem?_eq_getElem hpc
        rw [execute_succ limit hoperation]
        cases hstep : step operations[config.pc] config with
        | running next =>
            obtain ⟨count, last, hcount, hreaches, hends⟩ := ih next
            exact ⟨count + 1, last, Nat.succ_le_succ hcount, .head hoperation hstep hreaches, hends⟩
        | stopped state =>
            exact ⟨0, config, Nat.zero_le _, .refl config, .stopped hoperation hstep⟩
        | faulted fault state =>
            exact ⟨0, config, Nat.zero_le _, .refl config, .faulted hoperation hstep⟩
      · rw [execute_of_size_le _ _ _ _ (Nat.le_of_not_lt hpc)]
        exact ⟨0, config, Nat.zero_le _, .refl config, .left (Nat.le_of_not_lt hpc)⟩

/-- A run of instruction text goes on from any configuration that its limit
leaves steps for. -/
theorem State.run_of_reaches (extra : Nat) {state : State} {body input : String} {count : Nat}
    {last : Config}
    (hreaches : Reaches (Operation.ofListing (Assembly.Listing.read body)) count
      { state := state.feed input.toList } last)
    (hlimit : state.steps + (count + extra : Nat) ≤ limit) :
    ∃ more, state.run limit body input =
      execute (Operation.ofListing (Assembly.Listing.read body)) limit (more + extra) last := by
  obtain ⟨more, hmore⟩ : ∃ more, (limit - state.steps).toNat = count + (more + extra) :=
    ⟨(limit - state.steps).toNat - count - extra, by omega⟩
  refine ⟨more, ?_⟩
  rw [State.run, hmore]
  exact execute_of_reaches limit hreaches (more + extra)

end Budget

/-! ### Blocks of operations -/

/-- How a block of operations was executed. -/
inductive Performed where
  /-- To its end. -/
  | through (stack : Stack) (state : State)
  /-- Up to a fault. -/
  | faulted (fault : Fault) (state : State)
  /-- Up to an operation that jumps or stops. -/
  | away

def perform : List Operation → Stack → State → Performed
  | [], stack, state => .through stack state
  | operation :: rest, stack, state =>
      match operation.effect stack state with
      | .error fault => .faulted fault state.tick
      | .ok ⟨left, action, .next⟩ => perform rest left (state.apply action).tick
      | .ok _ => .away

section Perform

variable {operations : Array Operation} {block : List Operation} {pc : Nat} {stack left : Stack}
  {state after : State}

theorem perform_next {operation : Operation} {rest : List Operation} {action : Action}
    (heffect : operation.effect stack state = .ok ⟨left, action, .next⟩) :
    perform (operation :: rest) stack state = perform rest left (state.apply action).tick := by
  rw [perform, heffect]

theorem perform_fault {operation : Operation} {rest : List Operation} {fault : Fault}
    (heffect : operation.effect stack state = .error fault) :
    perform (operation :: rest) stack state = .faulted fault state.tick := by
  rw [perform, heffect]

/-- A block that is executed to its end leads behind itself. -/
theorem Reaches.of_perform (hcode : CodeAt operations pc block)
    (hperform : perform block stack state = .through left after) :
    Reaches operations block.length ⟨pc, stack, state⟩ ⟨pc + block.length, left, after⟩ := by
  induction block generalizing pc stack state with
  | nil =>
      cases hperform
      exact .refl _
  | cons operation rest ih =>
      rw [perform] at hperform
      cases heffect : operation.effect stack state with
      | error fault =>
          rw [heffect] at hperform
          cases hperform
      | ok effect =>
          obtain ⟨middle, action, control⟩ := effect
          rw [heffect] at hperform
          cases control with
          | next =>
              have hrest := ih hcode.tail hperform
              rw [Nat.add_assoc, Nat.add_comm 1] at hrest
              exact .head hcode.head (step_next heffect) hrest
          | goTo target => cases hperform
          | stop => cases hperform

/-- A block that is executed up to a fault leads to a step that meets it. -/
theorem Reaches.of_perform_fault {fault : Fault} (hcode : CodeAt operations pc block)
    (hperform : perform block stack state = .faulted fault after) :
    ∃ count last operation, Reaches operations count ⟨pc, stack, state⟩ last ∧
      operations[last.pc]? = some operation ∧ step operation last = .faulted fault after := by
  induction block generalizing pc stack state with
  | nil => cases hperform
  | cons operation rest ih =>
      rw [perform] at hperform
      cases heffect : operation.effect stack state with
      | error other =>
          rw [heffect] at hperform
          cases hperform
          exact ⟨0, _, operation, .refl _, hcode.head, step_fault heffect⟩
      | ok effect =>
          obtain ⟨middle, action, control⟩ := effect
          rw [heffect] at hperform
          cases control with
          | next =>
              obtain ⟨count, last, faulty, hreaches, hfaulty, hstep⟩ := ih hcode.tail hperform
              exact ⟨count + 1, last, faulty, .head hcode.head (step_next heffect) hreaches,
                hfaulty, hstep⟩
          | goTo target => cases hperform
          | stop => cases hperform

end Perform

end Machine
end TapeCompiler
