import TapeCompiler.Machine.Run

/-!
# What operations come to

An operation works on the machine in place and may meet a fault at any point of
its work.  What it comes to can be said without the machine in between:
`Operation.effect` looks at the stack and the state and finds a fault, or else
the stack that is left, one change of state and where execution goes on.  The two
come to the same (`carryOut_settles`), since every operation takes and examines
all that it needs before it changes anything.  So an operation that faults has
changed nothing but the stack, and the stack is not kept (`step_eq`).
-/

namespace TapeCompiler
namespace Machine

/-! ### Effects -/

/-- What an operation does: the stack that it leaves, its change of state, and
where execution goes on. -/
structure Effect where
  stack : Stack
  action : Action := .none
  control : Control := .next
deriving DecidableEq, Repr

def pop : Stack → Except Fault (Value × Stack)
  | [] => .error .stackUnderflow
  | value :: rest => .ok (value, rest)

def arithmetic (combine : Int → Int → Int) (stack : Stack) : Except Fault Effect := do
  let (second, stack) ← pop stack
  let (first, stack) ← pop stack
  let a ← first.toWord
  let b ← second.toWord
  return { stack := .word (Numeral.wrap (combine a b)) :: stack }

namespace Operation

/-- The effect of an operation, or the fault that it meets. -/
def effect (operation : Operation) (stack : Stack) (state : State) : Except Fault Effect :=
  match operation with
  | skip => .ok { stack }
  | halt => .ok { stack, control := .stop }
  | loadTape => .ok { stack := .tape :: stack }
  | loadCounter => .ok { stack := .word state.counter :: stack }
  | storeTape => .error .readOnlyField
  | storeCounter => do
      let (value, stack) ← pop stack
      let n ← value.toWord
      return { stack, action := .setCounter (Numeral.wrap n) }
  | accessField operand => .error (.unknownField operand)
  | push (.ok n) => .ok { stack := .word n :: stack }
  | push (.error error) => .error (.badLiteral error)
  | add => arithmetic (· + ·) stack
  | subtract => arithmetic (· - ·) stack
  | toByte => do
      let (value, stack) ← pop stack
      let n ← value.toWord
      return { stack := byteWord (Numeral.lowByte n) :: stack }
  | duplicate => do
      let (value, stack) ← pop stack
      return { stack := value :: value :: stack }
  | loadAddress => do
      let (position, stack) ← pop stack
      let (_, stack) ← pop stack
      let index ← position.toIndex state.tape
      return { stack := .address index :: stack }
  | loadIndirect => do
      let (pointer, stack) ← pop stack
      let index ← pointer.toAddress
      return { stack := byteWord (state.tape.cell index) :: stack }
  | storeIndirect => do
      let (value, stack) ← pop stack
      let n ← value.toWord
      let (pointer, stack) ← pop stack
      let index ← pointer.toAddress
      return { stack, action := .writeCell index (Numeral.lowByte n) }
  | loadElement => do
      let (position, stack) ← pop stack
      let (_, stack) ← pop stack
      let index ← position.toIndex state.tape
      return { stack := byteWord (state.tape.cell index) :: stack }
  | storeElement => do
      let (value, stack) ← pop stack
      let (position, stack) ← pop stack
      let (_, stack) ← pop stack
      let n ← value.toWord
      let index ← position.toIndex state.tape
      return { stack, action := .writeCell index (Numeral.lowByte n) }
  | storeScratch => do
      let (value, stack) ← pop stack
      let n ← value.toWord
      return { stack, action := .setScratch (Numeral.lowSixteen n) }
  | loadScratch => .ok { stack := .word state.scratch :: stack }
  | writeChar => do
      let (value, stack) ← pop stack
      let n ← value.toWord
      let codePoint ← toCodePoint n
      return { stack, action := .emit codePoint }
  | readChar => .ok { stack := nextInput state.unread :: stack, action := .consume }
  | callMethod operand => .error (.unknownCall operand)
  | jumpIfZero label target => do
      let (value, stack) ← pop stack
      if value = .word 0 then
        let control ← landing label target
        return { stack, control }
      else
        return { stack }
  | jump label target => do
      let control ← landing label target
      return { stack, control }
  | unknown opcode => .error (.unknownInstruction opcode)

end Operation

/-! ### Work in place -/

/-- A procedure has come to an effect, or to a fault with the state as it was.  Of
the stack it may have taken something by then. -/
inductive Settles (pc : Nat) (state : State) :
    Except Fault Effect → Except Fault Control × Config → Prop
  | done (effect : Effect) :
      Settles pc state (.ok effect)
        (.ok effect.control, ⟨pc, effect.stack, state.apply effect.action⟩)
  | faulted (fault : Fault) (left : Stack) :
      Settles pc state (.error fault) (.error fault, ⟨pc, left, state⟩)

namespace Settles

variable {pc : Nat} {stack : Stack} {state : State}

theorem pop {next : Value × Stack → Except Fault Effect} {proceed : Value → Procedure Control}
    (hnext : ∀ value rest,
      Settles pc state (next (value, rest)) ((proceed value).run ⟨pc, rest, state⟩)) :
    Settles pc state (Machine.pop stack >>= next)
      ((Procedure.pop >>= proceed).run ⟨pc, stack, state⟩) := by
  cases stack with
  | nil => exact .faulted .stackUnderflow []
  | cons value rest => exact hnext value rest

theorem check {α : Type} (examined : Except Fault α) {next : α → Except Fault Effect}
    {proceed : α → Procedure Control}
    (hnext : ∀ value, Settles pc state (next value) ((proceed value).run ⟨pc, stack, state⟩)) :
    Settles pc state (examined >>= next)
      ((Procedure.check examined >>= proceed).run ⟨pc, stack, state⟩) := by
  cases examined with
  | error fault => exact .faulted fault stack
  | ok value => exact hnext value

theorem checkIndex (position : Value) {next : Nat → Except Fault Effect}
    {proceed : Nat → Procedure Control}
    (hnext : ∀ index, Settles pc state (next index) ((proceed index).run ⟨pc, stack, state⟩)) :
    Settles pc state (position.toIndex state.tape >>= next)
      ((Procedure.checkIndex position >>= proceed).run ⟨pc, stack, state⟩) :=
  check (position.toIndex state.tape) hnext

theorem arithmetic (combine : Int → Int → Int) :
    Settles pc state (Machine.arithmetic combine stack)
      ((Procedure.arithmetic combine).run ⟨pc, stack, state⟩) :=
  pop fun second _ => pop fun first _ => check first.toWord fun _ => check second.toWord fun _ =>
    .done _

theorem land (label : String) (target : Option Nat) :
    Settles pc state
      (do
        let control ← landing label target
        return { stack, control })
      ((Procedure.check (landing label target)).run ⟨pc, stack, state⟩) := by
  cases target with
  | none => exact .faulted _ stack
  | some target => exact .done _

end Settles

/-- Every operation comes to its effect.  It changes the state last of all, when no
fault can be met any more. -/
theorem carryOut_settles (operation : Operation) (pc : Nat) (stack : Stack) (state : State) :
    Settles pc state (operation.effect stack state)
      ((Procedure.carryOut operation).run ⟨pc, stack, state⟩) := by
  cases operation with
  | skip | halt | loadTape | loadCounter | loadScratch | readChar => exact .done _
  | storeTape | accessField | callMethod | unknown => exact .faulted _ stack
  | push literal =>
      cases literal with
      | ok n => exact .done _
      | error error => exact .faulted _ stack
  | add => exact .arithmetic _
  | subtract => exact .arithmetic _
  | storeCounter => exact .pop fun value _ => .check value.toWord fun _ => .done _
  | toByte => exact .pop fun value _ => .check value.toWord fun _ => .done _
  | storeScratch => exact .pop fun value _ => .check value.toWord fun _ => .done _
  | duplicate => exact .pop fun _ _ => .done _
  | loadAddress => exact .pop fun position _ => .pop fun _ _ => .checkIndex position fun _ => .done _
  | loadElement => exact .pop fun position _ => .pop fun _ _ => .checkIndex position fun _ => .done _
  | loadIndirect => exact .pop fun pointer _ => .check pointer.toAddress fun _ => .done _
  | storeIndirect =>
      exact .pop fun value _ => .check value.toWord fun _ =>
        .pop fun pointer _ => .check pointer.toAddress fun _ => .done _
  | storeElement =>
      exact .pop fun value _ => .pop fun position _ => .pop fun _ _ =>
        .check value.toWord fun _ => .checkIndex position fun _ => .done _
  | writeChar =>
      exact .pop fun value _ => .check value.toWord fun n => .check (toCodePoint n) fun _ => .done _
  | jumpIfZero label target =>
      refine .pop fun value rest => ?_
      dsimp only
      split
      · exact .land label target
      · exact .done _
  | jump label target => exact .land label target

/-! ### Steps -/

theorem effect_tick (operation : Operation) (stack : Stack) (state : State) :
    operation.effect stack state.tick = operation.effect stack state := by
  cases operation <;> rfl

theorem apply_tick (state : State) (action : Action) :
    state.tick.apply action = (state.apply action).tick := by
  cases action with
  | consume =>
      obtain ⟨tape, counter, scratch, steps, output, unread, consumed⟩ := state
      cases unread <;> rfl
  | _ => rfl

/-- A step carries out the effect of its operation or finds the fault, and is
counted either way. -/
theorem step_eq (operation : Operation) (pc : Nat) (stack : Stack) (state : State) :
    step operation ⟨pc, stack, state⟩ =
      match operation.effect stack state with
      | .error fault => .faulted fault state.tick
      | .ok ⟨left, action, .next⟩ => .running ⟨pc + 1, left, (state.apply action).tick⟩
      | .ok ⟨left, action, .goTo target⟩ => .running ⟨target, left, (state.apply action).tick⟩
      | .ok ⟨_, action, .stop⟩ => .stopped (state.apply action).tick := by
  have hsettles := carryOut_settles operation pc stack state.tick
  rw [effect_tick] at hsettles
  rw [step]
  generalize (Procedure.carryOut operation).run ⟨pc, stack, state.tick⟩ = outcome at hsettles ⊢
  generalize operation.effect stack state = effect at hsettles ⊢
  cases hsettles with
  | faulted fault left => rfl
  | done effect =>
      obtain ⟨left, action, control⟩ := effect
      rw [apply_tick]
      cases control <;> rfl

end Machine
end TapeCompiler
