import Mathlib.Data.List.Forall2
import TapeCompiler.Proofs.Execution

/-!
# Typing of operations

A type system for the machine's operations in the manner of a bytecode
verifier.  A shape says what is known of the stack, slot by slot, and whether
the scratch variable has been stored to.  `Typed` gives the rule of each
operation; the only fault that a typed operation can meet is an index outside
the tape, and that index is the cursor.  A program is well typed by a table of
shapes, one for each place, if every operation takes the shape of its place to
the shapes of all places that may come next.  Runs of well-typed programs keep
to the table, whatever jumps they take.
-/

namespace TapeCompiler
namespace Machine

/-- What is known of a value on the stack. -/
inductive Kind where
  /-- The tape. -/
  | tape
  /-- The word that the cursor is. -/
  | cursor
  /-- Any word. -/
  | word
  /-- A word that is a code point. -/
  | character
  /-- The address of a cell of the tape. -/
  | address
deriving DecidableEq, Repr

def Kind.isWord : Kind → Bool
  | .cursor | .word | .character => true
  | .tape | .address => false

/-- A value is of a kind in a state. -/
inductive Kind.Holds (state : State) : Kind → Value → Prop
  | tape : Holds state .tape .tape
  | cursor : Holds state .cursor (.word state.counter)
  | word (n : Int) : Holds state .word (.word n)
  | character {n : Int} (hlow : 0 ≤ n) (hhigh : n < 0x110000) : Holds state .character (.word n)
  | address {index : Nat} (hindex : index < state.tape.size) : Holds state .address (.address index)

theorem Kind.Holds.exists_word {state : State} {kind : Kind} {value : Value}
    (hholds : kind.Holds state value) (hword : kind.isWord = true) : ∃ n, value = .word n := by
  cases hholds with
  | tape => cases hword
  | cursor => exact ⟨_, rfl⟩
  | word n => exact ⟨n, rfl⟩
  | character hlow hhigh => exact ⟨_, rfl⟩
  | address hindex => cases hword

/-- Kinds depend on the cursor and the size of the tape only. -/
theorem Kind.Holds.congr {state other : State} {kind : Kind} {value : Value}
    (hholds : kind.Holds state value) (hcounter : other.counter = state.counter)
    (hsize : other.tape.size = state.tape.size) : kind.Holds other value := by
  cases hholds with
  | tape => exact .tape
  | cursor =>
      rw [← hcounter]
      exact .cursor
  | word n => exact .word n
  | character hlow hhigh => exact .character hlow hhigh
  | address hindex => exact .address (by rw [hsize]; exact hindex)

/-- What is known of the stack and of the scratch variable. -/
structure Shape where
  kinds : List Kind
  /-- Whether the scratch variable has been stored to. -/
  stored : Bool
deriving DecidableEq, Repr

namespace Shape

def empty : Shape :=
  ⟨[], false⟩

/-- A stack and a state are of a shape. -/
structure Fits (shape : Shape) (stack : Stack) (state : State) : Prop where
  kinds : List.Forall₂ (Kind.Holds state) shape.kinds stack
  scratch : shape.stored = true → state.scratch < 0x10000

/-- One shape says at least as much as another. -/
structure Refines (shape other : Shape) : Prop where
  kinds : shape.kinds = other.kinds
  stored : other.stored = true → shape.stored = true

theorem Refines.refl (shape : Shape) : shape.Refines shape :=
  ⟨rfl, id⟩

instance (shape other : Shape) : Decidable (shape.Refines other) :=
  decidable_of_iff (shape.kinds = other.kinds ∧ (other.stored = true → shape.stored = true))
    ⟨fun h => ⟨h.1, h.2⟩, fun h => ⟨h.1, h.2⟩⟩

theorem Fits.weaken {shape other : Shape} {stack : Stack} {state : State}
    (hfits : shape.Fits stack state) (hrefines : shape.Refines other) : other.Fits stack state where
  kinds := hrefines.kinds ▸ hfits.kinds
  scratch hstored := hfits.scratch (hrefines.stored hstored)

/-- Shapes depend on the cursor, the size of the tape and the scratch variable
only. -/
theorem Fits.congr {shape : Shape} {stack : Stack} {state other : State}
    (hfits : shape.Fits stack state) (hcounter : other.counter = state.counter)
    (hsize : other.tape.size = state.tape.size) (hscratch : other.scratch = state.scratch) :
    shape.Fits stack other where
  kinds := hfits.kinds.imp fun _ _ hholds => hholds.congr hcounter hsize
  scratch hstored := by
    rw [hscratch]
    exact hfits.scratch hstored

theorem Fits.length_eq {shape : Shape} {stack : Stack} {state : State}
    (hfits : shape.Fits stack state) : stack.length = shape.kinds.length :=
  hfits.kinds.length_eq.symm

end Shape

/-- The rules of the operations: what each makes of a shape. -/
inductive Typed : Operation → Shape → Shape → Prop
  | skip (shape : Shape) : Typed .skip shape shape
  | loadTape (kinds : List Kind) (stored : Bool) :
      Typed .loadTape ⟨kinds, stored⟩ ⟨.tape :: kinds, stored⟩
  | loadCounter (kinds : List Kind) (stored : Bool) :
      Typed .loadCounter ⟨kinds, stored⟩ ⟨.cursor :: kinds, stored⟩
  -- A store to the cursor must not leave a value that counts as the cursor.
  | storeCounter {kind : Kind} (hkind : kind.isWord = true) (stored : Bool) :
      Typed .storeCounter ⟨[kind], stored⟩ ⟨[], stored⟩
  | push (n : Int) (kinds : List Kind) (stored : Bool) :
      Typed (.push (.ok n)) ⟨kinds, stored⟩ ⟨.word :: kinds, stored⟩
  | direction (direction : Assembly.Direction) {first second : Kind}
      (hfirst : first.isWord = true) (hsecond : second.isWord = true) (kinds : List Kind)
      (stored : Bool) :
      Typed direction.operation ⟨second :: first :: kinds, stored⟩ ⟨.word :: kinds, stored⟩
  | toByte {kind : Kind} (hkind : kind.isWord = true) (kinds : List Kind) (stored : Bool) :
      Typed .toByte ⟨kind :: kinds, stored⟩ ⟨.character :: kinds, stored⟩
  | duplicate (kind : Kind) (kinds : List Kind) (stored : Bool) :
      Typed .duplicate ⟨kind :: kinds, stored⟩ ⟨kind :: kind :: kinds, stored⟩
  | loadAddress (kinds : List Kind) (stored : Bool) :
      Typed .loadAddress ⟨.cursor :: .tape :: kinds, stored⟩ ⟨.address :: kinds, stored⟩
  | loadIndirect (kinds : List Kind) (stored : Bool) :
      Typed .loadIndirect ⟨.address :: kinds, stored⟩ ⟨.character :: kinds, stored⟩
  | storeIndirect {kind : Kind} (hkind : kind.isWord = true) (kinds : List Kind) (stored : Bool) :
      Typed .storeIndirect ⟨kind :: .address :: kinds, stored⟩ ⟨kinds, stored⟩
  | loadElement (kinds : List Kind) (stored : Bool) :
      Typed .loadElement ⟨.cursor :: .tape :: kinds, stored⟩ ⟨.character :: kinds, stored⟩
  | storeElement {kind : Kind} (hkind : kind.isWord = true) (kinds : List Kind) (stored : Bool) :
      Typed .storeElement ⟨kind :: .cursor :: .tape :: kinds, stored⟩ ⟨kinds, stored⟩
  | storeScratch {kind : Kind} (hkind : kind.isWord = true) (kinds : List Kind) (stored : Bool) :
      Typed .storeScratch ⟨kind :: kinds, stored⟩ ⟨kinds, true⟩
  | loadScratch (kinds : List Kind) :
      Typed .loadScratch ⟨kinds, true⟩ ⟨.character :: kinds, true⟩
  | writeChar (kinds : List Kind) (stored : Bool) :
      Typed .writeChar ⟨.character :: kinds, stored⟩ ⟨kinds, stored⟩
  | readChar (kinds : List Kind) (stored : Bool) :
      Typed .readChar ⟨kinds, stored⟩ ⟨.word :: kinds, stored⟩
  | jumpIfZero (label : String) (target : Nat) (kind : Kind) (kinds : List Kind) (stored : Bool) :
      Typed (.jumpIfZero label (some target)) ⟨kind :: kinds, stored⟩ ⟨kinds, stored⟩
  | jump (label : String) (target : Nat) (shape : Shape) :
      Typed (.jump label (some target)) shape shape

/-- The places at which execution may go on behind an operation. -/
def Operation.successors (pc : Nat) : Operation → List Nat
  | .jumpIfZero _ target => (pc + 1) :: target.toList
  | .jump _ target => target.toList
  | _ => [pc + 1]

theorem successors_direction (direction : Assembly.Direction) (pc : Nat) :
    direction.operation.successors pc = [pc + 1] := by
  cases direction <;> rfl

/-! ### Soundness of the rules -/

/-- What a typed operation does in a configuration of the right shape: it goes
on to one of its successors and leaves the shape that its rule gives, or it
finds the cursor outside the tape. -/
inductive Advances (operation : Operation) (after : Shape) (config : Config) : Prop
  | running {next : Config} (hstep : step operation config = .running next)
      (hpc : next.pc ∈ operation.successors config.pc) (hfits : after.Fits next.stack next.state)
  | faulted
      (hstep : step operation config =
        .faulted (.indexOutOfRange config.state.counter) config.state.tick)

section Soundness

variable {operation : Operation} {after : Shape} {pc : Nat} {stack left : Stack} {state : State}

/-- An operation that goes on to the next place. -/
theorem Advances.next {action : Action}
    (heffect : operation.effect stack state = .ok ⟨left, action, .next⟩)
    (hpc : pc + 1 ∈ operation.successors pc) (hfits : after.Fits left (state.apply action)) :
    Advances operation after ⟨pc, stack, state⟩ :=
  .running (step_next heffect) hpc (hfits.congr rfl rfl rfl)

/-- An operation that needs the cursor on a cell. -/
theorem Advances.inRange {effect : Effect} (hnext : effect.control = .next)
    (heffect : operation.effect stack state =
      if state.InRange then .ok effect
      else .error (.indexOutOfRange state.counter))
    (hpc : pc + 1 ∈ operation.successors pc)
    (hfits : state.InRange → after.Fits effect.stack (state.apply effect.action)) :
    Advances operation after ⟨pc, stack, state⟩ := by
  obtain ⟨left, action, control⟩ := effect
  obtain rfl : control = .next := hnext
  by_cases hrange : state.InRange
  · rw [if_pos hrange] at heffect
    exact .next heffect hpc (hfits hrange)
  · rw [if_neg hrange] at heffect
    exact .faulted (step_fault heffect)

theorem Kind.Holds.byteWord (state : State) (value : UInt8) :
    Kind.character.Holds state (byteWord value) := by
  have hvalue := value.toNat_lt
  exact .character (by omega) (by omega)

theorem Kind.Holds.nextInput (state : State) (unread : List Char) :
    Kind.word.Holds state (nextInput unread) := by
  rw [nextInput_eq]
  exact .word _

theorem Typed.advances {before : Shape} (htyped : Typed operation before after)
    (hfits : before.Fits stack state) (pc : Nat) : Advances operation after ⟨pc, stack, state⟩ := by
  obtain ⟨hkinds, hscratch⟩ := hfits
  -- The only successor of every operation but the jumps.
  have hpc : pc + 1 ∈ [pc + 1] := List.mem_singleton.mpr rfl
  cases htyped with
  | skip shape => exact .next rfl hpc ⟨hkinds, hscratch⟩
  | loadTape kinds stored =>
      exact .next rfl hpc ⟨.cons .tape hkinds, hscratch⟩
  | loadCounter kinds stored =>
      exact .next rfl hpc ⟨.cons .cursor hkinds, hscratch⟩
  | storeCounter hkind stored =>
      cases hkinds with
      | cons hvalue hrest =>
          cases hrest with
          | nil =>
              obtain ⟨n, rfl⟩ := hvalue.exists_word hkind
              exact .next rfl hpc ⟨.nil, hscratch⟩
  | push n kinds stored =>
      exact .next rfl hpc ⟨.cons (.word n) hkinds, hscratch⟩
  | direction direction hfirst hsecond kinds stored =>
      cases hkinds with
      | cons hvalue hrest =>
          cases hrest with
          | cons hother hrest =>
              obtain ⟨b, rfl⟩ := hvalue.exists_word hsecond
              obtain ⟨a, rfl⟩ := hother.exists_word hfirst
              rw [← successors_direction direction pc] at hpc
              exact .next (effect_direction state _ direction a b) hpc
                ⟨.cons (.word _) hrest, hscratch⟩
  | toByte hkind kinds stored =>
      cases hkinds with
      | cons hvalue hrest =>
          obtain ⟨n, rfl⟩ := hvalue.exists_word hkind
          exact .next rfl hpc ⟨.cons (.byteWord state _) hrest, hscratch⟩
  | duplicate kind kinds stored =>
      cases hkinds with
      | cons hvalue hrest =>
          exact .next rfl hpc ⟨.cons hvalue (.cons hvalue hrest), hscratch⟩
  | loadAddress kinds stored =>
      cases hkinds with
      | cons hvalue hrest =>
          cases hvalue with
          | cursor =>
              cases hrest with
              | cons htape hrest =>
                  refine .inRange rfl (effect_loadAddress state _ _) hpc
                    fun hrange => ⟨.cons (.address ?_) hrest, hscratch⟩
                  exact (Int.toNat_lt hrange.1).mpr hrange.2
  | loadIndirect kinds stored =>
      cases hkinds with
      | cons hvalue hrest =>
          cases hvalue with
          | address hindex =>
              exact .next rfl hpc ⟨.cons (.byteWord state _) hrest, hscratch⟩
  | storeIndirect hkind kinds stored =>
      cases hkinds with
      | cons hvalue hrest =>
          obtain ⟨n, rfl⟩ := hvalue.exists_word hkind
          cases hrest with
          | cons haddress hrest =>
              cases haddress with
              | address hindex =>
                  refine .next rfl hpc ?_
                  exact Shape.Fits.congr ⟨hrest, hscratch⟩ rfl rfl rfl
  | loadElement kinds stored =>
      cases hkinds with
      | cons hvalue hrest =>
          cases hvalue with
          | cursor =>
              cases hrest with
              | cons htape hrest =>
                  exact .inRange rfl (effect_loadElement state _ _) hpc
                    fun _ => ⟨.cons (.byteWord state _) hrest, hscratch⟩
  | storeElement hkind kinds stored =>
      cases hkinds with
      | cons hvalue hrest =>
          obtain ⟨n, rfl⟩ := hvalue.exists_word hkind
          cases hrest with
          | cons hcursor hrest =>
              cases hcursor with
              | cursor =>
                  cases hrest with
                  | cons htape hrest =>
                      refine .inRange rfl (effect_storeElement state _ _ _) hpc fun _ => ?_
                      exact Shape.Fits.congr ⟨hrest, hscratch⟩ rfl rfl rfl
  | storeScratch hkind kinds stored =>
      -- A store makes the scratch variable sixteen bits wide, so that a load gives a code point.
      cases hkinds with
      | cons hvalue hrest =>
          obtain ⟨n, rfl⟩ := hvalue.exists_word hkind
          refine .next rfl hpc
            ⟨hrest.imp fun _ _ hholds => hholds.congr rfl rfl, fun _ => Numeral.lowSixteen_lt n⟩
  | loadScratch kinds =>
      have hsmall := hscratch rfl
      exact .next rfl hpc
        ⟨.cons (.character (by omega) (by omega)) hkinds, hscratch⟩
  | writeChar kinds stored =>
      cases hkinds with
      | cons hvalue hrest =>
          cases hvalue with
          | character hlow hhigh =>
              refine .next (effect_writeChar state _ hlow hhigh) hpc ?_
              exact Shape.Fits.congr ⟨hrest, hscratch⟩ rfl rfl rfl
  | readChar kinds stored =>
      refine .next rfl hpc ?_
      exact Shape.Fits.congr ⟨.cons (.nextInput state _) hkinds, hscratch⟩ state.counter_consume
        (by rw [State.tape_consume]) state.scratch_consume
  | jumpIfZero label target kind kinds stored =>
      cases hkinds with
      | @cons _ value _ rest hvalue hrest =>
          have heffect := effect_jumpIfZero state rest label target value
          by_cases hzero : value = .word 0
          · rw [if_pos hzero] at heffect
            exact .running (step_goTo heffect) (List.mem_cons_of_mem _ (List.mem_singleton.mpr rfl))
              (Shape.Fits.congr ⟨hrest, hscratch⟩ rfl rfl rfl)
          · rw [if_neg hzero] at heffect
            exact .next heffect List.mem_cons_self ⟨hrest, hscratch⟩
  | jump label target shape =>
      exact .running (step_goTo rfl) (List.mem_singleton.mpr rfl)
        (Shape.Fits.congr ⟨hkinds, hscratch⟩ rfl rfl rfl)

end Soundness

/-! ### Well-typed programs -/

/-- A table of shapes types a program. -/
def WellTyped (operations : Array Operation) (shapes : List Shape) : Prop :=
  ∀ {pc : Nat} {operation : Operation} {before : Shape},
    operations[pc]? = some operation → shapes[pc]? = some before →
      ∃ after, Typed operation before after ∧
        ∀ next ∈ operation.successors pc, ∃ shape, shapes[next]? = some shape ∧ after.Refines shape

/-- A configuration is of the shape of its place. -/
def FitsAt (shapes : List Shape) (config : Config) : Prop :=
  ∃ shape, shapes[config.pc]? = some shape ∧ shape.Fits config.stack config.state

section WellTyped

variable {operations : Array Operation} {shapes : List Shape} {config : Config}

/-- A step of a well-typed program keeps to the table or finds the cursor
outside the tape. -/
theorem WellTyped.step (htyped : WellTyped operations shapes) (hfits : FitsAt shapes config)
    {operation : Operation} (hoperation : operations[config.pc]? = some operation) :
    (∃ next, Machine.step operation config = .running next ∧ FitsAt shapes next) ∨
      Machine.step operation config =
        .faulted (.indexOutOfRange config.state.counter) config.state.tick := by
  obtain ⟨before, hbefore, hbeforeFits⟩ := hfits
  obtain ⟨after, hrule, hsuccessors⟩ := htyped hoperation hbefore
  rcases hrule.advances hbeforeFits config.pc with @⟨next, hstep, hpc, hafter⟩ | hstep
  · left
    obtain ⟨shape, hshape, hrefines⟩ := hsuccessors next.pc hpc
    exact ⟨next, hstep, shape, hshape, hafter.weaken hrefines⟩
  · right
    exact hstep

end WellTyped

end Machine
end TapeCompiler
