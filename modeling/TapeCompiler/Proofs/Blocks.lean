import TapeCompiler.Proofs.Execution

/-!
# What the blocks of compiled code do

The exact result of every block: the state that it leaves, with the steps that
it takes, or the fault that it meets and where.  Words are brought back to one
wrapping or one lowest byte of an exact sum.
-/

namespace TapeCompiler
namespace Numeral

@[simp] theorem wrap_wrap (n : Int) : wrap (wrap n) = wrap n :=
  Int.bmod_bmod

@[simp] theorem wrap_add_wrap (a b : Int) : wrap (a + wrap b) = wrap (a + b) :=
  Int.add_bmod_bmod

@[simp] theorem wrap_wrap_add (a b : Int) : wrap (wrap a + b) = wrap (a + b) :=
  Int.bmod_add_bmod

@[simp] theorem wrap_sub_wrap (a b : Int) : wrap (a - wrap b) = wrap (a - b) :=
  Int.sub_bmod_bmod

@[simp] theorem lowByte_wrap (n : Int) : lowByte (wrap n) = lowByte n := by
  have hmod : wrap n % 256 = n % 256 := by
    rw [wrap, Int.bmod_def]
    split <;> omega
  rw [lowByte, lowByte, hmod]

theorem toNat_lowByte (n : Int) : ((lowByte n).toNat : Int) = n % 256 := by
  rw [lowByte, UInt8.toNat_ofNat']
  omega

@[simp] theorem lowByte_toNat (value : UInt8) : lowByte (value.toNat : Int) = value := by
  apply UInt8.toNat_inj.mp
  have hvalue := value.toNat_lt
  have hbyte := toNat_lowByte value.toNat
  omega

/-- Only the lowest byte of a summand counts for the lowest byte of a sum. -/
theorem lowByte_lowByte_add (a b : Int) :
    lowByte (((lowByte a).toNat : Int) + b) = lowByte (a + b) := by
  have hmod : (((lowByte a).toNat : Int) + b) % 256 = (a + b) % 256 := by
    rw [toNat_lowByte]
    omega
  rw [lowByte, hmod, lowByte]

theorem lowByte_add_one (value : UInt8) : lowByte (value.toNat + 1) = value + 1 := by
  apply UInt8.toNat_inj.mp
  have hbyte := toNat_lowByte (value.toNat + 1)
  rw [UInt8.toNat_add, UInt8.toNat_one]
  omega

theorem lowByte_sub_one (value : UInt8) : lowByte (value.toNat - 1) = value - 1 := by
  apply UInt8.toNat_inj.mp
  have hbyte := toNat_lowByte (value.toNat - 1)
  rw [UInt8.toNat_sub, UInt8.toNat_one]
  omega

@[simp] theorem lowSixteen_toNat (value : UInt8) : lowSixteen (value.toNat : Int) = value.toNat := by
  have hvalue := value.toNat_lt
  rw [lowSixteen]
  omega

@[simp] theorem lowByte_lowSixteen (n : Int) : lowByte (lowSixteen n : Int) = lowByte n := by
  have hmod : (lowSixteen n : Int) % 256 = n % 256 := by
    rw [lowSixteen]
    omega
  rw [lowByte, hmod, lowByte]

end Numeral

namespace Machine

open Assembly Source Numeral

/-- A number added or taken away. -/
def signed (direction : Direction) (count : Nat) : Int :=
  match direction with
  | .up => count
  | .down => -count

theorem byteWord_eq_zero_iff {value : UInt8} : byteWord value = .word 0 ↔ value = 0 := by
  constructor
  · intro hword
    apply UInt8.toNat_inj.mp
    have hvalue := Value.word.inj hword
    rw [UInt8.toNat_zero]
    omega
  · rintro rfl
    rfl

section Results

variable (state : State)

/-- A number may be wrapped before it is combined with a word. -/
theorem wrap_combine_wrap (direction : Direction) (a n : Int) :
    wrap (combine direction a (wrap n)) = wrap (combine direction a n) := by
  cases direction with
  | up => exact wrap_add_wrap a n
  | down => exact wrap_sub_wrap a n

theorem combine_natCast (direction : Direction) (a : Int) (count : Nat) :
    combine direction a count = a + signed direction count := by
  cases direction with
  | up => rfl
  | down => exact Int.sub_eq_add_neg

theorem perform_moveOperations (direction : Direction) (n : Int) :
    perform (moveOperations direction n) [] state =
      .through []
        { state with
          counter := wrap (combine direction state.counter n)
          steps := state.steps + 4 } := by
  simp only [moveOperations, perform, effect_loadCounter, effect_push, effect_direction,
    effect_storeCounter, wrap_combine_wrap, wrap_wrap, State.apply, State.tick]

theorem perform_move (direction : Direction) (count : Nat) :
    perform (plainOperations (.move direction count)) [] state =
      .through []
        { state with
          counter := wrap (state.counter + signed direction count)
          steps := state.steps + 4 } := by
  rw [← combine_natCast]
  exact perform_moveOperations state direction count

/-- An operation that needs the cell under the cursor finds it or faults, and
puts what it finds in the place of the tape and the cursor. -/
theorem perform_located {operation : Operation} (found : State → Value)
    (heffect : ∀ (state : State) (stack : Stack),
      operation.effect (.word state.counter :: .tape :: stack) state =
        if state.InRange then .ok { stack := found state :: stack }
        else .error (.indexOutOfRange state.counter))
    (rest : List Operation) (stack : Stack) :
    perform (.loadTape :: .loadCounter :: operation :: rest) stack state =
      if state.InRange then
        perform rest (found state.tick.tick :: stack) { state with steps := state.steps + 3 }
      else
        .faulted (.indexOutOfRange state.counter) { state with steps := state.steps + 3 } := by
  -- Two loads do not move the cursor, so the operation faults where the state does.
  have hlast := heffect state.tick.tick stack
  rw [perform_next (effect_loadTape state stack), perform_next (effect_loadCounter _ _)]
  by_cases hrange : state.InRange
  · rw [if_pos (show state.tick.tick.InRange from hrange)] at hlast
    rw [if_pos hrange]
    exact perform_next hlast
  · rw [if_neg (show ¬ state.tick.tick.InRange from hrange)] at hlast
    rw [if_neg hrange]
    exact perform_fault hlast

theorem perform_loadAddress (rest : List Operation) (stack : Stack) :
    perform (.loadTape :: .loadCounter :: .loadAddress :: rest) stack state =
      if state.InRange then
        perform rest (.address state.counter.toNat :: stack) { state with steps := state.steps + 3 }
      else
        .faulted (.indexOutOfRange state.counter) { state with steps := state.steps + 3 } :=
  perform_located state (fun state => .address state.counter.toNat)
    (fun state stack => effect_loadAddress state stack .tape) rest stack

theorem perform_loadElement (rest : List Operation) (stack : Stack) :
    perform (.loadTape :: .loadCounter :: .loadElement :: rest) stack state =
      if state.InRange then
        perform rest (byteWord state.current :: stack) { state with steps := state.steps + 3 }
      else
        .faulted (.indexOutOfRange state.counter) { state with steps := state.steps + 3 } :=
  perform_located state (fun state => byteWord state.current)
    (fun state stack => effect_loadElement state stack .tape) rest stack

theorem perform_changeOperations (direction : Direction) (n : Int) :
    perform (changeOperations direction n) [] state =
      if state.InRange then
        .through []
          { state with
            tape := state.tape.write state.counter.toNat
              (lowByte (combine direction state.current.toNat n))
            steps := state.steps + 9 }
      else
        .faulted (.indexOutOfRange state.counter) { state with steps := state.steps + 3 } := by
  rw [changeOperations, perform_loadAddress]
  simp only [perform, effect_duplicate, effect_loadIndirect, effect_push, effect_direction,
    effect_toByte, effect_storeIndirect, byteWord, wrap_combine_wrap, lowByte_wrap, lowByte_toNat,
    State.apply, State.tick, State.current]

theorem perform_change (direction : Direction) (count : Nat) :
    perform (plainOperations (.change direction count)) [] state =
      if state.InRange then
        .through []
          { state with
            tape := state.tape.write state.counter.toNat
              (lowByte (state.current.toNat + signed direction count))
            steps := state.steps + 9 }
      else
        .faulted (.indexOutOfRange state.counter) { state with steps := state.steps + 3 } := by
  rw [← combine_natCast]
  exact perform_changeOperations state direction count

/-- A byte is written by way of the scratch variable. -/
theorem perform_emit (value : UInt8) :
    perform [.storeScratch, .loadScratch, .writeChar] [byteWord value] state =
      .through []
        { state with
          scratch := value.toNat
          output := state.output.push value.toNat
          steps := state.steps + 3 } := by
  rw [byteWord, perform_next (effect_storeScratch state [] _), perform_next (effect_loadScratch _ _)]
  simp only [State.apply, State.tick, lowSixteen_toNat]
  rw [perform_next (effect_writeChar_byte _ _ _)]
  rfl

theorem perform_write :
    perform (plainOperations .write) [] state =
      if state.InRange then
        .through []
          { state with
            scratch := state.current.toNat
            output := state.output.push state.current.toNat
            steps := state.steps + 6 }
      else
        .faulted (.indexOutOfRange state.counter) { state with steps := state.steps + 3 } := by
  rw [plainOperations, perform_loadElement]
  simp only [perform_emit]

/-- The test of a loop start brings the cell under the cursor to the top of the
stack. -/
theorem perform_test :
    perform testOperations [] state =
      if state.InRange then
        .through [byteWord state.current]
          { state with scratch := state.current.toNat, steps := state.steps + 6 }
      else
        .faulted (.indexOutOfRange state.counter) { state with steps := state.steps + 4 } := by
  rw [testOperations, perform_next (effect_skip state []), perform_loadElement]
  simp only [perform, effect_storeScratch, effect_loadScratch, byteWord, lowSixteen_toNat,
    State.apply, State.tick]
  rfl

/-- A word is stored into the cell under the cursor by way of the scratch
variable. -/
theorem perform_accept (n : Int) :
    perform [.storeScratch, .loadTape, .loadCounter, .loadScratch, .toByte, .storeElement]
        [.word n] state =
      if state.InRange then
        .through []
          { state with
            tape := state.tape.write state.counter.toNat (lowByte n)
            scratch := lowSixteen n
            steps := state.steps + 6 }
      else
        .faulted (.indexOutOfRange state.counter)
          { state with scratch := lowSixteen n, steps := state.steps + 6 } := by
  let stored : State := { state with scratch := lowSixteen n, steps := state.steps + 5 }
  have heffect := effect_storeElement stored [] (lowByte (lowSixteen n)).toNat .tape
  rw [lowByte_toNat] at heffect
  rw [perform_next (effect_storeScratch state [] n), perform_next (effect_loadTape _ _),
    perform_next (effect_loadCounter _ _), perform_next (effect_loadScratch _ _),
    perform_next (effect_toByte _ _ _)]
  by_cases hrange : state.InRange
  · rw [if_pos (show stored.InRange from hrange)] at heffect
    rw [if_pos hrange, ← lowByte_lowSixteen n]
    exact perform_next heffect
  · rw [if_neg (show ¬ stored.InRange from hrange)] at heffect
    rw [if_neg hrange]
    exact perform_fault heffect

theorem perform_read :
    perform (plainOperations .read) [] state =
      if state.InRange then
        .through []
          { state.apply .consume with
            tape := state.tape.write state.counter.toNat (lowByte (nextWord state.unread))
            scratch := lowSixteen (nextWord state.unread)
            steps := state.steps + 7 }
      else
        .faulted (.indexOutOfRange state.counter)
          { state.apply .consume with
            scratch := lowSixteen (nextWord state.unread)
            steps := state.steps + 7 } := by
  have hrange : (state.apply .consume).tick.InRange ↔ state.InRange := by
    rw [State.InRange, State.tick, State.tape_consume, State.counter_consume, State.InRange]
  rw [plainOperations, perform_next (effect_readChar state []), nextInput_eq, perform_accept]
  by_cases hstate : state.InRange
  · rw [if_pos (hrange.mpr hstate), if_pos hstate]
    simp only [State.tick, State.tape_consume, State.counter_consume, State.steps_consume]
  · rw [if_neg (mt hrange.mp hstate), if_neg hstate]
    simp only [State.tick, State.counter_consume, State.steps_consume]

end Results

end Machine
end TapeCompiler
