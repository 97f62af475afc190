import TapeCompiler.Proofs.Concatenation

/-!
# Moves and changes by any integer

The generator takes any integer as the number of a move or a cell change, not
only the number of commands of a run.  The number goes through its decimal text,
the reading of `ldc.i4` and up to three wrappings, and still two blocks one
behind the other do what one block with the sum does, and taking away is adding
the negative number.

The text of such blocks is straight code: its operations are known
(`operations_of_blocks`), and a run executes them one behind the other as far as
its limit allows (`State.run_through`, `State.run_outOfRange`).

Main statement: `run_fused_blocks`.
-/

namespace TapeCompiler
namespace Machine

open Assembly Compiler Numeral

/-! ### Blocks of lines -/

/-- Lines that are read back and decode to the given operations, whatever labels
there are. -/
structure Decodes (block : List Line) (operations : List Operation) : Prop where
  ne_nil : block ≠ []
  readable : ∀ line ∈ block, line.Readable
  decode : ∀ labels, block.map (fun line => Operation.decode labels line.instruction) = operations

section Decodes

variable {program : String} (hprogram : '\n' ∉ program.toList) (direction : Direction) {n : Int}
  (hdigits : (Nat.toDigits 10 n.natAbs).length ≤ maxDigits)
include hprogram hdigits

theorem decodes_moveBlock :
    Decodes (moveBlock program direction n) (moveOperations direction n) where
  ne_nil := by simp [moveBlock]
  readable := readable_moveBlock hprogram direction n
  decode := fun labels => map_decode_moveBlock labels program direction hdigits

theorem decodes_changeBlock :
    Decodes (changeBlock program direction n) (changeOperations direction n) where
  ne_nil := by simp [changeBlock, loadCell]
  readable := readable_changeBlock hprogram direction n
  decode := fun labels => map_decode_changeBlock labels program direction hdigits

end Decodes

theorem operations_of_blocks {blocks : List (List Line)} {codes : List (List Operation)}
    (hblocks : List.Forall₂ Decodes blocks codes) :
    Operation.ofListing (Listing.read (String.join (blocks.map blockOf))) =
      codes.flatten.toArray := by
  have hdecode (labels : Labels) :
      blocks.flatten.map (fun line => Operation.decode labels line.instruction) =
        codes.flatten := by
    induction hblocks with
    | nil => rfl
    | cons hblock _ ih => simp [hblock.decode labels, ih]
  have hall : ∀ block ∈ blocks, ∃ code, Decodes block code := by
    clear hdecode
    induction hblocks with
    | nil => simp
    | cons hblock _ ih =>
        rw [List.forall_mem_cons]
        exact ⟨⟨_, hblock⟩, ih⟩
  rw [read_join_blocks (fun block hmem => (hall block hmem).choose_spec.ne_nil)
    fun block hmem => (hall block hmem).choose_spec.readable]
  apply Array.toList_inj.mp
  rw [Operation.ofListing, Array.toList_map, Listing.program_ofLines, List.map_map]
  exact hdecode _

theorem operations_of_block {block : List Line} {code : List Operation}
    (hblock : Decodes block code) :
    Operation.ofListing (Listing.read (String.join [blockOf block])) = code.toArray := by
  simpa using operations_of_blocks (.cons hblock .nil)

theorem operations_of_pair {first second : List Line} {firstCode secondCode : List Operation}
    (hfirst : Decodes first firstCode) (hsecond : Decodes second secondCode) :
    Operation.ofListing (Listing.read (String.join [blockOf first, blockOf second])) =
      (firstCode ++ secondCode).toArray := by
  simpa using operations_of_blocks (.cons hfirst (.cons hsecond .nil))

theorem program_of_block {block : List Line} {code : List Operation}
    (hblock : Decodes block code) :
    (Listing.read (String.join [blockOf block])).program.toList = block.map Line.instruction := by
  have hread := @read_join_blocks [block] (by simpa using hblock.ne_nil)
    (by simpa using hblock.readable)
  rw [List.map_singleton] at hread
  rw [hread, Listing.program_ofLines, List.flatten_singleton]

/-! ### Runs of straight code -/

/-- What is performed first decides where the rest starts. -/
theorem perform_append {first second : List Operation} {stack left : Stack} {state after : State}
    (hfirst : perform first stack state = .through left after) :
    perform (first ++ second) stack state = perform second left after := by
  induction first generalizing stack state with
  | nil =>
      cases hfirst
      rfl
  | cons operation rest ih =>
      rw [perform] at hfirst
      rw [List.cons_append, perform]
      cases heffect : operation.effect stack state with
      | error fault => simp [heffect] at hfirst
      | ok effect =>
          obtain ⟨middle, action, control⟩ := effect
          cases control with
          | next =>
              rw [heffect] at hfirst
              exact ih hfirst
          | goTo target => simp [heffect] at hfirst
          | stop => simp [heffect] at hfirst

section Straight

variable {state : State} {limit : Int} {body input : String} {block : List Operation}

/-- Code that can be performed to its end is gone through. -/
theorem reaches_through {left : Stack} {start after : State}
    (hperform : perform block [] start = .through left after) :
    Reaches block.toArray block.length { state := start } ⟨block.length, left, after⟩ := by
  have hcode : CodeAt block.toArray 0 block := by
    simpa using @CodeAt.of_append [] block []
  simpa using Reaches.of_perform hcode hperform

/-- A run with a step for every operation of its code ends behind them. -/
theorem State.run_through {left : Stack} {after : State}
    (hblock : Operation.ofListing (Listing.read body) = block.toArray)
    (hperform : perform block [] (state.feed input.toList) = .through left after)
    (hlimit : block.length ≤ (limit - state.steps).toNat) :
    state.run limit body input = { state := after } := by
  obtain ⟨more, hmore⟩ := Nat.exists_eq_add_of_le hlimit
  rw [State.run, hblock, hmore, execute_of_reaches limit (reaches_through hperform),
    execute_of_size_le _ _ _ _ (by simp)]

/-- A run that is not cut has had a step for every operation of its code. -/
theorem State.length_le_of_uncut {left : Stack} {after : State}
    (hblock : Operation.ofListing (Listing.read body) = block.toArray)
    (hperform : perform block [] (state.feed input.toList) = .through left after)
    (huncut : (state.run limit body input).Uncut) :
    block.length ≤ (limit - state.steps).toNat := by
  rw [State.run, hblock] at huncut
  obtain ⟨less, hless, -⟩ := execute_through huncut (reaches_through hperform)
  omega

/-- Code that starts by looking for the cell under the cursor. -/
abbrev locating (rest : List Operation) : List Operation :=
  .loadTape :: .loadCounter :: .loadAddress :: rest

variable {rest : List Operation}

theorem reaches_locating (start : State) :
    Reaches (locating rest).toArray 2 { state := start }
      ⟨2, [.word start.counter, .tape], start.tick.tick⟩ := by
  have hcode : CodeAt (locating rest).toArray 0 [.loadTape, .loadCounter] := by
    simpa using @CodeAt.of_append [] [.loadTape, .loadCounter] (.loadAddress :: rest)
  exact Reaches.of_perform hcode rfl

theorem step_locating {start : State} (hrange : ¬ start.InRange) :
    step .loadAddress ⟨2, [.word start.counter, .tape], start.tick.tick⟩ =
      .faulted (.indexOutOfRange start.counter) start.tick.tick.tick := by
  have heffect := effect_loadAddress start.tick.tick [] .tape
  rw [if_neg (show ¬ start.tick.tick.InRange from hrange)] at heffect
  exact step_fault heffect

/-- A cursor that stands on no cell is noticed in the third step. -/
theorem State.run_outOfRange
    (hblock : Operation.ofListing (Listing.read body) = (locating rest).toArray)
    (hrange : ¬ state.InRange) (hlimit : 3 ≤ (limit - state.steps).toNat) :
    state.run limit body input =
      { state := { state.feed input.toList with steps := state.steps + 3 }
        fault := some (.indexOutOfRange state.counter, 2) } := by
  have hoperation : (locating rest).toArray[2]? = some .loadAddress := by simp
  have hstart : ¬ (state.feed input.toList).InRange := hrange
  obtain ⟨more, hmore⟩ : ∃ more, (limit - state.steps).toNat = 2 + (more + 1) :=
    ⟨(limit - state.steps).toNat - 3, by omega⟩
  rw [State.run, hblock, hmore, execute_of_reaches limit (reaches_locating _),
    execute_succ limit hoperation, step_locating hstart]
  rfl

/-- A run that is not cut has had the steps to look for the cell. -/
theorem State.three_le_of_uncut
    (hblock : Operation.ofListing (Listing.read body) = (locating rest).toArray)
    (huncut : (state.run limit body input).Uncut) : 3 ≤ (limit - state.steps).toNat := by
  rw [State.run, hblock] at huncut
  exact count_lt_of_uncut huncut (reaches_locating _) (by simp)

end Straight

/-! ### Two blocks and one -/

theorem combine_down (a n : Int) : combine .down a n = combine .up a (-n) :=
  Int.sub_eq_add_neg

section Performing

variable (state : State) (m n : Int)

/-- The wrapping between two moves does not show. -/
theorem perform_move_move :
    perform (moveOperations .up m ++ moveOperations .up n) [] state =
      .through []
        { state with
          counter := wrap (state.counter + m + n)
          steps := state.steps + 8 } := by
  rw [perform_append (perform_moveOperations state .up m), perform_moveOperations]
  simp only [combine, wrap_wrap_add]

/-- The second change finds the cell that the first has found, and the byte that
was stored between them does not show. -/
theorem perform_change_change (hrange : state.InRange) :
    perform (changeOperations .up m ++ changeOperations .up n) [] state =
      .through []
        { state with
          tape := state.tape.write state.counter.toNat (lowByte (state.current.toNat + m + n))
          steps := state.steps + 18 } := by
  have hfirst := perform_changeOperations state .up m
  rw [if_pos hrange] at hfirst
  rw [perform_append hfirst, perform_changeOperations, if_pos (by exact hrange)]
  simp only [combine, State.current, Tape.write_write, Tape.cell_write, if_pos,
    lowByte_lowByte_add]

end Performing

section Runs

variable {program : String} (hprogram : '\n' ∉ program.toList) {m n : Int}
  (hm : (Nat.toDigits 10 m.natAbs).length ≤ maxDigits)
  (hn : (Nat.toDigits 10 n.natAbs).length ≤ maxDigits)
  {state : State} {limit : Int} {input : String}

include hprogram hn

theorem run_move (direction : Direction) (hlimit : 4 ≤ (limit - state.steps).toNat) :
    state.run limit (({ program } : Generator).move direction n).body input =
      { state := { state.feed input.toList with
          counter := wrap (combine direction state.counter n)
          steps := state.steps + 4 } } :=
  State.run_through (operations_of_block (decodes_moveBlock hprogram direction hn))
    (perform_moveOperations _ direction n) hlimit

theorem run_change (direction : Direction) (hrange : state.InRange)
    (hlimit : 9 ≤ (limit - state.steps).toNat) :
    state.run limit (({ program } : Generator).change direction n).body input =
      { state := { state.feed input.toList with
          tape := state.tape.write state.counter.toNat
            (lowByte (combine direction state.current.toNat n))
          steps := state.steps + 9 } } :=
  State.run_through (operations_of_block (decodes_changeBlock hprogram direction hn))
    ((perform_changeOperations _ direction n).trans (if_pos (by exact hrange))) hlimit

theorem run_change_outOfRange (direction : Direction) (hrange : ¬ state.InRange)
    (hlimit : 3 ≤ (limit - state.steps).toNat) :
    state.run limit (({ program } : Generator).change direction n).body input =
      { state := { state.feed input.toList with steps := state.steps + 3 }
        fault := some (.indexOutOfRange state.counter, 2) } :=
  State.run_outOfRange (operations_of_block (decodes_changeBlock hprogram direction hn))
    hrange hlimit

/-- The number of a block is written as it is and read back as it is. -/
theorem literal_of_blocks (direction : Direction) :
    ⟨"ldc.i4", toString n⟩ ∈
        (Listing.read (({ program } : Generator).move direction n).body).program ∧
      ⟨"ldc.i4", toString n⟩ ∈
        (Listing.read (({ program } : Generator).change direction n).body).program ∧
      readLiteral .marked (toString n) = .ok n := by
  have hmove : (({ program } : Generator).move direction n).body =
      String.join [blockOf (moveBlock program direction n)] := rfl
  have hchange : (({ program } : Generator).change direction n).body =
      String.join [blockOf (changeBlock program direction n)] := rfl
  refine ⟨?_, ?_, readLiteral_toString n hn⟩
  · rw [hmove, ← Array.mem_toList_iff,
      program_of_block (decodes_moveBlock hprogram direction hn)]
    simp [moveBlock, Line.instruction, Line.close]
  · rw [hchange, ← Array.mem_toList_iff,
      program_of_block (decodes_changeBlock hprogram direction hn)]
    simp [changeBlock, Line.instruction, Line.close]

theorem run_move_down
    (huncut : (state.run limit (({ program } : Generator).move .down n).body input).Uncut) :
    state.run limit (({ program } : Generator).move .up (-n)).body input =
      state.run limit (({ program } : Generator).move .down n).body input := by
  have hneg : (Nat.toDigits 10 (-n).natAbs).length ≤ maxDigits := by
    rw [Int.natAbs_neg]
    exact hn
  have hlimit : 4 ≤ (limit - state.steps).toNat :=
    State.length_le_of_uncut (operations_of_block (decodes_moveBlock hprogram .down hn))
      (perform_moveOperations _ .down n) huncut
  rw [run_move hprogram hneg .up hlimit, run_move hprogram hn .down hlimit, combine_down]

theorem run_change_down
    (huncut : (state.run limit (({ program } : Generator).change .down n).body input).Uncut) :
    state.run limit (({ program } : Generator).change .up (-n)).body input =
      state.run limit (({ program } : Generator).change .down n).body input := by
  have hneg : (Nat.toDigits 10 (-n).natAbs).length ≤ maxDigits := by
    rw [Int.natAbs_neg]
    exact hn
  have hoperations := operations_of_block (decodes_changeBlock hprogram .down hn)
  -- The limit is only known to suffice for the steps that the run has taken.
  by_cases hrange : state.InRange
  · have hlimit : 9 ≤ (limit - state.steps).toNat :=
      State.length_le_of_uncut hoperations
        ((perform_changeOperations _ .down n).trans (if_pos (by exact hrange))) huncut
    rw [run_change hprogram hneg .up hrange hlimit, run_change hprogram hn .down hrange hlimit,
      combine_down]
  · have hlimit := State.three_le_of_uncut hoperations huncut
    rw [run_change_outOfRange hprogram hneg .up hrange hlimit,
      run_change_outOfRange hprogram hn .down hrange hlimit]

include hm

theorem run_move_move (hlimit : 8 ≤ (limit - state.steps).toNat) :
    state.run limit ((({ program } : Generator).move .up m).move .up n).body input =
      { state := { state.feed input.toList with
          counter := wrap (state.counter + m + n)
          steps := state.steps + 8 } } :=
  State.run_through
    (operations_of_pair (decodes_moveBlock hprogram .up hm) (decodes_moveBlock hprogram .up hn))
    (perform_move_move _ m n) hlimit

theorem run_change_change (hrange : state.InRange) (hlimit : 18 ≤ (limit - state.steps).toNat) :
    state.run limit ((({ program } : Generator).change .up m).change .up n).body input =
      { state := { state.feed input.toList with
          tape := state.tape.write state.counter.toNat (lowByte (state.current.toNat + m + n))
          steps := state.steps + 18 } } :=
  State.run_through
    (operations_of_pair (decodes_changeBlock hprogram .up hm) (decodes_changeBlock hprogram .up hn))
    (perform_change_change _ m n hrange) hlimit

variable (hsum : (Nat.toDigits 10 (m + n).natAbs).length ≤ maxDigits)
include hsum

/-- Two moves lead to the same cell as one by the sum. -/
theorem run_moves_fused
    (huncut :
      (state.run limit ((({ program } : Generator).move .up m).move .up n).body input).Uncut) :
    state.run limit ((({ program } : Generator).move .up m).move .up n).body input =
        { state := { state.feed input.toList with
            counter := wrap (state.counter + m + n)
            steps := state.steps + 8 } } ∧
      state.run limit (({ program } : Generator).move .up (m + n)).body input =
        { state := { state.feed input.toList with
            counter := wrap (state.counter + m + n)
            steps := state.steps + 4 } } := by
  have hlimit : 8 ≤ (limit - state.steps).toNat :=
    State.length_le_of_uncut
      (operations_of_pair (decodes_moveBlock hprogram .up hm) (decodes_moveBlock hprogram .up hn))
      (perform_move_move _ m n) huncut
  refine ⟨run_move_move hprogram hm hn hlimit, ?_⟩
  rw [run_move hprogram hsum .up (by omega), combine, Int.add_assoc]

/-- Two changes leave the same byte as one by the sum, or meet the same fault. -/
theorem run_changes_fused
    (huncut :
      (state.run limit ((({ program } : Generator).change .up m).change .up n).body input).Uncut) :
    (state.InRange →
      state.run limit ((({ program } : Generator).change .up m).change .up n).body input =
          { state := { state.feed input.toList with
              tape := state.tape.write state.counter.toNat (lowByte (state.current.toNat + m + n))
              steps := state.steps + 18 } } ∧
        state.run limit (({ program } : Generator).change .up (m + n)).body input =
          { state := { state.feed input.toList with
              tape := state.tape.write state.counter.toNat (lowByte (state.current.toNat + m + n))
              steps := state.steps + 9 } }) ∧
    (¬ state.InRange →
      state.run limit ((({ program } : Generator).change .up m).change .up n).body input =
          { state := { state.feed input.toList with steps := state.steps + 3 }
            fault := some (.indexOutOfRange state.counter, 2) } ∧
        state.run limit (({ program } : Generator).change .up (m + n)).body input =
          { state := { state.feed input.toList with steps := state.steps + 3 }
            fault := some (.indexOutOfRange state.counter, 2) }) := by
  have hoperations :=
    operations_of_pair (decodes_changeBlock hprogram .up hm) (decodes_changeBlock hprogram .up hn)
  constructor
  · intro hrange
    have hlimit : 18 ≤ (limit - state.steps).toNat :=
      State.length_le_of_uncut hoperations (perform_change_change _ m n hrange) huncut
    refine ⟨run_change_change hprogram hm hn hrange hlimit, ?_⟩
    rw [run_change hprogram hsum .up hrange (by omega), combine, Int.add_assoc]
  · intro hrange
    have hlimit := State.three_le_of_uncut hoperations huncut
    exact ⟨State.run_outOfRange hoperations hrange hlimit,
      run_change_outOfRange hprogram hsum .up hrange hlimit⟩

end Runs

/-- The blocks of two numbers, one behind the other, do what the block of their
sum does, for all integers that can be read back: from every state the cursor
becomes the wrapped sum, or the cell under it the lowest byte of the sum, or both
meet the same fault.  Nothing else differs but the steps.  Taking a number away
is adding its negative.  A newline in the program's name would cut its lines in
two, so there is none. -/
theorem run_fused_blocks {program : String} (hprogram : '\n' ∉ program.toList) {m n : Int}
    (hm : (Nat.toDigits 10 m.natAbs).length ≤ maxDigits)
    (hn : (Nat.toDigits 10 n.natAbs).length ≤ maxDigits)
    (hsum : (Nat.toDigits 10 (m + n).natAbs).length ≤ maxDigits)
    (state : State) (limit : Int) (input : String) :
    let fresh : Generator := { program }
    let run := fun generator : Generator => state.run limit generator.body input
    let fed := state.feed input.toList
    let moved := wrap (state.counter + m + n)
    let changed := state.tape.write state.counter.toNat (lowByte (state.current.toNat + m + n))
    (∀ k ∈ [m, n, m + n], ∀ direction,
      ⟨"ldc.i4", toString k⟩ ∈ (Listing.read (fresh.move direction k).body).program ∧
      ⟨"ldc.i4", toString k⟩ ∈ (Listing.read (fresh.change direction k).body).program ∧
      readLiteral .marked (toString k) = .ok k) ∧
    ((run ((fresh.move .up m).move .up n)).Uncut →
      run ((fresh.move .up m).move .up n) =
          { state := { fed with counter := moved, steps := state.steps + 8 } } ∧
        run (fresh.move .up (m + n)) =
          { state := { fed with counter := moved, steps := state.steps + 4 } }) ∧
    ((run ((fresh.change .up m).change .up n)).Uncut →
      (state.InRange →
        run ((fresh.change .up m).change .up n) =
            { state := { fed with tape := changed, steps := state.steps + 18 } } ∧
          run (fresh.change .up (m + n)) =
            { state := { fed with tape := changed, steps := state.steps + 9 } }) ∧
      (¬ state.InRange →
        run ((fresh.change .up m).change .up n) =
            { state := { fed with steps := state.steps + 3 }
              fault := some (.indexOutOfRange state.counter, 2) } ∧
          run (fresh.change .up (m + n)) =
            { state := { fed with steps := state.steps + 3 }
              fault := some (.indexOutOfRange state.counter, 2) })) ∧
    ((run (fresh.move .down n)).Uncut →
      run (fresh.move .up (-n)) = run (fresh.move .down n)) ∧
    ((run (fresh.change .down n)).Uncut →
      run (fresh.change .up (-n)) = run (fresh.change .down n)) := by
  intro fresh run fed moved changed
  refine ⟨?_, run_moves_fused hprogram hm hn hsum, run_changes_fused hprogram hm hn hsum,
    run_move_down hprogram hn, run_change_down hprogram hn⟩
  simp only [List.forall_mem_cons, List.not_mem_nil, false_implies, implies_true, and_true]
  exact ⟨literal_of_blocks hprogram hm, literal_of_blocks hprogram hn,
    literal_of_blocks hprogram hsum⟩

/-- From the third of three cells the cursor goes around all words to the first,
and the cell is changed by two less than a power of two. -/
theorem run_fused_blocks_around :
    let fresh : Generator := { program := "p" }
    let state : State := { tape := { size := 3 }, counter := 2 }
    (state.run 18 ((fresh.move .up 4294967295).move .up (-1)).body "").state.counter = 0 ∧
      (state.run 18 (fresh.move .up (4294967295 + -1)).body "").state.counter = 0 ∧
      (state.run 18 ((fresh.change .up 4294967295).change .up (-1)).body "").state.current = 254 ∧
      (state.run 18 (fresh.change .up (4294967295 + -1)).body "").state.current = 254 := by
  intro fresh state
  have hprogram : '\n' ∉ "p".toList := by decide
  have hm : (Nat.toDigits 10 (4294967295 : Int).natAbs).length ≤ maxDigits :=
    length_toDigits_le_maxDigits (by decide)
  have hn : (Nat.toDigits 10 (-1 : Int).natAbs).length ≤ maxDigits :=
    length_toDigits_le_maxDigits (by decide)
  have hsum : (Nat.toDigits 10 (4294967295 + -1 : Int).natAbs).length ≤ maxDigits :=
    length_toDigits_le_maxDigits (by decide)
  have hrange : state.InRange := by decide
  obtain ⟨-, hmoves, hchanges, -⟩ := run_fused_blocks hprogram hm hn hsum state 18 ""
  dsimp only at hmoves hchanges
  have hmoved := hmoves (by
    rw [run_move_move hprogram hm hn (by decide)]
    simp [Outcome.Uncut])
  have hchanged := (hchanges (by
    rw [run_change_change hprogram hm hn hrange (by decide)]
    simp [Outcome.Uncut])).1 hrange
  rw [hmoved.1, hmoved.2, hchanged.1, hchanged.2]
  decide

end Machine
end TapeCompiler
