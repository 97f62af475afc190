import TapeCompiler.Proofs.Blocks
import TapeCompiler.Proofs.Reference

/-!
# Compiled code does what its source means

The machine and the meaning of the source are compared between segments, where
the stack is empty: there the machine shows the same memory, counter, input
position and output.  From such a place either both go on to another one, in
at least one step each, or both fault in states that look the same.  All three
ways in which a source can run are thereby followed by the machine, and no run
of the machine ends in a way that the source does not account for.
-/

namespace TapeCompiler
namespace Machine

open Source Numeral

/-! ### The view of a machine -/

def Tape.bytes (tape : Tape) : List UInt8 :=
  (List.range tape.size).map tape.cell

@[simp] theorem Tape.length_bytes (tape : Tape) : tape.bytes.length = tape.size := by
  rw [bytes, List.length_map, List.length_range]

theorem Tape.getElem?_bytes (tape : Tape) (index : Nat) :
    tape.bytes[index]? = if index < tape.size then some (tape.cell index) else none := by
  rw [bytes, List.getElem?_map]
  by_cases hindex : index < tape.size
  · rw [if_pos hindex, List.getElem?_range hindex]
    rfl
  · rw [if_neg hindex, List.getElem?_eq_none (by rw [List.length_range]; omega)]
    rfl

theorem Tape.bytes_write (tape : Tape) (index : Nat) (value : UInt8) :
    (tape.write index value).bytes = tape.bytes.set index value := by
  apply List.ext_getElem?
  intro other
  rw [getElem?_bytes, size_write, cell_write, List.getElem?_set, length_bytes, getElem?_bytes]
  by_cases hsame : index = other
  · subst hsame
    rw [if_pos rfl, if_pos rfl]
  · rw [if_neg hsame, if_neg hsame]

/-- What the meaning of a source speaks of in a machine. -/
def State.view (state : State) : Reference.State :=
  { memory := state.tape.bytes
    counter := state.counter
    position := state.consumed
    output := state.output.toList }

theorem State.cell?_view (state : State) :
    state.view.cell? = if state.InRange then some state.current else none := by
  rw [Reference.State.cell?]
  change (if 0 ≤ state.counter then state.tape.bytes[state.counter.toNat]? else none) = _
  rw [Tape.getElem?_bytes]
  by_cases hlow : 0 ≤ state.counter
  · rw [if_pos hlow]
    by_cases hhigh : state.counter < state.tape.size
    · rw [if_pos ((Int.toNat_lt hlow).mpr hhigh), if_pos (show state.InRange from ⟨hlow, hhigh⟩),
        State.current]
    · rw [if_neg (mt (Int.toNat_lt hlow).mp hhigh),
        if_neg (show ¬ state.InRange from fun hrange => hhigh hrange.2)]
  · rw [if_neg hlow, if_neg (show ¬ state.InRange from fun hrange => hlow hrange.1)]

theorem State.view_write (state : State) (value : UInt8) :
    { state with tape := state.tape.write state.counter.toNat value }.view =
      state.view.store value := by
  rw [State.view, Tape.bytes_write]
  rfl

theorem State.view_push (state : State) (codePoint : Nat) :
    { state with output := state.output.push codePoint }.view =
      { state.view with output := state.view.output ++ [codePoint] } := by
  rw [State.view, Array.toList_push]
  rfl

/-- The characters that a machine has not read are those behind its position in
the input. -/
def State.Fed (input : List Char) (state : State) : Prop :=
  state.unread = input.drop state.consumed

theorem State.fed_feed (state : State) (input : List Char) : (state.feed input).Fed input :=
  rfl

section Reading

variable {input : List Char} {state : State} (hfed : state.Fed input)
include hfed

/-- Reading a character keeps the machine fed and goes on in the input. -/
theorem State.Fed.consume :
    (state.apply .consume).Fed input ∧
      (state.apply .consume).view = state.view.consume input := by
  obtain ⟨tape, counter, scratch, steps, output, unread, consumed⟩ := state
  change unread = input.drop consumed at hfed
  cases unread with
  | nil =>
      have hend : ¬ consumed < input.length := Nat.not_lt.mpr (List.drop_eq_nil_iff.mp hfed.symm)
      exact ⟨hfed, (if_neg hend).symm⟩
  | cons c rest =>
      have hmore : consumed < input.length := by
        have hlength := congrArg List.length hfed
        rw [List.length_cons, List.length_drop] at hlength
        omega
      have hrest : rest = input.drop (consumed + 1) := by
        rw [← List.tail_drop, ← hfed]
        rfl
      exact ⟨hrest, (if_pos hmore).symm⟩

/-- The byte that the machine stores is the one that the input gives. -/
theorem State.Fed.lowByte_nextWord :
    lowByte (nextWord state.unread) = Reference.inputByte input state.consumed := by
  have hnext : input[state.consumed]? = state.unread.head? := by
    rw [hfed, List.head?_drop]
  rw [Reference.inputByte, hnext]
  cases state.unread with
  | nil => rfl
  | cons c rest =>
      have hcode : ((c.toNat : Int) % 256).toNat = c.toNat % 256 := by omega
      change UInt8.ofNat ((c.toNat : Int) % 256).toNat = UInt8.ofNat (c.toNat % 256)
      rw [hcode]

end Reading

/-! ### Plain segments -/

/-- What the machine has done with a block agrees with what the commands of its
segment mean. -/
inductive Agrees (input : List Char) : Performed → Except Reference.State Reference.State → Prop
  | through {state : State} (hfed : state.Fed input) :
      Agrees input (.through [] state) (.ok state.view)
  | faulted (state : State) :
      Agrees input (.faulted (.indexOutOfRange state.counter) state) (.error state.view)

section Fused

variable {input : List Char}

theorem signed_add (direction : Assembly.Direction) (first second : Nat) :
    signed direction first + signed direction second = signed direction (first + second) := by
  cases direction <;> simp only [signed] <;> omega

theorem act_moving (direction : Assembly.Direction) (state : Reference.State) :
    Reference.act input state (.moving direction) =
      .ok { state with counter := wrap (state.counter + signed direction 1) } := by
  cases direction <;> rfl

/-- A run of moves goes as far as its commands together. -/
theorem foldlM_moving (direction : Assembly.Direction) (count : Nat) (state : Reference.State) :
    (List.replicate (count + 1) (Command.moving direction)).foldlM (Reference.act input) state =
      .ok { state with counter := wrap (state.counter + signed direction (count + 1)) } := by
  induction count generalizing state with
  | zero =>
      rw [List.replicate_one, List.foldlM_cons, act_moving]
      rfl
  | succ count ih =>
      rw [List.replicate_succ, List.foldlM_cons, act_moving]
      refine (ih _).trans ?_
      dsimp only
      rw [wrap_wrap_add, Int.add_assoc, signed_add, Nat.add_comm 1]

theorem act_changing (direction : Assembly.Direction) (state : Reference.State) :
    Reference.act input state (.changing direction) =
      match state.cell? with
      | some value => .ok (state.store (lowByte (value.toNat + signed direction 1)))
      | none => .error state := by
  cases direction with
  | up =>
      rw [Command.changing, Reference.act]
      cases state.cell? with
      | none => rfl
      | some value =>
          change _ = Except.ok (state.store (lowByte (value.toNat + 1)))
          rw [lowByte_add_one]
  | down =>
      rw [Command.changing, Reference.act]
      cases state.cell? with
      | none => rfl
      | some value =>
          change _ = Except.ok (state.store (lowByte (value.toNat - 1)))
          rw [lowByte_sub_one]

theorem cell?_store {state : Reference.State} {value : UInt8} (hcell : state.cell? = some value)
    (other : UInt8) : (state.store other).cell? = some other := by
  rw [Reference.State.cell?] at hcell
  split at hcell
  · rename_i hlow
    have hlength := (List.getElem?_eq_some_iff.mp hcell).1
    exact (if_pos hlow).trans (List.getElem?_set_self hlength)
  · cases hcell

theorem store_store (state : Reference.State) (first second : UInt8) :
    (state.store first).store second = state.store second := by
  rw [Reference.State.store, Reference.State.store, Reference.State.store, List.set_set]

/-- A run of changes adds up, in the cell or not at all. -/
theorem foldlM_changing (direction : Assembly.Direction) (count : Nat) (state : Reference.State) :
    (List.replicate (count + 1) (Command.changing direction)).foldlM (Reference.act input) state =
      match state.cell? with
      | some value => .ok (state.store (lowByte (value.toNat + signed direction (count + 1))))
      | none => .error state := by
  induction count generalizing state with
  | zero =>
      rw [List.replicate_one, List.foldlM_cons, act_changing]
      cases state.cell? <;> rfl
  | succ count ih =>
      rw [List.replicate_succ, List.foldlM_cons, act_changing]
      cases hcell : state.cell? with
      | none => rfl
      | some value =>
          refine (ih _).trans ?_
          rw [cell?_store hcell]
          dsimp only
          rw [store_store, lowByte_lowByte_add, Int.add_assoc, signed_add, Nat.add_comm 1]

end Fused

/-- A plain segment does to the view of the machine what its commands mean. -/
theorem agrees_plain {input : List Char} {state : State} (hfed : state.Fed input) {action : Plain}
    (hcommands : 0 < action.commands.length) :
    Agrees input (perform (plainOperations action) [] state)
      (action.commands.foldlM (Reference.act input) state.view) := by
  cases action with
  | move direction count =>
      obtain ⟨less, rfl⟩ : ∃ less, count = less + 1 :=
        Nat.exists_eq_add_one.mpr (by rwa [Plain.commands, List.length_replicate] at hcommands)
      rw [perform_move, Plain.commands, foldlM_moving]
      exact .through hfed
  | change direction count =>
      obtain ⟨less, rfl⟩ : ∃ less, count = less + 1 :=
        Nat.exists_eq_add_one.mpr (by rwa [Plain.commands, List.length_replicate] at hcommands)
      rw [perform_change, Plain.commands, foldlM_changing, State.cell?_view]
      by_cases hrange : state.InRange
      · rw [if_pos hrange, if_pos hrange]
        dsimp only
        rw [← State.view_write]
        exact .through hfed
      · rw [if_neg hrange, if_neg hrange]
        exact .faulted { state with steps := state.steps + 3 }
  | write =>
      rw [perform_write, Plain.commands, List.foldlM_cons, Reference.act, State.cell?_view]
      by_cases hrange : state.InRange
      · rw [if_pos hrange, if_pos hrange]
        dsimp only
        rw [← State.view_push]
        exact .through hfed
      · rw [if_neg hrange, if_neg hrange]
        exact .faulted { state with steps := state.steps + 3 }
  | read =>
      -- The character is consumed before the cell is looked at, also when there is no cell.
      obtain ⟨hconsumed, hview⟩ := hfed.consume
      rw [perform_read, Plain.commands, List.foldlM_cons, Reference.act, State.cell?_view]
      by_cases hrange : state.InRange
      · rw [if_pos hrange, if_pos hrange]
        dsimp only
        have hwrite := (state.apply .consume).view_write (lowByte (nextWord state.unread))
        rw [State.tape_consume, State.counter_consume, hview, hfed.lowByte_nextWord] at hwrite
        rw [hfed.lowByte_nextWord, State.counter_consume]
        change Agrees input _
          (.ok ((state.view.consume input).store (Reference.inputByte input state.consumed)))
        rw [← hwrite]
        exact .through hconsumed
      · rw [if_neg hrange, if_neg hrange, ← State.counter_consume, ← hview]
        exact .faulted
          { state.apply .consume with
            scratch := lowSixteen (nextWord state.unread)
            steps := state.steps + 7 }

/-! ### Places between segments -/

/-- The machine between segments. -/
def machineBetween (before : List (Segment Unit)) (state : State) : Config :=
  ⟨codeSize before, [], state⟩

/-- The state behind the test of a loop. -/
def State.tested (state : State) : State :=
  { state with scratch := state.current.toNat, steps := state.steps + 7 }

/-- The source between segments, as the machine shows it. -/
def sourceBetween (before : List (Segment Unit)) (state : State) : Reference.Config :=
  ⟨(before.flatMap Segment.commands).length, state.view⟩

/-- From a place between segments the machine and the source both go on to
another one, or both fault. -/
inductive Follows (operations : Array Operation) (segments : List (Segment Unit))
    (input : List Char) (before : List (Segment Unit)) (state : State) : Prop
  | advance (next behind : List (Segment Unit)) {after : State} {count fuel : Nat}
      (hsplit : segments = next ++ behind) (hfed : after.Fed input) (hcount : 0 < count)
      (hreaches : Reaches operations count (machineBetween before state) (machineBetween next after))
      (hfuel : 0 < fuel)
      (hrun : Reference.run (segments.flatMap Segment.commands) input fuel
        (sourceBetween before state) = .running (sourceBetween next after))
  | fault (after : State) {count : Nat} {last : Config} {operation : Operation}
      (hreaches : Reaches operations count (machineBetween before state) last)
      (hoperation : operations[last.pc]? = some operation)
      (hstep : step operation last = .faulted (.indexOutOfRange after.counter) after)
      (hfaults : Reference.Faults (segments.flatMap Segment.commands) input
        (sourceBetween before state) after.view)

/-- Between nested segments stands a plain segment, the start of a loop, whose end
stands behind its body, or the end of a loop, whose start stands before it. -/
theorem segment_cases {segments before behind : List (Segment Unit)} {segment : Segment Unit}
    (hnested : Nested Compiler.openingSegment Compiler.closingSegment segments)
    (hsplit : segments = before ++ segment :: behind) :
    (∃ action, segments = before ++ .plain action :: behind) ∨
      (∃ body rest, Nested Compiler.openingSegment Compiler.closingSegment body ∧
        segments = before ++ Compiler.openingSegment :: body ++ Compiler.closingSegment :: rest) ∨
      ∃ outer body, Nested Compiler.openingSegment Compiler.closingSegment body ∧
        before = outer ++ Compiler.openingSegment :: body ∧
        segments = before ++ Compiler.closingSegment :: behind := by
  cases segment with
  | plain action => exact .inl ⟨action, hsplit⟩
  | loopStart mark =>
      rw [hsplit] at hnested
      obtain ⟨body, rest, rfl, hbody⟩ := hnested.exists_closing Compiler.openingSegment_ne
      refine .inr (.inl ⟨body, rest, hbody, ?_⟩)
      rw [hsplit, List.append_assoc]
      rfl
  | loopEnd mark =>
      rw [hsplit] at hnested
      obtain ⟨outer, body, hbefore, hbody⟩ := hnested.exists_opening Compiler.openingSegment_ne
      exact .inr (.inr ⟨outer, body, hbody, hbefore, hsplit⟩)

theorem flatMap_commands_loop (before body behind : List (Segment Unit)) :
    (before ++ Compiler.openingSegment :: body ++ Compiler.closingSegment :: behind).flatMap
        Segment.commands =
      before.flatMap Segment.commands ++ .loopStart :: body.flatMap Segment.commands ++
        .loopEnd :: behind.flatMap Segment.commands := by
  rw [List.flatMap_append, List.flatMap_append, List.flatMap_cons, List.flatMap_cons]
  rfl

section Follow

variable {operations : Array Operation} {segments : List (Segment Unit)} {input : List Char}
  (hlayout : Layout operations segments)
  {before behind : List (Segment Unit)} {state : State}
include hlayout

/-- The test of a loop start goes behind the jump at the loop's end when the cell
under the cursor is zero, and into the loop otherwise. -/
theorem reaches_loopStart {body : List (Segment Unit)}
    (hbody : Nested Compiler.openingSegment Compiler.closingSegment body)
    (hsplit : segments =
      before ++ Compiler.openingSegment :: body ++ Compiler.closingSegment :: behind)
    (hrange : state.InRange) :
    Reaches operations 7 (machineBetween before state)
      ⟨if state.current = 0 then codeSize (before ++ Compiler.openingSegment :: body) + 1
        else codeSize (before ++ [Compiler.openingSegment]), [], state.tested⟩ := by
  obtain ⟨startName, endName, hstart, -⟩ := hlayout.loop hsplit hbody
  have hperform := perform_test state
  rw [if_pos hrange] at hperform
  have htest := Reaches.of_perform hstart.left hperform
  have hjump := hstart.right.head
  have heffect := effect_jumpIfZero
    { state with scratch := state.current.toNat, steps := state.steps + 6 } [] endName
    (codeSize (before ++ Compiler.openingSegment :: body) + 1) (byteWord state.current)
  by_cases hzero : state.current = 0
  · rw [if_pos (byteWord_eq_zero_iff.mpr hzero)] at heffect
    rw [if_pos hzero]
    exact htest.trans (.head hjump (step_goTo heffect) (.refl _))
  · rw [if_neg (mt byteWord_eq_zero_iff.mp hzero)] at heffect
    rw [if_neg hzero, codeSize_append]
    exact htest.trans (.head hjump (step_next heffect) (.refl _))

/-- A loop whose cell is zero is left by way of the last instruction of its end. -/
theorem reaches_loopSkipped {body : List (Segment Unit)}
    (hbody : Nested Compiler.openingSegment Compiler.closingSegment body)
    (hsplit : segments =
      before ++ Compiler.openingSegment :: body ++ Compiler.closingSegment :: behind)
    (hrange : state.InRange) (hzero : state.current = 0) :
    Reaches operations 8 (machineBetween before state)
      (machineBetween (before ++ Compiler.openingSegment :: body ++ [Compiler.closingSegment])
        state.tested.tick) := by
  obtain ⟨startName, endName, -, hend⟩ := hlayout.loop hsplit hbody
  have hreaches := reaches_loopStart hlayout hbody hsplit hrange
  rw [if_pos hzero] at hreaches
  have hleaves : Reaches operations 1
      ⟨codeSize (before ++ Compiler.openingSegment :: body) + 1, [], state.tested⟩
      (machineBetween (before ++ Compiler.openingSegment :: body ++ [Compiler.closingSegment])
        state.tested.tick) := by
    rw [machineBetween, codeSize_append _ [Compiler.closingSegment]]
    exact .head hend.tail.head (step_next (effect_skip _ [])) (.refl _)
  exact hreaches.trans hleaves

theorem reaches_loopEntered {body : List (Segment Unit)}
    (hbody : Nested Compiler.openingSegment Compiler.closingSegment body)
    (hsplit : segments =
      before ++ Compiler.openingSegment :: body ++ Compiler.closingSegment :: behind)
    (hrange : state.InRange) (hcurrent : state.current ≠ 0) :
    Reaches operations 7 (machineBetween before state)
      (machineBetween (before ++ [Compiler.openingSegment]) state.tested) := by
  have hreaches := reaches_loopStart hlayout hbody hsplit hrange
  rw [if_neg hcurrent] at hreaches
  exact hreaches

theorem reaches_loopFault {body : List (Segment Unit)}
    (hbody : Nested Compiler.openingSegment Compiler.closingSegment body)
    (hsplit : segments =
      before ++ Compiler.openingSegment :: body ++ Compiler.closingSegment :: behind)
    (hrange : ¬ state.InRange) :
    ∃ count last operation, Reaches operations count (machineBetween before state) last ∧
      operations[last.pc]? = some operation ∧
      step operation last =
        .faulted (.indexOutOfRange state.counter) { state with steps := state.steps + 4 } := by
  obtain ⟨startName, endName, hstart, -⟩ := hlayout.loop hsplit hbody
  have hperform := perform_test state
  rw [if_neg hrange] at hperform
  exact Reaches.of_perform_fault hstart.left hperform

theorem reaches_loopEnd {body : List (Segment Unit)}
    (hbody : Nested Compiler.openingSegment Compiler.closingSegment body)
    (hsplit : segments =
      before ++ Compiler.openingSegment :: body ++ Compiler.closingSegment :: behind) :
    Reaches operations 1 (machineBetween (before ++ Compiler.openingSegment :: body) state)
      (machineBetween before state.tick) := by
  obtain ⟨startName, endName, -, hend⟩ := hlayout.loop hsplit hbody
  exact .head hend.head (step_goTo (effect_jump state [] startName _)) (.refl _)

theorem reaches_plain {action : Plain} {after : State}
    (hsplit : segments = before ++ .plain action :: behind)
    (hperform : perform (plainOperations action) [] state = .through [] after) :
    Reaches operations action.size (machineBetween before state)
      (machineBetween (before ++ [.plain action]) after) := by
  have hlength : (plainOperations action).length = action.size := by cases action <;> rfl
  have hreaches := Reaches.of_perform (hlayout.plain hsplit) hperform
  rw [hlength] at hreaches
  rw [machineBetween, machineBetween, codeSize_append]
  exact hreaches

variable (hfed : state.Fed input)
include hfed

theorem follows_plain {action : Plain} (hsplit : segments = before ++ .plain action :: behind)
    (hcommands : 0 < action.commands.length) :
    Follows operations segments input before state := by
  have hagrees := agrees_plain hfed hcommands
  have hsource : segments.flatMap Segment.commands =
      before.flatMap Segment.commands ++ action.commands ++ behind.flatMap Segment.commands := by
    rw [hsplit, List.flatMap_append, List.flatMap_cons, List.append_assoc]
    rfl
  have hplain : ∀ command ∈ action.commands, command ≠ .loopStart ∧ command ≠ .loopEnd :=
    fun command => Plain.ne_bracket_of_mem_commands
  generalize hperform : perform (plainOperations action) [] state = performed at hagrees
  generalize hacts : action.commands.foldlM (Reference.act input) state.view = acted at hagrees
  cases hagrees with
  | @through after hafter =>
      have hreaches := reaches_plain hlayout hsplit hperform
      have hrun := Reference.run_row hplain (before.flatMap Segment.commands)
        (behind.flatMap Segment.commands) hacts
      have hplace : (before.flatMap Segment.commands).length + action.commands.length =
          ((before ++ [Segment.plain action]).flatMap Segment.commands).length := by
        rw [List.flatMap_append, List.length_append, List.flatMap_singleton]
        rfl
      rw [hplace, ← hsource] at hrun
      refine .advance (before ++ [Segment.plain action]) behind ?_ hafter ?_ hreaches hcommands hrun
      · rw [hsplit, List.append_assoc]
        rfl
      · cases action <;> exact Nat.zero_lt_succ _
  | faulted after =>
      obtain ⟨count, last, operation, hreaches, hoperation, hstep⟩ :=
        Reaches.of_perform_fault (hlayout.plain hsplit) hperform
      refine .fault after hreaches hoperation hstep ?_
      rw [hsource]
      exact Reference.faults_row hplain _ _ hacts

theorem follows_loopStart {body : List (Segment Unit)}
    (hbody : Nested Compiler.openingSegment Compiler.closingSegment body)
    (hsplit : segments =
      before ++ Compiler.openingSegment :: body ++ Compiler.closingSegment :: behind) :
    Follows operations segments input before state := by
  have hmeaning := Reference.step_loopStart input (before.flatMap Segment.commands)
    (behind.flatMap Segment.commands) state.view (nested_flatMap_commands hbody)
  rw [← flatMap_commands_loop, ← hsplit, State.cell?_view] at hmeaning
  by_cases hrange : state.InRange
  · rw [if_pos hrange] at hmeaning
    by_cases hzero : state.current = 0
    · have hafter : state.tested.tick.Fed input := hfed
      refine .advance (before ++ Compiler.openingSegment :: body ++ [Compiler.closingSegment]) behind
        ?_ hafter (Nat.zero_lt_succ 7) (reaches_loopSkipped hlayout hbody hsplit hrange hzero)
        Nat.one_pos ?_
      · rw [hsplit, List.append_assoc _ [Compiler.closingSegment]]
        rfl
      · have hplace : ((before ++ Compiler.openingSegment :: body ++
              [Compiler.closingSegment]).flatMap Segment.commands).length =
            (before.flatMap Segment.commands ++
              .loopStart :: body.flatMap Segment.commands).length + 1 := by
          rw [flatMap_commands_loop]
          exact List.length_append
        refine (Reference.run_succ hmeaning 0).trans ?_
        rw [if_pos hzero, sourceBetween, hplace]
        rfl
    · have hafter : state.tested.Fed input := hfed
      refine .advance (before ++ [Compiler.openingSegment])
        (body ++ Compiler.closingSegment :: behind) ?_ hafter (Nat.zero_lt_succ 6)
        (reaches_loopEntered hlayout hbody hsplit hrange hzero) Nat.one_pos ?_
      · rw [hsplit, List.append_assoc, List.append_assoc]
        rfl
      · refine (Reference.run_succ hmeaning 0).trans ?_
        rw [if_neg hzero, sourceBetween, List.flatMap_append, List.length_append]
        rfl
  · rw [if_neg hrange] at hmeaning
    obtain ⟨count, last, operation, hreaches, hoperation, hstep⟩ :=
      reaches_loopFault hlayout hbody hsplit hrange
    refine .fault { state with steps := state.steps + 4 } hreaches hoperation hstep ⟨1, ?_⟩
    rw [Reference.run, sourceBetween, hmeaning]
    rfl

theorem follows_loopEnd {outer body : List (Segment Unit)}
    (hbody : Nested Compiler.openingSegment Compiler.closingSegment body)
    (hbefore : before = outer ++ Compiler.openingSegment :: body)
    (hsplit : segments = before ++ Compiler.closingSegment :: behind) :
    Follows operations segments input before state := by
  subst hbefore
  have hmeaning := Reference.step_loopEnd input (outer.flatMap Segment.commands)
    (behind.flatMap Segment.commands) state.view (nested_flatMap_commands hbody)
  rw [← flatMap_commands_loop, ← hsplit] at hmeaning
  have hreaches : Reaches operations 1
      (machineBetween (outer ++ Compiler.openingSegment :: body) state)
      (machineBetween outer state.tick) := reaches_loopEnd hlayout hbody hsplit
  have hafter : state.tick.Fed input := hfed
  refine .advance outer (Compiler.openingSegment :: body ++ Compiler.closingSegment :: behind) ?_
    hafter Nat.one_pos hreaches Nat.one_pos ?_
  · rw [hsplit, List.append_assoc]
  · rw [sourceBetween, List.flatMap_append, List.flatMap_cons]
    exact Reference.run_succ hmeaning 0

/-- Wherever the machine and the source stand between segments, they go on
together. -/
theorem follows (hnested : Nested Compiler.openingSegment Compiler.closingSegment segments)
    (hcommands : ∀ segment ∈ segments, 0 < segment.commands.length) {segment : Segment Unit}
    (hsplit : segments = before ++ segment :: behind) :
    Follows operations segments input before state := by
  rcases segment_cases hnested hsplit with
    ⟨action, hplain⟩ | ⟨body, rest, hbody, hloop⟩ | ⟨outer, body, hbody, hbefore, hend⟩
  · refine follows_plain hlayout hfed hplain (hcommands (.plain action) ?_)
    rw [hplain]
    exact List.mem_append_right _ List.mem_cons_self
  · exact follows_loopStart hlayout hfed hbody hloop
  · exact follows_loopEnd hlayout hfed hbody hbefore hend

end Follow

/-! ### Whole runs -/

/-- Behind the last segment the source has halted. -/
theorem step_sourceBetween (segments : List (Segment Unit)) (input : List Char) (state : State) :
    Reference.step (segments.flatMap Segment.commands) input (sourceBetween segments state) =
      .halted state.view := by
  rw [Reference.step, sourceBetween, List.getElem?_eq_none (Nat.le_refl _)]

/-- What the outcome of a run says about the source: a run that ends by itself
or with the cursor outside the tape shows how the source ends. -/
def Accounts (source : List Command) (input : List Char) (start : Reference.Config) (limit : Int)
    (outcome : Outcome) : Prop :=
  (outcome.fault = none ∧ Reference.Halts source input start outcome.state.view) ∨
    (∃ pc, outcome.fault = some (.indexOutOfRange outcome.state.counter, pc) ∧
      Reference.Faults source input start outcome.state.view) ∨
    ∃ pc, outcome.fault = some (.stepLimit limit, pc)

section Runs

variable {operations : Array Operation} {segments : List (Segment Unit)} {input : List Char}
  (hlayout : Layout operations segments)
  (hnested : Nested Compiler.openingSegment Compiler.closingSegment segments)
  (hcommands : ∀ segment ∈ segments, 0 < segment.commands.length)
include hlayout hnested hcommands

/-- When the source comes to an end, the machine comes to the same: it leaves
the program or meets a fault, in a state that looks the same. -/
theorem reaches_of_ended {fuel : Nat} (before : List (Segment Unit)) {behind : List (Segment Unit)}
    {state : State}
    (hsplit : segments = before ++ behind) (hfed : state.Fed input) {outcome : Reference.Outcome}
    (hrun : Reference.run (segments.flatMap Segment.commands) input fuel
      (sourceBetween before state) = outcome)
    (hended : ∀ next, outcome ≠ .running next) :
    ∃ count last, Reaches operations count (machineBetween before state) last ∧
      ((operations.size ≤ last.pc ∧ outcome = .halted last.state.view) ∨
        ∃ operation after, operations[last.pc]? = some operation ∧
          step operation last = .faulted (.indexOutOfRange after.counter) after ∧
          outcome = .faulted after.view) := by
  -- The source takes at least one step to the next place between segments, so the induction is
  -- on the number of its steps.
  induction fuel using Nat.strongRecOn generalizing before behind state with
  | ind fuel ih =>
      cases behind with
      | nil =>
          rw [List.append_nil] at hsplit
          subst hsplit
          refine ⟨0, _, .refl _, .inl ⟨Nat.le_of_eq hlayout.size, ?_⟩⟩
          have hhalted : Reference.run (segments.flatMap Segment.commands) input 1
              (sourceBetween segments state) = .halted state.view := by
            rw [Reference.run, step_sourceBetween]
          exact Reference.ended_unique hrun hhalted hended (by simp)
      | cons segment behind =>
          rcases follows hlayout hfed hnested hcommands hsplit with
            @⟨next, rest, after, count, first, hnext, hafter, hcount, hreaches, hfirst, hgoes⟩ |
            @⟨after, count, last, operation, hreaches, hoperation, hstep, ⟨other, hfaulted⟩⟩
          · obtain ⟨left, rfl, hleft⟩ := Reference.run_of_ended hrun hended hgoes
            obtain ⟨more, last, hmore, hlast⟩ := ih left (by omega) next hnext hafter hleft
            exact ⟨count + more, last, hreaches.trans hmore, hlast⟩
          · exact ⟨count, last, hreaches, .inr ⟨operation, after, hoperation, hstep,
              Reference.ended_unique hrun hfaulted hended (by simp)⟩⟩

/-- Every run of the machine is accounted for by the source. -/
theorem accounts_execute (limit : Int) {budget : Nat} (before : List (Segment Unit))
    {behind : List (Segment Unit)} {state : State} (hsplit : segments = before ++ behind)
    (hfed : state.Fed input) :
    Accounts (segments.flatMap Segment.commands) input (sourceBetween before state) limit
      (execute operations limit budget (machineBetween before state)) := by
  -- The machine, too, takes at least one step to the next place, so the induction is on its budget.
  induction budget using Nat.strongRecOn generalizing before behind state with
  | ind budget ih =>
      cases behind with
      | nil =>
          rw [List.append_nil] at hsplit
          subst hsplit
          rw [execute_of_size_le _ _ _ _ (Nat.le_of_eq hlayout.size)]
          exact .inl ⟨rfl, 1, by rw [Reference.run, step_sourceBetween]; rfl⟩
      | cons segment behind =>
          rcases follows hlayout hfed hnested hcommands hsplit with
            @⟨next, rest, after, count, first, hnext, hafter, hcount, hreaches, hfirst, hgoes⟩ |
            @⟨after, count, last, operation, hreaches, hoperation, hstep, hfaults⟩
          · rcases Nat.lt_or_ge budget count with hshort | henough
            · exact .inr (.inr (execute_of_reaches_lt limit hreaches hshort))
            · obtain ⟨left, rfl⟩ := Nat.exists_eq_add_of_le henough
              rw [execute_of_reaches limit hreaches]
              rcases ih left (by omega) next hnext hafter with
                ⟨hnone, hhalts⟩ | ⟨pc, hsome, hfaults⟩ | hlimit
              · exact .inl ⟨hnone, hhalts.of_running hgoes⟩
              · exact .inr (.inl ⟨pc, hsome, hfaults.of_running hgoes⟩)
              · exact .inr (.inr hlimit)
          · rcases Nat.lt_or_ge count budget with henough | hshort
            · obtain ⟨left, rfl⟩ := Nat.exists_eq_add_of_lt henough
              rw [Nat.add_assoc, execute_of_reaches limit hreaches, execute_succ limit hoperation,
                hstep]
              exact .inr (.inl ⟨_, rfl, hfaults⟩)
            · have hpc := (Array.getElem?_eq_some_iff.mp hoperation).1
              exact .inr (.inr (execute_of_reaches_le limit hreaches hpc hshort))

end Runs

/-- A compiled body does on every machine and every input what its source means.
When the source halts, the run returns with the memory, the counter, the input
position and the output of the source, provided that its limit leaves it enough
steps; when the source faults, the run meets the fault, and shows the same; when
the source goes on forever, the run reaches every limit.  Conversely a run that
returns or finds the cursor outside the tape shows how the source ends. -/
theorem run_compiled_body_agrees {session : Compiler.Session} {source body : String}
    (hlength : source.length < 2 ^ 63) (hprogram : '\n' ∉ session.generator.program.toList)
    (hcompiled : (session.compile source).result = .ok body) (state : State) (input : String) :
    let meaning := commands source.toList
    let start : Reference.Config := ⟨0, (state.feed input.toList).view⟩
    (∀ final, Reference.Halts meaning input.toList start final →
      ∃ cost : Nat, ∀ limit : Int, state.steps + cost ≤ limit →
        (state.run limit body input).fault = none ∧
          (state.run limit body input).state.view = final) ∧
    (∀ final, Reference.Faults meaning input.toList start final →
      ∃ cost : Nat, ∀ limit : Int, state.steps + cost ≤ limit →
        (∃ pc, (state.run limit body input).fault =
          some (.indexOutOfRange final.counter, pc)) ∧
          (state.run limit body input).state.view = final) ∧
    (Reference.Diverges meaning input.toList start →
      ∀ limit : Int, ∃ pc, (state.run limit body input).fault = some (.stepLimit limit, pc)) ∧
    ∀ limit : Int,
      ((state.run limit body input).fault = none ∧
        Reference.Halts meaning input.toList start (state.run limit body input).state.view) ∨
      (∃ pc, (state.run limit body input).fault =
          some (.indexOutOfRange (state.run limit body input).state.counter, pc) ∧
        Reference.Faults meaning input.toList start (state.run limit body input).state.view) ∨
      ∃ pc, (state.run limit body input).fault = some (.stepLimit limit, pc) := by
  intro meaning start
  obtain ⟨hlayout, hnested⟩ := layout_of_compiled hlength hprogram hcompiled
  have hcommands : ∀ segment ∈ bareSegments source.toList, 0 < segment.commands.length :=
    fun segment hmem => (length_commands_of_mem_bareSegments hmem).1
  have hmeaning : (bareSegments source.toList).flatMap Segment.commands = meaning :=
    flatMap_commands_bareSegments source.toList
  have hfed := state.fed_feed input.toList
  have haccounts (limit : Int) :
      Accounts meaning input.toList start limit (state.run limit body input) := by
    rw [← hmeaning]
    exact accounts_execute hlayout hnested hcommands limit [] rfl hfed
  refine ⟨?_, ?_, ?_, haccounts⟩
  · rintro final ⟨fuel, hrun⟩
    rw [← hmeaning] at hrun
    obtain ⟨count, last, hreaches, ⟨hpc, hfinal⟩ | ⟨operation, after, -, -, hfaulted⟩⟩ :=
      reaches_of_ended hlayout hnested hcommands [] rfl hfed hrun (by simp)
    · refine ⟨count, fun limit hlimit => ?_⟩
      obtain ⟨more, hexecute⟩ := State.run_of_reaches limit 0 hreaches hlimit
      rw [hexecute, execute_of_size_le _ _ _ _ hpc]
      exact ⟨rfl, (Reference.Outcome.halted.inj hfinal).symm⟩
    · cases hfaulted
  · rintro final ⟨fuel, hrun⟩
    rw [← hmeaning] at hrun
    obtain ⟨count, last, hreaches, ⟨-, hhalted⟩ | ⟨operation, after, hoperation, hstep, hfinal⟩⟩ :=
      reaches_of_ended hlayout hnested hcommands [] rfl hfed hrun (by simp)
    · cases hhalted
    · obtain rfl := Reference.Outcome.faulted.inj hfinal
      refine ⟨count + 1, fun limit hlimit => ?_⟩
      obtain ⟨more, hexecute⟩ := State.run_of_reaches limit 1 hreaches hlimit
      rw [hexecute, execute_succ limit hoperation, hstep]
      exact ⟨⟨_, rfl⟩, rfl⟩
  · intro hdiverges limit
    rcases haccounts limit with ⟨-, hhalts⟩ | ⟨pc, -, hfaults⟩ | hlimit
    · exact absurd hhalts hdiverges.not_halts
    · exact absurd hfaults hdiverges.not_faults
    · exact hlimit

/-- A loop that counts down to zero, a fault at the cell before the first, and a
loop that never ends. -/
theorem run_compiled_body_agrees_examples :
    ∃ halting faulting diverging,
      ((Compiler.Session.new "Test" true 2).compile "+[-].").result = .ok halting ∧
      ((Compiler.Session.new "Test" true 2).compile "<+").result = .ok faulting ∧
      ((Compiler.Session.new "Test" false 2).compile "+[]").result = .ok diverging ∧
      let state : State := { tape := { size := 2 } }
      (∃ cost : Nat, ∀ limit : Int, state.steps + cost ≤ limit →
        (state.run limit halting "").fault = none ∧
          (state.run limit halting "").state.view = ⟨[0, 0], 0, 0, [0]⟩) ∧
      (∃ cost : Nat, ∀ limit : Int, state.steps + cost ≤ limit →
        (∃ pc, (state.run limit faulting "").fault = some (.indexOutOfRange (-1), pc)) ∧
          (state.run limit faulting "").state.view = ⟨[0, 0], -1, 0, []⟩) ∧
      ∀ limit : Int, ∃ pc,
        (state.run limit diverging "").fault = some (.stepLimit limit, pc) := by
  have hhalting : Nested '[' ']' "+[-].".toList := by decide
  have hfaulting : Nested '[' ']' "<+".toList := by decide
  have hdiverging : Nested '[' ']' "+[]".toList := by decide
  have hfirst := ((Compiler.Session.new "Test" true 2).compile_of_nested
    (Compiler.Session.checkBrackets_of_nested true hhalting) hhalting).1
  have hsecond := ((Compiler.Session.new "Test" true 2).compile_of_nested
    (Compiler.Session.checkBrackets_of_nested true hfaulting) hfaulting).1
  have hthird := ((Compiler.Session.new "Test" false 2).compile_of_nested
    (Compiler.Session.checkBrackets_of_nested false hdiverging) hdiverging).1
  let state : State := { tape := { size := 2 } }
  refine ⟨_, _, _, hfirst, hsecond, hthird, ?_, ?_, ?_⟩
  · exact (run_compiled_body_agrees (by decide) (by decide) hfirst state "").1 _ ⟨7, by decide⟩
  · exact (run_compiled_body_agrees (by decide) (by decide) hsecond state "").2.1
      ⟨[0, 0], -1, 0, []⟩ ⟨2, by decide⟩
  · apply (run_compiled_body_agrees (by decide) (by decide) hthird state "").2.2.1
    exact Reference.diverges_of_cycle 1 1 ⟨1, ⟨[1, 0], 0, 0, []⟩⟩
      (by decide) (by decide)

end Machine
end TapeCompiler
