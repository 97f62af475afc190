import TapeCompiler.Proofs.BigStep
import TapeCompiler.Proofs.Bounds
import TapeCompiler.Proofs.Seam

/-!
# Two sources in turn and put together

Running the code of one source and then, on the same machine, the code of
another does what the code of the two sources put together does.  The code is
not the same: runs are made one at the seam, labels have other numbers and
everything else moves.  `Executes` does not see labels and places, so what has to
be shown is that the seam is right, and that it does not matter where the input
position and the count of steps start.
-/

namespace TapeCompiler
namespace Machine

open Source Numeral
open Compiler (openingSegment closingSegment)

/-! ### Machines that differ in their counts -/

/-- The same machine, but `ahead` characters further in its input and after
`saved` fewer steps. -/
structure State.Aligned (ahead saved : Nat) (state other : State) : Prop where
  tape : other.tape = state.tape
  counter : other.counter = state.counter
  scratch : other.scratch = state.scratch
  output : other.output = state.output
  unread : other.unread = state.unread
  consumed : other.consumed = state.consumed + ahead
  steps : other.steps + saved = state.steps

inductive Performed.Aligned (ahead saved : Nat) : Performed → Performed → Prop
  | through (stack : Stack) {state other : State} (h : state.Aligned ahead saved other) :
      Aligned ahead saved (.through stack state) (.through stack other)
  | faulted (fault : Fault) {state other : State} (h : state.Aligned ahead saved other) :
      Aligned ahead saved (.faulted fault state) (.faulted fault other)
  | away : Aligned ahead saved .away .away

theorem State.Aligned.trans {ahead further saved more : Nat} {first second third : State}
    (h : first.Aligned ahead saved second) (h' : second.Aligned further more third) :
    first.Aligned (ahead + further) (saved + more) third := by
  have hconsumed := h.consumed
  have hconsumed' := h'.consumed
  have hsteps := h.steps
  have hsteps' := h'.steps
  exact ⟨h'.tape.trans h.tape, h'.counter.trans h.counter, h'.scratch.trans h.scratch,
    h'.output.trans h.output, h'.unread.trans h.unread, by omega, by omega⟩

section Aligned

variable {ahead saved : Nat} {state other : State} (h : state.Aligned ahead saved other)
include h

theorem State.Aligned.inRange_iff : other.InRange ↔ state.InRange := by
  rw [State.InRange, State.InRange, h.tape, h.counter]

theorem State.Aligned.current_eq : other.current = state.current := by
  rw [State.current, State.current, h.tape, h.counter]

theorem State.Aligned.tick : state.tick.Aligned ahead saved other.tick := by
  have hsteps := h.steps
  refine ⟨h.tape, h.counter, h.scratch, h.output, h.unread, h.consumed, ?_⟩
  rw [State.steps_tick, State.steps_tick]
  omega

theorem State.Aligned.tested : state.tested.Aligned ahead saved other.tested := by
  have hsteps := h.steps
  refine ⟨h.tape, h.counter, congrArg UInt8.toNat h.current_eq, h.output, h.unread, h.consumed, ?_⟩
  change other.steps + 7 + saved = state.steps + 7
  omega

theorem State.Aligned.apply (action : Action) :
    (state.apply action).Aligned ahead saved (other.apply action) := by
  obtain ⟨htape, hcounter, hscratch, houtput, hunread, hconsumed, hsteps⟩ := h
  cases action with
  | none => exact ⟨htape, hcounter, hscratch, houtput, hunread, hconsumed, hsteps⟩
  | writeCell index value =>
      exact ⟨congrArg (·.write index value) htape, hcounter, hscratch, houtput, hunread, hconsumed,
        hsteps⟩
  | setCounter value => exact ⟨htape, rfl, hscratch, houtput, hunread, hconsumed, hsteps⟩
  | setScratch value => exact ⟨htape, hcounter, rfl, houtput, hunread, hconsumed, hsteps⟩
  | emit codePoint =>
      exact ⟨htape, hcounter, hscratch, congrArg (·.push codePoint) houtput, hunread, hconsumed,
        hsteps⟩
  | consume =>
      rw [State.apply, State.apply, hunread]
      cases hstate : state.unread with
      | nil => exact ⟨htape, hcounter, hscratch, houtput, hunread, hconsumed, hsteps⟩
      | cons c rest =>
          refine ⟨htape, hcounter, hscratch, houtput, rfl, ?_, hsteps⟩
          change other.consumed + 1 = state.consumed + 1 + ahead
          omega

/-- No operation looks at the counts. -/
theorem effect_aligned (operation : Operation) (stack : Stack) :
    operation.effect stack other = operation.effect stack state := by
  obtain ⟨tape, counter, scratch, steps, output, unread, consumed⟩ := state
  obtain ⟨tape', counter', scratch', steps', output', unread', consumed'⟩ := other
  obtain ⟨rfl, rfl, rfl, rfl, rfl, -, -⟩ := h
  cases operation with
  | push literal => cases literal <;> rfl
  | _ => rfl

omit h in
theorem perform_aligned (h : state.Aligned ahead saved other) (block : List Operation)
    (stack : Stack) :
    (perform block stack state).Aligned ahead saved (perform block stack other) := by
  induction block generalizing stack state other with
  | nil => exact .through stack h
  | cons operation rest ih =>
      rw [perform, perform, effect_aligned h]
      cases operation.effect stack state with
      | error fault => exact .faulted fault h.tick
      | ok effect =>
          obtain ⟨left, action, control⟩ := effect
          cases control with
          | next => exact ih (h.apply action).tick left
          | goTo target => exact .away
          | stop => exact .away

end Aligned

/-- Segments do the same on aligned machines. -/
theorem Executes.aligned {segments : List (Segment Unit)} {ahead saved : Nat} {state other : State}
    {performed : Performed} (hexecutes : Executes segments state performed)
    (h : state.Aligned ahead saved other) :
    ∃ there, Executes segments other there ∧ performed.Aligned ahead saved there := by
  induction hexecutes generalizing other with
  | nil state => exact ⟨_, .nil other, .through [] h⟩
  | @plain action rest state after performed hperform hrest ih =>
      have hblock := perform_aligned h (plainOperations action) []
      rw [hperform] at hblock
      generalize hother : perform (plainOperations action) [] other = block at hblock
      cases hblock with
      | through stack hafter =>
          obtain ⟨there, hthere, haligned⟩ := ih hafter
          exact ⟨there, .plain hother hthere, haligned⟩
  | @plainFault action rest state after fault hperform =>
      have hblock := perform_aligned h (plainOperations action) []
      rw [hperform] at hblock
      generalize hother : perform (plainOperations action) [] other = block at hblock
      cases hblock with
      | faulted fault hafter => exact ⟨_, .plainFault hother, .faulted fault hafter⟩
  | loopSkipped hbody hrange hzero hrest ih =>
      obtain ⟨there, hthere, haligned⟩ := ih h.tested.tick
      exact ⟨there, .loopSkipped hbody (h.inRange_iff.mpr hrange) (h.current_eq.trans hzero) hthere,
        haligned⟩
  | loopEntered hbody hrange hcurrent hround hagain ihround ih =>
      obtain ⟨round, hround, hafter⟩ := ihround h.tested
      cases hafter with
      | through stack hafter =>
          obtain ⟨there, hthere, haligned⟩ := ih hafter.tick
          exact ⟨there, .loopEntered hbody (h.inRange_iff.mpr hrange)
            (h.current_eq.trans_ne hcurrent) hround hthere, haligned⟩
  | bodyFault hbody hrange hcurrent hround ih =>
      obtain ⟨round, hround, hafter⟩ := ih h.tested
      cases hafter with
      | faulted fault hafter =>
          exact ⟨_, .bodyFault hbody (h.inRange_iff.mpr hrange)
            (h.current_eq.trans_ne hcurrent) hround, .faulted _ hafter⟩
  | @testFault body rest state hbody hrange =>
      have hsteps := h.steps
      refine ⟨_, .testFault hbody (mt h.inRange_iff.mp hrange), ?_⟩
      rw [h.counter]
      refine .faulted _ ⟨h.tape, rfl, h.scratch, h.output, h.unread, h.consumed, ?_⟩
      change other.steps + 4 + saved = state.steps + 4
      omega

/-! ### The seam -/

theorem Tape.write_of_lt {tape : Tape} {index : Nat} (hindex : index < tape.cells.size)
    (value : UInt8) :
    tape.write index value = { tape with cells := tape.cells.setIfInBounds index value } := by
  obtain ⟨size, cells⟩ := tape
  rw [Tape.write, if_pos hindex]

theorem Tape.write_write (tape : Tape) (index : Nat) (first second : UInt8) :
    (tape.write index first).write index second = tape.write index second := by
  have hheld : index < (tape.write index first).cells.size := by
    rw [Tape.size_cells_write]
    omega
  rw [Tape.write_of_lt hheld]
  obtain ⟨size, cells⟩ := tape
  exact congrArg (Tape.mk size) (Array.setIfInBounds_setIfInBounds _)

section Fused

variable {state between : State} (direction : Assembly.Direction) (first second : Nat)

/-- Moves in two runs go as far as in one, which takes fewer steps. -/
theorem perform_moves
    (hfirst : perform (plainOperations (.move direction first)) [] state = .through [] between) :
    ∃ after direct saved,
      perform (plainOperations (.move direction second)) [] between = .through [] after ∧
      perform (plainOperations (.move direction (first + second))) [] state = .through [] direct ∧
      after.Aligned 0 saved direct := by
  rw [perform_move] at hfirst
  obtain ⟨-, rfl⟩ := Performed.through.inj hfirst
  refine ⟨_, _, 4, perform_move _ direction second, perform_move _ direction (first + second), ?_⟩
  refine ⟨rfl, ?_, rfl, rfl, rfl, rfl, rfl⟩
  change wrap (state.counter + signed direction (first + second)) =
    wrap (wrap (state.counter + signed direction first) + signed direction second)
  rw [wrap_wrap_add, Int.add_assoc, signed_add]

/-- Changes in two runs add up to those in one, which takes fewer steps. -/
theorem perform_changes
    (hfirst : perform (plainOperations (.change direction first)) [] state = .through [] between) :
    ∃ after direct saved,
      perform (plainOperations (.change direction second)) [] between = .through [] after ∧
      perform (plainOperations (.change direction (first + second))) [] state = .through [] direct ∧
      after.Aligned 0 saved direct := by
  rw [perform_change] at hfirst
  by_cases hrange : state.InRange
  · rw [if_pos hrange] at hfirst
    obtain ⟨-, hbetween⟩ := Performed.through.inj hfirst
    -- The first run has found its cell, so the second finds it too.
    have hstill : between.InRange := by
      rw [← hbetween]
      exact hrange
    have hsecond := perform_change between direction second
    have hwhole := perform_change state direction (first + second)
    rw [if_pos hstill] at hsecond
    rw [if_pos hrange] at hwhole
    refine ⟨_, _, 9, hsecond, hwhole, ?_⟩
    subst hbetween
    refine ⟨?_, rfl, rfl, rfl, rfl, rfl, rfl⟩
    simp only [State.current]
    rw [Tape.write_write, Tape.cell_write, if_pos rfl, lowByte_lowByte_add, Int.add_assoc,
      signed_add]
  · rw [if_neg hrange] at hfirst
    cases hfirst

end Fused

/-- What meets at a seam is no bracket. -/
theorem nested_of_joins {left right middle : List (Segment Unit)}
    (hjoins : Joins left right middle) :
    Nested openingSegment closingSegment left ∧
      Nested openingSegment closingSegment right := by
  rw [nested_iff_descend Compiler.openingSegment_ne, nested_iff_descend Compiler.openingSegment_ne]
  cases hjoins with
  | apart => exact ⟨rfl, rfl⟩
  | fused hfuse first second => exact ⟨rfl, rfl⟩

theorem perform_fused {command : Command} {fuse : Nat → Plain} (hfuse : command.fused? = some fuse)
    {state between : State} {first : Nat}
    (hfirst : perform (plainOperations (fuse first)) [] state = .through [] between)
    (second : Nat) :
    ∃ after direct saved, perform (plainOperations (fuse second)) [] between = .through [] after ∧
      perform (plainOperations (fuse (first + second))) [] state = .through [] direct ∧
      after.Aligned 0 saved direct := by
  cases command <;> cases hfuse
  · exact perform_moves .up first second hfirst
  · exact perform_moves .down first second hfirst
  · exact perform_changes .up first second hfirst
  · exact perform_changes .down first second hfirst

/-- What is joined at a seam does what its parts do in turn. -/
theorem executes_joined {left right middle : List (Segment Unit)} (hjoins : Joins left right middle)
    {state between : State} {performed : Performed}
    (hleft : Executes left state (.through [] between))
    (hright : Executes right between performed) :
    ∃ after direct saved, performed = .through [] after ∧
      Executes middle state (.through [] direct) ∧ after.Aligned 0 saved direct := by
  cases hjoins with
  | apart =>
      cases hleft
      cases hright
      exact ⟨_, _, 0, rfl, .nil _, ⟨rfl, rfl, rfl, rfl, rfl, rfl, rfl⟩⟩
  | @fused command fuse hfuse first second =>
      cases hleft with
      | plain hfirst hnil =>
          cases hnil
          obtain ⟨after, direct, saved, hsecond, hwhole, haligned⟩ :=
            perform_fused hfuse hfirst second
          refine ⟨after, direct, saved, ?_, .plain hwhole (.nil direct), haligned⟩
          cases hright with
          | plain hperform hnil =>
              cases hnil
              exact hperform.symm.trans hsecond
          | plainFault hperform => cases hperform.symm.trans hsecond

/-! ### Whole runs -/

section Ends

variable {ahead saved : Nat} {performed there : Performed} {outcome other : Outcome}
  (haligned : performed.Aligned ahead saved there) (hends : performed.Ends outcome)
include haligned hends

theorem Performed.Ends.aligned_state {after : State} (hafter : there.state? = some after) :
    outcome.state.Aligned ahead saved after := by
  cases haligned with
  | through stack h =>
      cases hends with
      | through houtcome =>
          cases hafter
          rw [houtcome]
          exact h
  | faulted fault h =>
      cases hends with
      | faulted houtcome =>
          cases hafter
          rw [houtcome]
          exact h
  | away => cases hends

theorem Performed.Ends.fault_eq (hother : there.Ends other) :
    other.fault.map Prod.fst = outcome.fault.map Prod.fst := by
  cases haligned with
  | through stack h =>
      cases hends with
      | through houtcome =>
          cases hother with
          | through hother => rw [houtcome, hother]
  | faulted fault h =>
      cases hends with
      | faulted houtcome =>
          cases hother with
          | faulted hother =>
              rw [houtcome, hother]
              rfl
  | away => cases hends

end Ends

/-- What the code of two sources does in turn, the code of the two put together
does. -/
theorem executes_seam {one two : Array Operation} {first second whole : List (Segment Unit)}
    (hseam : Seam first second whole) (hone : Layout one first) (htwo : Layout two second)
    (hfirst : Nested openingSegment closingSegment first)
    (hsecond : Nested openingSegment closingSegment second)
    {limit : Int} {budget rest ahead : Nat} {start final refed : State}
    (hreturns : execute one limit budget { state := start } = { state := final })
    (hrefed : refed.Aligned ahead 0 final)
    (huncut : (execute two limit rest { state := refed }).Uncut) :
    ∃ (performed there : Performed) (saved : Nat),
      performed.Ends (execute two limit rest { state := refed }) ∧
      Executes whole start there ∧ performed.Aligned ahead saved there := by
  have hdone : (execute one limit budget { state := start }).Uncut := by
    rw [hreturns]
    exact fun reached pc hfault => nomatch hfault
  cases hseam with
  | @intro before behind left right middle hjoins =>
      obtain ⟨hleftNested, hrightNested⟩ := nested_of_joins hjoins
      have hbeforeNested := (hleftNested.append_iff_left Compiler.openingSegment_ne).mp hfirst
      have hbehindNested := (hrightNested.append_iff_right Compiler.openingSegment_ne).mp hsecond
      -- The first run goes through what stands before the seam and through its left side.
      obtain ⟨between, hbefore, hleft⟩ : ∃ between,
          Executes before start (.through [] between) ∧
            Executes left between (.through [] final) := by
        rcases executes_of_run hone hbeforeNested hleftNested hdone with
          ⟨fault, after, -, hends⟩ | ⟨between, performed, hbefore, hleft, hends⟩
        · rw [hreturns] at hends
          cases hends with
          | faulted houtcome => cases houtcome
        · rw [hreturns] at hends
          cases hends with
          | faulted houtcome => cases houtcome
          | through houtcome =>
              cases houtcome
              exact ⟨between, hbefore, hleft⟩
      -- The second run goes through the right side, where it cannot fault any more.
      rcases executes_of_run htwo hrightNested hbehindNested huncut with
        ⟨fault, after, hright, -⟩ | ⟨entry, performed, hright, hbehind, hends⟩
      · obtain ⟨there, hthere, haligned⟩ := hright.aligned hrefed
        obtain ⟨after, direct, saved, rfl, -⟩ := executes_joined hjoins hleft hthere
        cases haligned
      · obtain ⟨there, hthere, haligned⟩ := hright.aligned hrefed
        obtain ⟨after, direct, saved, rfl, hmiddle, hdirect⟩ := executes_joined hjoins hleft hthere
        cases haligned with
        | through stack hentry =>
            obtain ⟨there, hthere, haligned⟩ := hbehind.aligned (hentry.trans hdirect)
            exact ⟨performed, there, 0 + saved, hends, (hbefore.append hmiddle).append hthere,
              haligned⟩

/-- Running two compiled sources in turn is running the two put together.  Let the
run of the first return, and let the second be run on the same machine with the
input that is left.  Then the sources put together are compiled, and their run
ends as the run of the second does: it returns, or it meets the same fault.  It
leaves the same memory, cursor, scratch variable and output, it has read as many
characters as the two runs, and it has taken no more steps.  A newline in a
program's name would cut lines in two, so none of the three names has one. -/
theorem run_concatenation {one two whole : Compiler.Session}
    {first second firstBody secondBody : String}
    (hlength : first.length + second.length < 2 ^ 63)
    (hone : '\n' ∉ one.generator.program.toList) (htwo : '\n' ∉ two.generator.program.toList)
    (hwhole : '\n' ∉ whole.generator.program.toList)
    (hfirst : (one.compile first).result = .ok firstBody)
    (hsecond : (two.compile second).result = .ok secondBody)
    (state : State) (input : String) (limit : Int)
    (hreturns : (state.run limit firstBody input).fault = none)
    (huncut : ∀ reached pc,
      ((state.run limit firstBody input).state.run limit secondBody
        (String.ofList (input.toList.drop (state.run limit firstBody input).state.consumed))).fault ≠
      some (.stepLimit reached, pc)) :
    let middle := (state.run limit firstBody input).state
    let last := middle.run limit secondBody (String.ofList (input.toList.drop middle.consumed))
    ∃ body, (whole.compile (first ++ second)).result = .ok body ∧
      let joint := state.run limit body input
      joint.fault.map Prod.fst = last.fault.map Prod.fst ∧
      joint.state.tape = last.state.tape ∧
      joint.state.counter = last.state.counter ∧
      joint.state.scratch = last.state.scratch ∧
      joint.state.output = last.state.output ∧
      joint.state.consumed = middle.consumed + last.state.consumed ∧
      joint.state.steps ≤ last.state.steps := by
  intro middle last
  obtain ⟨honeLayout, honeNested⟩ := layout_of_compiled (by omega) hone hfirst
  obtain ⟨htwoLayout, htwoNested⟩ := layout_of_compiled (by omega) htwo hsecond
  have hnested : Nested '[' ']' (first ++ second).toList := by
    rw [String.toList_append]
    exact ((Compiler.Session.compile_eq_ok hfirst).1.append_iff_right bracket_ne).mpr
      (Compiler.Session.compile_eq_ok hsecond).1
  obtain ⟨body, hcompiled⟩ : ∃ body, (whole.compile (first ++ second)).result = .ok body :=
    ⟨_, (whole.compile_of_nested
      (Compiler.Session.checkBrackets_of_nested whole.strict hnested) hnested).1⟩
  refine ⟨body, hcompiled, ?_⟩
  intro joint
  have hmiddle : state.run limit firstBody input = { state := middle } := by rw [← hreturns]
  have hrefed : (middle.feed (String.ofList (input.toList.drop middle.consumed)).toList).Aligned
      middle.consumed 0 middle := by
    refine ⟨rfl, rfl, rfl, rfl, ?_, (Nat.zero_add _).symm, rfl⟩
    rw [State.feed, String.toList_ofList]
    exact (state.placed_run limit firstBody input).fed
  obtain ⟨performed, there, saved, hends, hexecutes, haligned⟩ :=
    executes_seam (seam_bareSegments first.toList second.toList) honeLayout htwoLayout honeNested
      htwoNested hmiddle hrefed huncut
  change performed.Ends last at hends
  rw [← String.toList_append] at hexecutes
  -- Both runs keep within the limit, so the joint run does, which is no longer.
  have hbudget : last.state.steps ≤ state.steps + (limit - state.steps).toNat := by
    have hdone : (state.run limit firstBody input).Uncut := by
      rw [hmiddle]
      exact fun reached pc hfault => nomatch hfault
    have hfirstSteps : middle.steps ≤ _ := State.steps_run_le hdone
    have hlastSteps : last.state.steps ≤ _ := State.steps_run_le huncut
    omega
  have hjoint : there.Ends joint := by
    refine State.run_of_executes (by rw [String.length_append]; exact hlength) hwhole hcompiled
      hexecutes fun after hafter => ?_
    have hsteps := (Performed.Ends.aligned_state haligned hends hafter).steps
    exact Nat.le_trans (by omega) hbudget
  have hfinal := Performed.Ends.aligned_state haligned hends hjoint.state?_eq
  have hsteps := hfinal.steps
  exact ⟨Performed.Ends.fault_eq haligned hends hjoint, hfinal.tape, hfinal.counter, hfinal.scratch,
    hfinal.output, hfinal.consumed.trans (Nat.add_comm _ _), by omega⟩

/-- Two sources that have a run of changes across their seam, and a fault behind
it. -/
theorem run_concatenation_overrun :
    ∃ firstBody secondBody body,
      ((Compiler.Session.new "Test" true 2).compile ",>+").result = .ok firstBody ∧
      ((Compiler.Session.new "Test" true 2).compile "+.>+").result = .ok secondBody ∧
      ((Compiler.Session.new "Test" false 2).compile (",>+" ++ "+.>+")).result = .ok body ∧
      let state : State := { tape := { size := 2 } }
      let middle := (state.run 100 firstBody "ab").state
      let last := middle.run 100 secondBody (String.ofList ("ab".toList.drop middle.consumed))
      let joint := state.run 100 body "ab"
      (state.run 100 firstBody "ab").fault = none ∧
      last.fault.map Prod.fst = some (.indexOutOfRange 2) ∧
      joint.fault.map Prod.fst = some (.indexOutOfRange 2) ∧
      joint.state.output = last.state.output ∧
      joint.state.consumed = middle.consumed + last.state.consumed ∧
      joint.state.steps ≤ last.state.steps := by
  have hfirst : Nested '[' ']' ",>+".toList := by decide
  have hsecond : Nested '[' ']' "+.>+".toList := by decide
  have hone := ((Compiler.Session.new "Test" true 2).compile_of_nested
    (Compiler.Session.checkBrackets_of_nested true hfirst) hfirst).1
  have htwo := ((Compiler.Session.new "Test" true 2).compile_of_nested
    (Compiler.Session.checkBrackets_of_nested true hsecond) hsecond).1
  let state : State := { tape := { size := 2 } }
  have hfirstSegments : bareSegments ",>+".toList =
      [.plain .read, .plain (.move .up 1), .plain (.change .up 1)] := by decide
  have hsecondSegments : bareSegments "+.>+".toList =
      [.plain (.change .up 1), .plain .write, .plain (.move .up 1), .plain (.change .up 1)] := by
    decide
  obtain ⟨middle, hfirstExecutes, hmiddle⟩ : ∃ middle,
      Executes (bareSegments ",>+".toList) (state.feed "ab".toList) (.through [] middle) ∧
        middle = ⟨⟨2, #[97, 1]⟩, 1, 97, 20, #[], ['b'], 1⟩ := by
    rw [hfirstSegments]
    exact ⟨_, .plain ((perform_read _).trans (if_pos (by decide))) (.plain (perform_move _ _ _)
      (.plain ((perform_change _ _ _).trans (if_pos (by decide))) (.nil _))), by decide⟩
  subst hmiddle
  obtain ⟨fault, after, hsecondExecutes, hfault, hsteps⟩ : ∃ fault after,
      Executes (bareSegments "+.>+".toList)
        (State.feed ⟨⟨2, #[97, 1]⟩, 1, 97, 20, #[], ['b'], 1⟩
          (String.ofList ("ab".toList.drop 1)).toList) (.faulted fault after) ∧
        fault = .indexOutOfRange 2 ∧ after.steps = 42 := by
    rw [hsecondSegments]
    exact ⟨_, _, .plain ((perform_change _ _ _).trans (if_pos (by decide)))
      (.plain ((perform_write _).trans (if_pos (by decide))) (.plain (perform_move _ _ _)
        (.plainFault ((perform_change _ _ _).trans (if_neg (by decide)))))), by decide, by decide⟩
  subst hfault
  have hreturns := @State.run_of_executes _ _ _ (by decide) (by decide) hone _ _ _
    hfirstExecutes 100 (by rintro _ ⟨⟩; decide)
  have hoverrun := @State.run_of_executes _ _ _ (by decide) (by decide) htwo _ _ _
    hsecondExecutes 100 (by rintro _ ⟨⟩; rw [hsteps]; decide)
  cases hreturns with
  | through hreturns =>
      cases hoverrun with
      | @faulted _ _ pc hoverrun =>
          obtain ⟨body, hbody, hfault, -, -, -, houtput, hconsumed, htaken⟩ :=
            run_concatenation (by decide) (by decide) (by decide)
              (show '\n' ∉ (Compiler.Session.new "Test" false 2).generator.program.toList by decide)
              hone htwo state "ab" 100 (by rw [hreturns])
              (by rw [hreturns, hoverrun]; intro reached pc hcut; cases hcut)
          rw [hreturns, hoverrun] at hfault
          refine ⟨_, _, body, hone, htwo, hbody, by rw [hreturns], ?_, hfault, houtput, hconsumed,
            htaken⟩
          rw [hreturns, hoverrun]
          rfl

end Machine
end TapeCompiler
