import TapeCompiler.Proofs.Progress
import TapeCompiler.Proofs.Simulation

/-!
# Compiled code by its structure

What segments do to a state can be said without program counters and labels: a
plain segment is performed, a loop is skipped or gone through and tried again.
`Executes` says so, and says nothing of where the code stands or what stands
around it, so that code can be moved and put together.

Main statements: the machine does what `Executes` says (`Executes.reached`), a
run that is not cut by its limit does nothing else (`executes_of_execute`), and
so a compiled body does what the segments of its source do
(`State.run_of_executes`).
-/

namespace TapeCompiler
namespace Machine

open Source
open Compiler (openingSegment closingSegment)

/-- What the execution of segments comes to. -/
inductive Executes : List (Segment Unit) → State → Performed → Prop
  | nil (state : State) : Executes [] state (.through [] state)
  | plain {action : Plain} {rest : List (Segment Unit)} {state after : State}
      {performed : Performed}
      (hperform : perform (plainOperations action) [] state = .through [] after)
      (hrest : Executes rest after performed) :
      Executes (.plain action :: rest) state performed
  | plainFault {action : Plain} {rest : List (Segment Unit)} {state after : State} {fault : Fault}
      (hperform : perform (plainOperations action) [] state = .faulted fault after) :
      Executes (.plain action :: rest) state (.faulted fault after)
  /-- The cell is zero: execution goes on behind the loop. -/
  | loopSkipped {body rest : List (Segment Unit)} {state : State} {performed : Performed}
      (hbody : Nested openingSegment closingSegment body)
      (hrange : state.InRange) (hzero : state.current = 0)
      (hrest : Executes rest state.tested.tick performed) :
      Executes (openingSegment :: body ++ closingSegment :: rest) state performed
  /-- The body is executed, and then the loop again. -/
  | loopEntered {body rest : List (Segment Unit)} {state after : State} {performed : Performed}
      (hbody : Nested openingSegment closingSegment body)
      (hrange : state.InRange) (hcurrent : state.current ≠ 0)
      (hround : Executes body state.tested (.through [] after))
      (hagain : Executes (openingSegment :: body ++ closingSegment :: rest)
        after.tick performed) :
      Executes (openingSegment :: body ++ closingSegment :: rest) state performed
  | bodyFault {body rest : List (Segment Unit)} {state after : State} {fault : Fault}
      (hbody : Nested openingSegment closingSegment body)
      (hrange : state.InRange) (hcurrent : state.current ≠ 0)
      (hround : Executes body state.tested (.faulted fault after)) :
      Executes (openingSegment :: body ++ closingSegment :: rest) state
        (.faulted fault after)
  /-- There is no cell to test. -/
  | testFault {body rest : List (Segment Unit)} {state : State}
      (hbody : Nested openingSegment closingSegment body)
      (hrange : ¬ state.InRange) :
      Executes (openingSegment :: body ++ closingSegment :: rest) state
        (.faulted (.indexOutOfRange state.counter) { state with steps := state.steps + 4 })

theorem Executes.append {first second : List (Segment Unit)} {state between : State}
    {performed : Performed} (hfirst : Executes first state (.through [] between))
    (hsecond : Executes second between performed) : Executes (first ++ second) state performed := by
  -- A loop that is tried again has the second list behind it each time.
  generalize hend : Performed.through [] between = ending at hfirst
  induction hfirst with
  | nil state =>
      cases hend
      exact hsecond
  | plain hperform hrest ih => exact .plain hperform (ih hend)
  | plainFault hperform => cases hend
  | loopSkipped hbody hrange hzero hrest ih =>
      rw [List.append_assoc]
      exact .loopSkipped hbody hrange hzero (ih hend)
  | loopEntered hbody hrange hcurrent hround hagain ihround ih =>
      rw [List.append_assoc] at ih ⊢
      exact .loopEntered hbody hrange hcurrent hround (ih hend)
  | bodyFault hbody hrange hcurrent hround ih => cases hend
  | testFault hbody hrange => cases hend

/-! ### The machine does what the segments say -/

section Places

variable (before body rest behind : List (Segment Unit))

theorem loop_around :
    before ++ (openingSegment :: body ++ closingSegment :: rest) ++ behind =
      before ++ openingSegment :: body ++ closingSegment :: (rest ++ behind) := by
  simp

theorem behind_loop :
    before ++ openingSegment :: body ++ [closingSegment] ++ rest =
      before ++ (openingSegment :: body ++ closingSegment :: rest) := by
  simp

theorem behind_body :
    before ++ [openingSegment] ++ body = before ++ openingSegment :: body := by
  simp

end Places

/-- The machine comes to the end of segments, or to their fault. -/
inductive Performed.Reached (operations : Array Operation) (start : Config)
    (place : List (Segment Unit)) : Performed → Prop
  | through {after : State} {count : Nat}
      (hreaches : Reaches operations count start (machineBetween place after)) :
      Reached operations start place (.through [] after)
  | faulted {fault : Fault} {after : State} {count : Nat} {last : Config} {operation : Operation}
      (hreaches : Reaches operations count start last)
      (hoperation : operations[last.pc]? = some operation)
      (hstep : step operation last = .faulted fault after) :
      Reached operations start place (.faulted fault after)

theorem Performed.Reached.head {operations : Array Operation} {start middle : Config}
    {place : List (Segment Unit)} {performed : Performed} {count : Nat}
    (hreaches : Reaches operations count start middle)
    (hreached : performed.Reached operations middle place) :
    performed.Reached operations start place := by
  cases hreached with
  | through hrest => exact .through (hreaches.trans hrest)
  | faulted hrest hoperation hstep => exact .faulted (hreaches.trans hrest) hoperation hstep

section Layout

variable {operations : Array Operation} {segments : List (Segment Unit)}
  (hlayout : Layout operations segments)
include hlayout

/-- Wherever segments stand, the machine does what their execution says. -/
theorem Executes.reached {middle : List (Segment Unit)} {state : State} {performed : Performed}
    (hexecutes : Executes middle state performed) (before behind : List (Segment Unit))
    (hsplit : segments = before ++ middle ++ behind) :
    performed.Reached operations (machineBetween before state) (before ++ middle) := by
  induction hexecutes generalizing before behind with
  | nil state =>
      rw [List.append_nil]
      exact .through (.refl _)
  | @plain action rest state after performed hperform hrest ih =>
      have hplain : segments = before ++ .plain action :: (rest ++ behind) := by simp [hsplit]
      have hreached := ih (before ++ [.plain action]) behind (by simp [hsplit])
      rw [List.append_assoc] at hreached
      exact .head (reaches_plain hlayout hplain hperform) hreached
  | @plainFault action rest state after fault hperform =>
      have hplain : segments = before ++ .plain action :: (rest ++ behind) := by simp [hsplit]
      obtain ⟨count, last, operation, hreaches, hoperation, hstep⟩ :=
        Reaches.of_perform_fault (hlayout.plain hplain) hperform
      exact .faulted hreaches hoperation hstep
  | @loopSkipped body rest state performed hbody hrange hzero hrest ih =>
      have hloop := hsplit.trans (loop_around before body rest behind)
      have hreached := ih (before ++ openingSegment :: body ++ [closingSegment])
        behind (by rw [behind_loop, hsplit])
      rw [behind_loop] at hreached
      exact .head (reaches_loopSkipped hlayout hbody hloop hrange hzero) hreached
  | @loopEntered body rest state after performed hbody hrange hcurrent hround hagain ihround ih =>
      have hloop := hsplit.trans (loop_around before body rest behind)
      have hround := ihround (before ++ [openingSegment])
        (closingSegment :: (rest ++ behind)) (by rw [behind_body, hloop])
      rw [behind_body] at hround
      cases hround with
      | through hreaches =>
          -- Into the loop, through its body, and back to its start.
          exact .head (reaches_loopEntered hlayout hbody hloop hrange hcurrent)
            (.head hreaches (.head (reaches_loopEnd hlayout hbody hloop) (ih before behind hsplit)))
  | @bodyFault body rest state after fault hbody hrange hcurrent hround ih =>
      have hloop := hsplit.trans (loop_around before body rest behind)
      have hround := ih (before ++ [openingSegment])
        (closingSegment :: (rest ++ behind)) (by rw [behind_body, hloop])
      cases hround with
      | faulted hreaches hoperation hstep =>
          exact .head (reaches_loopEntered hlayout hbody hloop hrange hcurrent)
            (.faulted hreaches hoperation hstep)
  | @testFault body rest state hbody hrange =>
      have hloop := hsplit.trans (loop_around before body rest behind)
      obtain ⟨count, last, operation, hreaches, hoperation, hstep⟩ :=
        reaches_loopFault hlayout hbody hloop hrange
      exact .faulted hreaches hoperation hstep

end Layout

/-! ### The machine does nothing else -/

/-- A run goes on behind segments, or ends at their fault. -/
inductive Performed.Shows (operations : Array Operation) (limit : Int) (budget : Nat)
    (place : List (Segment Unit)) (outcome : Outcome) : Performed → Prop
  | through {after : State} {less : Nat} (hless : less ≤ budget)
      (houtcome : outcome = execute operations limit less (machineBetween place after)) :
      Shows operations limit budget place outcome (.through [] after)
  | faulted {fault : Fault} {after : State} {pc : Nat}
      (houtcome : outcome = { state := after, fault := some (fault, pc) }) :
      Shows operations limit budget place outcome (.faulted fault after)

theorem Performed.Shows.mono {operations : Array Operation} {limit : Int} {small large : Nat}
    {place : List (Segment Unit)} {outcome : Outcome} {performed : Performed} (hle : small ≤ large)
    (hshows : performed.Shows operations limit small place outcome) :
    performed.Shows operations limit large place outcome := by
  cases hshows with
  | through hless houtcome => exact .through (hless.trans hle) houtcome
  | faulted houtcome => exact .faulted houtcome

/-- A plain segment is executed to its end with an empty stack, or misses its
cell. -/
theorem perform_plain (action : Plain) (state : State) :
    (∃ after, perform (plainOperations action) [] state = .through [] after) ∨
      ∃ after, perform (plainOperations action) [] state =
        .faulted (.indexOutOfRange state.counter) after := by
  cases action with
  | move direction count => exact .inl ⟨_, perform_move state direction count⟩
  | change direction count =>
      rw [perform_change]
      split
      · exact .inl ⟨_, rfl⟩
      · exact .inr ⟨_, rfl⟩
  | write =>
      rw [perform_write]
      split
      · exact .inl ⟨_, rfl⟩
      · exact .inr ⟨_, rfl⟩
  | read =>
      rw [perform_read]
      split
      · exact .inl ⟨_, rfl⟩
      · exact .inr ⟨_, rfl⟩

/-- A nested list of segments is empty, or starts with a plain segment or with a
whole loop. -/
theorem nested_cases {segments : List (Segment Unit)}
    (hnested : Nested openingSegment closingSegment segments) :
    segments = [] ∨
      (∃ action rest, segments = .plain action :: rest ∧
        Nested openingSegment closingSegment rest) ∨
      ∃ body rest, segments = openingSegment :: body ++ closingSegment :: rest ∧
        Nested openingSegment closingSegment body ∧
        Nested openingSegment closingSegment rest := by
  have hne := Compiler.openingSegment_ne
  cases segments with
  | nil => exact .inl rfl
  | cons segment rest =>
      right
      cases segment with
      | plain action =>
          left
          refine ⟨action, rest, rfl, ?_⟩
          have hplain : Nested openingSegment closingSegment [.plain action] :=
            (nested_iff_descend hne).mpr rfl
          exact (hplain.append_iff_right hne).mp hnested
      | loopStart mark =>
          right
          obtain ⟨body, behind, rfl, hbody⟩ := @Nested.exists_closing _ _ _ _ hne [] _ hnested
          refine ⟨body, behind, rfl, hbody, ?_⟩
          have hloop : Nested openingSegment closingSegment
              (openingSegment :: body ++ [closingSegment]) := by
            rw [nested_iff_descend hne, List.cons_append, descend_opening, descend_append,
              hbody.descend_eq hne]
            rfl
          exact (hloop.append_iff_right hne).mp (by simpa using hnested)
      | loopEnd mark =>
          rw [nested_iff_descend hne] at hnested
          cases (descend_closing_zero hne rest).symm.trans hnested

/-- A run that is not cut executes the segments that it comes to. -/
theorem executes_of_execute {operations : Array Operation} {segments : List (Segment Unit)}
    (hlayout : Layout operations segments) (limit : Int) (budget : Nat)
    (before behind : List (Segment Unit)) {middle : List (Segment Unit)} {state : State}
    (hsplit : segments = before ++ middle ++ behind)
    (hnested : Nested openingSegment closingSegment middle)
    (huncut : (execute operations limit budget (machineBetween before state)).Uncut) :
    ∃ performed, Executes middle state performed ∧
      performed.Shows operations limit budget (before ++ middle)
        (execute operations limit budget (machineBetween before state)) := by
  -- Every segment takes steps, also a loop that is tried again, so the budget goes down.
  induction budget using Nat.strongRecOn generalizing before behind middle state with
  | ind budget ih =>
      rcases nested_cases hnested with
        rfl | ⟨action, rest, rfl, hrest⟩ | ⟨body, rest, rfl, hbody, hrest⟩
      · rw [List.append_nil]
        exact ⟨_, .nil state, .through (Nat.le_refl budget) rfl⟩
      · have hplain : segments = before ++ .plain action :: (rest ++ behind) := by simp [hsplit]
        rcases perform_plain action state with ⟨after, hperform⟩ | ⟨after, hperform⟩
        · have hsize : 0 < action.size := by cases action <;> exact Nat.zero_lt_succ _
          obtain ⟨less, hbudget, hrun⟩ :=
            execute_through huncut (reaches_plain hlayout hplain hperform)
          rw [hrun] at huncut ⊢
          obtain ⟨performed, hexecutes, hshows⟩ :=
            ih less (by omega) (before ++ [.plain action]) behind (by simp [hsplit]) hrest huncut
          rw [List.append_assoc] at hshows
          exact ⟨performed, .plain hperform hexecutes, hshows.mono (by omega)⟩
        · obtain ⟨count, last, operation, hreaches, hoperation, hstep⟩ :=
            Reaches.of_perform_fault (hlayout.plain hplain) hperform
          exact ⟨_, .plainFault hperform,
            .faulted (execute_faulted huncut hreaches hoperation hstep)⟩
      · have hloop := hsplit.trans (loop_around before body rest behind)
        by_cases hrange : state.InRange
        · by_cases hzero : state.current = 0
          · obtain ⟨less, hbudget, hrun⟩ :=
              execute_through huncut (reaches_loopSkipped hlayout hbody hloop hrange hzero)
            rw [hrun] at huncut ⊢
            obtain ⟨performed, hexecutes, hshows⟩ := ih less (by omega)
              (before ++ openingSegment :: body ++ [closingSegment]) behind
              (by rw [behind_loop, hsplit]) hrest huncut
            rw [behind_loop] at hshows
            exact ⟨performed, .loopSkipped hbody hrange hzero hexecutes, hshows.mono (by omega)⟩
          · obtain ⟨less, hbudget, hrun⟩ :=
              execute_through huncut (reaches_loopEntered hlayout hbody hloop hrange hzero)
            rw [hrun] at huncut ⊢
            obtain ⟨round, hround, hshows⟩ := ih less (by omega)
              (before ++ [openingSegment]) (closingSegment :: (rest ++ behind))
              (by rw [behind_body, hloop]) hbody huncut
            rw [behind_body] at hshows
            cases hshows with
            | faulted houtcome => exact ⟨_, .bodyFault hbody hrange hzero hround, .faulted houtcome⟩
            | @through after left hleft houtcome =>
                rw [houtcome] at huncut ⊢
                obtain ⟨fewer, hfewer, hagain⟩ :=
                  execute_through huncut (reaches_loopEnd hlayout hbody hloop)
                rw [hagain] at huncut ⊢
                obtain ⟨performed, hexecutes, hshows⟩ :=
                  ih fewer (by omega) before behind hsplit hnested huncut
                exact ⟨performed, .loopEntered hbody hrange hzero hround hexecutes,
                  hshows.mono (by omega)⟩
        · obtain ⟨count, last, operation, hreaches, hoperation, hstep⟩ :=
            reaches_loopFault hlayout hbody hloop hrange
          exact ⟨_, .testFault hbody hrange,
            .faulted (execute_faulted huncut hreaches hoperation hstep)⟩

/-! ### Whole runs -/

/-- How a run ends that has executed all of its segments. -/
inductive Performed.Ends (outcome : Outcome) : Performed → Prop
  | through {after : State} (houtcome : outcome = { state := after }) :
      Ends outcome (.through [] after)
  | faulted {fault : Fault} {after : State} {pc : Nat}
      (houtcome : outcome = { state := after, fault := some (fault, pc) }) :
      Ends outcome (.faulted fault after)

/-- The state in which an execution has left the machine. -/
def Performed.state? : Performed → Option State
  | .through _ state => some state
  | .faulted _ state => some state
  | .away => none

theorem Performed.Ends.state?_eq {outcome : Outcome} {performed : Performed}
    (hends : performed.Ends outcome) : performed.state? = some outcome.state := by
  cases hends with
  | through houtcome | faulted houtcome =>
      rw [houtcome]
      rfl

/-- A run that is not cut executes the first part of its segments, and if it gets
through them the second. -/
theorem executes_of_run {operations : Array Operation} {first second : List (Segment Unit)}
    (hlayout : Layout operations (first ++ second))
    (hfirst : Nested openingSegment closingSegment first)
    (hsecond : Nested openingSegment closingSegment second)
    {limit : Int} {budget : Nat} {state : State}
    (huncut : (execute operations limit budget { state := state }).Uncut) :
    (∃ fault after, Executes first state (.faulted fault after) ∧
      (Performed.faulted fault after).Ends (execute operations limit budget { state := state })) ∨
    ∃ between performed, Executes first state (.through [] between) ∧
      Executes second between performed ∧
      performed.Ends (execute operations limit budget { state := state }) := by
  obtain ⟨performed, hexecutes, hshows⟩ :=
    executes_of_execute hlayout limit budget [] second rfl hfirst huncut
  cases hshows with
  | faulted houtcome => exact .inl ⟨_, _, hexecutes, .faulted houtcome⟩
  | @through between less hless houtcome =>
      change execute operations limit budget { state := state } = _ at houtcome
      rw [houtcome] at huncut ⊢
      obtain ⟨last, hlast, hshows⟩ :=
        executes_of_execute hlayout limit less first [] (by rw [List.append_nil]) hsecond huncut
      refine .inr ⟨between, last, hexecutes, hlast, ?_⟩
      cases hshows with
      | faulted houtcome => exact .faulted houtcome
      | through hless houtcome =>
          refine .through (houtcome.trans ?_)
          exact execute_of_size_le _ _ _ _ (Nat.le_of_eq hlayout.size)

/-- A run ends as the execution of all of its segments does, if it has steps for
that. -/
theorem Performed.Reached.ends {operations : Array Operation} {segments : List (Segment Unit)}
    (hlayout : Layout operations segments) {start : Config} {performed : Performed}
    (hreached : performed.Reached operations start segments) (limit : Int) {budget : Nat}
    (hbudget : ∀ after, performed.state? = some after → after.steps ≤ start.state.steps + budget) :
    performed.Ends (execute operations limit budget start) := by
  -- The count of steps in the state tells how many of the budget are used.
  cases hreached with
  | @through after count hreaches =>
      have hsteps : after.steps = start.state.steps + count := hreaches.steps_eq
      have hafter := hbudget after rfl
      obtain ⟨more, rfl⟩ := Nat.exists_eq_add_of_le (show count ≤ budget by omega)
      rw [execute_of_reaches limit hreaches,
        execute_of_size_le _ _ _ _ (Nat.le_of_eq hlayout.size)]
      exact .through rfl
  | @faulted fault after count last operation hreaches hoperation hstep =>
      have hsteps := hreaches.steps_eq
      have hafter := hbudget after rfl
      rw [(effect_of_faulted hstep).2, State.steps_tick] at hafter
      obtain ⟨more, rfl⟩ := Nat.exists_eq_add_of_le (show count + 1 ≤ budget by omega)
      rw [Nat.add_assoc, Nat.add_comm 1, execute_of_reaches limit hreaches,
        execute_succ limit hoperation, hstep]
      exact .faulted rfl

/-- A compiled body does what the segments of its source do, if its limit leaves
it the steps. -/
theorem State.run_of_executes {session : Compiler.Session} {source body : String}
    (hlength : source.length < 2 ^ 63) (hprogram : '\n' ∉ session.generator.program.toList)
    (hcompiled : (session.compile source).result = .ok body) {state : State} {input : String}
    {performed : Performed}
    (hexecutes : Executes (bareSegments source.toList) (state.feed input.toList) performed)
    {limit : Int}
    (hbudget : ∀ after, performed.state? = some after →
      after.steps ≤ state.steps + (limit - state.steps).toNat) :
    performed.Ends (state.run limit body input) := by
  obtain ⟨hlayout, -⟩ := layout_of_compiled hlength hprogram hcompiled
  have hreached := hexecutes.reached hlayout [] [] (by rw [List.nil_append, List.append_nil])
  exact hreached.ends hlayout limit hbudget

end Machine
end TapeCompiler
