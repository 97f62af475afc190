import TapeCompiler.Compiler.Generator
import TapeCompiler.Proofs.Segments

/-!
# Generation, segment by segment

The generator works run by run; here it is taken apart into segments.  Two
things are kept from each other.  Whether generation succeeds depends on the
depth alone: it is the scan of `descend` (`emitRuns_eq`).  Which numbers the
loops get is the business of `Loops`, the stack of open loops together with
the count of all loops: a loop start gets the count, a loop end the innermost
open loop (`numbered`).  A nested list leaves the stack as it found it, which
is why the two ends of a loop get the same number.
-/

namespace TapeCompiler
namespace Compiler

open Assembly Source

/-- The numbers of the open loops, innermost first, and of all loops so far. -/
structure Loops where
  opened : List Nat := []
  count : Nat := 0
deriving DecidableEq, Repr

namespace Loops

variable {α β : Type} [DecidableEq α] [DecidableEq β]

/-- Opens a loop under the next number. -/
def enter (loops : Loops) : Loops :=
  { opened := loops.count :: loops.opened, count := loops.count + 1 }

def leave (loops : Loops) : Loops :=
  { loops with opened := loops.opened.tail }

/-- The number of the innermost open loop; any number if there is none. -/
def innermost (loops : Loops) : Nat :=
  loops.opened.headD 0

/-- The loops behind an item of an alphabet with brackets. -/
def next (opening closing : α) (loops : Loops) (item : α) : Loops :=
  if item = opening then loops.enter
  else if item = closing then loops.leave
  else loops

def after (opening closing : α) (loops : Loops) (items : List α) : Loops :=
  items.foldl (next opening closing) loops

variable {opening closing : α}

@[simp] theorem after_nil (loops : Loops) : after opening closing loops [] = loops := rfl

@[simp] theorem after_cons (loops : Loops) (item : α) (rest : List α) :
    after opening closing loops (item :: rest) =
      after opening closing (next opening closing loops item) rest := rfl

theorem after_append (loops : Loops) (first second : List α) :
    after opening closing loops (first ++ second) =
      after opening closing (after opening closing loops first) second :=
  List.foldl_append

@[simp] theorem next_opening (loops : Loops) :
    next opening closing loops opening = loops.enter := if_pos rfl

theorem next_closing (hne : opening ≠ closing) (loops : Loops) :
    next opening closing loops closing = loops.leave := by
  rw [next, if_neg hne.symm, if_pos rfl]

theorem next_other {item : α} (hopening : item ≠ opening) (hclosing : item ≠ closing)
    (loops : Loops) : next opening closing loops item = loops := by
  rw [next, if_neg hopening, if_neg hclosing]

/-- Every opening item takes a number. -/
theorem count_after (hne : opening ≠ closing) (loops : Loops) (items : List α) :
    (after opening closing loops items).count = loops.count + items.count opening := by
  induction items generalizing loops with
  | nil => rfl
  | cons item rest ih =>
      rw [after_cons, ih]
      by_cases hopening : item = opening
      · subst hopening
        rw [next_opening, List.count_cons_self, enter]
        dsimp only
        omega
      rw [List.count_cons_of_ne hopening]
      by_cases hclosing : item = closing
      · subst hclosing
        rw [next_closing hne, leave]
      · rw [next_other hopening hclosing]

/-- A scan that succeeds from the depth of the upper part of the stack does not
touch the lower part, and the upper part gets the depth that the scan ends at. -/
theorem opened_after (hne : opening ≠ closing) (upper lower : List Nat) (count : Nat) {depth : Nat}
    {items : List α} (hscan : descend opening closing upper.length items = some depth) :
    ∃ left, (after opening closing ⟨upper ++ lower, count⟩ items).opened = left ++ lower ∧
      left.length = depth := by
  induction items generalizing upper count with
  | nil => exact ⟨upper, rfl, Option.some_inj.mp hscan⟩
  | cons item rest ih =>
      rw [after_cons]
      by_cases hopening : item = opening
      · subst hopening
        rw [descend_opening] at hscan
        rw [next_opening]
        exact ih (count :: upper) (count + 1) hscan
      by_cases hclosing : item = closing
      · subst hclosing
        rw [next_closing hne]
        cases upper with
        | nil =>
            rw [List.length_nil, descend_closing_zero hne] at hscan
            cases hscan
        | cons number upper =>
            rw [List.length_cons, descend_closing_succ hne] at hscan
            exact ih upper count hscan
      · rw [descend_other hopening hclosing] at hscan
        rw [next_other hopening hclosing]
        exact ih upper count hscan

/-- The depth of a scan is the height of the stack. -/
theorem length_opened_after (hne : opening ≠ closing) (loops : Loops) {depth : Nat}
    {items : List α} (hscan : descend opening closing loops.opened.length items = some depth) :
    (after opening closing loops items).opened.length = depth := by
  obtain ⟨left, hleft, hlength⟩ := opened_after hne loops.opened [] loops.count hscan
  rw [List.append_nil, List.append_nil] at hleft
  rw [hleft, hlength]

/-- A nested list leaves the stack as it found it. -/
theorem opened_after_nested (hne : opening ≠ closing) (loops : Loops) {items : List α}
    (hnested : Nested opening closing items) :
    (after opening closing loops items).opened = loops.opened := by
  obtain ⟨left, hleft, hlength⟩ :=
    opened_after hne [] loops.opened loops.count ((nested_iff_descend hne).mp hnested)
  rw [List.length_eq_zero_iff.mp hlength] at hleft
  exact hleft

end Loops

/-! ### Numbering -/

abbrev openingSegment : Segment Unit := .loopStart ()

abbrev closingSegment : Segment Unit := .loopEnd ()

theorem openingSegment_ne : openingSegment ≠ closingSegment := by decide

abbrev loopsAfter (loops : Loops) (segments : List (Segment Unit)) : Loops :=
  loops.after openingSegment closingSegment segments

/-- Marks the brackets with the numbers of their loops. -/
def numbered : Loops → List (Segment Unit) → List (Segment Nat)
  | _, [] => []
  | loops, .plain action :: rest => .plain action :: numbered loops rest
  | loops, .loopStart _ :: rest => .loopStart loops.count :: numbered loops.enter rest
  | loops, .loopEnd _ :: rest => .loopEnd loops.innermost :: numbered loops.leave rest

theorem numbered_append (loops : Loops) (first second : List (Segment Unit)) :
    numbered loops (first ++ second) =
      numbered loops first ++ numbered (loopsAfter loops first) second := by
  induction first generalizing loops with
  | nil => rfl
  | cons segment rest ih =>
      cases segment with
      | plain action => exact congrArg _ (ih loops)
      | loopStart mark => exact congrArg _ (ih loops.enter)
      | loopEnd mark => exact congrArg _ (ih loops.leave)

theorem map_bare_numbered (loops : Loops) (segments : List (Segment Unit)) :
    (numbered loops segments).map Segment.bare = segments := by
  induction segments generalizing loops with
  | nil => rfl
  | cons segment rest ih =>
      cases segment with
      | plain action => exact congrArg _ (ih loops)
      | loopStart mark => exact congrArg _ (ih loops.enter)
      | loopEnd mark => exact congrArg _ (ih loops.leave)

/-- Both ends of a loop get the number that was next when it was opened. -/
theorem numbered_loop (loops : Loops) (before body behind : List (Segment Unit))
    (hbody : Nested openingSegment closingSegment body) :
    ∃ blocksBefore blocksBody blocksBehind,
      numbered loops (before ++ openingSegment :: body ++ closingSegment :: behind) =
        blocksBefore ++ .loopStart (loops.count + before.count openingSegment) :: blocksBody ++
          .loopEnd (loops.count + before.count openingSegment) :: blocksBehind ∧
      blocksBefore.map Segment.bare = before ∧ blocksBody.map Segment.bare = body ∧
      blocksBehind.map Segment.bare = behind := by
  have hnumber := Loops.count_after openingSegment_ne loops before
  have hinnermost : (loopsAfter (loopsAfter loops before).enter body).innermost =
      loops.count + before.count openingSegment := by
    rw [Loops.innermost, Loops.opened_after_nested openingSegment_ne _ hbody, ← hnumber]
    rfl
  refine ⟨numbered loops before, numbered (loopsAfter loops before).enter body,
    numbered (loopsAfter (loopsAfter loops before).enter body).leave behind, ?_,
    map_bare_numbered _ _, map_bare_numbered _ _, map_bare_numbered _ _⟩
  have hloop : loopsAfter loops (before ++ openingSegment :: body) =
      loopsAfter (loopsAfter loops before).enter body := Loops.after_append _ _ _
  rw [numbered_append, numbered_append, hloop, numbered, numbered, hinnermost, hnumber]

/-! ### Emission -/

def linesOfPlain (program : String) : Plain → List Line
  | .move direction count => moveBlock program direction count
  | .change direction count => changeBlock program direction count
  | .write => writeBlock program
  | .read => readBlock program

def linesOf (program : String) : Segment Nat → List Line
  | .plain action => linesOfPlain program action
  | .loopStart number => loopStartBlock program number
  | .loopEnd number => loopEndBlock number

def textOf (program : String) (segment : Segment Nat) : String :=
  blockText ((linesOf program segment).map Line.render)

namespace Generator

def loops (generator : Generator) : Loops :=
  { opened := generator.openLoops, count := generator.loopCount }

/-- The generator with the text of segments behind its own, and with other
loops. -/
def grown (generator : Generator) (segments : List (Segment Nat)) (loops : Loops) : Generator :=
  { generator with
    blocks := generator.blocks ++ (segments.map (textOf generator.program)).toArray
    openLoops := loops.opened
    loopCount := loops.count }

@[simp] theorem grown_nil (generator : Generator) :
    generator.grown [] generator.loops = generator := by
  simp [grown, loops]

@[simp] theorem grown_grown (generator : Generator) (first second : List (Segment Nat))
    (between loops : Loops) :
    (generator.grown first between).grown second loops = generator.grown (first ++ second) loops := by
  simp [grown, Array.append_assoc]

@[simp] theorem loops_grown (generator : Generator) (segments : List (Segment Nat)) (loops : Loops) :
    (generator.grown segments loops).loops = loops := rfl

def emitSegment (generator : Generator) : Segment Unit → Except CompileError Generator
  | .plain (.move direction count) => .ok (generator.move direction count)
  | .plain (.change direction count) => .ok (generator.change direction count)
  | .plain .write => .ok generator.write
  | .plain .read => .ok generator.read
  | .loopStart _ => .ok generator.openLoop
  | .loopEnd _ => generator.closeLoop

theorem emitSegment_plain (generator : Generator) (action : Plain) :
    generator.emitSegment (.plain action) =
      .ok (generator.grown [.plain action] generator.loops) := by
  cases action <;>
    simp [emitSegment, move, change, write, read, emitLines, emit, grown, loops, textOf, linesOf,
      linesOfPlain]

theorem emitSegment_loopStart (generator : Generator) :
    generator.emitSegment openingSegment =
      .ok (generator.grown [.loopStart generator.loops.count] generator.loops.enter) := by
  simp [emitSegment, openLoop, nextLoop, emitLines, emit, grown, loops, textOf, linesOf,
    Loops.enter]

theorem emitSegment_loopEnd {generator : Generator} {number : Nat} {outer : List Nat}
    (hopened : generator.openLoops = number :: outer) :
    generator.emitSegment closingSegment =
      .ok (generator.grown [.loopEnd generator.loops.innermost] generator.loops.leave) := by
  simp [emitSegment, closeLoop, hopened, emitLines, emit, grown, loops, textOf, linesOf,
    Loops.leave, Loops.innermost]

theorem emitSegment_noOpenLoop {generator : Generator} (hopened : generator.openLoops = []) :
    generator.emitSegment closingSegment = .error .noOpenLoop := by
  simp [emitSegment, closeLoop, hopened]

/-- Segments are emitted in order as long as the scan of their depth succeeds,
and the loops are numbered on the way. -/
theorem foldlM_emitSegment (generator : Generator) (segments : List (Segment Unit)) :
    segments.foldlM emitSegment generator =
      match descend openingSegment closingSegment generator.openLoops.length segments with
      | none => .error .noOpenLoop
      | some _ =>
          .ok (generator.grown (numbered generator.loops segments)
            (loopsAfter generator.loops segments)) := by
  induction segments generalizing generator with
  | nil =>
      rw [List.foldlM_nil, descend_nil, numbered, loopsAfter, Loops.after_nil, grown_nil]
      rfl
  | cons segment rest ih =>
      rw [List.foldlM_cons]
      cases segment with
      | plain action =>
          rw [emitSegment_plain, descend_other (by simp) (by simp)]
          change List.foldlM emitSegment (generator.grown [.plain action] generator.loops) rest = _
          rw [ih, loops_grown, grown_grown]
          rfl
      | loopStart mark =>
          rw [emitSegment_loopStart, descend_opening]
          change List.foldlM emitSegment
            (generator.grown [.loopStart generator.loops.count] generator.loops.enter) rest = _
          rw [ih, loops_grown, grown_grown]
          rfl
      | loopEnd mark =>
          cases hopened : generator.openLoops with
          | nil =>
              rw [emitSegment_noOpenLoop hopened, List.length_nil,
                descend_closing_zero openingSegment_ne]
              rfl
          | cons number outer =>
              rw [emitSegment_loopEnd hopened, List.length_cons,
                descend_closing_succ openingSegment_ne]
              change List.foldlM emitSegment
                (generator.grown [.loopEnd generator.loops.innermost] generator.loops.leave) rest = _
              have hdepth : (generator.grown [.loopEnd generator.loops.innermost]
                  generator.loops.leave).openLoops.length = outer.length := by
                simp [grown, loops, Loops.leave, hopened]
              rw [ih, loops_grown, grown_grown, hdepth]
              rfl

theorem foldlM_replicate_emitSegment {segment : Segment Unit} {emitOne : Generator → Generator}
    (hemit : ∀ generator, emitSegment generator segment = .ok (emitOne generator)) (count : Nat)
    (generator : Generator) :
    (List.replicate count segment).foldlM emitSegment generator =
      .ok (count.repeat emitOne generator) := by
  have hrepeat (count : Nat) (generator : Generator) :
      count.repeat emitOne (emitOne generator) = emitOne (count.repeat emitOne generator) := by
    induction count with
    | zero => rfl
    | succ count ih => rw [Nat.repeat, ih, Nat.repeat]
  induction count generalizing generator with
  | zero => rfl
  | succ count ih =>
      rw [List.replicate_succ, List.foldlM_cons, hemit]
      change List.foldlM emitSegment (emitOne generator) (List.replicate count segment) = _
      rw [ih, hrepeat, Nat.repeat]

theorem closeLoops_eq_foldlM (generator : Generator) (count : Nat) :
    generator.closeLoops count =
      (List.replicate count closingSegment).foldlM emitSegment generator := by
  induction count generalizing generator with
  | zero => rfl
  | succ count ih =>
      rw [List.replicate_succ, List.foldlM_cons, closeLoops]
      simp only [ih]
      rfl

theorem emitRun_eq_foldlM (generator : Generator) (run : Run) :
    generator.emitRun run = (run.segments.map Segment.bare).foldlM emitSegment generator := by
  obtain ⟨command, count, pos⟩ := run
  -- The marks of brackets are the indices of a run; without them its segments are all the same.
  have hmarks (build : Nat → Segment Nat) (segment : Segment Unit)
      (hbare : ∀ mark, (build mark).bare = segment) :
      ((List.range' pos count).map build).map Segment.bare = List.replicate count segment := by
    rw [List.map_map, List.eq_replicate_iff]
    refine ⟨by simp, ?_⟩
    intro item hitem
    obtain ⟨mark, -, rfl⟩ := List.mem_map.mp hitem
    exact hbare mark
  cases command with
  | right => rfl
  | left => rfl
  | increment => rfl
  | decrement => rfl
  | write =>
      rw [Run.segments, List.map_replicate]
      exact (foldlM_replicate_emitSegment (fun _ => rfl) count generator).symm
  | read =>
      rw [Run.segments, List.map_replicate]
      exact (foldlM_replicate_emitSegment (fun _ => rfl) count generator).symm
  | loopStart =>
      rw [Run.segments, hmarks _ openingSegment (fun _ => rfl)]
      exact (foldlM_replicate_emitSegment (fun _ => rfl) count generator).symm
  | loopEnd =>
      rw [Run.segments, hmarks _ closingSegment (fun _ => rfl)]
      exact closeLoops_eq_foldlM generator count

/-- The runs of a source are emitted segment by segment. -/
theorem emitRuns_eq (generator : Generator) (source : List Char) :
    generator.emitRuns (runs source) =
      match descend openingSegment closingSegment generator.openLoops.length
          (bareSegments source) with
      | none => .error .noOpenLoop
      | some _ =>
          .ok (generator.grown (numbered generator.loops (bareSegments source))
            (loopsAfter generator.loops (bareSegments source))) := by
  -- Emission of runs is one fold over the segments of all runs.
  have hflat (runs : List Run) (generator : Generator) :
      runs.foldlM emitRun generator =
        ((runs.flatMap Run.segments).map Segment.bare).foldlM emitSegment generator := by
    induction runs generalizing generator with
    | nil => rfl
    | cons run rest ih =>
        rw [List.foldlM_cons, List.flatMap_cons, List.map_append, List.foldlM_append,
          emitRun_eq_foldlM]
        simp only [ih]
  rw [emitRuns, hflat, ← foldlM_emitSegment]
  rfl

end Generator

end Compiler
end TapeCompiler
