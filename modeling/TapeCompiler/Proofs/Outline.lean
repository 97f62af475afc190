import TapeCompiler.Proofs.Acceptance
import TapeCompiler.Proofs.History

/-!
# Outlines

Of a source text a compile sees the commands and where comments stand between
them, but not what the comments are.  The outline of a text holds just that: the
commands of its runs with their counts, and the command at its very front, if a
command stands there.  It is built from the end of the text, so that a text can
be put in front of an outline.

Two texts with the same outline are compiled to the same code or fail alike;
the reports on refused brackets alone may differ, since they quote the text.
Main statement: `compileSource_agrees`.
-/

namespace TapeCompiler
namespace Source

open Assembly

/-- A run without its place: the command and the count. -/
def Run.shape (run : Run) : Command × Nat :=
  (run.command, run.count)

/-- The runs of a text without their places. -/
def shapes (source : List Char) : List (Command × Nat) :=
  (runs source).map Run.shape

/-- The runs of a text without their places, and the command that the text
starts with, if it starts with one. -/
structure Outline where
  front : Option Command := none
  shapes : List (Command × Nat) := []
deriving DecidableEq, Repr

namespace Outline

/-- The outline with a comment in front. -/
def gap (outline : Outline) : Outline :=
  { outline with front := none }

/-- The outline with a command in front, which joins the first run if no comment
stands between the two. -/
def push (outline : Outline) (command : Command) : Outline :=
  { front := some command
    shapes :=
      if outline.front = some command then
        outline.shapes.modifyHead fun shape => (shape.1, shape.2 + 1)
      else
        (command, 1) :: outline.shapes }

def extend (c : Char) (outline : Outline) : Outline :=
  match Command.ofChar? c with
  | none => outline.gap
  | some command => outline.push command

def onto (text : List Char) (behind : Outline) : Outline :=
  text.foldr extend behind

variable {c : Char} (outline : Outline)

theorem extend_comment (hc : Command.ofChar? c = none) : outline.extend c = outline.gap := by
  rw [extend, hc]

theorem extend_command {command : Command} (hc : Command.ofChar? c = some command) :
    outline.extend c = outline.push command := by
  rw [extend, hc]

@[simp] theorem onto_cons (text : List Char) :
    onto (c :: text) outline = (onto text outline).extend c := rfl

end Outline

/-- The outline of a text shows its runs, and its front is the text's first
character. -/
theorem onto_runsFrom (start : Nat) (source : List Char) :
    (Outline.onto source {}).shapes = (runsFrom start source).map Run.shape ∧
      (Outline.onto source {}).front = source.head?.bind Command.ofChar? := by
  induction source generalizing start with
  | nil => exact ⟨rfl, rfl⟩
  | cons c rest ih =>
      obtain ⟨hshapes, hfront⟩ := ih (start + 1)
      rw [Outline.onto_cons, List.head?_cons, Option.bind_some]
      cases hc : Command.ofChar? c with
      | none =>
          rw [Outline.extend_comment _ hc, runsFrom_comment hc]
          exact ⟨hshapes, rfl⟩
      | some command =>
          rw [Outline.extend_command _ hc]
          refine ⟨?_, rfl⟩
          rw [Outline.push, hfront, hshapes]
          rcases runsFrom_command hc start rest with
            ⟨hhead, count, behind, hbehind, hruns⟩ | ⟨hhead, hruns⟩
          · rw [hhead, Option.bind_some, if_pos hc, hbehind, hruns]
            rfl
          · have hstarts : rest.head?.bind Command.ofChar? ≠ some command := by
              intro hjoins
              obtain ⟨next, hnext, hcommand⟩ := Option.bind_eq_some_iff.mp hjoins
              rw [Command.ofChar?_eq_some_iff.mp hcommand,
                ← Command.ofChar?_eq_some_iff.mp hc] at hnext
              exact hhead hnext
            dsimp only
            rw [if_neg hstarts, hruns]
            rfl

theorem shapes_eq (source : List Char) : shapes source = (Outline.onto source {}).shapes :=
  (onto_runsFrom 0 source).1.symm

/-! ### What the shapes tell -/

theorem Run.flatMap_commands_segments (run : Run) :
    run.segments.flatMap Segment.commands = List.replicate run.count run.command := by
  obtain ⟨command, count, pos⟩ := run
  rcases command.fused_or_single with ⟨fuse, hfuse⟩ | hsingle
  · rw [Run.segments_fused hfuse, List.flatMap_singleton]
    exact Command.commands_fused hfuse count
  · induction count generalizing pos with
    | zero =>
        obtain ⟨segment, hsegment⟩ := hsingle pos
        rw [Run.segments_single_zero hsegment]
        rfl
    | succ count ih =>
        obtain ⟨segment, hsegment⟩ := hsingle pos
        rw [Run.segments_single hsegment, List.flatMap_cons, Command.commands_single hsegment,
          ih (pos + 1)]
        rfl

/-- The commands of a text are those of its runs. -/
theorem commands_eq_shapes (source : List Char) :
    commands source = (shapes source).flatMap fun shape => List.replicate shape.2 shape.1 := by
  rw [← flatMap_commands_segmentsFrom 0 source, segmentsFrom_zero, segments, List.flatMap_assoc,
    shapes, List.flatMap_map]
  simp only [Run.flatMap_commands_segments, Run.shape]

theorem count_commands_eq (command : Command) (source : List Char) :
    (commands source).count command = source.count command.toChar := by
  induction source with
  | nil => rfl
  | cons c rest ih =>
      cases hc : Command.ofChar? c with
      | none =>
          have hne : c ≠ command.toChar := by
            rintro rfl
            rw [Command.ofChar?_toChar] at hc
            cases hc
          rw [commands, List.filterMap_cons_none hc, ← commands, ih, List.count_cons_of_ne hne]
      | some other =>
          rw [commands, List.filterMap_cons_some hc, ← commands, List.count_cons, List.count_cons,
            ih, Command.ofChar?_eq_some_iff.mp hc]
          cases other <;> cases command <;> rfl

section SameShapes

variable {first second : List Char} (hshapes : shapes first = shapes second)
include hshapes

/-- The shapes of a text tell whether its brackets are nested. -/
theorem nested_iff_of_shapes : Nested '[' ']' first ↔ Nested '[' ']' second := by
  rw [nested_iff_descend bracket_ne, nested_iff_descend bracket_ne, ← descend_commands,
    ← descend_commands, commands_eq_shapes, commands_eq_shapes, hshapes]

/-- The shapes of a text tell whether its brackets pass a check. -/
theorem checkBrackets_iff_of_shapes (strict : Bool) :
    checkBrackets strict first = .ok () ↔ checkBrackets strict second = .ok () := by
  cases strict with
  | true =>
      rw [checkBrackets, if_pos rfl, checkBrackets, if_pos rfl, checkNesting_eq_ok_iff,
        checkNesting_eq_ok_iff, nested_iff_of_shapes hshapes]
  | false =>
      have hcount (command : Command) :
          first.count command.toChar = second.count command.toChar := by
        rw [← count_commands_eq, ← count_commands_eq, commands_eq_shapes, commands_eq_shapes,
          hshapes]
      change checkCounts first = .ok () ↔ checkCounts second = .ok ()
      rw [checkCounts_eq_ok_iff, checkCounts_eq_ok_iff]
      exact iff_of_eq (congrArg₂ Eq (hcount .loopStart) (hcount .loopEnd))

end SameShapes

end Source

namespace Compiler

open Effects Source

/-- Compile errors of one kind: the same error, or two reports on refused
brackets, which quote the text and may differ. -/
def CompileError.Alike (first second : CompileError) : Prop :=
  first = second ∨ ∃ one other, first = .refused one ∧ second = .refused other

/-- Compiled sources that differ at most in where the runs stand. -/
structure Compilation.Alike (first second : Compilation) : Prop where
  assembly : first.assembly = second.assembly
  body : first.body = second.body
  program : first.program = second.program
  runs : first.runs.map Run.shape = second.runs.map Run.shape
  loopCount : first.loopCount = second.loopCount

/-- Emission does not look at the places of runs. -/
theorem Generator.emitRuns_eq_shapes (generator : Generator) (runs : List Run) :
    generator.emitRuns runs =
      (runs.map Run.shape).foldlM (fun generator shape => generator.emitRun ⟨shape.1, shape.2, 0⟩)
        generator := by
  rw [List.foldlM_map]
  rfl

theorem Session.generateRuns_eq_of_shapes {one other : List Run}
    (hruns : one.map Run.shape = other.map Run.shape) (program : String) :
    generateRuns program one = generateRuns program other := by
  rw [generateRuns, generateRuns, Generator.emitRuns_eq_shapes, Generator.emitRuns_eq_shapes,
    hruns]

section SameShapes

variable {first second : String} (hshapes : shapes first.toList = shapes second.toList)
include hshapes

theorem scan_agrees (strict : Bool) :
    Agree (fun one other => one.map Run.shape = other.map Run.shape) CompileError.Alike
      (scan strict first) (scan strict second) := by
  have hcheck := checkBrackets_iff_of_shapes hshapes strict
  rw [scan, scan]
  cases hfirst : checkBrackets strict first.toList with
  | ok =>
      rw [hcheck.mp hfirst]
      exact hshapes
  | error fault =>
      cases hsecond : checkBrackets strict second.toList with
      | ok =>
          rw [hcheck.mpr hsecond] at hfirst
          cases hfirst
      | error other => exact .inr ⟨_, _, rfl, rfl⟩

theorem generate_agrees (program : String) (strict : Bool) :
    Agree (fun one other => one.1 = other.1 ∧ one.2.map Run.shape = other.2.map Run.shape)
      CompileError.Alike (Session.generate program strict first)
      (Session.generate program strict second) := by
  apply (scan_agrees hshapes strict).bind
  intro one other hruns
  rw [Session.generateRuns_eq_of_shapes hruns]
  cases Session.generateRuns program other with
  | error error => exact .inl rfl
  | ok generator => exact ⟨rfl, hruns⟩

end SameShapes

/-- Compiling a source is generating its code and putting the program around
it. -/
theorem compileSource_eq_generate (options : Options) (source : String) :
    (compileSource options source).1 =
      (do
        let last ← Session.generate options.programName options.strict source
        let assembly ← Session.wrapped last.1.body last.1.program options.tapeSize
        return {
          assembly
          body := last.1.body
          program := options.programName
          runs := last.2
          loopCount := last.1.loopCount }) := by
  have hnew := (Session.new options.programName options.strict
    options.tapeSize).compile_eq_generate source
  change _ = Except.map _ (Session.generate options.programName options.strict source) ∧
    _ = Session.finished _ (Session.generate options.programName options.strict source) at hnew
  obtain ⟨hresult, hsession⟩ := hnew
  dsimp only [compileSource]
  rw [hresult, hsession]
  cases Session.generate options.programName options.strict source <;> rfl

theorem runs_of_compileSource {options : Options} {source : String} {compilation : Compilation}
    (hcompiled : (compileSource options source).1 = .ok compilation) :
    compilation.runs = Source.runs source.toList := by
  rw [(compileSource_eq_ok_iff.mp hcompiled).2.2, compilationOf]

/-- Sources with the same shapes are compiled to the same code, or fail alike. -/
theorem compileSource_agrees {first second : String}
    (hshapes : shapes first.toList = shapes second.toList) (options : Options) :
    Agree Compilation.Alike CompileError.Alike (compileSource options first).1
      (compileSource options second).1 := by
  rw [compileSource_eq_generate, compileSource_eq_generate]
  apply (generate_agrees hshapes options.programName options.strict).bind
  rintro ⟨generator, one⟩ ⟨_, other⟩ ⟨rfl, hruns⟩
  dsimp only at hruns ⊢
  cases Session.wrapped generator.body generator.program options.tapeSize with
  | error error => exact .inl rfl
  | ok assembly => exact ⟨rfl, rfl, rfl, hruns, rfl⟩

end Compiler
end TapeCompiler
