import TapeCompiler.Cli.Command
import TapeCompiler.Proofs.BigStep
import TapeCompiler.Proofs.Outline
import TapeCompiler.Proofs.Tasks

/-!
# Running a source from the command line

A call that runs its source goes through stages: it finds the source file, reads
it, compiles its text, looks at the tape size, and simulates the body.  The
first stage that fails decides what is reported; if none fails, the output of
the program is printed and nothing else.  No stage changes a file.

`Arguments.Succeeds` and `Arguments.Fails` say what the stages come to.  The main
statement is `command_run_reports`.  It needs that the command line cannot also
ask for the assembly text, which is an invariant of reading the arguments.
-/

namespace TapeCompiler
namespace Compiler

open Source

/-- A compile of a text gives the body that a new session gives, if the tape has a
cell. -/
theorem body_compileSource (options : Options) (source : String) :
    (compileSource options source).1.map Compilation.body = (do
      let session := Session.new options.programName options.strict options.tapeSize
      let body ← (session.compile source).result
      if 0 < options.tapeSize then .ok body
      else .error (.tapeSizeNotPositive options.tapeSize)) := by
  have hresult : ((Session.new options.programName options.strict options.tapeSize).compile
      source).result =
        (Session.generate options.programName options.strict source).map (·.1.body) :=
    (Session.compile_eq_generate _ source).1
  dsimp only
  rw [compileSource_eq_generate, hresult]
  cases Session.generate options.programName options.strict source with
  | error error => rfl
  | ok last =>
      simp only [Except.map, Effects.ok_bind, Session.wrapped, Assembly.frame?]
      by_cases hpositive : 0 < options.tapeSize
      · rw [if_pos hpositive, if_pos hpositive]
        rfl
      · rw [if_neg hpositive, if_neg hpositive]
        rfl

theorem programName_named {name : String} (hname : name ≠ "") (strict : Bool) (size : Int) :
    (Options.mk (some name) strict size).programName = name :=
  if_neg hname

/-- A source that passes its check and is not properly nested is refused in
generation. -/
theorem Session.compile_of_misnested {session : Session} {source : String}
    (hcheck : checkBrackets session.strict source.toList = .ok ())
    (hnested : ¬ Nested '[' ']' source.toList) :
    (session.compile source).result = .error .noOpenLoop := by
  cases hstrict : session.strict with
  | true =>
      rw [hstrict] at hcheck
      exact absurd ((checkNesting_eq_ok_iff _).mp hcheck) hnested
  | false =>
      refine compile_of_not_nested hcheck ?_ hnested
      rw [hstrict] at hcheck
      exact (checkCounts_eq_ok_iff _).mp hcheck

end Compiler

theorem Workspace.Path.programName_ne_empty (path : Workspace.Path) : path.programName ≠ "" := by
  rw [programName, Assembly.identifierOf]
  split
  · decide
  · intro hempty
    have hlist := congrArg String.toList hempty
    rw [String.toList_ofList] at hlist
    split at hlist <;> cases hlist

namespace Cli

open Workspace Source

/-! ### Asking for one mode only -/

/-- Not both the assembly text and a run are asked for. -/
def Choices.Exclusive (choices : Choices) : Prop :=
  ¬ (choices.emit = true ∧ choices.run = true)

section Exclusive

theorem Choices.Exclusive.choose {choices after : Choices} (hexclusive : choices.Exclusive)
    {setting : Setting} (hchoose : choices.choose setting = .ok after) : after.Exclusive := by
  cases setting with
  | emit =>
      rw [Choices.choose] at hchoose
      split at hchoose
      · cases hchoose
      · rename_i hrun
        cases hchoose
        exact fun hboth => hrun hboth.2
  | run =>
      rw [Choices.choose] at hchoose
      split at hchoose
      · cases hchoose
      · rename_i hemit
        cases hchoose
        exact fun hboth => hemit hboth.1
  | help => cases hchoose
  | _ =>
      cases hchoose
      exact hexclusive

theorem Choices.Exclusive.assign {choices after : Choices} (hexclusive : choices.Exclusive)
    {setting : Setting} {value : String} (hassign : choices.assign setting value = .ok after) :
    after.Exclusive := by
  unfold Choices.assign at hassign
  cases setting with
  | tapeSize =>
      dsimp only at hassign
      split at hassign
      · cases hassign
        exact hexclusive
      · split at hassign
        · cases hassign
          exact hexclusive
        · cases hassign
  | _ =>
      cases hassign
      exact hexclusive

theorem Choices.Exclusive.foldlM {settings : List Setting} {choices after : Choices}
    (hexclusive : choices.Exclusive)
    (hchosen : settings.foldlM Choices.choose choices = .ok after) : after.Exclusive := by
  induction settings generalizing choices with
  | nil =>
      cases hchosen
      exact hexclusive
  | cons setting rest ih =>
      rw [List.foldlM_cons] at hchosen
      obtain ⟨next, hnext, hrest⟩ := Effects.bind_eq_ok hchosen
      exact ih (hexclusive.choose hnext) hrest

namespace Progress

variable {progress after : Progress} (hexclusive : progress.choices.Exclusive)
include hexclusive

theorem exclusive_takeFlags {settings : List Setting}
    (htake : progress.takeFlags settings = .ok after) : after.choices.Exclusive := by
  obtain ⟨choices, hchoices, hafter⟩ := Effects.bind_eq_ok htake
  cases hafter
  exact hexclusive.foldlM hchoices

theorem exclusive_takeValue {setting : Setting} {value : String}
    (htake : progress.takeValue setting value = .ok after) : after.choices.Exclusive := by
  obtain ⟨choices, hchoices, hafter⟩ := Effects.bind_eq_ok htake
  cases hafter
  exact hexclusive.assign hchoices

theorem exclusive_takeOption {occurrence : Occurrence}
    (htake : progress.takeOption occurrence = .ok after) : after.choices.Exclusive := by
  rw [takeOption] at htake
  split at htake
  · exact exclusive_takeValue hexclusive htake
  · cases htake
    exact hexclusive
  · exact exclusive_takeFlags hexclusive htake
  · split at htake
    · split at htake
      · exact exclusive_takeFlags hexclusive htake
      · cases htake
    · cases htake

theorem exclusive_take {argument : String} {reading : Reading} {atEnd : Bool}
    (htake : progress.take argument reading atEnd = .ok after) : after.choices.Exclusive := by
  unfold take at htake
  split at htake
  · exact exclusive_takeValue hexclusive htake
  · cases htake
  · cases htake
    rw [takePlain]
    split <;> exact hexclusive
  · cases htake
    rw [takeSeparator]
    split <;> exact hexclusive
  · exact exclusive_takeOption hexclusive htake
  · cases htake
    exact hexclusive

theorem exclusive_takeAll {readings : List (String × Reading)}
    (htake : progress.takeAll readings = .ok after) : after.choices.Exclusive := by
  induction readings generalizing progress with
  | nil =>
      cases htake
      exact hexclusive
  | cons entry rest ih =>
      obtain ⟨next, hnext, hrest⟩ := Effects.bind_eq_ok htake
      exact ih (exclusive_take hexclusive hnext) hrest

end Progress

/-- The choices of a command line that is understood are those that its second
pass has come to. -/
theorem exists_progress_of_read {arguments : List String} {understood : Arguments}
    (hread : Arguments.read arguments = .ok understood) :
    ∃ readings progress, Progress.takeAll {} readings = .ok progress ∧
      understood.choices = progress.choices := by
  rw [Arguments.read] at hread
  cases hreadings : classifyAll arguments with
  | error error =>
      rw [hreadings] at hread
      cases hread
  | ok readings =>
      rw [hreadings] at hread
      obtain ⟨_, ⟨⟩, hread⟩ := Effects.bind_eq_ok hread
      obtain ⟨progress, hprogress, hread⟩ := Effects.bind_eq_ok hread
      refine ⟨readings, progress, hprogress, ?_⟩
      dsimp only at hread
      split at hread
      · cases hread
      · split at hread
        · cases hread
        · split at hread
          · cases hread
            rfl
          · cases hread

/-- A command line that is understood asks for one mode at most. -/
theorem exclusive_of_read {arguments : List String} {understood : Arguments}
    (hread : Arguments.read arguments = .ok understood) : understood.choices.Exclusive := by
  obtain ⟨readings, progress, hprogress, hchoices⟩ := exists_progress_of_read hread
  have hnone : Choices.Exclusive {} := by simp [Choices.Exclusive]
  rw [hchoices]
  exact Progress.exclusive_takeAll hnone hprogress

end Exclusive

/-! ### The stages of a run -/

namespace Arguments

section Stages

variable (arguments : Arguments) (bench : Workbench)

/-- The file that the source of a call is in, and the text that it holds. -/
def Reads (file : Path) (text : String) : Prop :=
  ((resolveSource (.ofString arguments.source)).run bench).1 = .ok file ∧
    ((readSource file defaultEncoding).run bench).1 = .ok text

/-- The compiler that a call uses for a file. -/
def session (file : Path) : Compiler.Session :=
  .new file.programName arguments.choices.strict
    (arguments.choices.tapeSize.getD Assembly.defaultTapeSize)

/-- The source of a call is read and compiled to a body. -/
def Compiles (body : String) : Prop :=
  ∃ file text, arguments.Reads bench file text ∧
    ((arguments.session file).compile text).result = .ok body

/-- The source of a call is read and refused by the bracket check. -/
def Refused (diagnostic : Diagnostic) : Prop :=
  ∃ file text fault, arguments.Reads bench file text ∧
    checkBrackets arguments.choices.strict text.toList = .error fault ∧
    diagnostic = fault.diagnostic text.toList

/-- The source of a call is compiled, and its run on a tape of the chosen size
returns with an output. -/
def Succeeds (input output : String) : Prop :=
  ∃ body size state, arguments.Compiles bench body ∧
    arguments.choices.tapeSize = some size ∧ 0 < size ∧ Machine.State.new size = .ok state ∧
    (state.run Machine.defaultStepLimit body input).fault = none ∧
    output = outputText (state.run Machine.defaultStepLimit body input).state.output

/-- Why a run fails other than by refused brackets.  The stages come in this
order, and each stands behind those before it. -/
inductive Fails (input : String) : CommandError → Prop
  | unresolved {failure : Failure}
      (hfile : ((resolveSource (.ofString arguments.source)).run bench).1 = .error failure) :
      Fails input (.work failure)
  | unread {file : Path} {failure : Failure}
      (hfile : ((resolveSource (.ofString arguments.source)).run bench).1 = .ok file)
      (htext : ((readSource file defaultEncoding).run bench).1 = .error failure) :
      Fails input (.work failure)
  | misnested {file : Path} {text : String} (hreads : arguments.Reads bench file text)
      (hcheck : checkBrackets arguments.choices.strict text.toList = .ok ())
      (hnested : ¬ Nested '[' ']' text.toList) :
      Fails input (.work (.compile .noOpenLoop))
  | noTapeSize {body : String} (hcompiles : arguments.Compiles bench body)
      (hsize : arguments.choices.tapeSize = none) :
      Fails input .noTapeSize
  | tapeSizeNotPositive {body : String} {size : Int} (hcompiles : arguments.Compiles bench body)
      (hsize : arguments.choices.tapeSize = some size) (hpositive : ¬ 0 < size) :
      Fails input (.work (.compile (.tapeSizeNotPositive size)))
  | noTape {body : String} {size : Int} {error : Machine.TapeSizeError}
      (hcompiles : arguments.Compiles bench body)
      (hsize : arguments.choices.tapeSize = some size) (hpositive : 0 < size)
      (hstate : Machine.State.new size = .error error) :
      Fails input (.noTape error)
  | fault {body : String} {size : Int} {state : Machine.State} {cause : Machine.Fault} {pc : Nat}
      (hcompiles : arguments.Compiles bench body)
      (hsize : arguments.choices.tapeSize = some size) (hpositive : 0 < size)
      (hstate : Machine.State.new size = .ok state)
      (hfault : (state.run Machine.defaultStepLimit body input).fault = some (cause, pc)) :
      Fails input (.fault cause)

/-- What the run of a compiled body comes to. -/
def executed (body input : String) : Except CommandError String :=
  match arguments.choices.tapeSize with
  | none => .error .noTapeSize
  | some size =>
      if 0 < size then simulate body size input
      else .error (.work (.compile (.tapeSizeNotPositive size)))

/-- What a call comes to, stage by stage. -/
def outcome (input : String) : Except CommandError String := do
  let file ← ((resolveSource (.ofString arguments.source)).run bench).1.mapError .work
  let text ← ((readSource file defaultEncoding).run bench).1.mapError .work
  let body ← ((arguments.session file).compile text).result.mapError fun error =>
    .work (.compile error)
  arguments.executed body input

end Stages

variable {arguments : Arguments} {bench : Workbench} {input : String}

theorem outcome_of_reads {file : Path} {text : String} (hreads : arguments.Reads bench file text) :
    arguments.outcome bench input = (do
      let body ← ((arguments.session file).compile text).result.mapError fun error =>
        .work (.compile error)
      arguments.executed body input) := by
  simp only [outcome, hreads.1, hreads.2, Effects.ok_mapError, Effects.ok_bind]

theorem outcome_of_compiles {body : String} (hcompiles : arguments.Compiles bench body) :
    arguments.outcome bench input = arguments.executed body input := by
  obtain ⟨file, text, hreads, hbody⟩ := hcompiles
  rw [outcome_of_reads hreads, hbody]
  rfl

theorem outcome_of_refused {diagnostic : Diagnostic}
    (hrefused : arguments.Refused bench diagnostic) :
    arguments.outcome bench input = .error (.work (.compile (.refused diagnostic))) := by
  obtain ⟨file, text, fault, hreads, hcheck, rfl⟩ := hrefused
  have hresult := Compiler.Session.compile_of_fault
    (show checkBrackets (arguments.session file).strict text.toList = _ from hcheck)
  rw [outcome_of_reads hreads, hresult]
  rfl

theorem outcome_of_succeeds {output : String} (hsucceeds : arguments.Succeeds bench input output) :
    arguments.outcome bench input = .ok output := by
  obtain ⟨body, size, state, hcompiles, hsize, hpositive, hstate, hreturned, rfl⟩ := hsucceeds
  rw [outcome_of_compiles hcompiles, executed, hsize]
  dsimp only
  rw [if_pos hpositive, simulate, hstate]
  dsimp only
  rw [hreturned]

theorem outcome_of_fails {error : CommandError} (hfails : arguments.Fails bench input error) :
    arguments.outcome bench input = .error error := by
  cases hfails with
  | unresolved hfile =>
      rw [outcome, hfile]
      rfl
  | unread hfile htext =>
      simp only [outcome, hfile, htext, Effects.ok_mapError, Effects.ok_bind]
      rfl
  | @misnested file text hreads hcheck hnested =>
      have hresult := Compiler.Session.compile_of_misnested
        (show checkBrackets (arguments.session file).strict text.toList = _ from hcheck) hnested
      rw [outcome_of_reads hreads, hresult]
      rfl
  | noTapeSize hcompiles hsize => rw [outcome_of_compiles hcompiles, executed, hsize]
  | tapeSizeNotPositive hcompiles hsize hpositive =>
      rw [outcome_of_compiles hcompiles, executed, hsize]
      exact if_neg hpositive
  | noTape hcompiles hsize hpositive hstate =>
      rw [outcome_of_compiles hcompiles, executed, hsize]
      dsimp only
      rw [if_pos hpositive, simulate, hstate]
  | fault hcompiles hsize hpositive hstate hfault =>
      rw [outcome_of_compiles hcompiles, executed, hsize]
      dsimp only
      rw [if_pos hpositive, simulate, hstate]
      dsimp only
      rw [hfault]

/-- A compiled body runs to an output or fails. -/
theorem Compiles.succeeds_or_fails {body : String} (hcompiles : arguments.Compiles bench body)
    (input : String) :
    (∃ output, arguments.Succeeds bench input output) ∨
      ∃ error, arguments.Fails bench input error := by
  cases hsize : arguments.choices.tapeSize with
  | none => exact .inr ⟨_, .noTapeSize hcompiles hsize⟩
  | some size =>
      by_cases hpositive : 0 < size
      · cases hstate : Machine.State.new size with
        | error error => exact .inr ⟨_, .noTape hcompiles hsize hpositive hstate⟩
        | ok state =>
            cases hfault : (state.run Machine.defaultStepLimit body input).fault with
            | none =>
                exact .inl ⟨_, body, size, state, hcompiles, hsize, hpositive, hstate, hfault, rfl⟩
            | some fault => exact .inr ⟨_, .fault hcompiles hsize hpositive hstate hfault⟩
      · exact .inr ⟨_, .tapeSizeNotPositive hcompiles hsize hpositive⟩

/-- Every call that runs its source succeeds, is refused or fails at one of its
stages. -/
theorem succeeds_or_refused_or_fails (arguments : Arguments) (bench : Workbench) (input : String) :
    (∃ output, arguments.Succeeds bench input output) ∨
      (∃ diagnostic, arguments.Refused bench diagnostic) ∨
      ∃ error, arguments.Fails bench input error := by
  cases hfile : ((resolveSource (.ofString arguments.source)).run bench).1 with
  | error failure => exact .inr (.inr ⟨_, .unresolved hfile⟩)
  | ok file =>
      cases htext : ((readSource file defaultEncoding).run bench).1 with
      | error failure => exact .inr (.inr ⟨_, .unread hfile htext⟩)
      | ok text =>
          have hreads : arguments.Reads bench file text := ⟨hfile, htext⟩
          cases hcheck : checkBrackets arguments.choices.strict text.toList with
          | error fault => exact .inr (.inl ⟨_, file, text, fault, hreads, hcheck, rfl⟩)
          | ok =>
              by_cases hnested : Nested '[' ']' text.toList
              · have hcompiles : arguments.Compiles bench _ :=
                  ⟨file, text, hreads,
                    ((arguments.session file).compile_of_nested hcheck hnested).1⟩
                exact (hcompiles.succeeds_or_fails input).imp_right .inr
              · exact .inr (.inr ⟨_, .misnested hreads hcheck hnested⟩)

/-- No failure other than refused brackets is reported as one. -/
theorem Fails.report_eq {error : CommandError} (hfails : arguments.Fails bench input error) :
    error.report = "Error: " ++ error.message ++ "\n" := by
  have hother (failure : Failure) (hfailure : ∀ cause, failure ≠ .compile cause) :
      (CommandError.work failure).report =
        "Error: " ++ (CommandError.work failure).message ++ "\n" := by
    cases failure with
    | compile cause => exact absurd rfl (hfailure cause)
    | _ => rfl
  cases hfails with
  | unresolved hfile =>
      refine hother _ fun cause hcause => ?_
      rw [hcause] at hfile
      exact avoids_resolveSource (not_isAccess_compile cause) _ bench hfile
  | unread hfile htext =>
      refine hother _ fun cause hcause => ?_
      rw [hcause] at htext
      exact avoids_readSource (not_isAccess_compile cause) _ _ bench htext
  | _ => rfl

end Arguments

/-! ### The call -/

theorem Choices.options_named (choices : Choices) (size : Int) (name : String) :
    { (choices.options size).toOptions with
      program := some ((choices.options size).program.getD name) } =
      Compiler.Options.mk (some name) choices.strict size := rfl

/-- Goes on with the body of a compiled source. -/
def withBody (next : String → Except CommandError String)
    (compiled : Except Failure Compiler.Compilation) : Except CommandError String :=
  (compiled.map Compiler.Compilation.body).mapError .work >>= next

theorem withBody_mapError (next : String → Except CommandError String)
    (compiled : Except Compiler.CompileError Compiler.Compilation) :
    withBody next (compiled.mapError .compile) =
      ((compiled.map Compiler.Compilation.body).mapError fun error => .work (.compile error)) >>=
        next := by
  cases compiled <;> rfl

/-- A call compiles its source under the name of the file, and goes on with the
body if there is a tape for it. -/
theorem withBody_compileFile (arguments : Arguments) (bench : Workbench)
    (next : String → Except CommandError String) {size : Int}
    (hsize : arguments.choices.tapeSize.getD Assembly.defaultTapeSize = size) :
    withBody next ((compileFile (.ofString arguments.source)
        (arguments.choices.options size).toOptions defaultEncoding).run bench).1 =
      (do
        let file ← ((resolveSource (.ofString arguments.source)).run bench).1.mapError .work
        let text ← ((readSource file defaultEncoding).run bench).1.mapError .work
        let body ← ((arguments.session file).compile text).result.mapError fun error =>
          .work (.compile error)
        if 0 < size then next body else .error (.work (.compile (.tapeSizeNotPositive size)))) := by
  rw [(run_compileFile _ _ _ bench).1]
  cases ((resolveSource (.ofString arguments.source)).run bench).1 with
  | error failure => rfl
  | ok file =>
      simp only [Effects.ok_mapError, Effects.ok_bind]
      cases ((readSource file defaultEncoding).run bench).1 with
      | error failure => rfl
      | ok text =>
          simp only [Effects.ok_mapError, Effects.ok_bind]
          have hsession : Compiler.Session.new file.programName arguments.choices.strict size =
              arguments.session file := by
            rw [Arguments.session, hsize]
          rw [withBody_mapError, Choices.options_named, Compiler.body_compileSource,
            Compiler.programName_named file.programName_ne_empty]
          dsimp only
          rw [hsession]
          cases ((arguments.session file).compile text).result with
          | error error => rfl
          | ok body =>
              simp only [Effects.ok_mapError, Effects.ok_bind]
              by_cases hpositive : 0 < size
              · rw [if_pos hpositive, if_pos hpositive]
                rfl
              · rw [if_neg hpositive, if_neg hpositive]
                rfl

def Choices.reportOn (choices : Choices) (log : List LogRecord) :
    Except CommandError String → Report
  | .ok text =>
      { status := 0
        stdout := (if choices.emit || choices.run then "" else banner) ++ text
        stderr := if choices.verbose then logText log else "" }
  | .error error =>
      { status := 1
        stdout := (if choices.emit || choices.run then "" else banner) ++ error.report
        stderr := if choices.verbose then logText log else "" }

/-- In front of what a run prints there is no banner. -/
theorem Choices.reportOn_eq {choices : Choices} (hrun : choices.run = true) (log : List LogRecord) :
    (∀ output, (choices.reportOn log (.ok output)).status = 0 ∧
        (choices.reportOn log (.ok output)).stdout = output) ∧
      ∀ error, (choices.reportOn log (.error error)).status = 1 ∧
        (choices.reportOn log (.error error)).stdout = error.report := by
  simp [reportOn, hrun]

/-- What a call does, with its tape size or without one. -/
def Arguments.performed (arguments : Arguments) (input : String) :
    StateM Workbench (Except CommandError String) :=
  match arguments.choices.tapeSize with
  | some size => perform (.ofString arguments.source) arguments.choices size input
  | none => performWithoutSize (.ofString arguments.source) arguments.choices

theorem run_carryOut (arguments : Arguments) (input : String) (bench : Workbench) :
    (carryOut arguments input).run bench =
      let performed := (arguments.performed input).run { bench with log := [] }
      (arguments.choices.reportOn performed.2.log performed.1, performed.2) := by
  have hreport (task : StateM Workbench (Except CommandError String)) (ready : Workbench) :
      (do
        let result ← task
        let log := (← get).log
        match result with
        | .ok text => return arguments.choices.reportOn log (.ok text)
        | .error error => return arguments.choices.reportOn log (.error error) :
          StateM Workbench Report).run ready =
        (arguments.choices.reportOn (task.run ready).2.log (task.run ready).1,
          (task.run ready).2) := by
    rw [StateT.run_bind]
    change StateT.run _ (task.run ready).2 = _
    rcases task.run ready with ⟨_ | _, after⟩ <;> rfl
  -- What is done before the report stays closed: the report does not depend on it.
  unfold carryOut Arguments.performed
  dsimp only
  cases arguments.choices.tapeSize with
  | some size =>
      dsimp only
      generalize perform (.ofString arguments.source) arguments.choices size input = task
      exact hreport task { bench with log := [] }
  | none =>
      dsimp only
      generalize performWithoutSize (.ofString arguments.source) arguments.choices = task
      exact hreport task { bench with log := [] }

/-- What a run comes to depends on the store only. -/
theorem Arguments.outcome_eq {bench ready : Workbench} (hstore : ready.store = bench.store)
    (arguments : Arguments) (input : String) :
    arguments.outcome ready input = arguments.outcome bench input := by
  rw [outcome, outcome, resolveSource_eq hstore]
  simp only [readSource_eq hstore]

section Performed

variable {arguments : Arguments} (hrun : arguments.choices.run = true)
  (hexclusive : arguments.choices.Exclusive) (input : String) (bench : Workbench)
include hrun hexclusive

/-- When a run is asked for, the source is compiled and its body simulated. -/
theorem run_perform (size : Int) :
    (perform (.ofString arguments.source) arguments.choices size input).run bench =
      let compiled := (compileFile (.ofString arguments.source)
        (arguments.choices.options size).toOptions defaultEncoding).run bench
      (withBody (simulate · size input) compiled.1, compiled.2) := by
  have hemit : ¬ arguments.choices.emit = true := fun hemit => hexclusive ⟨hemit, hrun⟩
  rw [perform, if_neg hemit, if_pos hrun]
  exact Effects.run_result_bind _ (fun result => by cases result <;> rfl) bench

omit hrun hexclusive in
/-- Without a tape size the source is compiled, and its body is of no use. -/
theorem run_performWithoutSize :
    (performWithoutSize (.ofString arguments.source) arguments.choices).run bench =
      let compiled := (compileFile (.ofString arguments.source)
        (arguments.choices.options Assembly.defaultTapeSize).toOptions defaultEncoding).run bench
      (withBody (fun _ => .error .noTapeSize) compiled.1, compiled.2) := by
  rw [performWithoutSize]
  exact Effects.run_result_bind _ (fun result => by cases result <;> rfl) bench

/-- A call that runs its source comes to the outcome of its stages, and keeps the
files and the environment. -/
theorem run_performed :
    let performed := (arguments.performed input).run bench
    performed.1 = arguments.outcome bench input ∧
      performed.2.store = bench.store ∧ performed.2.environment = bench.environment := by
  unfold Arguments.performed
  have hkeeps (size : Int) := (run_compileFile (.ofString arguments.source)
    (arguments.choices.options size).toOptions defaultEncoding bench).2
  cases hsize : arguments.choices.tapeSize with
  | some size =>
      dsimp only
      rw [run_perform hrun hexclusive]
      dsimp only
      refine ⟨?_, hkeeps size⟩
      rw [withBody_compileFile arguments bench _ (by rw [hsize, Option.getD_some])]
      simp only [Arguments.outcome, Arguments.executed, hsize]
  | none =>
      dsimp only
      rw [run_performWithoutSize]
      dsimp only
      refine ⟨?_, hkeeps Assembly.defaultTapeSize⟩
      rw [withBody_compileFile arguments bench _ (by rw [hsize, Option.getD_none])]
      simp only [Arguments.outcome, Arguments.executed, hsize,
        if_pos (show 0 < Assembly.defaultTapeSize by decide)]

/-- A call that runs its source reports on the outcome of its stages, and keeps
the files and the environment. -/
theorem carryOut_reports :
    let done := (carryOut arguments input).run bench
    (∃ log, done.1 = arguments.choices.reportOn log (arguments.outcome bench input)) ∧
      done.2.store = bench.store ∧ done.2.environment = bench.environment := by
  obtain ⟨hresult, hstore, henvironment⟩ :=
    run_performed hrun hexclusive input { bench with log := [] }
  rw [Arguments.outcome_eq (show { bench with log := [] }.store = bench.store from rfl)] at hresult
  rw [run_carryOut]
  generalize (arguments.performed input).run { bench with log := [] } = performed
    at hresult hstore henvironment ⊢
  rw [← hresult]
  exact ⟨⟨_, rfl⟩, hstore, henvironment⟩

end Performed

/-- A call that runs its source changes no file.  It ends with status 0 exactly
when the source is read and compiled, the tape has a cell and the run returns
within the limit of steps, and then it prints the output and nothing else.
Otherwise it ends with status 1 and prints one report, whatever the program has
written by then: on a syntax error if the bracket check refuses the source, and
on the first stage that fails if it does not. -/
theorem command_run_reports {arguments : List String} {understood : Arguments}
    (hread : Arguments.read arguments = .ok understood) (hrun : understood.choices.run = true)
    (input : String) (bench : Workbench) :
    let done := (command arguments input).run bench
    done.2.store = bench.store ∧ done.2.environment = bench.environment ∧
    (done.1.status = 0 ↔ ∃ output, understood.Succeeds bench input output) ∧
    (∀ output, understood.Succeeds bench input output → done.1.stdout = output) ∧
    (∀ diagnostic, understood.Refused bench diagnostic →
      done.1.status = 1 ∧ done.1.stdout = "Syntax error: " ++ diagnostic.message ++ "\n") ∧
    (∀ error, understood.Fails bench input error →
      done.1.status = 1 ∧ done.1.stdout = "Error: " ++ error.message ++ "\n") ∧
    ((∃ output, understood.Succeeds bench input output) ∨
      (∃ diagnostic, understood.Refused bench diagnostic) ∨
      ∃ error, understood.Fails bench input error) := by
  intro done
  have hdone : done = (carryOut understood input).run bench := by
    change (command arguments input).run bench = _
    rw [command, hread]
  obtain ⟨⟨log, hreport⟩, hstore, henvironment⟩ :=
    carryOut_reports hrun (exclusive_of_read hread) input bench
  rw [← hdone] at hreport hstore henvironment
  obtain ⟨hoks, herrors⟩ := Choices.reportOn_eq hrun log
  have hsucceeds {output : String} (houtput : understood.Succeeds bench input output) :
      done.1.status = 0 ∧ done.1.stdout = output := by
    rw [hreport, Arguments.outcome_of_succeeds houtput]
    exact hoks output
  have hrefused {diagnostic : Diagnostic} (hdiagnostic : understood.Refused bench diagnostic) :
      done.1.status = 1 ∧ done.1.stdout = "Syntax error: " ++ diagnostic.message ++ "\n" := by
    rw [hreport, Arguments.outcome_of_refused hdiagnostic]
    exact herrors (.work (.compile (.refused diagnostic)))
  have hfails {error : CommandError} (herror : understood.Fails bench input error) :
      done.1.status = 1 ∧ done.1.stdout = "Error: " ++ error.message ++ "\n" := by
    rw [hreport, Arguments.outcome_of_fails herror, ← herror.report_eq]
    exact herrors error
  have hcover := understood.succeeds_or_refused_or_fails bench input
  refine ⟨hstore, henvironment, ⟨fun hzero => ?_, fun ⟨_, houtput⟩ => (hsucceeds houtput).1⟩,
    fun _ houtput => (hsucceeds houtput).2, fun _ hdiagnostic => hrefused hdiagnostic,
    fun _ herror => hfails herror, hcover⟩
  rcases hcover with houtput | ⟨_, hdiagnostic⟩ | ⟨_, herror⟩
  · exact houtput
  · rw [(hrefused hdiagnostic).1] at hzero
    cases hzero
  · rw [(hfails herror).1] at hzero
    cases hzero

/-- Two programs on a tape of two cells: one writes a cell, and one writes a cell
and then leaves the tape. -/
def programsBench : Workbench :=
  { store := { nodes :=
      [(["prog"], .file { content := .data [43, 46] }),
       (["fall.txt"], .file { content := .data [46, 60, 46] })] } }

/-- What a program has written is printed if it returns, and is lost behind a
fault. -/
theorem command_run_reports_programs :
    let returned := (command ["--run", "--memory-size=2", "prog"] "").run programsBench
    let fallen := (command ["--run", "--memory-size=2", "fall"] "").run programsBench
    returned.2.store = programsBench.store ∧ returned.1.status = 0 ∧ returned.1.stdout = "\x01" ∧
      fallen.2.store = programsBench.store ∧ fallen.1.status = 1 ∧
      fallen.1.stdout = "Error: Memory index -1 out of range\n" := by
  let state : Machine.State := { tape := { size := 2 } }
  let prog : Arguments := ⟨"prog", { tapeSize := some 2, run := true }⟩
  let fall : Arguments := ⟨"fall", { tapeSize := some 2, run := true }⟩
  have hsucceeds : prog.Succeeds programsBench "" "\x01" := by
    have hfile : ((resolveSource (.ofString "prog")).run programsBench).1 = .ok (.ofString "prog") :=
      rfl
    have htext : ((readSource (.ofString "prog") defaultEncoding).run programsBench).1 = .ok "+." :=
      rfl
    have hnested : Nested '[' ']' "+.".toList := by decide
    have hbody := ((prog.session (.ofString "prog")).compile_of_nested
      (Compiler.Session.checkBrackets_of_nested false hnested) hnested).1
    have hsegments : bareSegments "+.".toList = [.plain (.change .up 1), .plain .write] := by decide
    obtain ⟨last, hexecutes, hsteps, houtput⟩ : ∃ last,
        Machine.Executes (bareSegments "+.".toList) (state.feed "".toList) (.through [] last) ∧
          last.steps = 15 ∧ last.output = #[1] := by
      rw [hsegments]
      exact ⟨_, .plain ((Machine.perform_change _ _ _).trans (if_pos (by decide)))
        (.plain ((Machine.perform_write _).trans (if_pos (by decide))) (.nil _)),
        by decide, by decide⟩
    have hends := @Machine.State.run_of_executes _ _ _ (by decide) (by decide) hbody _ _ _ hexecutes
      Machine.defaultStepLimit (by rintro _ ⟨⟩; rw [hsteps]; decide)
    cases hends with
    | through hrun =>
        have hcompiles : prog.Compiles programsBench _ := ⟨_, _, ⟨hfile, htext⟩, hbody⟩
        refine ⟨_, 2, state, hcompiles, rfl, by decide, rfl, congrArg _ hrun, ?_⟩
        rw [hrun, houtput]
        decide
  have hfails : fall.Fails programsBench "" (.fault (.indexOutOfRange (-1))) := by
    have hfile : ((resolveSource (.ofString "fall")).run programsBench).1 =
      .ok (.ofString "fall.txt") := rfl
    have htext : ((readSource (.ofString "fall.txt") defaultEncoding).run programsBench).1 =
      .ok ".<." := rfl
    have hnested : Nested '[' ']' ".<.".toList := by decide
    have hbody := ((fall.session (.ofString "fall.txt")).compile_of_nested
      (Compiler.Session.checkBrackets_of_nested false hnested) hnested).1
    have hsegments : bareSegments ".<.".toList =
        [.plain .write, .plain (.move .down 1), .plain .write] := by decide
    obtain ⟨fault, after, hexecutes, hsteps, rfl⟩ : ∃ fault after,
        Machine.Executes (bareSegments ".<.".toList) (state.feed "".toList) (.faulted fault after) ∧
          after.steps = 13 ∧ fault = .indexOutOfRange (-1) := by
      rw [hsegments]
      exact ⟨_, _, .plain ((Machine.perform_write _).trans (if_pos (by decide)))
        (.plain (Machine.perform_move _ _ _)
          (.plainFault ((Machine.perform_write _).trans (if_neg (by decide))))),
        by decide, by decide⟩
    have hends := @Machine.State.run_of_executes _ _ _ (by decide) (by decide) hbody _ _ _ hexecutes
      Machine.defaultStepLimit (by rintro _ ⟨⟩; rw [hsteps]; decide)
    cases hends with
    | @faulted _ _ pc hrun =>
        have hcompiles : fall.Compiles programsBench _ := ⟨_, _, ⟨hfile, htext⟩, hbody⟩
        have hstate : Machine.State.new 2 = .ok state := rfl
        exact .fault hcompiles rfl (by decide) hstate (congrArg Machine.Outcome.fault hrun)
  obtain ⟨hstore, -, hstatus, hstdout, -⟩ := command_run_reports
    (show Arguments.read ["--run", "--memory-size=2", "prog"] = .ok prog from rfl) rfl "" programsBench
  obtain ⟨hkept, -, -, -, -, hreport, -⟩ := command_run_reports
    (show Arguments.read ["--run", "--memory-size=2", "fall"] = .ok fall from rfl) rfl "" programsBench
  refine ⟨hstore, hstatus.mpr ⟨_, hsucceeds⟩, hstdout _ hsucceeds, hkept, (hreport _ hfails).1, ?_⟩
  rw [(hreport _ hfails).2]
  decide

end Cli
end TapeCompiler
