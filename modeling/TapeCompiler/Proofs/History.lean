import TapeCompiler.Compiler.Session
import TapeCompiler.Proofs.Effects
import TapeCompiler.Proofs.Generation

/-!
# Histories of a session

A session can be used in many ways before a source is compiled: other sources
are compiled, the program is asked for, settings are changed, and the generator
is worked on directly.  None of this shows in the next compile.  It depends on
the program's name and the strictness and on nothing else, and when it fails
the session is a new one with these settings.

Emissions are carried out in place, step by step, and so is a compile, block by
block.  A failure finds what was done before it.  An emission fails before it
has done anything, and the clean-up of a failing compile makes up for what was
generated by then: the two ways to compile come to the same.

Main statement: `compile_after_any_history`.
-/

namespace TapeCompiler
namespace Compiler

open Assembly Effects Source

/-! ### Calls -/

/-- Work on the generator of a session that goes past its compiles. -/
inductive Emission where
  | move (direction : Direction) (count : Int)
  | change (direction : Direction) (count : Int)
  | write
  | read
  | openLoop
  | closeLoop
  | emit (lines : List String)
  | nextLoop
  | reset
deriving DecidableEq, Repr

/-- The generator behind an emission, if it succeeds. -/
def Emission.perform (generator : Generator) : Emission → Except CompileError Generator
  | move direction count => .ok (generator.move direction count)
  | change direction count => .ok (generator.change direction count)
  | write => .ok generator.write
  | read => .ok generator.read
  | openLoop => .ok generator.openLoop
  | closeLoop => generator.closeLoop
  | emit lines => .ok (generator.emit lines)
  | nextLoop => .ok generator.nextLoop.2
  | reset => .ok generator.reset

def emissionOf : Segment Unit → Emission
  | .plain (.move direction count) => .move direction count
  | .plain (.change direction count) => .change direction count
  | .plain .write => .write
  | .plain .read => .read
  | .loopStart _ => .openLoop
  | .loopEnd _ => .closeLoop

theorem perform_emissionOf (generator : Generator) (segment : Segment Unit) :
    (emissionOf segment).perform generator = generator.emitSegment segment := by
  cases segment with
  | plain action => cases action <;> rfl
  | loopStart mark => rfl
  | loopEnd mark => rfl

/-- What a session is made for: compiles, the program around the last one, and
changes of its settings. -/
inductive Request where
  | compile (source : String)
  | assembly
  | setStrict (strict : Bool)
  | setTapeSize (tapeSize : Int)
  | setProgram (program : String)
deriving DecidableEq, Repr

inductive Call where
  | request (request : Request)
  | emission (emission : Emission)
deriving DecidableEq, Repr

theorem Generator.program_emitSegment {generator next : Generator} {segment : Segment Unit}
    (hemit : generator.emitSegment segment = .ok next) : next.program = generator.program := by
  cases segment with
  | plain action =>
      rw [emitSegment_plain] at hemit
      rw [← Except.ok.inj hemit]
      rfl
  | loopStart mark =>
      rw [emitSegment_loopStart] at hemit
      rw [← Except.ok.inj hemit]
      rfl
  | loopEnd mark =>
      cases hopened : generator.openLoops with
      | nil =>
          rw [emitSegment_noOpenLoop hopened] at hemit
          cases hemit
      | cons number outer =>
          rw [emitSegment_loopEnd hopened] at hemit
          rw [← Except.ok.inj hemit]
          rfl

namespace Session

/-! ### Emissions in place -/

/-- A procedure on a session that may fail.  What it has done to the session by
then stays done. -/
abbrev Procedure := ExceptT CompileError (StateM Session)

namespace Procedure

def work (change : Generator → Generator) : Procedure Unit :=
  modify fun session => { session with generator := change session.generator }

def nextLoop : Procedure Nat := do
  let number := (← get).generator.loopCount
  work fun generator => { generator with loopCount := number + 1 }
  return number

/-- Opens a loop: takes its number, puts it on top of the open ones and emits
the start. -/
def openLoop : Procedure Unit := do
  let number ← nextLoop
  work fun generator => { generator with openLoops := number :: generator.openLoops }
  work fun generator => generator.emitLines (loopStartBlock generator.program number)

/-- Closes a loop: looks whether one is open, takes the topmost off and emits
the end. -/
def closeLoop : Procedure Unit := do
  match (← get).generator.openLoops with
  | [] => throw .noOpenLoop
  | number :: outer =>
      work fun generator => { generator with openLoops := outer }
      work fun generator => generator.emitLines (loopEndBlock number)

/-- Performs an emission on the generator of the session. -/
def emission : Emission → Procedure Unit
  | .move direction count => work (·.move direction count)
  | .change direction count => work (·.change direction count)
  | .write => work (·.write)
  | .read => work (·.read)
  | .openLoop => openLoop
  | .closeLoop => closeLoop
  | .emit lines => work (·.emit lines)
  | .nextLoop => do let _ ← nextLoop
  | .reset => work (·.reset)

theorem run_closeLoop (session : Session) :
    closeLoop.run session =
      match session.generator.closeLoop with
      | .ok generator => (.ok (), { session with generator })
      | .error error => (.error error, session) := by
  rw [closeLoop, run_bind, run_get, Generator.closeLoop]
  dsimp only
  cases session.generator.openLoops with
  | nil => rfl
  | cons number outer => rfl

/-- An emission in place comes to the same as one into a generator at hand.
What fails has done nothing by then. -/
theorem run_emission (emission : Emission) (session : Session) :
    (Procedure.emission emission).run session =
      match emission.perform session.generator with
      | .ok generator => (.ok (), { session with generator })
      | .error error => (.error error, session) := by
  cases emission with
  | closeLoop => exact run_closeLoop session
  | _ => rfl

end Procedure

/-! ### Sessions behind calls -/

/-- The session behind a request. -/
def serve (session : Session) : Request → Session
  | .compile source => (session.compile source).session
  | .assembly => session
  | .setStrict strict => { session with strict }
  | .setTapeSize tapeSize => { session with tapeSize }
  | .setProgram program => { session with generator := { session.generator with program } }

/-- The session behind a call.  A failing emission leaves the session as it was
when the failure came up. -/
def perform (session : Session) : Call → Session
  | .request request => session.serve request
  | .emission emission => ((Procedure.emission emission).run session).2

/-- An emission changes the generator only, and nothing if it fails. -/
theorem perform_emission (session : Session) (emission : Emission) :
    session.perform (.emission emission) =
      match emission.perform session.generator with
      | .ok generator => { session with generator }
      | .error _ => session := by
  rw [perform, Procedure.run_emission]
  cases emission.perform session.generator <;> rfl

def after (session : Session) (calls : List Call) : Session :=
  calls.foldl perform session

/-! ### Compiles do not look back -/

/-- What is generated for runs under a name, if no loop is left open. -/
def generateRuns (program : String) (runs : List Run) : Except CompileError Generator := do
  let generator ← Generator.emitRuns { program } runs
  if generator.openLoops.isEmpty then
    return generator
  else
    throw (.loopsLeftOpen generator.openLoops.reverse)

/-- What is generated for a source under a name: the generator at the end and
the runs of the source. -/
def generate (program : String) (strict : Bool) (source : String) :
    Except CompileError (Generator × List Run) := do
  let runs ← scan strict source
  let generator ← generateRuns program runs
  return (generator, runs)

theorem runs_of_scan {strict : Bool} {source : String} {runs : List Run}
    (hscan : scan strict source = .ok runs) : runs = Source.runs source.toList := by
  rw [scan] at hscan
  split at hscan
  · cases hscan
  · exact (Except.ok.inj hscan).symm

/-- The session that is left when so much has been generated for a source. -/
def finished (session : Session) : Except CompileError (Generator × List Run) → Session
  | .ok (generator, runs) => { session.cleared with generator, runs, compiled := true }
  | .error _ => session.cleared

/-- A compile gives what is generated for the source, and of the session before
it only the settings are left. -/
theorem compile_eq_generate (session : Session) (source : String) :
    let generated := generate session.generator.program session.strict source
    (session.compile source).result = generated.map (·.1.body) ∧
      (session.compile source).session = session.finished generated := by
  intro generated
  have hgenerator : session.cleared.generator = { program := session.generator.program } := rfl
  simp only [generated, generate, generateRuns, compile, hgenerator]
  cases scan session.strict source with
  | error error => exact ⟨rfl, rfl⟩
  | ok runs =>
      simp only [bind, Except.bind]
      cases Generator.emitRuns { program := session.generator.program } runs with
      | error error => exact ⟨rfl, rfl⟩
      | ok generator =>
          dsimp only
          split <;> exact ⟨rfl, rfl⟩

/-! ### Compiles in place -/

namespace Procedure

def emitSegment (segment : Segment Unit) : Procedure Unit :=
  emission (emissionOf segment)

def emitRuns (runs : List Run) : Procedure Unit := do
  modify fun session => { session with runs }
  ((runs.flatMap Run.segments).map Segment.bare).forM emitSegment
  let opened := (← get).generator.openLoops
  if !opened.isEmpty then
    throw (.loopsLeftOpen opened.reverse)

/-- Checks a source, scans it and emits its blocks. -/
def generate (source : String) : Procedure Unit := do
  match scan (← get).strict source with
  | .error error => throw error
  | .ok runs => emitRuns runs

/-- Compiles a source in place and cleans up when that fails. -/
def compile (source : String) : Procedure String := do
  modify cleared
  tryCatch (generate source) fun error => do
    modify fun session => { session with generator := session.generator.reset, runs := [] }
    throw error
  modify fun session => { session with compiled := true }
  return (← get).generator.body

/-- Emission in place comes to the same as emission into a generator at hand.
When it fails, a generator of the same name is left in the session. -/
theorem run_forM_emitSegment (segments : List (Segment Unit)) (session : Session) :
    ∃ left : Generator, left.program = session.generator.program ∧
      (∀ generator,
        segments.foldlM Generator.emitSegment session.generator = .ok generator →
          left = generator) ∧
      (segments.forM emitSegment).run session =
        ((segments.foldlM Generator.emitSegment session.generator).map fun _ => (),
          { session with generator := left }) := by
  induction segments generalizing session with
  | nil => exact ⟨session.generator, rfl, fun generator hdone => Except.ok.inj hdone, rfl⟩
  | cons segment rest ih =>
      have hsplit : ((segment :: rest).forM emitSegment).run session = _ :=
        run_bind (emitSegment segment) (fun _ => rest.forM emitSegment) session
      rw [hsplit, List.foldlM_cons, emitSegment, run_emission, perform_emissionOf]
      cases hemit : session.generator.emitSegment segment with
      | error error =>
          exact ⟨session.generator, rfl, fun generator hdone => (by cases hdone), rfl⟩
      | ok generator =>
          obtain ⟨left, hprogram, hdone, hrun⟩ := ih { session with generator }
          exact ⟨left, hprogram.trans (Generator.program_emitSegment hemit), hdone, hrun⟩

/-- Emission of the runs of a source in place gives what is generated for them.
When it fails, it leaves some generator of the same name. -/
theorem run_emitRuns {source : List Char} {runs : List Run} (hruns : runs = Source.runs source)
    (session : Session) :
    let generated := generateRuns session.generator.program runs
    ∃ left, left.program = session.generator.program ∧
      (∀ generator, generated = .ok generator → left = generator) ∧
      (emitRuns runs).run session.cleared =
        (generated.map fun _ => (), { session.cleared with generator := left, runs }) := by
  have hemit : Generator.emitRuns { program := session.generator.program } runs =
      ((runs.flatMap Run.segments).map Segment.bare).foldlM Generator.emitSegment
        { program := session.generator.program } := by
    rw [hruns]
    exact (Generator.emitRuns_eq _ _).trans (Generator.foldlM_emitSegment _ _).symm
  obtain ⟨left, hprogram, hdone, hrun⟩ := run_forM_emitSegment
    ((runs.flatMap Run.segments).map Segment.bare) { session.cleared with runs }
  have hstart : ({ session.cleared with runs }.generator : Generator) =
    { program := session.generator.program } := rfl
  rw [hstart, ← hemit] at hdone hrun
  rw [emitRuns, run_bind, run_modify]
  dsimp only
  rw [run_bind, hrun, generateRuns]
  refine ⟨left, hprogram, ?_⟩
  cases hlast : Generator.emitRuns { program := session.generator.program } runs with
  | error error => exact ⟨nofun, rfl⟩
  | ok generator =>
      obtain rfl := hdone _ hlast
      rw [ok_bind]
      dsimp only [Except.map]
      rw [run_bind, run_get]
      dsimp only
      cases hopened : left.openLoops.isEmpty with
      | true => exact ⟨fun generator hdone => Except.ok.inj hdone, rfl⟩
      | false => exact ⟨nofun, rfl⟩

/-- Generation in place gives what is generated for the source.  When it fails,
it leaves some generator of the same name and some runs. -/
theorem run_generate (source : String) (session : Session) :
    let generated := Session.generate session.generator.program session.strict source
    ∃ left runs, left.program = session.generator.program ∧
      (∀ last, generated = .ok last → (left, runs) = last) ∧
      (generate source).run session.cleared =
        (generated.map fun _ => (), { session.cleared with generator := left, runs }) := by
  have hstrict : session.cleared.strict = session.strict := rfl
  rw [Session.generate, generate, run_bind, run_get]
  dsimp only
  rw [hstrict]
  cases hscan : scan session.strict source with
  | error error => exact ⟨session.cleared.generator, [], rfl, nofun, rfl⟩
  | ok runs =>
      obtain ⟨left, hprogram, hdone, hrun⟩ := run_emitRuns (runs_of_scan hscan) session
      refine ⟨left, runs, hprogram, ?_⟩
      dsimp only
      rw [hrun, ok_bind]
      cases hlast : generateRuns session.generator.program runs with
      | error error => exact ⟨nofun, rfl⟩
      | ok generator =>
          obtain rfl := hdone _ hlast
          exact ⟨fun last hsame => Except.ok.inj hsame, rfl⟩

/-- A compile in place is a compile: what was generated before a failure is
gone at the end. -/
theorem run_compile (source : String) (session : Session) :
    (compile source).run session =
      ((session.compile source).result, (session.compile source).session) := by
  obtain ⟨hresult, hsession⟩ := session.compile_eq_generate source
  obtain ⟨left, runs, hprogram, hdone, hrun⟩ := run_generate source session
  rw [hresult, hsession, compile, run_bind, run_modify]
  dsimp only
  rw [run_bind, run_tryCatch, hrun]
  cases hgenerated : Session.generate session.generator.program session.strict source with
  | error error =>
      have hreset : left.reset = session.generator.reset := by
        rw [Generator.reset, hprogram, Generator.reset]
      rw [Except.map]
      dsimp only
      rw [run_bind, run_modify]
      dsimp only
      rw [run_throw, hreset]
      rfl
  | ok last =>
      obtain rfl := hdone _ hgenerated
      rfl

end Procedure

/-! ### The program around the latest compile -/

/-- What a request gives if it is a compile. -/
def resultOf? (session : Session) : Request → Option (Except CompileError String)
  | .compile source => some (session.compile source).result
  | _ => none

/-- What the latest compile among requests gives, if there is one. -/
def latestResult? (session : Session) : List Request → Option (Except CompileError String)
  | [] => none
  | request :: rest =>
      ((session.serve request).latestResult? rest).or (session.resultOf? request)

/-- The session holds the body that the latest compile gave, and knows that it
holds none if that failed or there was none. -/
def Holds (session : Session) : Option (Except CompileError String) → Prop
  | some (.ok body) => session.compiled = true ∧ session.generator.body = body
  | _ => session.compiled = false

/-- A compile that fails leaves a new session with the old settings. -/
theorem session_of_error {session : Session} {source : String} {error : CompileError}
    (hresult : (session.compile source).result = .error error) :
    (session.compile source).session =
      new session.generator.program session.strict session.tapeSize := by
  obtain ⟨hgenerated, hsession⟩ := session.compile_eq_generate source
  rw [hresult] at hgenerated
  rw [hsession]
  cases hcase : generate session.generator.program session.strict source with
  | error _ => rfl
  | ok last =>
      rw [hcase] at hgenerated
      cases hgenerated

/-- A request keeps the session informed of the latest compile. -/
theorem Holds.serve {session : Session} {known : Option (Except CompileError String)}
    (hholds : session.Holds known) (request : Request) :
    (session.serve request).Holds ((session.resultOf? request).or known) := by
  cases request with
  | compile source =>
      change (session.compile source).session.Holds (some (session.compile source).result)
      cases hresult : (session.compile source).result with
      | error error =>
          rw [session_of_error hresult]
          rfl
      | ok body =>
          obtain ⟨hgenerated, hsession⟩ := session.compile_eq_generate source
          rw [hresult] at hgenerated
          rw [hsession]
          cases hcase : generate session.generator.program session.strict source with
          | error error =>
              rw [hcase] at hgenerated
              cases hgenerated
          | ok last =>
              rw [hcase] at hgenerated
              exact ⟨rfl, (Except.ok.inj hgenerated).symm⟩
  | assembly => exact hholds
  | setStrict strict => exact hholds
  | setTapeSize tapeSize => exact hholds
  | setProgram program => exact hholds

theorem Holds.after {session : Session} {known : Option (Except CompileError String)}
    (hholds : session.Holds known) (requests : List Request) :
    (session.after (requests.map .request)).Holds ((session.latestResult? requests).or known) := by
  induction requests generalizing session known with
  | nil => exact hholds
  | cons request rest ih =>
      rw [latestResult?, Option.or_assoc]
      exact ih (hholds.serve request)

/-- The program around a body, or the complaint about its tape. -/
def wrapped (body program : String) (tapeSize : Int) : Except CompileError String :=
  match frame? body program tapeSize with
  | some text => .ok text
  | none => .error (.tapeSizeNotPositive tapeSize)

theorem Holds.assembly_of_body {session : Session} {body : String}
    (hholds : session.Holds (some (.ok body))) :
    session.assembly = wrapped body session.generator.program session.tapeSize := by
  obtain ⟨hcompiled, hbody⟩ := hholds
  rw [assembly, if_pos hcompiled, hbody]
  rfl

theorem Holds.assembly_of_nothing {session : Session}
    {latest : Option (Except CompileError String)} (hholds : session.Holds latest)
    (hnothing : ∀ body, latest ≠ some (.ok body)) :
    session.assembly = .error .nothingCompiled := by
  have hcompiled : session.compiled = false := by
    rcases latest with _ | _ | body
    · exact hholds
    · exact hholds
    · exact absurd rfl (hnothing body)
  rw [assembly, hcompiled]
  rfl

/-- Whatever a session has been used for, the next compile is that of a new
session with the name and the strictness that are set then.  When it fails, the
session itself is a new one with its settings.  It makes no difference that
code is generated in place and that there is some when generation fails.

If the session has been used for requests only, the program around its code is
there exactly if the latest compile succeeded, and is built from what that
compile gave and from the settings of now. -/
theorem compile_after_any_history (program : String) (strict : Bool) (tapeSize : Int) :
    (∀ (calls : List Call) (source : String),
      let session := (new program strict tapeSize).after calls
      let compiled := session.compile source
      (∀ size,
        let fresh := (new session.generator.program session.strict size).compile source
        compiled.result = fresh.result ∧
          compiled.session.generator = fresh.session.generator ∧
          compiled.session.runs = fresh.session.runs ∧
          compiled.session.compiled = fresh.session.compiled) ∧
      (∀ error, compiled.result = .error error →
        compiled.session = new session.generator.program session.strict session.tapeSize) ∧
      (Procedure.compile source).run session = (compiled.result, compiled.session)) ∧
    ∀ requests : List Request,
      let session := (new program strict tapeSize).after (requests.map .request)
      let latest := (new program strict tapeSize).latestResult? requests
      (session.assembly = .error .nothingCompiled ↔
        latest = none ∨ ∃ error, latest = some (.error error)) ∧
      ∀ body, latest = some (.ok body) →
        session.assembly = wrapped body session.generator.program session.tapeSize := by
  constructor
  · intro calls source session compiled
    refine ⟨fun size => ?_, fun error hresult => session_of_error hresult,
      Procedure.run_compile source session⟩
    intro fresh
    obtain ⟨hresult, hsession⟩ := session.compile_eq_generate source
    obtain ⟨hfreshResult, hfreshSession⟩ :=
      (new session.generator.program session.strict size).compile_eq_generate source
    change compiled.result = _ at hresult
    change compiled.session = _ at hsession
    change fresh.result = Except.map _ (generate session.generator.program session.strict source)
      at hfreshResult
    change fresh.session =
      finished _ (generate session.generator.program session.strict source) at hfreshSession
    rw [hresult, hfreshResult, hsession, hfreshSession]
    refine ⟨rfl, ?_⟩
    cases generate session.generator.program session.strict source with
    | error error => exact ⟨rfl, rfl, rfl⟩
    | ok last => exact ⟨rfl, rfl, rfl⟩
  · intro requests session latest
    have hholds : session.Holds latest := by
      have hstart : (new program strict tapeSize).Holds none := rfl
      have hlast := hstart.after requests
      rw [Option.or_none] at hlast
      exact hlast
    refine ⟨⟨?_, ?_⟩, fun body hbody => (hbody ▸ hholds : Holds _ _).assembly_of_body⟩
    · intro hnothing
      rcases hlatest : latest with _ | error | body
      · exact .inl rfl
      · exact .inr ⟨error, rfl⟩
      · rw [hlatest] at hholds
        rw [hholds.assembly_of_body, wrapped] at hnothing
        split at hnothing <;> cases hnothing
    · intro hnone
      apply hholds.assembly_of_nothing
      intro body hbody
      rcases hnone with hnone | ⟨error, herror⟩
      · rw [hnone] at hbody
        cases hbody
      · rw [herror] at hbody
        cases hbody

/-- Generation fails behind a first block, in a session in which a loop is open
and a number has been given out; and a compile that fails takes the program of
an earlier one with it. -/
theorem compile_after_any_history_failing :
    let calls := [Call.request (.compile "+"), .emission .openLoop, .emission .nextLoop,
      .request (.setProgram "Last")]
    let session := (new "First" false 5).after calls
    let requests := [Request.compile "+", .compile "+]["]
    session.generator.loopCount = 2 ∧
      (session.compile "+][").result = .error .noOpenLoop ∧
      (session.compile "+][").session = new "Last" false 5 ∧
      ((new "First" false 5).after (requests.map .request)).assembly =
        .error .nothingCompiled := by
  intro calls session requests
  obtain ⟨hcompile, hassembly⟩ := compile_after_any_history "First" false 5
  have hfailed : (session.compile "+][").result = .error .noOpenLoop := rfl
  refine ⟨rfl, hfailed, (hcompile calls "+][").2.1 _ hfailed, ?_⟩
  exact (hassembly requests).1.mpr (.inr ⟨.noOpenLoop, rfl⟩)

end Session
end Compiler
end TapeCompiler
