import TapeCompiler.Proofs.Effects
import TapeCompiler.Workspace.Build

/-!
# Tasks that only look

Finding a source file, reading it and finding an assembler ask the store and
change nothing.  So whatever they come to, the files are the same behind them.
A compile of a file adds to the log and changes nothing else.

A task that looks at files fails where they cannot be looked at, and in no other
way (`Failure.IsAccess`).
-/

namespace TapeCompiler
namespace Workspace

open Effects Text

namespace Task

variable {α β : Type}

/-- A task that leaves the workbench as it is. -/
def Looks (task : Task α) : Prop :=
  ∀ bench, (task.run bench).2 = bench

theorem looks_pure (value : α) : Looks (pure value : Task α) := fun _ => rfl

theorem looks_throw (failure : Failure) : Looks (throw failure : Task α) := fun _ => rfl

theorem looks_get : Looks (get : Task Workbench) := fun _ => rfl

theorem Looks.bind {task : Task α} {next : α → Task β} (htask : task.Looks)
    (hnext : ∀ value, (next value).Looks) : (task >>= next).Looks := by
  intro bench
  have hsame := htask bench
  rw [run_bind]
  rcases hrun : task.run bench with ⟨failure | value, after⟩
  · rw [hrun] at hsame
    exact hsame
  · rw [hrun] at hsame
    dsimp only at hsame ⊢
    rw [hnext value after, hsame]

/-- A task that looks gives its result and goes on from the same workbench. -/
theorem Looks.run_bind {task : Task α} (htask : task.Looks) (next : α → Task β)
    (bench : Workbench) :
    (task >>= next).run bench =
      match (task.run bench).1 with
      | .ok value => (next value).run bench
      | .error failure => (.error failure, bench) := by
  have hsame := htask bench
  rw [Effects.run_bind]
  rcases hrun : task.run bench with ⟨failure | value, after⟩
  · rw [hrun] at hsame
    rw [← hsame]
  · rw [hrun] at hsame
    rw [← hsame]

theorem run_ask (path : String) (question : Store → Except SystemError α) (bench : Workbench) :
    (ask path question).run bench =
      match question bench.store with
      | .ok answer => (.ok answer, bench)
      | .error error => (.error (.system error path), bench) := by
  rw [ask, Effects.run_bind, run_get]
  dsimp only
  cases question bench.store <;> rfl

theorem looks_ask (path : String) (question : Store → Except SystemError α) :
    (ask path question).Looks := by
  intro bench
  rw [run_ask]
  cases question bench.store <;> rfl

theorem run_requireNamable (path : String) (bench : Workbench) :
    (requireNamable path).run bench =
      if Store.isNamable path = true then (.ok (), bench) else (.error .nulInPath, bench) := by
  rw [requireNamable]
  split <;> rfl

theorem looks_requireNamable (path : String) : (requireNamable path).Looks := by
  intro bench
  rw [run_requireNamable]
  split <;> rfl

/-- A task that never ends in a failure. -/
def Avoids (failure : Failure) (task : Task α) : Prop :=
  ∀ bench, (task.run bench).1 ≠ .error failure

theorem avoids_pure (failure : Failure) (value : α) : Avoids failure (pure value : Task α) :=
  fun _ => nofun

theorem avoids_throw {failure other : Failure} (hother : other ≠ failure) :
    Avoids failure (throw other : Task α) :=
  fun _ hsame => hother (Except.error.inj hsame)

theorem avoids_get (failure : Failure) : Avoids failure (get : Task Workbench) :=
  fun _ => nofun

theorem avoids_modify (failure : Failure) (change : Workbench → Workbench) :
    Avoids failure (modify change : Task PUnit) :=
  fun _ => nofun

/-- What comes next has to avoid a failure only for results that there can be. -/
theorem Avoids.bind_given {failure : Failure} {task : Task α} {next : α → Task β}
    (htask : task.Avoids failure)
    (hnext : ∀ value, (∃ bench, (task.run bench).1 = .ok value) → (next value).Avoids failure) :
    (task >>= next).Avoids failure := by
  intro bench
  have hother := htask bench
  rw [Effects.run_bind]
  rcases hrun : task.run bench with ⟨other | value, after⟩
  · rw [hrun] at hother
    exact fun hsame => hother (congrArg _ (Except.error.inj hsame))
  · exact hnext value ⟨bench, by rw [hrun]⟩ after

theorem Avoids.bind {failure : Failure} {task : Task α} {next : α → Task β}
    (htask : task.Avoids failure) (hnext : ∀ value, (next value).Avoids failure) :
    (task >>= next).Avoids failure :=
  htask.bind_given fun value _ => hnext value

theorem avoids_ask (failure : Failure) (hfailure : ∀ error path, failure ≠ .system error path)
    (path : String) (question : Store → Except SystemError α) :
    (ask path question).Avoids failure := by
  intro bench
  rw [run_ask]
  cases question bench.store with
  | ok answer => exact nofun
  | error error => exact fun hsame => hfailure error path (Except.error.inj hsame).symm

end Task

theorem run_besides (base : Path) (suffix : String) (bench : Workbench) :
    (besides base suffix).run bench =
      match base.withName? (base.name ++ suffix) with
      | some path => (.ok path, bench)
      | none => (.error (.emptyName base), bench) := by
  rw [besides]
  cases base.withName? (base.name ++ suffix) <;> rfl

theorem looks_besides (base : Path) (suffix : String) : (besides base suffix).Looks := by
  intro bench
  rw [run_besides]
  split <;> rfl

/-- A source file is the path itself or the one with `.txt` added, and which of
them it is depends on the store only. -/
theorem run_resolveSource (path : Path) (bench : Workbench) :
    ((resolveSource path).run bench).1 =
      match bench.store.hasNode path.render with
      | .error error => .error (.system error path.render)
      | .ok true => .ok path
      | .ok false =>
          match path.withName? (path.name ++ ".txt") with
          | none => .error (.emptyName path)
          | some textual =>
              match bench.store.hasFile textual.render with
              | .error error => .error (.system error textual.render)
              | .ok true => .ok textual
              | .ok false => .ok path := by
  rw [resolveSource, run_bind, Task.run_ask]
  cases bench.store.hasNode path.render with
  | error error => rfl
  | ok found =>
      cases found with
      | true => rfl
      | false =>
          simp only [Bool.false_eq_true, if_false]
          rw [run_bind, run_besides]
          cases path.withName? (path.name ++ ".txt") with
          | none => rfl
          | some textual =>
              dsimp only
              rw [run_bind, Task.run_ask]
              cases bench.store.hasFile textual.render with
              | error error => rfl
              | ok found => cases found <;> rfl

theorem resolveSource_eq {bench ready : Workbench} (hstore : ready.store = bench.store)
    (path : Path) : ((resolveSource path).run ready).1 = ((resolveSource path).run bench).1 := by
  rw [run_resolveSource, run_resolveSource, hstore]

theorem looks_resolveSource (path : Path) : (resolveSource path).Looks := by
  rw [resolveSource]
  refine (Task.looks_ask _ _).bind fun found => ?_
  cases found with
  | true => exact Task.looks_pure path
  | false =>
      refine (looks_besides _ _).bind fun textual => (Task.looks_ask _ _).bind fun found => ?_
      cases found with
      | true => exact Task.looks_pure textual
      | false => exact Task.looks_pure path

theorem looks_readSource (path : Path) (encoding : String) : (readSource path encoding).Looks := by
  rw [readSource]
  refine (Task.looks_requireNamable _).bind fun _ => (Task.looks_ask _ _).bind fun bytes => ?_
  cases Encoding.ofName? encoding with
  | none => exact Task.looks_throw _
  | some known => exact Task.looks_pure _

/-- The text of a source file is made from its bytes. -/
theorem run_readSource (path : Path) (encoding : String) (bench : Workbench) :
    ((readSource path encoding).run bench).1 =
      if Store.isNamable path.render = true then
        match bench.store.read path.render with
        | .error error => .error (.system error path.render)
        | .ok bytes =>
            match Encoding.ofName? encoding with
            | some known => .ok (known.readText bytes)
            | none => .error (.unknownEncoding encoding)
      else
        .error .nulInPath := by
  rw [readSource, run_bind, Task.run_requireNamable]
  cases Store.isNamable path.render with
  | false => rfl
  | true =>
      simp only [if_true]
      rw [run_bind, Task.run_ask]
      cases bench.store.read path.render with
      | error error => rfl
      | ok bytes => cases Encoding.ofName? encoding <;> rfl

theorem readSource_eq {bench ready : Workbench} (hstore : ready.store = bench.store) (path : Path)
    (encoding : String) :
    ((readSource path encoding).run ready).1 = ((readSource path encoding).run bench).1 := by
  rw [run_readSource, run_readSource, hstore]

theorem exists_bytes_of_readSource {path : Path} {encoding source : String} {bench : Workbench}
    (hsource : ((readSource path encoding).run bench).1 = .ok source) :
    ∃ bytes, bench.store.read path.render = .ok bytes := by
  rw [run_readSource] at hsource
  split at hsource
  · split at hsource
    · cases hsource
    · rename_i bytes hread
      exact ⟨bytes, hread⟩
  · cases hsource

theorem looks_resolveAssembler (candidate : String) : (resolveAssembler candidate).Looks := by
  rw [resolveAssembler]
  refine Task.looks_get.bind fun bench => ?_
  split
  · exact Task.looks_pure _
  · refine (Task.looks_ask _ _).bind fun found => ?_
    cases found with
    | true => exact Task.looks_pure _
    | false => exact Task.looks_throw _

theorem looks_findAssembler (explicit : Option String) : (findAssembler explicit).Looks := by
  rw [findAssembler]
  refine Task.looks_get.bind fun bench => ?_
  split
  · exact looks_resolveAssembler _
  · split
    · exact Task.looks_pure _
    · refine (Task.looks_ask _ _).bind fun found => ?_
      cases found with
      | true => exact Task.looks_pure _
      | false => exact Task.looks_throw _

/-- A failure to get at the text of a file. -/
def Failure.IsAccess : Failure → Prop
  | .system _ _ | .nulInPath | .emptyName _ | .unknownEncoding _ => True
  | .compile _ | .notAscii | .notUtf8 _ | .tool _ => False

theorem not_isAccess_compile (error : Compiler.CompileError) :
    ¬ (Failure.compile error).IsAccess := not_false

theorem not_isAccess_notAscii : ¬ Failure.notAscii.IsAccess := not_false

section Access

variable {failure : Failure} (hfailure : ¬ failure.IsAccess)
include hfailure

theorem avoids_askAccess {α : Type} (path : String) (question : Store → Except SystemError α) :
    (Task.ask path question).Avoids failure :=
  Task.avoids_ask failure (fun _ _ hsame => hfailure (hsame ▸ trivial)) path question

theorem avoids_besides (base : Path) (suffix : String) : (besides base suffix).Avoids failure := by
  rw [besides]
  split
  · exact Task.avoids_pure _ _
  · exact Task.avoids_throw fun hsame => hfailure (hsame ▸ trivial)

/-- Looking for a source file fails only where files cannot be looked at. -/
theorem avoids_resolveSource (path : Path) : (resolveSource path).Avoids failure := by
  rw [resolveSource]
  refine (avoids_askAccess hfailure _ _).bind fun found => ?_
  cases found with
  | true => exact Task.avoids_pure _ _
  | false =>
      refine (avoids_besides hfailure _ _).bind fun textual =>
        (avoids_askAccess hfailure _ _).bind fun found => ?_
      cases found with
      | true => exact Task.avoids_pure _ _
      | false => exact Task.avoids_pure _ _

/-- Reading a source file fails only where files cannot be read. -/
theorem avoids_readSource (path : Path) (encoding : String) :
    (readSource path encoding).Avoids failure := by
  have hnamable : (Task.requireNamable path.render).Avoids failure := by
    rw [Task.requireNamable]
    split
    · exact Task.avoids_pure _ _
    · exact Task.avoids_throw fun hsame => hfailure (hsame ▸ trivial)
  rw [readSource]
  refine hnamable.bind fun _ => (avoids_askAccess hfailure _ _).bind fun bytes => ?_
  split
  · exact Task.avoids_pure _ _
  · exact Task.avoids_throw fun hsame => hfailure (hsame ▸ trivial)

end Access

theorem avoids_resolveAssembler (candidate : String) :
    (resolveAssembler candidate).Avoids .notAscii := by
  rw [resolveAssembler]
  refine (Task.avoids_get _).bind fun bench => ?_
  split
  · exact Task.avoids_pure _ _
  · refine (avoids_askAccess not_isAccess_notAscii _ _).bind fun found => ?_
    cases found with
    | true => exact Task.avoids_pure _ _
    | false => exact Task.avoids_throw nofun

theorem avoids_findAssembler (explicit : Option String) :
    (findAssembler explicit).Avoids .notAscii := by
  rw [findAssembler]
  refine (Task.avoids_get _).bind fun bench => ?_
  split
  · exact avoids_resolveAssembler _
  · split
    · exact Task.avoids_pure _ _
    · refine (avoids_askAccess not_isAccess_notAscii _ _).bind fun found => ?_
      cases found with
      | true => exact Task.avoids_pure _ _
      | false => exact Task.avoids_throw nofun

/-- A compile of a file compiles the text that is read from it under the name
that is asked for or that of the file, and adds its progress to the log. -/
theorem run_compileFile (path : Path) (options : Compiler.Options) (encoding : String)
    (bench : Workbench) :
    let compiled := (compileFile path options encoding).run bench
    compiled.1 = (do
        let file ← ((resolveSource path).run bench).1
        let source ← ((readSource file encoding).run bench).1
        ((Compiler.compileSource
          { options with program := some (options.program.getD file.programName) }
          source).1).mapError Failure.compile) ∧
      compiled.2.store = bench.store ∧ compiled.2.environment = bench.environment := by
  intro compiled
  have hcompiled : compiled = (compileFile path options encoding).run bench := rfl
  rw [compileFile, (looks_resolveSource path).run_bind] at hcompiled
  cases hfile : ((resolveSource path).run bench).1 with
  | error failure =>
      rw [hfile] at hcompiled
      rw [hcompiled]
      exact ⟨rfl, rfl, rfl⟩
  | ok file =>
      rw [hfile] at hcompiled
      dsimp only at hcompiled
      rw [(looks_readSource file encoding).run_bind] at hcompiled
      cases hsource : ((readSource file encoding).run bench).1 with
      | error failure =>
          rw [hsource] at hcompiled
          rw [hcompiled]
          simp only [bind, Except.bind, hsource]
          exact ⟨trivial, trivial, trivial⟩
      | ok source =>
          rw [hsource] at hcompiled
          simp only [bind, Except.bind, hsource]
          dsimp only at hcompiled
          generalize Compiler.compileSource _ source = outcome at hcompiled ⊢
          obtain ⟨result, progress⟩ := outcome
          rw [hcompiled]
          cases result with
          | error error => exact ⟨rfl, rfl, rfl⟩
          | ok compilation => exact ⟨rfl, rfl, rfl⟩

end Workspace
end TapeCompiler
