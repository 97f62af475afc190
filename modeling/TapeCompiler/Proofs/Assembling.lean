import TapeCompiler.Proofs.Bytes
import TapeCompiler.Proofs.Frames
import TapeCompiler.Proofs.Tasks

/-!
# Cleaning up after the assembler

Assembling writes a text to a file, runs the assembler on it and removes the file
again.  The assembler may write one file, its output: the executable, unless the
path of the text reads as a request for an output itself (`exists_output`).
`run_assemble` says what assembling can do to the store, and from it follows that
it cleans up after itself (`assemble_cleans_up`).  There is one way out on which
it does not: the file is opened before the text is looked at, so a text that is
not ASCII leaves an empty file.
-/

namespace TapeCompiler
namespace Workspace

open Effects Text

/-! ### What the assembler writes -/

namespace Store

/-- An interpreter adds arguments in front of those that are given. -/
theorem arguments_of_load {store : Store} {loads : Nat} {path : String}
    {arguments loaded : List (List UInt8)} {assembler : Assembler}
    (hload : store.load loads path arguments = .ok (assembler, loaded)) :
    ∃ front, loaded = front ++ arguments := by
  induction loads generalizing path arguments with
  | zero =>
      obtain ⟨file, -, hthrow⟩ := bind_eq_ok hload
      cases hthrow
  | succ loads ih =>
      rw [load] at hload
      obtain ⟨file, -, hload⟩ := bind_eq_ok hload
      split at hload
      · split at hload
        · cases hload
        · cases hload
          exact ⟨[], rfl⟩
      · split at hload
        · cases hload
        · rename_i interpreter _
          obtain ⟨front, rfl⟩ := ih hload
          exact ⟨front ++ (interpreter.argument.toList ++ [Utf8.encode path]), by simp⟩

theorem arguments_of_loadFirst {store : Store} {arguments loaded : List (List UInt8)}
    {reason : SystemError} {paths : List String} {assembler : Assembler}
    (hload : store.loadFirst arguments reason paths = .ok (assembler, loaded)) :
    ∃ front, loaded = front ++ arguments := by
  induction paths generalizing reason with
  | nil => cases hload
  | cons path rest ih =>
      rw [loadFirst] at hload
      split at hload
      · rename_i hfirst
        rw [Except.ok.inj hload] at hfirst
        exact arguments_of_load hfirst
      · exact ih hload

/-- An assembler that has run has written to its output or nothing at all. -/
theorem frame_afterRun (store : Store) (assembler : Assembler) {arguments : List (List UInt8)}
    {output : String} (houtput : outputArgument? arguments = some output) :
    Frame [output] store (store.afterRun assembler arguments) := by
  rw [afterRun, houtput]
  cases assembler.produces with
  | false => exact Frame.refl _ _
  | true =>
      dsimp only
      split
      · rename_i hwrite
        exact frame_write hwrite
      · exact Frame.refl _ _

end Store

theorem pathOfBytes_encode (text : String) : pathOfBytes (Utf8.encode text) = text := by
  rw [pathOfBytes, Utf8.decodeWith_encode, String.ofList_toList]

/-- A text that starts with another in bytes does so in characters. -/
theorem eq_append_of_encode {text front : String} {rest : List UInt8}
    (hbytes : Utf8.encode text = Utf8.encode front ++ rest) : text = front ++ pathOfBytes rest := by
  apply String.toList_inj.mp
  rw [String.toList_append, pathOfBytes, String.toList_ofList, ← Utf8.decodeWith_encode_append,
    ← hbytes, Utf8.decodeWith_encode]

theorem encode_append (first second : String) :
    Utf8.encode (first ++ second) = Utf8.encode first ++ Utf8.encode second := by
  rw [Utf8.encode, String.toList_append, List.flatMap_append]
  rfl

/-- The assembler is asked for the target, unless the text of the source reads as
a request for an output too: that one comes last. -/
theorem exists_output (front : List (List UInt8)) (source target : Path) :
    ∃ output,
      Store.outputArgument? (front ++ (assemblerArguments source target).map Utf8.encode) =
        some output ∧
      (output = target.render ∨ source.render = "/output=" ++ output) := by
  have hlast : (front ++ (assemblerArguments source target).map Utf8.encode).reverse =
      Utf8.encode source.render :: Utf8.encode ("/output=" ++ target.render) ::
        Utf8.encode "/exe" :: front.reverse := by
    simp [assemblerArguments]
  rw [Store.outputArgument?, hlast]
  rw [List.findSome?_cons]
  split
  · rename_i output hsource
    refine ⟨output, rfl, .inr ?_⟩
    split at hsource
    · rename_i hmark
      obtain ⟨rest, hrest⟩ := List.isPrefixOf_iff_prefix.mp hmark
      rw [← Option.some.inj hsource, ← hrest, List.drop_left]
      exact eq_append_of_encode hrest.symm
    · cases hsource
  · refine ⟨target.render, ?_, .inl rfl⟩
    rw [List.findSome?_cons, encode_append, if_pos (List.isPrefixOf_iff_prefix.mpr ⟨_, rfl⟩),
      List.drop_left, pathOfBytes_encode]

theorem frame_launch {store after : Store} {searchPath assembler : String} {source target : Path}
    {finished : Finished}
    (hlaunch : store.launch searchPath assembler (assemblerArguments source target) =
      .ok (finished, after)) :
    ∃ output, (output = target.render ∨ source.render = "/output=" ++ output) ∧
      Store.Frame [output] store after := by
  rw [Store.launch] at hlaunch
  obtain ⟨⟨program, arguments⟩, hload, hlaunch⟩ := bind_eq_ok hlaunch
  obtain ⟨front, rfl⟩ := Store.arguments_of_loadFirst hload
  obtain ⟨output, houtput, hpath⟩ := exists_output front source target
  refine ⟨output, hpath, ?_⟩
  rw [← (Prod.mk.inj (Except.ok.inj hlaunch)).2]
  exact Store.frame_afterRun store program houtput

/-! ### The steps of assembling -/

theorem looks_capturedText (bytes : List UInt8) : (capturedText bytes).Looks := by
  intro bench
  rw [capturedText]
  split <;> rfl

theorem avoids_capturedText (bytes : List UInt8) : (capturedText bytes).Avoids .notAscii := by
  rw [capturedText]
  split
  · exact Task.avoids_pure _ _
  · exact Task.avoids_throw nofun

theorem avoids_runAssembler (assembler : String) (arguments : List String) :
    (runAssembler assembler arguments).Avoids .notAscii := by
  refine (Task.avoids_get _).bind fun bench => ?_
  split
  · exact Task.avoids_throw nofun
  · refine (Task.avoids_modify _ _).bind fun _ => (avoids_capturedText _).bind fun stdout =>
      (avoids_capturedText _).bind fun stderr => ?_
    split
    · exact Task.avoids_modify _ _
    · exact Task.avoids_throw nofun

section RunAssembler

variable {bench : Workbench} {assembler : String} {arguments : List String}

theorem run_runAssembler_of_error {error : SystemError}
    (hlaunch : bench.store.launch bench.environment.path assembler arguments = .error error) :
    (runAssembler assembler arguments).run bench =
      (.error (.tool (.launchFailed assembler error)), bench) := by
  rw [runAssembler, run_bind, run_get]
  dsimp only
  rw [hlaunch]
  rfl

/-- What comes of a launch is judged by what it has left, and nothing is done to
the store any more. -/
theorem run_runAssembler_of_launch {finished : Finished} {store : Store}
    (hlaunch : bench.store.launch bench.environment.path assembler arguments =
      .ok (finished, store)) :
    let ran := (runAssembler assembler arguments).run bench
    ran.2.store = store ∧ ∀ name error, ran.1 ≠ .error (.tool (.launchFailed name error)) := by
  dsimp only
  rw [runAssembler, run_bind, run_get]
  dsimp only
  rw [hlaunch]
  dsimp only
  rw [run_bind, Task.setStore, run_modify]
  dsimp only
  have hcaptured (bytes : List UInt8) (bench : Workbench) :
      (∃ text, ((capturedText bytes).run bench).1 = .ok text) ∨
        ∃ error, ((capturedText bytes).run bench).1 = .error (.notUtf8 error) := by
    rw [capturedText]
    split
    · exact .inl ⟨_, rfl⟩
    · exact .inr ⟨_, rfl⟩
  rw [(looks_capturedText _).run_bind]
  rcases hcaptured finished.stdout { bench with store } with ⟨stdout, hstdout⟩ | ⟨error, hstdout⟩
  · rw [hstdout]
    dsimp only
    rw [(looks_capturedText _).run_bind]
    rcases hcaptured finished.stderr { bench with store } with ⟨stderr, hstderr⟩ | ⟨error, hstderr⟩
    · rw [hstderr]
      dsimp only
      split
      · exact ⟨rfl, fun _ _ => nofun⟩
      · exact ⟨rfl, fun _ _ => nofun⟩
    · rw [hstderr]
      exact ⟨rfl, fun _ _ => nofun⟩
  · rw [hstdout]
    exact ⟨rfl, fun _ _ => nofun⟩

end RunAssembler

/-- A run of the assembler writes its output or nothing, whatever comes of it. -/
theorem frame_runAssembler (assembler : String) (source target : Path) (bench : Workbench) :
    ∃ output, (output = target.render ∨ source.render = "/output=" ++ output) ∧
      Store.Frame [output] bench.store
        ((runAssembler assembler (assemblerArguments source target)).run bench).2.store := by
  cases hlaunch : bench.store.launch bench.environment.path assembler
      (assemblerArguments source target) with
  | error error =>
      rw [run_runAssembler_of_error hlaunch]
      exact ⟨target.render, .inl rfl, Store.Frame.refl _ _⟩
  | ok launched =>
      obtain ⟨output, hpath, hframe⟩ := frame_launch hlaunch
      rw [(run_runAssembler_of_launch hlaunch).1]
      exact ⟨output, hpath, hframe⟩

theorem run_attempt {α : Type} (task : Task α) (bench : Workbench) :
    (Task.attempt task).run bench = (.ok (task.run bench).1, (task.run bench).2) := rfl

theorem run_writeAscii_of_write {path text : String} {bytes : List UInt8} {bench : Workbench}
    {emptied : Store} (hnamable : Store.isNamable path = true)
    (hempty : bench.store.write path [] = .ok emptied)
    (hbytes : Encoding.asciiBytes? text = some bytes) :
    ∃ written, emptied.write path bytes = .ok written ∧
      (writeAscii path text).run bench = (.ok (), { bench with store := written }) := by
  -- The second write finds the file that the first one has left.
  obtain ⟨location, file, hlocate, -, -, -, hfile⟩ := Store.exists_file_of_write hempty
  have hagain := Store.write_of_file ((Store.frame_write hempty).locate_iff.mpr hlocate) hfile bytes
  refine ⟨_, hagain, ?_⟩
  rw [writeAscii, run_bind, Task.run_requireNamable, if_pos hnamable]
  dsimp only
  rw [(Task.looks_ask _ _).run_bind, Task.run_ask, hempty]
  dsimp only
  rw [run_bind, Task.setStore, run_modify]
  dsimp only
  rw [hbytes]
  dsimp only
  rw [(Task.looks_ask _ _).run_bind, Task.run_ask, hagain]
  rfl

/-- Writing a text fails and leaves all as it is, or comes upon a character that
is not ASCII when the file has been emptied, or leaves a file. -/
theorem run_writeAscii (path text : String) (bench : Workbench) :
    let run := (writeAscii path text).run bench
    ((∃ failure, failure ≠ .notAscii ∧ run = (.error failure, bench)) ∧
        ∀ emptied, Store.isNamable path = true → bench.store.write path [] ≠ .ok emptied) ∨
      (∃ emptied, bench.store.write path [] = .ok emptied ∧ Encoding.asciiBytes? text = none ∧
        run = (.error .notAscii, { bench with store := emptied })) ∨
      ∃ written location file, Store.Frame [path] bench.store written ∧
        bench.store.locate path = .ok location ∧ written.node? location = some (.file file) ∧
        run = (.ok (), { bench with store := written }) := by
  cases hnamable : Store.isNamable path with
  | false =>
      rw [writeAscii, run_bind, Task.run_requireNamable, hnamable]
      exact .inl ⟨⟨.nulInPath, nofun, rfl⟩, fun _ => nofun⟩
  | true =>
      cases hempty : bench.store.write path [] with
      | error error =>
          rw [writeAscii, run_bind, Task.run_requireNamable, if_pos hnamable]
          dsimp only
          rw [(Task.looks_ask _ _).run_bind, Task.run_ask, hempty]
          exact .inl ⟨⟨.system error path, nofun, rfl⟩, fun _ _ => nofun⟩
      | ok emptied =>
          cases hbytes : Encoding.asciiBytes? text with
          | none =>
              rw [writeAscii, run_bind, Task.run_requireNamable, if_pos hnamable]
              dsimp only
              rw [(Task.looks_ask _ _).run_bind, Task.run_ask, hempty]
              dsimp only
              rw [run_bind, Task.setStore, run_modify]
              dsimp only
              rw [hbytes]
              exact .inr (.inl ⟨emptied, rfl, rfl, rfl⟩)
          | some bytes =>
              have hframe := Store.frame_write hempty
              obtain ⟨written, hagain, hrun⟩ := run_writeAscii_of_write hnamable hempty hbytes
              obtain ⟨location, file, hlocate, -, -, -, hfile⟩ := Store.exists_file_of_write hagain
              rw [hframe.locate_iff] at hlocate
              exact .inr (.inr ⟨written, location, file,
                (hframe.trans (Store.frame_write hagain)).mono (by simp), hlocate, hfile, hrun⟩)

/-- The rest of assembling, when the text has been written. -/
def afterWriting (assembler : String) (source target : Path) (keep : Bool) : Task Path := do
  let arguments := assemblerArguments source target
  Task.record [.running (assembler :: arguments)]
  let outcome ← Task.attempt (runAssembler assembler arguments)
  if !keep then discard source.render
  Task.conclude outcome
  return target

theorem assemble_eq (text : String) (base : Path) (explicit : Option String) (keep : Bool) :
    assemble text base explicit keep = (do
      let source ← besides base ".il"
      let target ← besides base ".exe"
      let assembler ← findAssembler explicit
      writeAscii source.render text
      afterWriting assembler source target keep) := rfl

/-- The assembler is run and then the file removed unless it is to be kept,
whatever comes of the run. -/
theorem run_afterWriting (assembler : String) (source target : Path) (keep : Bool)
    (bench : Workbench) :
    let arguments := assemblerArguments source target
    let ran := (runAssembler assembler arguments).run
      { bench with log := bench.log ++ [.running (assembler :: arguments)] }
    let run := (afterWriting assembler source target keep).run bench
    run.1 = ran.1.map (fun _ => target) ∧
      run.2.store = if keep then ran.2.store else ran.2.store.remove source.render := by
  dsimp only
  rw [afterWriting, run_bind, Task.record, run_modify]
  dsimp only
  rw [run_bind, run_attempt]
  dsimp only
  generalize (runAssembler assembler (assemblerArguments source target)).run _ = ran
  obtain ⟨outcome, after⟩ := ran
  cases keep <;> cases outcome <;> exact ⟨rfl, rfl⟩

theorem frame_afterWriting (assembler : String) (source target : Path) (keep : Bool)
    (bench : Workbench) :
    let run := (afterWriting assembler source target keep).run bench
    run.1 ≠ .error .notAscii ∧
      ∃ ran output, (output = target.render ∨ source.render = "/output=" ++ output) ∧
        Store.Frame [output] bench.store ran ∧
        run.2.store = if keep then ran else ran.remove source.render := by
  intro run
  obtain ⟨hresult, hstore⟩ := run_afterWriting assembler source target keep bench
  generalize hready : ({ bench with log := bench.log ++
    [.running (assembler :: assemblerArguments source target)] } : Workbench) = ready
    at hresult hstore
  have hclean := avoids_runAssembler assembler (assemblerArguments source target) ready
  obtain ⟨output, hpath, hran⟩ := frame_runAssembler assembler source target ready
  refine ⟨?_, _, output, hpath, ?_, hstore⟩
  · intro hsame
    change run.1 = _ at hresult
    rw [hresult] at hsame
    exact hclean (error_of_map hsame)
  · rw [← hready] at hran ⊢
    exact hran

/-- The store at the end, if a file has been written and the assembler has run. -/
theorem frame_finish {before written ran : Store} {source output : String} {location : Location}
    {file : File} (hwritten : Store.Frame [source] before written)
    (hlocate : before.locate source = .ok location)
    (hfile : written.node? location = some (.file file))
    (hran : Store.Frame [output] written ran) (keep : Bool) :
    let after := if keep then ran else ran.remove source
    Store.Frame [source, output] before after ∧
      (keep = false → ∃ location, before.locate source = .ok location ∧
        after.node? location = none) := by
  have hboth := hwritten.trans hran
  cases keep with
  | true => exact ⟨hboth, nofun⟩
  | false =>
      have hnode : ran.node? location ≠ some .directory := by
        rw [ne_eq, hran.directory, hfile]
        exact nofun
      obtain ⟨hremoved, hgone⟩ := Store.frame_remove (hboth.locate_iff.mpr hlocate) hnode
      exact ⟨(hboth.trans hremoved).mono (by simp), fun _ => ⟨location, hlocate, hgone⟩⟩

/-- Assembling comes to writing the text: there are a name to write to and an
assembler, and the file can be opened. -/
def Writes (bench : Workbench) (base : Path) (explicit : Option String) : Prop :=
  ∃ source assembler emptied, base.withName? (base.name ++ ".il") = some source ∧
    ((findAssembler explicit).run bench).1 = .ok assembler ∧
    Store.isNamable source.render = true ∧ bench.store.write source.render [] = .ok emptied

/-- A base that has a name to write to has one for the executable. -/
theorem exists_target {base source : Path}
    (hsource : base.withName? (base.name ++ ".il") = some source) :
    ∃ target, base.withName? (base.name ++ ".exe") = some target := by
  rw [Path.withName?] at hsource ⊢
  split at hsource
  · cases hsource
  · rename_i hparts
    exact ⟨_, if_neg hparts⟩

/-- What assembling can do to the store.  It does not come to writing the text; or
the text is not ASCII and an empty file is left; or the assembler has been tried,
and then the file with the text is gone unless it is to be kept. -/
theorem run_assemble (text : String) (base : Path) (explicit : Option String) (keep : Bool)
    (bench : Workbench) :
    let run := (assemble text base explicit keep).run bench
    (¬ Writes bench base explicit ∧ run.1 ≠ .error .notAscii ∧ run.2.store = bench.store) ∨
      ∃ source ∈ base.withName? (base.name ++ ".il"),
        ∃ target ∈ base.withName? (base.name ++ ".exe"),
          (run.1 = .error .notAscii ∧ Encoding.asciiBytes? text = none ∧
            bench.store.write source.render [] = .ok run.2.store) ∨
          (run.1 ≠ .error .notAscii ∧
            ∃ output, (output = target.render ∨ source.render = "/output=" ++ output) ∧
              Store.Frame [source.render, output] bench.store run.2.store ∧
              (keep = false → ∃ location, bench.store.locate source.render = .ok location ∧
                run.2.store.node? location = none)) := by
  rw [assemble_eq, run_bind, run_besides, Writes]
  cases hsource : base.withName? (base.name ++ ".il") with
  | none => exact .inl ⟨by simp, nofun, rfl⟩
  | some source =>
      obtain ⟨target, htarget⟩ := exists_target hsource
      dsimp only
      rw [run_bind, run_besides, htarget]
      dsimp only
      rw [(looks_findAssembler explicit).run_bind]
      have hfound := avoids_findAssembler explicit bench
      cases hassembler : ((findAssembler explicit).run bench).1 with
      | error failure =>
          rw [hassembler] at hfound
          exact .inl ⟨by simp, fun hsame => hfound (congrArg _ (Except.error.inj hsame)), rfl⟩
      | ok assembler =>
          dsimp only
          rw [run_bind]
          rcases run_writeAscii source.render text bench with
            ⟨⟨failure, hfailure, hrun⟩, hstuck⟩ | ⟨emptied, hempty, hbytes, hrun⟩ |
            ⟨written, location, file, hframe, hlocate, hfile, hrun⟩
          · rw [hrun]
            refine .inl ⟨?_, fun hsame => hfailure (Except.error.inj hsame), rfl⟩
            rintro ⟨other, -, emptied, hother, -, hnamable, hwrite⟩
            obtain rfl := Option.some.inj hother
            exact hstuck emptied hnamable hwrite
          · rw [hrun]
            exact .inr ⟨source, rfl, target, rfl, .inl ⟨rfl, hbytes, hempty⟩⟩
          · rw [hrun]
            refine .inr ⟨source, rfl, target, rfl, .inr ?_⟩
            obtain ⟨hclean, ran, output, hpath, hran, hafter⟩ :=
              frame_afterWriting assembler source target keep { bench with store := written }
            refine ⟨hclean, output, hpath, ?_⟩
            dsimp only at hafter ⊢
            rw [hafter]
            exact frame_finish hframe hlocate hfile hran keep

/-- What was there before the text is written is lost. -/
theorem eq_nil_of_read_assemble {text : String} {base source : Path} {explicit : Option String}
    {bench : Workbench} {bytes : List UInt8} (hwrites : Writes bench base explicit)
    (hsource : base.withName? (base.name ++ ".il") = some source)
    (hread : ((assemble text base explicit false).run bench).2.store.read source.render =
      .ok bytes) : bytes = [] := by
  rcases run_assemble text base explicit false bench with ⟨hstuck, -, -⟩ |
    ⟨other, hother, target, htarget, ⟨-, -, hwrite⟩ | ⟨-, output, -, hframe, hgone⟩⟩
  · exact absurd hwrites hstuck
  · obtain rfl := Option.mem_unique hsource hother
    rw [Store.read_of_write hwrite] at hread
    exact (Except.ok.inj hread).symm
  · obtain rfl := Option.mem_unique hsource hother
    obtain ⟨place, hplace, hnone⟩ := hgone rfl
    obtain ⟨location, file, hlocate, hnode⟩ := Store.exists_file_of_read hread
    rw [hframe.locate_iff, hplace] at hlocate
    rw [← Except.ok.inj hlocate, hnone] at hnode
    cases hnode

/-! ### The result -/

/-- Where the assembler can put its output for a base: where the executable is to
be, or, if the text of the file to assemble reads as a request for an output
itself, where that request leads. -/
def IsOutput (store : Store) (base : Path) (location : Location) : Prop :=
  (∃ target ∈ base.withName? (base.name ++ ".exe"), store.locate target.render = .ok location) ∨
    ∃ source ∈ base.withName? (base.name ++ ".il"), ∃ output,
      source.render = "/output=" ++ output ∧ store.locate output = .ok location

/-- If there is no file with the name of the one that assembling writes, there is
none afterwards, and nothing but the output has changed, whatever comes of it,
with one exception: a text that is not ASCII leaves an empty file. -/
theorem assemble_cleans_up (bench : Workbench) (text : String) (base : Path)
    (explicit : Option String)
    (habsent : ∀ source ∈ base.withName? (base.name ++ ".il"), ∀ node,
      bench.store.find source.render ≠ .ok node) :
    let run := (assemble text base explicit false).run bench
    (run.1 ≠ .error .notAscii →
      (∀ source ∈ base.withName? (base.name ++ ".il"), ∀ node,
        run.2.store.find source.render ≠ .ok node) ∧
      ∀ location, ¬ IsOutput bench.store base location →
        run.2.store.node? location = bench.store.node? location) ∧
    (run.1 = .error .notAscii →
      Encoding.asciiBytes? text = none ∧
      ∃ source ∈ base.withName? (base.name ++ ".il"),
        run.2.store.read source.render = .ok [] ∧
        Store.Frame [source.render] bench.store run.2.store) := by
  intro run
  rcases run_assemble text base explicit false bench with ⟨-, hclean, hstore⟩ |
    ⟨source, hsource, target, htarget, ⟨hfailed, hbytes, hwrite⟩ |
      ⟨hclean, output, hpath, hframe, hgone⟩⟩
  · refine ⟨fun _ => ⟨?_, fun location _ => ?_⟩, fun hfailed => absurd hfailed hclean⟩
    · intro source hsource node
      rw [hstore]
      exact habsent source hsource node
    · rw [hstore]
  · refine ⟨fun hclean => absurd hfailed hclean, fun _ => ⟨hbytes, source, hsource, ?_, ?_⟩⟩
    · exact Store.read_of_write hwrite
    · exact Store.frame_write hwrite
  · refine ⟨fun _ => ?_, fun hfailed => absurd hfailed hclean⟩
    obtain ⟨place, hplace, hnone⟩ := hgone rfl
    have hbefore : bench.store.node? place = none := by
      cases hnode : bench.store.node? place with
      | none => rfl
      | some node =>
          exact absurd (Store.find_eq_ok_iff.mpr ⟨place, hplace, hnode⟩) (habsent source hsource node)
    constructor
    · intro other hother node hfind
      obtain rfl := Option.mem_unique hsource hother
      obtain ⟨location, hlocate, hnode⟩ := Store.find_eq_ok_iff.mp hfind
      rw [hframe.locate_iff, hplace] at hlocate
      rw [← Except.ok.inj hlocate, hnone] at hnode
      cases hnode
    · intro location hlocation
      by_cases hsame : location = place
      · rw [hsame, hbefore]
        exact hnone
      · refine hframe.same location
          (List.forall_mem_cons.mpr ⟨?_, List.forall_mem_singleton.mpr fun hlocate => ?_⟩)
        · rw [hplace]
          exact fun hlocate => hsame (Except.ok.inj hlocate).symm
        · rcases hpath with rfl | hpath
          · exact hlocation (.inl ⟨target, htarget, hlocate⟩)
          · exact hlocation (.inr ⟨source, hsource, output, hpath, hlocate⟩)

/-- An assembler in the working directory that writes its output and then reports
an error. -/
def rejectingBench : Workbench :=
  { store := { nodes :=
      [(["asm"], .file { content := .program { status := 3 }, executable := true })] } }

/-- The text that an assembler has rejected is gone. -/
theorem assemble_cleans_up_rejected :
    let run := (assemble "ret" (Path.ofString "prog") (some "./asm") false).run rejectingBench
    rejectingBench.store.find "prog.il" = .error .noEntry ∧
      run.1 = .error (.tool (.rejected 3 "")) ∧
      run.2.store.hasNode "prog.exe" = .ok true ∧
      ∀ node, run.2.store.find "prog.il" ≠ .ok node := by
  intro run
  have habsent : rejectingBench.store.find "prog.il" = .error .noEntry := rfl
  have hrun : run.1 = .error (.tool (.rejected 3 "")) := rfl
  refine ⟨habsent, hrun, rfl, ?_⟩
  have hclean := (assemble_cleans_up rejectingBench "ret" (Path.ofString "prog") (some "./asm") (by
    intro source hsource node
    obtain rfl := Option.some.inj hsource
    change rejectingBench.store.find "prog.il" ≠ _
    rw [habsent]
    exact nofun)).1 (by
      change run.1 ≠ _
      rw [hrun]
      exact nofun)
  exact hclean.1 _ rfl

/-- A text that is not ASCII leaves a file where there was none. -/
theorem assemble_leaves_empty_file :
    let run := (assemble "é" (Path.ofString "prog") (some "./asm") false).run rejectingBench
    rejectingBench.store.find "prog.il" = .error .noEntry ∧
      run.1 = .error .notAscii ∧ run.2.store.read "prog.il" = .ok [] :=
  ⟨rfl, rfl, rfl⟩

end Workspace
end TapeCompiler
