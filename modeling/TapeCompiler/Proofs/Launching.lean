import TapeCompiler.Proofs.Assembling

/-!
# Which assembler is launched

An assembler is looked up twice: when it is resolved, and again when it is
launched by what was resolved.  A path with a slash means the same both times.  A
bare name does not: a file in the working directory resolves it, but a launch
looks for it along the search path only, where it may be missing or, for the
assembler of the last resort, shadowed.  Between the two the text to assemble is
written, which may hit the assembler itself or an interpreter that it needs.

What a launch opens on its way is `Store.opens`; as long as the text is written
elsewhere, what could be loaded still can be (`Store.load_of_frame`), and nothing
else has become a program (`Store.program_of_write`).

Main statement: `assemble_launches_resolved`.
-/

namespace TapeCompiler

namespace Text

theorem mem_of_mem_splitAt {separator c : Char} {text piece : List Char}
    (hpiece : piece ∈ splitAt separator text) (hc : c ∈ piece) : c ∈ text := by
  induction text generalizing piece with
  | nil => simp_all
  | cons first rest ih =>
      rw [splitAt_cons] at hpiece
      unfold prependTo at hpiece
      split at hpiece
      · rcases List.mem_cons.mp hpiece with rfl | hpiece
        · cases hc
        · exact List.mem_cons_of_mem _ (ih hpiece hc)
      · split at hpiece
        · simp_all
        · rename_i front pieces hsplit
          rw [hsplit] at ih
          rcases List.mem_cons.mp hpiece with rfl | hpiece
          · rcases List.mem_cons.mp hc with rfl | hc
            · exact List.mem_cons_self
            · exact List.mem_cons_of_mem _ (ih List.mem_cons_self hc)
          · exact List.mem_cons_of_mem _ (ih (List.mem_cons_of_mem _ hpiece) hc)

theorem splitAt_of_not_mem {separator : Char} {text : List Char} (htext : separator ∉ text) :
    splitAt separator text = [text] := by
  induction text with
  | nil => rfl
  | cons first rest ih =>
      rw [List.mem_cons, not_or] at htext
      rw [splitAt_cons, ih htext.2, prependTo, if_neg (Ne.symm htext.1)]

end Text

namespace Workspace

open Effects Text

/-! ### Loading a program -/

namespace Store

theorem exists_file_of_openProgram {store : Store} {path : String} {file : File}
    (hopen : store.openProgram path = .ok file) :
    store.find path = .ok (.file file) ∧ file.executable = true := by
  rw [openProgram] at hopen
  obtain ⟨node, hfind, hopen⟩ := bind_eq_ok hopen
  cases node with
  | directory => cases hopen
  | file other =>
      dsimp only at hopen
      split at hopen
      · rename_i hexecutable
        cases hopen
        exact ⟨hfind, hexecutable⟩
      · cases hopen

theorem exists_program_of_load {store : Store} {loads : Nat} {path : String}
    {arguments : List (List UInt8)} {loaded : Assembler × List (List UInt8)}
    (hload : store.load loads path arguments = .ok loaded) :
    ∃ file, store.find path = .ok (.file file) ∧ file.executable = true := by
  cases loads with
  | zero =>
      obtain ⟨file, hopen, -⟩ := bind_eq_ok hload
      exact ⟨file, exists_file_of_openProgram hopen⟩
  | succ loads =>
      rw [load] at hload
      obtain ⟨file, hopen, -⟩ := bind_eq_ok hload
      exact ⟨file, exists_file_of_openProgram hopen⟩

/-- The arguments of a launch are handed on behind those of the interpreters and
decide nothing. -/
theorem load_arguments (store : Store) (loads : Nat) (path : String)
    (arguments : List (List UInt8)) :
    store.load loads path arguments =
      (store.load loads path []).map fun loaded => (loaded.1, loaded.2 ++ arguments) := by
  induction loads generalizing path arguments with
  | zero =>
      rw [load, load]
      cases store.openProgram path <;> rfl
  | succ loads ih =>
      rw [load, load]
      cases store.openProgram path with
      | error error => rfl
      | ok file =>
          rw [ok_bind, ok_bind]
          cases file.content with
          | program assembler =>
              dsimp only
              split <;> rfl
          | data bytes =>
              dsimp only
              cases Interpreter.ofFile? bytes with
              | none => rfl
              | some interpreter =>
                  dsimp only
                  rw [ih, ih _ (_ ++ [_])]
                  cases store.load loads interpreter.path [] with
                  | error error => rfl
                  | ok loaded => simp [Except.map]

/-- The paths that a launch opens: that of the program, of its interpreter, of the
interpreter of that, and so on. -/
def opens (store : Store) : Nat → String → List String
  | 0, path => [path]
  | loads + 1, path =>
      path ::
        match store.openProgram path with
        | .error _ => []
        | .ok file =>
            match Interpreter.ofFile? file.bytes with
            | none => []
            | some interpreter => store.opens loads interpreter.path

/-- What can be loaded still can be when files have changed that are not opened
for it. -/
theorem load_of_frame {before after : Store} {paths : List String}
    (hframe : Frame paths before after) {loads : Nat} {path : String}
    {arguments : List (List UInt8)} {loaded : Assembler × List (List UInt8)}
    (hload : before.load loads path arguments = .ok loaded)
    (hapart : ∀ opened ∈ before.opens loads path, ∀ location,
      before.locate opened = .ok location → ∀ other ∈ paths, before.locate other ≠ .ok location) :
    after.load loads path arguments = .ok loaded := by
  -- An interpreter is loaded in place of its script, so the arguments vary along the induction.
  induction loads generalizing path arguments with
  | zero =>
      obtain ⟨file, -, hthrow⟩ := bind_eq_ok hload
      cases hthrow
  | succ loads ih =>
      rw [load] at hload
      obtain ⟨file, hopen, hload⟩ := bind_eq_ok hload
      rw [opens, hopen, List.forall_mem_cons] at hapart
      dsimp only at hapart
      have hsame : after.openProgram path = .ok file := by
        obtain ⟨location, hlocate, -⟩ := find_eq_ok_iff.mp (exists_file_of_openProgram hopen).1
        rw [openProgram, hframe.find_eq hlocate (hapart.1 location hlocate), ← openProgram]
        exact hopen
      rw [load, hsame, ok_bind]
      cases hcontent : file.content with
      | program assembler =>
          rw [hcontent] at hload
          exact hload
      | data bytes =>
          have hbytes : file.bytes = bytes := by rw [File.bytes, hcontent]
          rw [hcontent] at hload
          rw [hbytes] at hapart
          cases hinterpreter : Interpreter.ofFile? bytes with
          | none =>
              simp only [hinterpreter] at hload
              cases hload
          | some interpreter =>
              simp only [hinterpreter] at hload hapart ⊢
              exact ih hload hapart.2

/-- Writing a file makes no program: a file that is there keeps its permission,
and a new one has none. -/
theorem program_of_write {before after : Store} {path other : String} {bytes : List UInt8}
    (hwrite : before.write path bytes = .ok after) {file : File}
    (hfile : after.find other = .ok (.file file)) (hexecutable : file.executable = true) :
    ∃ earlier, before.find other = .ok (.file earlier) ∧ earlier.executable = true := by
  have hframe := frame_write hwrite
  obtain ⟨location, hother, hnode⟩ := find_eq_ok_iff.mp hfile
  rw [hframe.locate_iff] at hother
  by_cases hsame : before.locate path = .ok location
  · -- The file that is written: it has the permission that it had, and none if it is new.
    rw [write, hsame, ok_bind] at hwrite
    have hset (put : File) (hbefore : before.node? location ≠ some .directory) :
        (before.set location (.file put)).node? location = some (.file put) := by
      rw [node?_set _ (ne_root_of_not_directory hbefore), if_pos rfl]
    cases hbefore : before.node? location with
    | none =>
        rw [hbefore] at hwrite
        cases hwrite
        rw [hset _ (by simp [hbefore])] at hnode
        cases hnode
        cases hexecutable
    | some node =>
        cases node with
        | directory =>
            rw [hbefore] at hwrite
            cases hwrite
        | file earlier =>
            rw [hbefore] at hwrite
            cases hwrite
            rw [hset _ (by simp [hbefore])] at hnode
            cases hnode
            exact ⟨earlier, find_eq_ok_iff.mpr ⟨location, hother, hbefore⟩, hexecutable⟩
  · rw [hframe.same location (by simpa using hsame)] at hnode
    exact ⟨file, find_eq_ok_iff.mpr ⟨location, hother, hnode⟩, hexecutable⟩

/-! ### Launching by name -/

def isLoadable (store : Store) (path : String) : Bool :=
  (store.load maxLoads path []).isOk

/-- The paths that a launch tries, in order. -/
def launchPaths (searchPath name : String) : List String :=
  if hasSlash name then [name] else (searchEntries searchPath).map (inDirectory · name)

/-- The path that is launched by a name, if one is. -/
def launched? (store : Store) (searchPath name : String) : Option String :=
  (launchPaths searchPath name).find? store.isLoadable

section Launch

variable {store : Store}

theorem isLoadable_iff {path : String} :
    store.isLoadable path = true ↔ ∃ loaded, store.load maxLoads path [] = .ok loaded := by
  rw [isLoadable]
  cases store.load maxLoads path [] <;> simp [Except.isOk, Except.toBool]

theorem not_isLoadable_of_error {path : String} {error : SystemError}
    (hload : store.load maxLoads path [] = .error error) : ¬ store.isLoadable path = true := by
  rw [isLoadable_iff, hload]
  simp

/-- Of several paths the first that can be launched is loaded. -/
theorem loadFirst_of_find {arguments : List (List UInt8)} {reason : SystemError}
    {paths : List String} {path : String} (hfind : paths.find? store.isLoadable = some path) :
    store.loadFirst arguments reason paths = store.load maxLoads path arguments := by
  induction paths generalizing reason with
  | nil => cases hfind
  | cons first rest ih =>
      rw [loadFirst, load_arguments store maxLoads first]
      cases hload : store.load maxLoads first [] with
      | ok loaded =>
          rw [List.find?_cons_of_pos (isLoadable_iff.mpr ⟨loaded, hload⟩)] at hfind
          cases hfind
          rw [load_arguments, hload]
          rfl
      | error error =>
          rw [List.find?_cons_of_neg (not_isLoadable_of_error hload)] at hfind
          exact ih hfind

theorem loadFirst_of_find_none {arguments : List (List UInt8)} {reason : SystemError}
    {paths : List String} (hfind : paths.find? store.isLoadable = none) :
    ∃ error, store.loadFirst arguments reason paths = .error error := by
  induction paths generalizing reason with
  | nil => exact ⟨reason, rfl⟩
  | cons first rest ih =>
      rw [loadFirst, load_arguments store maxLoads first]
      cases hload : store.load maxLoads first [] with
      | ok loaded =>
          rw [List.find?_cons_of_pos (isLoadable_iff.mpr ⟨loaded, hload⟩)] at hfind
          cases hfind
      | error error =>
          rw [List.find?_cons_of_neg (not_isLoadable_of_error hload)] at hfind
          exact ih hfind

variable {searchPath name : String} {arguments : List String}

/-- A launch by name is one of the path that it takes. -/
theorem launch_of_launched {path : String} {assembler : Assembler} {loaded : List (List UInt8)}
    (hlaunched : store.launched? searchPath name = some path)
    (hload : store.load maxLoads path [] = .ok (assembler, loaded)) :
    store.launch searchPath name arguments =
      .ok (⟨assembler.exitStatus, assembler.stdout, assembler.stderr⟩,
        store.afterRun assembler (loaded ++ arguments.map Utf8.encode)) := by
  have hfirst := @loadFirst_of_find store (arguments.map Utf8.encode) .noEntry _ _ hlaunched
  rw [load_arguments, hload] at hfirst
  rw [launch, ← launchPaths, hfirst]
  rfl

theorem launch_of_not_launched (hlaunched : store.launched? searchPath name = none) :
    ∃ error, store.launch searchPath name arguments = .error error := by
  obtain ⟨error, herror⟩ :=
    @loadFirst_of_find_none store (arguments.map Utf8.encode) .noEntry _ hlaunched
  refine ⟨error, ?_⟩
  rw [launch, ← launchPaths, herror]
  rfl

end Launch

/-! ### Searching and launching -/

section Search

variable {before after : Store} {searchPath name : String}

theorem isNamable_of_mem_launchPaths (hpath : isNamable searchPath = true)
    (hname : isNamable name = true) {path : String} (hmem : path ∈ launchPaths searchPath name) :
    isNamable path = true := by
  rw [launchPaths] at hmem
  split at hmem
  · rw [List.mem_singleton.mp hmem]
    exact hname
  · obtain ⟨entry, hentry, rfl⟩ := List.mem_map.mp hmem
    obtain ⟨piece, hpiece, rfl⟩ := List.mem_map.mp hentry
    have hzero : '\x00' ∉ piece := by
      intro hc
      have hmem := mem_of_mem_splitAt hpiece hc
      simp [isNamable, hmem] at hpath
    rw [inDirectory]
    split <;> simp_all [isNamable]

theorem search_of_bare {store : Store} (hbare : hasSlash name = false) (hpath : searchPath ≠ "") :
    store.search searchPath name = (launchPaths searchPath name).find? store.isProgram := by
  rw [search, launchPaths]
  simp [hbare, hpath]

section Bare

variable (hbare : hasSlash name = false) (hpath : searchPath ≠ "")
  (hprogram : ∀ path ∈ launchPaths searchPath name,
    after.isLoadable path = true → before.isProgram path = true)
include hbare hpath hprogram

/-- A bare name is launched as it is found, if nothing that a launch could take
instead was passed over by the search. -/
theorem launched_of_search {path : String} (hsearch : before.search searchPath name = some path)
    (hload : after.isLoadable path = true) : after.launched? searchPath name = some path := by
  rw [search_of_bare hbare hpath] at hsearch
  obtain ⟨-, front, behind, hsplit, hfront⟩ := List.find?_eq_some_iff_append.mp hsearch
  refine List.find?_eq_some_iff_append.mpr ⟨hload, front, behind, hsplit, ?_⟩
  intro other hother
  -- The search has passed over the paths in front, so they were no programs and are none now.
  have hmem : other ∈ launchPaths searchPath name := by
    rw [hsplit]
    exact List.mem_append_left _ hother
  cases hloadable : after.isLoadable other with
  | false => rfl
  | true => simpa [hprogram other hmem hloadable] using hfront other hother

/-- A bare name that is not found is not launched. -/
theorem not_launched_of_search (hsearch : before.search searchPath name = none) :
    after.launched? searchPath name = none := by
  rw [search_of_bare hbare hpath, List.find?_eq_none] at hsearch
  rw [launched?, List.find?_eq_none]
  exact fun path hmem hload => hsearch path hmem (hprogram path hmem hload)

end Bare

/-- What a search finds is a path with a slash or found by its own name. -/
theorem search_found {store : Store} {candidate found : String}
    (hsearch : store.search searchPath candidate = some found) :
    store.isProgram found = true ∧
      (hasSlash found = true ∨ store.search searchPath found = some found) := by
  have hwhole := hsearch
  rw [search] at hsearch
  split at hsearch
  · rename_i hslash
    split at hsearch
    · rename_i hprogram
      cases hsearch
      exact ⟨hprogram, .inl hslash⟩
    · cases hsearch
  · split at hsearch
    · cases hsearch
    · refine ⟨List.find?_some hsearch, ?_⟩
      obtain ⟨entry, -, rfl⟩ := List.mem_map.mp (List.mem_of_find?_eq_some hsearch)
      by_cases hempty : entry = ""
      · right
        have hname : inDirectory entry candidate = candidate := by simp [inDirectory, hempty]
        rw [hname] at hwhole ⊢
        exact hwhole
      · left
        rw [inDirectory, hasSlash]
        split
        · rename_i hends
          have hlast := List.mem_of_mem_getLast? (hends.resolve_left hempty)
          simp [hlast]
        · simp

end Search

theorem isNamable_of_hasFile {store : Store} {path : String}
    (hfile : store.hasFile path = .ok true) : isNamable path = true := by
  rw [hasFile, test] at hfile
  split at hfile
  · assumption
  · cases hfile

end Store

/-! ### Resolving the assembler -/

/-- The text of a bare name is the name, unless it says nothing. -/
theorem render_ofString_of_bare {name : String} (hbare : hasSlash name = false)
    (hpart : Path.isPart name = true) : (Path.ofString name).render = name := by
  have hslash : '/' ∉ name.toList := by simpa [hasSlash] using hbare
  have hroot : Path.rootOf name.toList = .relative := by
    cases hname : name.toList with
    | nil => rfl
    | cons c rest =>
        have hc : c ≠ '/' := by
          rintro rfl
          simp [hname] at hslash
        simp [Path.rootOf, hc]
  simp [Path.ofString, splitAt_of_not_mem hslash, hroot, hpart, Path.render, Root.text]

/-- A name that is taken only if there is a file. -/
theorem eq_of_asks_for_file {path name found : String} {failure : Failure} {bench : Workbench}
    (hfound : ((do
      if ← Task.ask path (·.hasFile path) then return name else throw failure :
        Task String).run bench).1 = .ok found) :
    name = found ∧ bench.store.hasFile path = .ok true := by
  rw [run_bind, Task.run_ask] at hfound
  cases hfile : bench.store.hasFile path with
  | error error =>
      rw [hfile] at hfound
      cases hfound
  | ok isFile =>
      rw [hfile] at hfound
      cases isFile with
      | false => cases hfound
      | true => exact ⟨Except.ok.inj hfound, rfl⟩

/-- An assembler is resolved by the search, or it is a file: one that is asked for
and not found by the search, or else that of the last resort. -/
theorem resolved_cases {explicit : Option String} {bench : Workbench} {found : String}
    (hfound : ((findAssembler explicit).run bench).1 = .ok found) :
    (∃ candidate, bench.store.search bench.environment.path candidate = some found) ∨
      (bench.store.search bench.environment.path found = none ∧
        bench.store.hasFile (Path.ofString found).render = .ok true) ∨
      (requestedAssembler explicit bench.environment.assembler = none ∧
        found = systemAssembler ∧ bench.store.hasFile found = .ok true) := by
  rw [findAssembler, run_bind, run_get] at hfound
  dsimp only at hfound
  split at hfound
  · rename_i candidate hrequested
    rw [resolveAssembler, run_bind, run_get] at hfound
    dsimp only at hfound
    split at hfound
    · rename_i path hsearch
      cases hfound
      exact .inl ⟨candidate, hsearch⟩
    · rename_i hsearch
      obtain ⟨rfl, hfile⟩ := eq_of_asks_for_file hfound
      exact .inr (.inl ⟨hsearch, hfile⟩)
  · rename_i hrequested
    split at hfound
    · rename_i path hsearch
      cases hfound
      exact .inl ⟨"ilasm", hsearch⟩
    · obtain ⟨rfl, hfile⟩ := eq_of_asks_for_file hfound
      exact .inr (.inr ⟨hrequested, rfl, hfile⟩)

theorem isNamable_of_resolved {explicit : Option String} {bench : Workbench} {found : String}
    (hfound : ((findAssembler explicit).run bench).1 = .ok found)
    (hbare : hasSlash found = false) : Store.isNamable found = true := by
  rcases resolved_cases hfound with ⟨candidate, hsearch⟩ | ⟨-, hfile⟩ | ⟨-, -, hfile⟩
  · have hprogram := (Store.search_found hsearch).1
    rw [Store.isProgram, Bool.and_eq_true] at hprogram
    exact hprogram.1
  · cases hpart : Path.isPart found with
    | true =>
        rw [← render_ofString_of_bare hbare hpart]
        exact Store.isNamable_of_hasFile hfile
    | false =>
        have hsilent : found = "" ∨ found = "." := by
          simpa [Path.isPart, Classical.or_iff_not_imp_left] using hpart
        rcases hsilent with rfl | rfl <;> decide
  · exact Store.isNamable_of_hasFile hfile

/-! ### Assembling -/

/-- A launch by this name takes this path: the name is a path already, or all
that is searched is the working directory, or the search finds it. -/
def Reachable (bench : Workbench) (name : String) : Prop :=
  hasSlash name = true ∨ bench.environment.path = "" ∨
    bench.store.search bench.environment.path name = some name

instance (bench : Workbench) (name : String) : Decidable (Reachable bench name) :=
  inferInstanceAs (Decidable (_ ∨ _ ∨ _))

/-- What is reachable by its name and can be launched is launched. -/
theorem launched_of_reachable {bench : Workbench} {name : String} {written : Store}
    (hreachable : Reachable bench name)
    (hprogram : hasSlash name = false →
      ∀ path ∈ Store.launchPaths bench.environment.path name,
        written.isLoadable path = true → bench.store.isProgram path = true)
    (hload : written.isLoadable name = true) :
    written.launched? bench.environment.path name = some name := by
  cases hslash : hasSlash name with
  | true => simp [Store.launched?, Store.launchPaths, hslash, hload]
  | false =>
      by_cases hempty : bench.environment.path = ""
      · simp [Store.launched?, Store.launchPaths, hslash, hempty, searchEntries, inDirectory, hload]
      · have hsearch := (hreachable.resolve_left (by simp [hslash])).resolve_left hempty
        exact Store.launched_of_search hslash hempty (hprogram hslash) hsearch hload

theorem reachable_of_search {bench : Workbench} {candidate found : String}
    (hsearch : bench.store.search bench.environment.path candidate = some found) :
    Reachable bench found := by
  rcases (Store.search_found hsearch).2 with hslash | hown
  · exact .inl hslash
  · exact .inr (.inr hown)

/-- An assembler that is not reachable is not found by a search, or it is that of
the last resort. -/
theorem search_of_not_reachable {explicit : Option String} {bench : Workbench} {found : String}
    (hfound : ((findAssembler explicit).run bench).1 = .ok found)
    (hreachable : ¬ Reachable bench found) :
    bench.store.search bench.environment.path found = none ∨
      (requestedAssembler explicit bench.environment.assembler = none ∧
        found = systemAssembler) := by
  rcases resolved_cases hfound with ⟨candidate, hsearch⟩ | ⟨hsearch, -⟩ | ⟨hnone, hsystem, -⟩
  · exact absurd (reachable_of_search hsearch) hreachable
  · exact .inl hsearch
  · exact .inr ⟨hnone, hsystem⟩

/-- A bare name that is not reachable is looked up along a search path that says
something. -/
theorem bare_of_not_reachable {bench : Workbench} {name : String}
    (hreachable : ¬ Reachable bench name) :
    hasSlash name = false ∧ bench.environment.path ≠ "" ∧
      bench.store.search bench.environment.path name ≠ some name := by
  simpa only [Reachable, not_or, Bool.not_eq_true] using hreachable

/-- The program that a launch takes is run on the text that has been written, and
no failed launch is reported. -/
theorem run_afterWriting_of_launched {name path : String} {bench : Workbench}
    {assembler : Assembler} {loaded : List (List UInt8)}
    (hlaunched : bench.store.launched? bench.environment.path name = some path)
    (hload : bench.store.load maxLoads path [] = .ok (assembler, loaded)) (source target : Path)
    (keep : Bool) :
    let run := (afterWriting name source target keep).run bench
    let ran := bench.store.afterRun assembler
      (loaded ++ (assemblerArguments source target).map Utf8.encode)
    run.2.store = (if keep then ran else ran.remove source.render) ∧
      ∀ name error, run.1 ≠ .error (.tool (.launchFailed name error)) := by
  intro run ran
  obtain ⟨hresult, hstore⟩ := run_afterWriting name source target keep bench
  have hlaunch : bench.store.launch bench.environment.path name
      (assemblerArguments source target) = _ := Store.launch_of_launched hlaunched hload
  obtain ⟨hran, hclean⟩ := @run_runAssembler_of_launch
    { bench with log := bench.log ++ [.running (name :: assemblerArguments source target)] }
    _ _ _ _ hlaunch
  constructor
  · rw [hstore, hran]
  · intro name error hfailed
    rw [hresult] at hfailed
    exact hclean name error (error_of_map hfailed)

/-- What can be launched when the text has been written was a program before. -/
theorem isProgram_of_written {before emptied written : Store} {path other : String}
    {bytes : List UInt8} (hempty : before.write path [] = .ok emptied)
    (hwritten : emptied.write path bytes = .ok written) (hnamable : Store.isNamable other = true)
    (hload : written.isLoadable other = true) : before.isProgram other = true := by
  obtain ⟨loaded, hload⟩ := Store.isLoadable_iff.mp hload
  obtain ⟨file, hfile, hexecutable⟩ := Store.exists_program_of_load hload
  obtain ⟨between, hbetween, hexecutable⟩ := Store.program_of_write hwritten hfile hexecutable
  obtain ⟨earlier, hearlier, hexecutable⟩ := Store.program_of_write hempty hbetween hexecutable
  rw [Store.isProgram, hnamable, hearlier]
  exact hexecutable

section Assemble

variable {bench : Workbench} {text found : String} {base source : Path} {explicit : Option String}
  {bytes : List UInt8} {emptied : Store}
  (hsource : base.withName? (base.name ++ ".il") = some source)
  (hnamable : Store.isNamable source.render = true)
  (hempty : bench.store.write source.render [] = .ok emptied)
  (hbytes : Encoding.asciiBytes? text = some bytes)
  (hfound : ((findAssembler explicit).run bench).1 = .ok found)
include hsource hnamable hempty hbytes hfound

/-- With a name to write to, a file that can be opened, an ASCII text and an
assembler, assembling writes the text and comes to running the assembler. -/
theorem run_assemble_of_writes (keep : Bool) :
    ∃ written target, emptied.write source.render bytes = .ok written ∧
      base.withName? (base.name ++ ".exe") = some target ∧
      (assemble text base explicit keep).run bench =
        (afterWriting found source target keep).run { bench with store := written } := by
  obtain ⟨target, htarget⟩ := exists_target hsource
  obtain ⟨written, hwritten, hrun⟩ := run_writeAscii_of_write hnamable hempty hbytes
  refine ⟨written, target, hwritten, htarget, ?_⟩
  rw [assemble_eq, run_bind, run_besides, hsource]
  dsimp only
  rw [run_bind, run_besides, htarget]
  dsimp only
  rw [(looks_findAssembler explicit).run_bind, hfound]
  dsimp only
  rw [run_bind, hrun]

/-- An assembler that has been resolved and can be launched is the one that is
launched, and no failed launch is reported, if a launch by its name takes its
path and the text to assemble is not written over what the launch opens.  All
that the search finds is reachable so.  What is asked for and is not is a bare
name that the search does not find but a file in the working directory resolves,
and its launch fails.  Only the assembler of the last resort can be shadowed by
a program of its name on the search path, and then that program is launched in
its place.  The search path is without a zero character, as that of every
environment. -/
theorem assemble_launches_resolved (keep : Bool)
    (hpath : Store.isNamable bench.environment.path = true)
    {assembler : Assembler} {loaded : List (List UInt8)}
    (hload : bench.store.load maxLoads found [] = .ok (assembler, loaded))
    (hapart : ∀ opened ∈ bench.store.opens maxLoads found, ∀ location,
      bench.store.locate opened = .ok location → bench.store.locate source.render ≠ .ok location) :
    let searchPath := bench.environment.path
    let run := (assemble text base explicit keep).run bench
    (Reachable bench found →
      ∃ written target ran, emptied.write source.render bytes = .ok written ∧
        base.withName? (base.name ++ ".exe") = some target ∧
        written.launched? searchPath found = some found ∧
        written.load maxLoads found [] = .ok (assembler, loaded) ∧
        ran = written.afterRun assembler
          (loaded ++ (assemblerArguments source target).map Utf8.encode) ∧
        run.2.store = (if keep then ran else ran.remove source.render) ∧
        ∀ name error, run.1 ≠ .error (.tool (.launchFailed name error))) ∧
    (∀ candidate, bench.store.search searchPath candidate = some found → Reachable bench found) ∧
    (requestedAssembler explicit bench.environment.assembler ≠ none → ¬ Reachable bench found →
      bench.store.search searchPath found = none) ∧
    (¬ Reachable bench found → bench.store.search searchPath found = none →
      ∃ error, run.1 = .error (.tool (.launchFailed found error))) ∧
    (¬ Reachable bench found → ∀ other, bench.store.search searchPath found = some other →
      requestedAssembler explicit bench.environment.assembler = none ∧
        found = systemAssembler ∧ other ≠ found ∧
        ∃ written target, emptied.write source.render bytes = .ok written ∧
          base.withName? (base.name ++ ".exe") = some target ∧
          ∀ assembler loaded, written.load maxLoads other [] = .ok (assembler, loaded) →
            ∃ ran, written.launched? searchPath found = some other ∧
              ran = written.afterRun assembler
                (loaded ++ (assemblerArguments source target).map Utf8.encode) ∧
              run.2.store = (if keep then ran else ran.remove source.render) ∧
              ∀ name error, run.1 ≠ .error (.tool (.launchFailed name error))) := by
  intro searchPath run
  obtain ⟨written, target, hwritten, htarget, hrun⟩ :=
    run_assemble_of_writes hsource hnamable hempty hbytes hfound keep
  have hframe : Store.Frame [source.render] bench.store written :=
    ((Store.frame_write hempty).trans (Store.frame_write hwritten)).mono (by simp)
  have hprogram (hbare : hasSlash found = false) :
      ∀ path ∈ Store.launchPaths searchPath found,
        written.isLoadable path = true → bench.store.isProgram path = true := fun path hmem =>
    isProgram_of_written hempty hwritten
      (Store.isNamable_of_mem_launchPaths hpath (isNamable_of_resolved hfound hbare) hmem)
  have hran {path : String} {assembler : Assembler} {loaded : List (List UInt8)}
      (hlaunched : written.launched? searchPath found = some path)
      (hload : written.load maxLoads path [] = .ok (assembler, loaded)) :=
    @run_afterWriting_of_launched found path { bench with store := written } assembler loaded
      hlaunched hload source target keep
  rw [← hrun] at hran
  refine ⟨fun hreachable => ?_, fun candidate => reachable_of_search,
    fun hrequested hreachable => ?_, fun hreachable hnone => ?_, fun hreachable other hother => ?_⟩
  · -- The text is written elsewhere, so the assembler can still be loaded, and by its name.
    have hstill := Store.load_of_frame hframe hload (by simpa using hapart)
    have hlaunched : written.launched? searchPath found = some found :=
      launched_of_reachable hreachable hprogram (Store.isLoadable_iff.mpr ⟨_, hstill⟩)
    obtain ⟨hstore, hclean⟩ := hran hlaunched hstill
    exact ⟨written, target, _, hwritten, htarget, hlaunched, hstill, rfl, hstore, hclean⟩
  · exact (search_of_not_reachable hfound hreachable).resolve_right fun hsystem =>
      hrequested hsystem.1
  · obtain ⟨hbare, hsearched, -⟩ := bare_of_not_reachable hreachable
    obtain ⟨error, hlaunch⟩ := Store.launch_of_not_launched
      (Store.not_launched_of_search hbare hsearched (hprogram hbare) hnone)
    refine ⟨error, ?_⟩
    change ((assemble text base explicit keep).run bench).1 = _
    rw [hrun, (run_afterWriting found source target keep { bench with store := written }).1,
      @run_runAssembler_of_error { bench with store := written, log := _ } _ _ _ hlaunch]
    rfl
  · -- The search finds another program first, and so does the launch.
    obtain ⟨hbare, hsearched, hown⟩ := bare_of_not_reachable hreachable
    obtain ⟨hrequested, hsystem⟩ := (search_of_not_reachable hfound hreachable).resolve_left
      fun hnone => Option.some_ne_none other (hother.symm.trans hnone)
    have hother_ne : other ≠ found := by
      rintro rfl
      exact hown hother
    refine ⟨hrequested, hsystem, hother_ne, written, target, hwritten, htarget, ?_⟩
    intro assembler loaded hload
    have hlaunched : written.launched? searchPath found = some other :=
      Store.launched_of_search hbare hsearched (hprogram hbare) hother
        (Store.isLoadable_iff.mpr ⟨_, hload⟩)
    obtain ⟨hstore, hclean⟩ := hran hlaunched hload
    exact ⟨_, hlaunched, rfl, hstore, hclean⟩

end Assemble

/-- A search path that ends in the working directory, where a script is found
behind a file of the same name that may not be executed. -/
def scriptBench : Workbench :=
  { store := { nodes :=
      [(["lib"], .directory),
       (["lib", "asm"], .file { content := .program {} }),
       (["asm"], .file { content := .data (Utf8.encode "#!tool\n"), executable := true }),
       (["tool"], .file { content := .program {}, executable := true })] }
    environment := { searchPath := "lib:" } }

/-- A script found along the search path is launched, and with it its interpreter. -/
theorem assemble_launches_resolved_script :
    let run := (assemble "ret" (Path.ofString "prog") (some "asm") false).run scriptBench
    ((findAssembler (some "asm")).run scriptBench).1 = .ok "asm" ∧
      scriptBench.store.opens maxLoads "asm" = ["asm", "tool"] ∧
      (∃ written : Store, written.read "prog.il" = .ok (Utf8.encode "ret") ∧
        written.launched? "lib:" "asm" = some "asm") ∧
      ∀ name error, run.1 ≠ .error (.tool (.launchFailed name error)) := by
  intro run
  have hfound : ((findAssembler (some "asm")).run scriptBench).1 = .ok "asm" := rfl
  have hopens : scriptBench.store.opens maxLoads "asm" = ["asm", "tool"] := rfl
  have hapart : ∀ opened ∈ scriptBench.store.opens maxLoads "asm", ∀ location,
      scriptBench.store.locate opened = .ok location →
        scriptBench.store.locate "prog.il" ≠ .ok location := by
    have hscript : scriptBench.store.locate "asm" = .ok ["asm"] := rfl
    have htool : scriptBench.store.locate "tool" = .ok ["tool"] := rfl
    have hsource : scriptBench.store.locate "prog.il" = .ok ["prog.il"] := rfl
    rw [hopens, hsource]
    simp [hscript, htool]
  obtain ⟨hlaunches, hsearched, -⟩ := @assemble_launches_resolved scriptBench "ret" "asm"
    (Path.ofString "prog") _ (some "asm") _ _ rfl rfl rfl rfl hfound false rfl _ _ rfl hapart
  obtain ⟨written, -, -, hwritten, -, hlaunched, -, -, -, hclean⟩ := hlaunches (hsearched "asm" rfl)
  exact ⟨hfound, hopens, ⟨written, Store.read_of_write hwritten, hlaunched⟩, hclean⟩

/-- An assembler in the working directory, which is not searched, and one at the
path of the text to assemble. -/
def unsearchedBench : Workbench :=
  { store := { nodes :=
      [(["asm"], .file { content := .program {}, executable := true }),
       (["prog.il"], .file { content := .program {}, executable := true })] }
    environment := { searchPath := "bin" } }

/-- The assembler of the last resort in the working directory, and a program of
its name on the search path that reports an error. -/
def shadowedBench : Workbench :=
  { store := { nodes :=
      [([systemAssembler], .file { content := .program {}, executable := true }),
       (["bin"], .directory),
       (["bin", systemAssembler],
        .file { content := .program { status := 3 }, executable := true })] }
    environment := { searchPath := "bin" } }

/-- A bare name that the working directory has resolved is not launched, an
assembler is not launched after the text to assemble is written over it, and that
of the last resort is not launched if it is shadowed. -/
theorem assemble_misses_resolved :
    let run := fun name =>
      (assemble "ret" (Path.ofString "prog") (some name) false).run unsearchedBench
    (∀ name ∈ ["asm", "./prog.il"],
      ((findAssembler (some name)).run unsearchedBench).1 = .ok name ∧
        unsearchedBench.store.isLoadable name = true) ∧
      (run "asm").1 = .error (.tool (.launchFailed "asm" .noEntry)) ∧
      (run "./prog.il").1 = .error (.tool (.launchFailed "./prog.il" .execFormat)) ∧
      ((findAssembler none).run shadowedBench).1 = .ok systemAssembler ∧
      ((assemble "ret" (Path.ofString "prog") none false).run shadowedBench).1 =
        .error (.tool (.rejected 3 "")) := by
  intro run
  refine ⟨?_, rfl, rfl, rfl, rfl⟩
  simp only [List.forall_mem_cons]
  exact ⟨⟨rfl, rfl⟩, ⟨rfl, rfl⟩, by simp⟩

end Workspace
end TapeCompiler
