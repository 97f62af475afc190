import TapeCompiler.Proofs.Assembling

/-!
# A build keeps its source

A build writes files beside its source: the path of the source without its suffix
gets another one.  No such path leads to the source, however many dots its name
has and wherever they stand, unless the source has that suffix already
(`locate_besides_ne`).  The names that need care are those without a suffix, those
whose stem is a single dot, and `..`, which is a directory in any store that a
file system can be in, but nothing says so of stores in general.
-/

namespace TapeCompiler
namespace Workspace

open Effects Text

/-! ### Names made from names -/

/-- A dot and an ending of at least two characters without another dot. -/
structure IsSuffix (suffix : String) : Prop where
  dot : suffix.toList.head? = some '.'
  long : 2 < suffix.toList.length
  dot_not_mem : '.' ∉ suffix.toList.tail
  slash_not_mem : '/' ∉ suffix.toList

theorem isSuffix_il : IsSuffix ".il" := by
  constructor <;> decide

theorem isSuffix_exe : IsSuffix ".exe" := by
  constructor <;> decide

theorem isSuffix_txt : IsSuffix ".txt" := by
  constructor <;> decide

/-- A name with a suffix has no meaning of its own. -/
theorem IsSuffix.isProper_append {suffix : String} (hsuffix : IsSuffix suffix) (stem : String) :
    IsProper (stem ++ suffix) := by
  have hlong : 2 < (stem ++ suffix).toList.length := by
    rw [String.toList_append, List.length_append]
    exact Nat.lt_add_left _ hsuffix.long
  refine ⟨?_, ?_, ?_⟩
  all_goals
    intro hname
    rw [hname] at hlong
    exact absurd hlong (by decide)

namespace Path

theorem parts_eq {path : Path} (hparts : path.parts ≠ []) :
    path.parts = path.parts.dropLast ++ [path.name] := by
  rw [name, List.getLast?_eq_some_getLast hparts, Option.getD_some,
    List.dropLast_concat_getLast hparts]

theorem of_withName? {path other : Path} {name : String} (hother : path.withName? name = some other) :
    path.parts ≠ [] ∧ other.root = path.root ∧ other.parts = path.parts.dropLast ++ [name] := by
  rw [withName?] at hother
  split at hother
  · cases hother
  · rename_i hparts
    cases hother
    exact ⟨fun hnil => hparts (by rw [hnil]; rfl), rfl, rfl⟩

namespace Clean

variable {path other : Path}

theorem name (hclean : path.Clean) (hparts : path.parts ≠ []) :
    isPart path.name = true ∧ '/' ∉ path.name.toList :=
  hclean path.name (by rw [parts_eq hparts]; simp)

theorem withName? (hclean : path.Clean) {name : String}
    (hname : isPart name = true ∧ '/' ∉ name.toList) (hother : path.withName? name = some other) :
    other.Clean := by
  intro part hpart
  rw [(of_withName? hother).2.2, List.mem_append] at hpart
  rcases hpart with hpart | hpart
  · exact hclean part (List.dropLast_subset _ hpart)
  · rw [List.mem_singleton.mp hpart]
    exact hname

/-- A path stays clean when a suffix is added to its name. -/
theorem besides (hclean : path.Clean) {suffix : String} (hsuffix : IsSuffix suffix)
    (hother : path.withName? (path.name ++ suffix) = some other) : other.Clean := by
  obtain ⟨hempty, hdot, -⟩ := hsuffix.isProper_append path.name
  refine hclean.withName? ⟨isPart_iff.mpr ⟨hempty, hdot⟩, ?_⟩ hother
  rw [String.toList_append, List.mem_append, not_or]
  exact ⟨(hclean.name (of_withName? hother).1).2, hsuffix.slash_not_mem⟩

end Clean

/-! ### Suffixes -/

/-- A suffix that has been added to something is found again. -/
theorem splitSuffix_append {stem suffix : String} (hsuffix : IsSuffix suffix) (hstem : stem ≠ "") :
    splitSuffix (stem ++ suffix) = (stem, suffix) := by
  obtain ⟨hdot, hlong, hending, -⟩ := hsuffix
  cases hchars : suffix.toList with
  | nil =>
      rw [hchars] at hdot
      cases hdot
  | cons c ending =>
      rw [hchars] at hdot hlong hending
      obtain rfl : c = '.' := Option.some.inj hdot
      have hkeep : ∀ c ∈ ending.reverse, (c != '.') = true := by
        intro c hc
        rw [bne_iff_ne]
        rintro rfl
        exact hending (List.mem_reverse.mp hc)
      have hreverse : (stem ++ suffix).toList.reverse =
          ending.reverse ++ '.' :: stem.toList.reverse := by
        simp [hchars]
      have hne : ending ≠ [] := by
        rintro rfl
        exact absurd hlong (by decide)
      have hback : String.ofList ('.' :: ending) = suffix := by
        rw [← hchars, String.ofList_toList]
      unfold splitSuffix
      simp only [hreverse, List.takeWhile_append_of_pos hkeep, List.dropWhile_append_of_pos hkeep]
      simp [hstem, hne, hback]

theorem stem_subset (path : Path) : path.stem.toList ⊆ path.name.toList := by
  rw [stem]
  unfold splitSuffix
  dsimp only
  split
  · exact List.Subset.refl _
  · intro c hc
    rw [String.toList_ofList, List.mem_reverse] at hc
    have hsome := (List.dropWhile_sublist _).subset (List.mem_of_mem_drop hc)
    exact List.mem_reverse.mp hsome

/-- The path without its suffix has the stem as its last part, or it is the
directory if the stem says nothing. -/
theorem of_withoutSuffix? {path base : Path} (hclean : path.Clean)
    (hbase : path.withoutSuffix? = some base) :
    path.parts ≠ [] ∧ base.root = path.root ∧ base.Clean ∧
      (base.parts = path.parts.dropLast ++ [path.stem] ∨
        (base.parts = path.parts.dropLast ∧ isPart path.stem = false)) := by
  rw [withoutSuffix?] at hbase
  obtain ⟨shorter, hshorter, rfl⟩ := Option.map_eq_some_iff.mp hbase
  obtain ⟨hparts, hroot, hshort⟩ := of_withName? hshorter
  have hfront : path.parts.dropLast.filter isPart = path.parts.dropLast :=
    List.filter_eq_self.mpr fun part hpart => (hclean part (List.dropLast_subset _ hpart)).1
  refine ⟨hparts, hroot, ?_, ?_⟩
  · intro part hpart
    obtain ⟨hmem, hpart⟩ := List.mem_filter.mp hpart
    refine ⟨hpart, ?_⟩
    rw [hshort, List.mem_append] at hmem
    rcases hmem with hmem | hmem
    · exact (hclean part (List.dropLast_subset _ hmem)).2
    · rw [List.mem_singleton.mp hmem]
      exact fun hslash => (hclean.name hparts).2 (path.stem_subset hslash)
  · dsimp only
    rw [hshort, List.filter_append, hfront]
    cases hstem : isPart path.stem with
    | true =>
        left
        simp [hstem]
    | false =>
        right
        simp [hstem]

end Path

/-! ### Files beside the source -/

section Apart

variable {store : Store} {file base : Path} {location : Location}

/-- A file beside the source does not take its place, unless it has its suffix. -/
theorem locate_besides_ne {other : Path} {suffix : String} (hfile : file.Clean)
    (hbase : file.withoutSuffix? = some base) (hsuffix : IsSuffix suffix)
    (hother : base.withName? (base.name ++ suffix) = some other)
    (hkind : (Path.splitSuffix file.name).2 ≠ suffix)
    (hlocate : store.locate file.render = .ok location) :
    store.locate other.render ≠ .ok location := by
  intro hsame
  obtain ⟨hparts, hroot, hclean, hcases⟩ := Path.of_withoutSuffix? hfile hbase
  obtain ⟨hbaseParts, hotherRoot, hotherParts⟩ := Path.of_withName? hother
  obtain ⟨above, hfollow, -, hplace⟩ :=
    Path.exists_above_of_locate_render hfile (Path.parts_eq hparts) hlocate
  obtain ⟨beside, hbeside, -, hplaced⟩ :=
    Path.exists_above_of_locate_render (hclean.besides hsuffix hother) hotherParts hsame
  rw [Location.enter_of_isProper (hsuffix.isProper_append base.name)] at hplaced
  by_cases hdots : file.name = ".."
  · -- The other file stands in the directory from which the source goes up.
    have hfront : base.parts.dropLast = file.parts.dropLast := by
      rw [Path.stem, hdots] at hcases
      rcases hcases with hbaseEq | ⟨-, hpart⟩
      · rw [hbaseEq, List.dropLast_concat]
      · exact absurd hpart (by decide)
    rw [hotherRoot, hroot, hfront, hfollow] at hbeside
    obtain rfl := Except.ok.inj hbeside
    rw [hdots, Location.enter_dots, hplaced] at hplace
    have hlength := congrArg List.length hplace
    simp at hlength
    omega
  · have hpart := Path.isPart_iff.mp (hfile.name hparts).1
    rw [Location.enter_of_isProper ⟨hpart.1, hpart.2, hdots⟩, hplaced] at hplace
    have hname : base.name ++ suffix = file.name := List.singleton_inj.mp (List.append_inj' hplace rfl).2
    have hstem := (Path.isPart_iff.mp (hclean.name hbaseParts).1).1
    rw [← hname, Path.splitSuffix_append hsuffix hstem] at hkind
    exact hkind rfl

/-- If the text of a path reads as a request for an output, the path starts at the
root directory, and its last part ends in the last name of the output. -/
theorem namesOf_output {path : Path} {front : List String} {name output : String}
    (hclean : path.Clean) (hparts : path.parts = front ++ [name])
    (htext : path.render = "/output=" ++ output) :
    path.root = .slash ∧ ∃ before last, namesOf output = before ++ [last] ∧
      (name = last ∨ name = "output=" ++ last) := by
  have hnames := Path.namesOf_render hclean (by simp [hparts])
  obtain ⟨first, rest, hsplit⟩ := List.exists_cons_of_ne_nil (splitAt_ne_nil '/' output.toList)
  have hmarked : namesOf path.render =
      "" :: ("output=" ++ String.ofList first) :: rest.map String.ofList := by
    have hfirst : "output=" ++ String.ofList first = String.ofList ("output=".toList ++ first) := by
      rw [String.ofList_append, String.ofList_toList]
    rw [namesOf, htext, String.toList_append, hfirst]
    change (splitAt '/' ('/' :: 'o' :: 'u' :: 't' :: 'p' :: 'u' :: 't' :: '=' :: output.toList)).map
      String.ofList = _
    simp only [splitAt_cons, hsplit]
    rfl
  rw [hmarked] at hnames
  cases hroot : path.root with
  | relative =>
      rw [hroot] at hnames
      have hempty : "" ∈ path.parts := by
        change _ = path.parts at hnames
        rw [← hnames]
        exact List.mem_cons_self
      exact absurd (hclean "" hempty).1 (by decide)
  | doubleSlash =>
      rw [hroot] at hnames
      have hempty := (List.cons.inj (List.cons.inj hnames).2).1
      have hlength := congrArg (·.toList.length) hempty
      simp at hlength
  | slash =>
      rw [hroot, hparts] at hnames
      have hlast := congrArg List.getLast? (List.cons.inj hnames).2
      refine ⟨rfl, ?_⟩
      rw [namesOf, hsplit, List.map_cons]
      rcases List.eq_nil_or_concat rest with rfl | ⟨between, last, rfl⟩
      · refine ⟨[], String.ofList first, rfl, .inr ?_⟩
        simpa using hlast.symm
      · refine ⟨String.ofList first :: between.map String.ofList, String.ofList last, by simp,
          .inl ?_⟩
        rw [List.concat_eq_append, List.map_append, List.map_singleton, ← List.cons_append,
          List.getLast?_concat] at hlast
        simpa using hlast.symm

/-- A path from the root directory that goes up at its end leads to a directory. -/
theorem directory_of_dots {path : Path} {front : List String} (hclean : path.Clean)
    (hroot : path.root = .slash) (hparts : path.parts = front ++ [".."])
    (hlocate : store.locate path.render = .ok location) :
    store.node? location = some .directory := by
  obtain ⟨above, hfollow, hnode, rfl⟩ :=
    Path.exists_above_of_locate_render hclean hparts hlocate
  rw [hroot] at hfollow
  rw [Location.enter_dots]
  by_cases hsame : above.dropLast = above
  · rw [hsame]
    exact hnode
  · refine Store.directory_above_of_follow ?_ hfollow _ (List.dropLast_prefix above) hsame
    intro start hstart hne
    exact absurd (List.prefix_nil.mp hstart) hne

/-- The mark of an output has no dot, so it does not reach into a suffix. -/
theorem stem_of_output {name last : String} (hname : name ++ ".il" = "output=" ++ last) :
    ∃ stem, name = "output=" ++ stem ∧ last = stem ++ ".il" := by
  have hchars := congrArg String.toList hname
  rw [String.toList_append, String.toList_append] at hchars
  rcases List.append_eq_append_iff.mp hchars with ⟨front, hfront, hlast⟩ | ⟨stem, hstem, hlast⟩
  · cases front with
    | nil =>
        rw [List.append_nil] at hfront
        exact ⟨"", String.toList_inj.mp hfront.symm, String.toList_inj.mp hlast.symm⟩
    | cons c front =>
        have hdot : c = '.' := (List.cons.inj hlast).1.symm
        have hmem : '.' ∈ "output=".toList := by
          rw [hfront, hdot]
          exact List.mem_append_right _ List.mem_cons_self
        exact absurd hmem (by decide)
  · have hback : (String.ofList stem).toList = stem := String.toList_ofList
    refine ⟨String.ofList stem, String.toList_inj.mp ?_, String.toList_inj.mp ?_⟩
    · rw [hstem, String.toList_append, hback]
    · rw [hlast, String.toList_append, hback]

/-- The output that the text of a file beside the source asks for does not take
the place of the source either. -/
theorem locate_output_ne {source : Path} {output : String} {found : File} (hfile : file.Clean)
    (hbase : file.withoutSuffix? = some base)
    (hsource : base.withName? (base.name ++ ".il") = some source)
    (htext : source.render = "/output=" ++ output)
    (hkind : (Path.splitSuffix file.name).2 ≠ ".il")
    (hlocate : store.locate file.render = .ok location)
    (hfound : store.node? location = some (.file found)) :
    store.locate output ≠ .ok location := by
  intro hsame
  obtain ⟨hparts, hroot, hclean, hcases⟩ := Path.of_withoutSuffix? hfile hbase
  obtain ⟨hbaseParts, hsourceRoot, hsourceParts⟩ := Path.of_withName? hsource
  obtain ⟨hslash, before, last, hnames, hlast⟩ :=
    namesOf_output (hclean.besides isSuffix_il hsource) hsourceParts htext
  obtain ⟨stem, rfl, hstem⟩ : ∃ stem, last = stem ++ ".il" ∧
      (base.name = stem ∨ base.name = "output=" ++ stem) := by
    rcases hlast with hlast | hlast
    · exact ⟨base.name, hlast.symm, .inl rfl⟩
    · obtain ⟨stem, hname, hlast⟩ := stem_of_output hlast
      exact ⟨stem, hlast, .inr hname⟩
  obtain ⟨beside, -, -, hplaced⟩ := Store.exists_above_of_locate hnames hsame
  obtain ⟨above, -, -, hplace⟩ :=
    Path.exists_above_of_locate_render hfile (Path.parts_eq hparts) hlocate
  rw [Location.enter_of_isProper (isSuffix_il.isProper_append stem)] at hplaced
  have hdots : file.name ≠ ".." := by
    intro hdots
    have hparts := Path.parts_eq hparts
    rw [hdots] at hparts
    have hnode := directory_of_dots hfile (by rw [← hroot, ← hsourceRoot, hslash]) hparts hlocate
    rw [hfound] at hnode
    cases hnode
  have hpart := Path.isPart_iff.mp (hfile.name hparts).1
  rw [Location.enter_of_isProper ⟨hpart.1, hpart.2, hdots⟩, hplaced] at hplace
  have hname : stem ++ ".il" = file.name := List.singleton_inj.mp (List.append_inj' hplace rfl).2
  by_cases hempty : stem = ""
  · -- Then the source has no suffix, and the base has its name, which is none of the two.
    rw [hempty] at hname hstem
    have hbaseName : base.name = ".il" := by
      rw [Path.stem, ← hname] at hcases
      rcases hcases with hbaseEq | ⟨-, hpart⟩
      · rw [Path.name, hbaseEq, List.getLast?_concat]
        rfl
      · exact absurd hpart (by decide)
    rw [hbaseName] at hstem
    exact absurd hstem (by decide)
  · rw [← hname, Path.splitSuffix_append isSuffix_il hempty] at hkind
    exact hkind rfl

end Apart

/-! ### Builds -/

theorem clean_of_resolveSource {path file : Path} {bench : Workbench} (hclean : path.Clean)
    (hfile : ((resolveSource path).run bench).1 = .ok file) : file.Clean := by
  rw [run_resolveSource] at hfile
  split at hfile
  · cases hfile
  · cases hfile
    exact hclean
  · split at hfile
    · cases hfile
    · rename_i textual htextual
      split at hfile
      · cases hfile
      · cases hfile
        exact hclean.besides isSuffix_txt htextual
      · cases hfile
        exact hclean

/-- A build of a source file that has been compiled assembles its code. -/
theorem run_buildExecutable {path file base : Path} {options : BuildOptions} {bench : Workbench}
    {compilation : Compiler.Compilation}
    (hcompiled :
      ((compileFile path options.toOptions defaultEncoding).run bench).1 = .ok compilation)
    (hfile : ((resolveSource path).run bench).1 = .ok file)
    (hbase : file.withoutSuffix? = some base) :
    (buildExecutable path options).run bench =
      (assemble compilation.assembly base options.assembler options.keepAssembly).run
        ((compileFile path options.toOptions defaultEncoding).run bench).2 := by
  have hstore := (run_compileFile path options.toOptions defaultEncoding bench).2.1
  rw [buildExecutable, run_bind]
  generalize (compileFile path options.toOptions defaultEncoding).run bench = compiled
    at hcompiled hstore ⊢
  obtain ⟨result, ready⟩ := compiled
  obtain rfl : result = .ok compilation := hcompiled
  dsimp only
  rw [(looks_resolveSource path).run_bind, resolveSource_eq hstore, hfile]
  dsimp only
  rw [hbase]

/-- A build that changes anything has read and compiled its source file. -/
theorem store_buildExecutable (path : Path) (options : BuildOptions) (bench : Workbench) :
    ((buildExecutable path options).run bench).2.store = bench.store ∨
      ∃ file bytes base compilation,
        ((resolveSource path).run bench).1 = .ok file ∧
        bench.store.read file.render = .ok bytes ∧
        file.withoutSuffix? = some base ∧
        ((compileFile path options.toOptions defaultEncoding).run bench).1 = .ok compilation := by
  obtain ⟨hresult, hstore, -⟩ := run_compileFile path options.toOptions defaultEncoding bench
  rcases hcompiled : (compileFile path options.toOptions defaultEncoding).run bench with
    ⟨failure | compilation, ready⟩
  · rw [hcompiled] at hstore
    rw [buildExecutable, run_bind, hcompiled]
    exact .inl hstore
  · rw [hcompiled] at hresult hstore
    dsimp only at hresult hstore
    obtain ⟨file, hfile, hresult⟩ := bind_eq_ok hresult.symm
    obtain ⟨source, hsource, -⟩ := bind_eq_ok hresult
    obtain ⟨bytes, hread⟩ := exists_bytes_of_readSource hsource
    cases hbase : file.withoutSuffix? with
    | some base => exact .inr ⟨file, bytes, base, compilation, hfile, hread, hbase, rfl⟩
    | none =>
        rw [buildExecutable, run_bind, hcompiled]
        dsimp only
        rw [(looks_resolveSource path).run_bind, resolveSource_eq hstore, hfile]
        dsimp only
        rw [hbase]
        exact .inl hstore

/-- A build leaves its source file as it is, on success and on every failure, if
the file does not have the suffix of one that a build makes. -/
theorem buildExecutable_keeps_source (bench : Workbench) (text : String) (options : BuildOptions)
    {file : Path} (hfile : ((resolveSource (Path.ofString text)).run bench).1 = .ok file)
    (hil : (Path.splitSuffix file.name).2 ≠ ".il")
    (hexe : (Path.splitSuffix file.name).2 ≠ ".exe") :
    ((buildExecutable (Path.ofString text) options).run bench).2.store.find file.render =
      bench.store.find file.render := by
  have hclean := clean_of_resolveSource (Path.clean_ofString text) hfile
  rcases store_buildExecutable (Path.ofString text) options bench with hstore |
    ⟨other, bytes, base, compilation, hother, hread, hbase, hcompiled⟩
  · rw [hstore]
  · rw [hfile] at hother
    obtain rfl := Except.ok.inj hother
    obtain ⟨location, found, hlocate, hfound⟩ := Store.exists_file_of_read hread
    have hready := (run_compileFile (Path.ofString text) options.toOptions defaultEncoding bench).2.1
    rw [run_buildExecutable hcompiled hfile hbase, ← hready]
    rw [← hready] at hlocate hfound
    generalize ((compileFile (Path.ofString text) options.toOptions defaultEncoding).run bench).2 =
      ready at hlocate hfound ⊢
    rcases run_assemble compilation.assembly base options.assembler options.keepAssembly ready with
      ⟨-, -, hstore⟩ | ⟨source, hsource, target, htarget, hassembled⟩
    · rw [hstore]
    · have hbeside := locate_besides_ne hclean hbase isSuffix_il hsource hil hlocate
      rcases hassembled with ⟨-, -, hwrite⟩ | ⟨-, output, hpath, hframe, -⟩
      · exact (Store.frame_write hwrite).find_eq hlocate (List.forall_mem_singleton.mpr hbeside)
      · refine hframe.find_eq hlocate
          (List.forall_mem_cons.mpr ⟨hbeside, List.forall_mem_singleton.mpr ?_⟩)
        rcases hpath with rfl | htext
        · exact locate_besides_ne hclean hbase isSuffix_exe htarget hexe hlocate
        · exact locate_output_ne hclean hbase hsource htext hil hlocate hfound

/-- An assembler in the working directory and three sources of one command. -/
def sourcesBench : Workbench :=
  { store := { nodes :=
      [(["asm"], .file { content := .program {}, executable := true }),
       (["prog.txt"], .file { content := .data [43] }),
       (["prog.il"], .file { content := .data [43] }),
       (["prog.exe"], .file { content := .data [43] })] }
    environment := { assembler := some "./asm" } }

/-- A source that is found with `.txt` added is kept. -/
theorem buildExecutable_keeps_source_textual :
    let run := (buildExecutable (Path.ofString "prog") {}).run sourcesBench
    ((resolveSource (Path.ofString "prog")).run sourcesBench).1 = .ok (Path.ofString "prog.txt") ∧
      sourcesBench.store.read "prog.txt" = .ok [43] ∧
      run.2.store.find "prog.txt" = sourcesBench.store.find "prog.txt" := by
  have hfile : ((resolveSource (Path.ofString "prog")).run sourcesBench).1 =
    .ok (Path.ofString "prog.txt") := rfl
  have hkept := buildExecutable_keeps_source sourcesBench "prog" {} hfile (by decide) (by decide)
  rw [show (Path.ofString "prog.txt").render = "prog.txt" by decide +kernel] at hkept
  exact ⟨hfile, rfl, hkept⟩

/-- A source with the suffix of the assembly text is lost. -/
theorem buildExecutable_loses_source :
    sourcesBench.store.read (Path.ofString "prog.il").render = .ok [43] ∧
      ((buildExecutable (Path.ofString "prog.il") {}).run sourcesBench).2.store.read
        (Path.ofString "prog.il").render ≠ .ok [43] := by
  refine ⟨rfl, fun hread => ?_⟩
  have hsome : ((compileFile (Path.ofString "prog.il") ({} : BuildOptions).toOptions
    defaultEncoding).run sourcesBench).1.toOption.isSome = true := by decide +kernel
  obtain ⟨compilation, hcompilation⟩ := Option.isSome_iff_exists.mp hsome
  have hcompiled := ok_of_toOption hcompilation
  have hfile : ((resolveSource (Path.ofString "prog.il")).run sourcesBench).1 =
    .ok (Path.ofString "prog.il") := rfl
  have hbase : (Path.ofString "prog.il").withoutSuffix? = some (Path.ofString "prog") := rfl
  have hsource : (Path.ofString "prog").withName? ((Path.ofString "prog").name ++ ".il") =
    some (Path.ofString "prog.il") := rfl
  obtain ⟨emptied, hempty⟩ : ∃ emptied,
    sourcesBench.store.write (Path.ofString "prog.il").render [] = .ok emptied := ⟨_, rfl⟩
  rw [← (run_compileFile (Path.ofString "prog.il") ({} : BuildOptions).toOptions defaultEncoding
    sourcesBench).2.1] at hempty
  rw [run_buildExecutable hcompiled hfile hbase] at hread
  have hwrites : Writes ((compileFile (Path.ofString "prog.il") ({} : BuildOptions).toOptions
      defaultEncoding).run sourcesBench).2 (Path.ofString "prog") none :=
    ⟨_, "./asm", emptied, hsource, ok_of_toOption (by decide +kernel), by decide +kernel, hempty⟩
  exact absurd (eq_nil_of_read_assemble hwrites hsource hread) (by decide)

end Workspace
end TapeCompiler
