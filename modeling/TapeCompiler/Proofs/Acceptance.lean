import TapeCompiler.Compiler.Compilation
import TapeCompiler.Proofs.Effects
import TapeCompiler.Proofs.Generation

/-!
# Which sources are accepted

Three passes look at the brackets of a source: the lenient check counts its
characters, the strict check keeps the indices of the open brackets, and the
generator keeps the numbers of the open loops while it goes through segments.
All three are the one scan of `descend` in different clothes.  It follows that
a compile succeeds, in either mode, on the properly nested sources and no
others, and which error the other sources meet.  What a source is compiled to is
then known in full (`compileSource_eq_ok_iff`).
-/

namespace TapeCompiler
namespace Source

theorem descend_of_no_brackets {α : Type} [DecidableEq α] {opening closing : α} {items : List α}
    (hitems : ∀ item ∈ items, item ≠ opening ∧ item ≠ closing) (depth : Nat) :
    descend opening closing depth items = some depth := by
  induction items with
  | nil => rfl
  | cons item rest ih =>
      obtain ⟨hopening, hclosing⟩ := hitems item List.mem_cons_self
      rw [descend_other hopening hclosing]
      exact ih fun other hother => hitems other (List.mem_cons_of_mem _ hother)

theorem bracket_ne : '[' ≠ ']' := by decide

theorem descend_commands (depth : Nat) (source : List Char) :
    descend Command.loopStart Command.loopEnd depth (commands source) =
      descend '[' ']' depth source := by
  -- A character stands for one command or for none, so this is a scan over expanded items.
  rw [commands, List.filterMap_eq_flatMap_toList]
  apply descend_flatMap
  intro depth c
  cases hc : Command.ofChar? c with
  | none =>
      obtain ⟨hopening, hclosing⟩ := Command.ne_bracket_of_comment hc
      exact (descend_other hopening hclosing depth []).symm
  | some command =>
      obtain rfl := Command.ofChar?_eq_some_iff.mp hc
      cases command <;> rfl

theorem descend_segment_commands (depth : Nat) (segment : Segment Unit) :
    descend Command.loopStart Command.loopEnd depth segment.commands =
      descend (.loopStart ()) (.loopEnd ()) depth [segment] := by
  cases segment with
  | loopStart mark => rfl
  | loopEnd mark =>
      cases depth with
      | zero => rfl
      | succ depth => rfl
  | plain action =>
      rw [descend_other (by simp) (by simp), descend_nil]
      exact descend_of_no_brackets (fun command => Plain.ne_bracket_of_mem_commands) depth

theorem nested_flatMap_commands {segments : List (Segment Unit)}
    (hnested : Nested (.loopStart ()) (.loopEnd ()) segments) :
    Nested Command.loopStart Command.loopEnd (segments.flatMap Segment.commands) := by
  rw [nested_iff_descend (by decide), descend_flatMap descend_segment_commands]
  exact (nested_iff_descend (by simp)).mp hnested

theorem descend_bareSegments (depth : Nat) (source : List Char) :
    descend (.loopStart ()) (.loopEnd ()) depth (bareSegments source) =
      descend '[' ']' depth source := by
  rw [← descend_commands, ← flatMap_commands_bareSegments]
  exact (descend_flatMap descend_segment_commands depth _).symm

theorem nested_bareSegments {source : List Char} (hnested : Nested '[' ']' source) :
    Nested (.loopStart ()) (.loopEnd ()) (bareSegments source) := by
  rw [nested_iff_descend (by simp), descend_bareSegments]
  exact (nested_iff_descend bracket_ne).mp hnested

/-- The strict check follows the depth: it keeps one index for each level. -/
theorem checkNestingFrom_eq_ok_iff (placed : List (Char × Nat)) (opened : List Nat) :
    checkNestingFrom placed opened = .ok () ↔
      descend '[' ']' opened.length (placed.map Prod.fst) = some 0 := by
  induction placed generalizing opened with
  | nil =>
      cases opened with
      | nil => exact ⟨fun _ => rfl, fun _ => rfl⟩
      | cons pos opened => exact ⟨fun h => (by cases h), fun h => (by cases h)⟩
  | cons first rest ih =>
      obtain ⟨c, pos⟩ := first
      rw [List.map_cons]
      by_cases hopening : c = '['
      · subst hopening
        rw [descend_opening, checkNestingFrom.eq_def]
        exact ih (pos :: opened)
      by_cases hclosing : c = ']'
      · subst hclosing
        cases opened with
        | nil =>
            rw [List.length_nil, descend_closing_zero bracket_ne, checkNestingFrom.eq_def]
            exact ⟨fun h => (by cases h), fun h => (by cases h)⟩
        | cons pos opened =>
            rw [List.length_cons, descend_closing_succ bracket_ne, checkNestingFrom.eq_def]
            exact ih opened
      · rw [descend_other hopening hclosing, checkNestingFrom.eq_def]
        dsimp only
        rw [if_neg hopening, if_neg hclosing]
        exact ih opened

/-- The strict check passes exactly the properly nested sources. -/
theorem checkNesting_eq_ok_iff (source : List Char) :
    checkNesting source = .ok () ↔ Nested '[' ']' source := by
  rw [checkNesting, checkNestingFrom_eq_ok_iff, nested_iff_descend bracket_ne]
  simp [List.zipIdx_map_fst]

/-- The lenient check passes exactly the sources with equal counts. -/
theorem checkCounts_eq_ok_iff (source : List Char) :
    checkCounts source = .ok () ↔ source.count '[' = source.count ']' := by
  rw [checkCounts]
  split
  · rename_i hcount
    exact ⟨fun _ => hcount, fun _ => rfl⟩
  · rename_i hcount
    exact ⟨fun h => (by cases h), fun h => absurd h hcount⟩

theorem count_commands (source : List Char) :
    (commands source).count .loopStart = source.count '[' := by
  induction source with
  | nil => rfl
  | cons c rest ih =>
      cases hc : Command.ofChar? c with
      | none =>
          rw [commands, List.filterMap_cons_none hc, ← commands, ih,
            List.count_cons_of_ne (Command.ne_bracket_of_comment hc).1]
      | some command =>
          rw [commands, List.filterMap_cons_some hc, ← commands]
          obtain rfl := Command.ofChar?_eq_some_iff.mp hc
          cases command <;> simp [ih, Command.toChar]

theorem count_flatMap_commands (segments : List (Segment Unit)) :
    (segments.flatMap Segment.commands).count .loopStart = segments.count (.loopStart ()) := by
  induction segments with
  | nil => rfl
  | cons segment rest ih =>
      rw [List.flatMap_cons, List.count_append, ih]
      cases segment with
      | loopStart mark =>
          rw [List.count_cons_self, Segment.commands, List.count_singleton_self, Nat.add_comm]
      | loopEnd mark =>
          rw [List.count_cons_of_ne (by simp), Segment.commands]
          exact Nat.zero_add _
      | plain action =>
          have hnone : Command.loopStart ∉ action.commands :=
            fun hmem => (Plain.ne_bracket_of_mem_commands hmem).1 rfl
          rw [List.count_cons_of_ne (by simp), Segment.commands, List.count_eq_zero.mpr hnone,
            Nat.zero_add]

/-- Each `[` is a loop start segment. -/
theorem count_bareSegments (source : List Char) :
    (bareSegments source).count (.loopStart ()) = source.count '[' := by
  rw [← count_flatMap_commands, flatMap_commands_bareSegments, count_commands]

end Source

namespace Compiler

open Source

/-- The numbered segments of a source. -/
def blocksOf (source : List Char) : List (Segment Nat) :=
  numbered {} (bareSegments source)

/-- The body that a source is compiled to under a program name. -/
def bodyOf (program : String) (source : List Char) : String :=
  String.join ((blocksOf source).map (textOf program))

namespace Session

/-- The generator behind a source, if no loop end comes too early. -/
def generated (session : Session) (source : List Char) : Generator :=
  session.generator.reset.grown (blocksOf source) (loopsAfter {} (bareSegments source))

theorem body_generated (session : Session) (source : List Char) :
    (session.generated source).body = bodyOf session.generator.program source := by
  simp [Generator.body, generated, Generator.grown, Generator.reset, bodyOf]

theorem loopCount_generated (session : Session) (source : List Char) :
    (session.generated source).loopCount = source.count '[' := by
  rw [generated, Generator.grown, loopsAfter, Loops.count_after openingSegment_ne,
    count_bareSegments]
  exact Nat.zero_add _

/-- Generation from a cleared session follows the depth of the source. -/
theorem emitRuns_cleared (session : Session) (source : List Char) :
    session.cleared.generator.emitRuns (Source.runs source) =
      match descend '[' ']' 0 source with
      | none => .error .noOpenLoop
      | some _ => .ok (session.generated source) := by
  rw [Generator.emitRuns_eq, ← descend_bareSegments]
  rfl

/-- The height of the stack behind a source is its depth. -/
theorem openLoops_generated (session : Session) {source : List Char} {depth : Nat}
    (hscan : descend '[' ']' 0 source = some depth) :
    (session.generated source).openLoops.length = depth := by
  rw [← descend_bareSegments] at hscan
  exact Loops.length_opened_after openingSegment_ne {} hscan

/-- The session that holds what has been made of a source. -/
def holding (session : Session) (source : List Char) : Session :=
  { session.cleared with
    generator := session.generated source
    runs := Source.runs source
    compiled := true }

/-- The program around the code of a source, if the tape has a cell. -/
theorem assembly_holding (session : Session) (source : List Char) :
    (session.holding source).assembly =
      if 0 < session.tapeSize then
        .ok (Assembly.frame (bodyOf session.generator.program source) session.generator.program
          session.tapeSize.toNat)
      else
        .error (.tapeSizeNotPositive session.tapeSize) := by
  have hcompiled : (session.holding source).compiled = true := rfl
  have hgenerator : (session.holding source).generator = session.generated source := rfl
  have hprogram : (session.generated source).program = session.generator.program := rfl
  have htape : (session.holding source).tapeSize = session.tapeSize := rfl
  rw [assembly, if_pos hcompiled, hgenerator, hprogram, htape, body_generated, Assembly.frame?]
  by_cases hsize : 0 < session.tapeSize
  · rw [if_pos hsize, if_pos hsize]
  · rw [if_neg hsize, if_neg hsize]

/-- A properly nested source that passes the check is compiled. -/
theorem session_of_nested (session : Session) {source : String}
    (hcheck : checkBrackets session.strict source.toList = .ok ())
    (hnested : Nested '[' ']' source.toList) :
    (session.compile source).result = .ok (bodyOf session.generator.program source.toList) ∧
      (session.compile source).session = session.holding source.toList := by
  have hscan := (nested_iff_descend bracket_ne).mp hnested
  -- No loop is left open, so the last check of a compile passes.
  have hopened : (session.generated source.toList).openLoops = [] :=
    List.length_eq_zero_iff.mp (session.openLoops_generated hscan)
  have hemit := session.emitRuns_cleared source.toList
  rw [hscan] at hemit
  dsimp only at hemit
  rw [compile, scan, hcheck]
  dsimp only
  rw [hemit]
  dsimp only
  rw [hopened, ← body_generated]
  exact ⟨rfl, rfl⟩

theorem compile_of_nested (session : Session) {source : String}
    (hcheck : checkBrackets session.strict source.toList = .ok ())
    (hnested : Nested '[' ']' source.toList) :
    (session.compile source).result = .ok (bodyOf session.generator.program source.toList) ∧
      (session.compile source).session.generator = session.generated source.toList ∧
      (session.compile source).session.runs = Source.runs source.toList := by
  obtain ⟨hresult, hsession⟩ := session.session_of_nested hcheck hnested
  rw [hsession]
  exact ⟨hresult, rfl, rfl⟩

/-- A source that is not properly nested and passes the lenient check fails in
generation. -/
theorem compile_of_not_nested {session : Session} {source : String}
    (hcheck : checkBrackets session.strict source.toList = .ok ())
    (hcounts : source.toList.count '[' = source.toList.count ']')
    (hnested : ¬ Nested '[' ']' source.toList) :
    (session.compile source).result = .error .noOpenLoop := by
  have hscan : descend '[' ']' 0 source.toList = none := by
    cases hdepth : descend '[' ']' 0 source.toList with
    | none => rfl
    | some depth =>
        -- With equal counts a scan that succeeds ends at depth zero.
        obtain ⟨-, hcount⟩ := (descend_eq_some_iff bracket_ne).mp hdepth
        obtain rfl : depth = 0 := by omega
        exact absurd ((nested_iff_descend bracket_ne).mpr hdepth) hnested
  have hemit := session.emitRuns_cleared source.toList
  rw [hscan] at hemit
  dsimp only at hemit
  rw [compile, scan, hcheck]
  dsimp only
  rw [hemit]

theorem compile_of_fault {session : Session} {source : String} {fault : BracketFault}
    (hcheck : checkBrackets session.strict source.toList = .error fault) :
    (session.compile source).result = .error (.refused (fault.diagnostic source.toList)) := by
  rw [compile, scan, hcheck]

/-- The check of either mode passes every properly nested source. -/
theorem checkBrackets_of_nested (strict : Bool) {source : List Char}
    (hnested : Nested '[' ']' source) : checkBrackets strict source = .ok () := by
  cases strict with
  | false => exact (checkCounts_eq_ok_iff source).mpr hnested.2
  | true => exact (checkNesting_eq_ok_iff source).mpr hnested

/-- A strict compile succeeds on a properly nested source and refuses every
other one. -/
theorem compile_strict (session : Session) (hstrict : session.strict = true) (source : String) :
    (Nested '[' ']' source.toList ∧
      (session.compile source).result = .ok (bodyOf session.generator.program source.toList)) ∨
    (¬ Nested '[' ']' source.toList ∧
      ∃ diagnostic, (session.compile source).result = .error (.refused diagnostic)) := by
  by_cases hnested : Nested '[' ']' source.toList
  · have hcheck := checkBrackets_of_nested session.strict hnested
    exact Or.inl ⟨hnested, (session.compile_of_nested hcheck hnested).1⟩
  · right
    refine ⟨hnested, ?_⟩
    cases hcheck : checkBrackets session.strict source.toList with
    | ok =>
        rw [hstrict] at hcheck
        exact absurd ((checkNesting_eq_ok_iff _).mp hcheck) hnested
    | error fault => exact ⟨_, compile_of_fault hcheck⟩

/-- A lenient compile succeeds on a properly nested source, refuses one with
unequal counts, and fails in generation on the others. -/
theorem compile_lenient (session : Session) (hlenient : session.strict = false)
    (source : String) :
    (Nested '[' ']' source.toList ∧
      (session.compile source).result = .ok (bodyOf session.generator.program source.toList)) ∨
    (source.toList.count '[' ≠ source.toList.count ']' ∧
      ∃ diagnostic, (session.compile source).result = .error (.refused diagnostic)) ∨
    (source.toList.count '[' = source.toList.count ']' ∧
      (∃ front, front <+: source.toList ∧ front.count '[' < front.count ']') ∧
      (session.compile source).result = .error .noOpenLoop) := by
  by_cases hcounts : source.toList.count '[' = source.toList.count ']'
  · have hcheck : checkBrackets session.strict source.toList = .ok () := by
      rw [hlenient]
      exact (checkCounts_eq_ok_iff _).mpr hcounts
    by_cases hnested : Nested '[' ']' source.toList
    · exact Or.inl ⟨hnested, (session.compile_of_nested hcheck hnested).1⟩
    · refine Or.inr (Or.inr ⟨hcounts, ?_, compile_of_not_nested hcheck hcounts hnested⟩)
      by_contra hfronts
      push Not at hfronts
      exact hnested ⟨hfronts, hcounts⟩
  · refine Or.inr (Or.inl ⟨hcounts, ?_⟩)
    cases hcheck : checkBrackets session.strict source.toList with
    | ok =>
        rw [hlenient] at hcheck
        exact absurd ((checkCounts_eq_ok_iff _).mp hcheck) hcounts
    | error fault => exact ⟨_, compile_of_fault hcheck⟩

/-- A source that is compiled is properly nested, and its body is the text of
its numbered segments. -/
theorem compile_eq_ok {session : Session} {source body : String}
    (hcompiled : (session.compile source).result = .ok body) :
    Nested '[' ']' source.toList ∧ body = bodyOf session.generator.program source.toList := by
  have hbody {other : String} (hresult : (session.compile source).result = .ok other) :
      body = other := by
    rw [hresult] at hcompiled
    exact (Except.ok.inj hcompiled).symm
  cases hmode : session.strict with
  | true =>
      rcases session.compile_strict hmode source with ⟨hnested, hresult⟩ | ⟨-, diagnostic, hresult⟩
      · exact ⟨hnested, hbody hresult⟩
      · rw [hresult] at hcompiled
        cases hcompiled
  | false =>
      rcases session.compile_lenient hmode source with
        ⟨hnested, hresult⟩ | ⟨-, diagnostic, hresult⟩ | ⟨-, -, hresult⟩
      · exact ⟨hnested, hbody hresult⟩
      · rw [hresult] at hcompiled
        cases hcompiled
      · rw [hresult] at hcompiled
        cases hcompiled

/-- Which sources a compile accepts, in both modes, and what the others meet.
The two modes differ in the errors only: on a properly nested source they give
the same body, runs and number of loops. -/
theorem compile_accepts_exactly_nested (session : Session) (source : String) :
    let nested := Nested '[' ']' source.toList
    let strict := Session.compile { session with strict := true } source
    let lenient := Session.compile { session with strict := false } source
    ((∃ body, strict.result = .ok body) ↔ nested) ∧
    ((∃ diagnostic, strict.result = .error (.refused diagnostic)) ↔ ¬ nested) ∧
    ((∃ body, lenient.result = .ok body) ↔ nested) ∧
    ((∃ diagnostic, lenient.result = .error (.refused diagnostic)) ↔
      source.toList.count '[' ≠ source.toList.count ']') ∧
    (lenient.result = .error .noOpenLoop ↔
      source.toList.count '[' = source.toList.count ']' ∧
        ∃ front, front <+: source.toList ∧ front.count '[' < front.count ']') ∧
    CompileError.noOpenLoop.message = "Loop end without an open loop (label stack is empty)." ∧
    (∀ numbers, strict.result ≠ .error (.loopsLeftOpen numbers) ∧
      lenient.result ≠ .error (.loopsLeftOpen numbers)) ∧
    (nested → strict.result = lenient.result ∧ strict.session.runs = lenient.session.runs ∧
      strict.session.generator.loopCount = lenient.session.generator.loopCount) := by
  intro nested strict lenient
  have hstrict : (nested ∧ ∃ body, strict.result = .ok body) ∨
      (¬ nested ∧ ∃ diagnostic, strict.result = .error (.refused diagnostic)) :=
    (compile_strict _ rfl source).imp_left fun ⟨hnested, hresult⟩ => ⟨hnested, _, hresult⟩
  have hlenient := compile_lenient { session with strict := false } rfl source
  change (nested ∧ lenient.result = .ok _) ∨ (_ ∧ ∃ _, lenient.result = _) ∨
    (_ ∧ _ ∧ lenient.result = _) at hlenient
  have hbounded (hnested : nested) :
      ¬ ∃ front, front <+: source.toList ∧ front.count '[' < front.count ']' := by
    rintro ⟨front, hfront, hlt⟩
    exact absurd (hnested.1 front hfront) (by omega)
  have hcounts (hnested : nested) : source.toList.count '[' = source.toList.count ']' := hnested.2
  refine ⟨?_, ?_, ?_, ?_, ?_, rfl, ?_, ?_⟩
  · rcases hstrict with ⟨hnested, body, hresult⟩ | ⟨hnested, diagnostic, hresult⟩
    · exact ⟨fun _ => hnested, fun _ => ⟨body, hresult⟩⟩
    · simp [hresult, hnested]
  · rcases hstrict with ⟨hnested, body, hresult⟩ | ⟨hnested, diagnostic, hresult⟩
    · simp [hresult, hnested]
    · exact ⟨fun _ => hnested, fun _ => ⟨diagnostic, hresult⟩⟩
  · rcases hlenient with ⟨hnested, hresult⟩ | ⟨hcount, diagnostic, hresult⟩ | ⟨-, hfront, hresult⟩
    · exact ⟨fun _ => hnested, fun _ => ⟨_, hresult⟩⟩
    · simp [hresult, mt hcounts hcount]
    · have hnested : ¬ nested := fun hnested => hbounded hnested hfront
      simp [hresult, hnested]
  · rcases hlenient with ⟨hnested, hresult⟩ | ⟨hcount, diagnostic, hresult⟩ | ⟨hcount, -, hresult⟩
    · simp [hresult, hcounts hnested]
    · exact ⟨fun _ => hcount, fun _ => ⟨diagnostic, hresult⟩⟩
    · simp [hresult, hcount]
  · rcases hlenient with ⟨hnested, hresult⟩ | ⟨hcount, diagnostic, hresult⟩ |
      ⟨hcount, hfront, hresult⟩
    · rw [hresult]
      exact ⟨fun h => (by cases h), fun h => absurd h.2 (hbounded hnested)⟩
    · rw [hresult]
      exact ⟨fun h => (by cases h), fun h => absurd h.1 hcount⟩
    · exact ⟨fun _ => ⟨hcount, hfront⟩, fun _ => hresult⟩
  · intro numbers
    constructor
    · rcases hstrict with ⟨-, body, hresult⟩ | ⟨-, diagnostic, hresult⟩ <;> simp [hresult]
    · rcases hlenient with ⟨-, hresult⟩ | ⟨-, diagnostic, hresult⟩ | ⟨-, -, hresult⟩ <;>
        simp [hresult]
  · intro hnested
    obtain ⟨hbody, hgenerator, hruns⟩ := compile_of_nested
      { session with strict := true } (checkBrackets_of_nested _ hnested) hnested
    obtain ⟨hbody', hgenerator', hruns'⟩ := compile_of_nested
      { session with strict := false } (checkBrackets_of_nested _ hnested) hnested
    refine ⟨hbody.trans hbody'.symm, hruns.trans hruns'.symm, ?_⟩
    exact congrArg Generator.loopCount (hgenerator.trans hgenerator'.symm)

end Session

/-- What a properly nested source is compiled to. -/
def compilationOf (options : Options) (source : List Char) : Compilation :=
  { assembly :=
      Assembly.frame (bodyOf options.programName source) options.programName
        options.tapeSize.toNat
    body := bodyOf options.programName source
    program := options.programName
    runs := Source.runs source
    loopCount := source.count '[' }

/-- A compile of a properly nested source fails only on a tape without a cell. -/
theorem compileSource_of_nested (options : Options) {source : String}
    (hnested : Nested '[' ']' source.toList) :
    (compileSource options source).1 =
      if 0 < options.tapeSize then .ok (compilationOf options source.toList)
      else .error (.tapeSizeNotPositive options.tapeSize) := by
  obtain ⟨hresult, hsession⟩ :=
    (Session.new options.programName options.strict options.tapeSize).session_of_nested
      (Session.checkBrackets_of_nested _ hnested) hnested
  have hloops := Session.loopCount_generated
    (Session.new options.programName options.strict options.tapeSize) source.toList
  rw [compileSource]
  dsimp only
  rw [hresult, hsession, Effects.ok_bind, Session.assembly_holding, compilationOf, ← hloops]
  change (ite (0 < options.tapeSize) _ _ : Except CompileError String) >>= _ = _
  by_cases hsize : 0 < options.tapeSize
  · rw [if_pos hsize, if_pos hsize]
    rfl
  · rw [if_neg hsize, if_neg hsize]
    rfl

/-- A source is compiled if it is properly nested and the tape has a cell. -/
theorem compileSource_eq_ok_iff {options : Options} {source : String} {compilation : Compilation} :
    (compileSource options source).1 = .ok compilation ↔
      Nested '[' ']' source.toList ∧ 0 < options.tapeSize ∧
        compilation = compilationOf options source.toList := by
  constructor
  · intro hcompiled
    obtain ⟨body, hbody, -⟩ := Effects.bind_eq_ok hcompiled
    have hnested := (Session.compile_eq_ok hbody).1
    rw [compileSource_of_nested options hnested] at hcompiled
    split at hcompiled
    · rename_i hsize
      exact ⟨hnested, hsize, (Except.ok.inj hcompiled).symm⟩
    · cases hcompiled
  · rintro ⟨hnested, hsize, rfl⟩
    rw [compileSource_of_nested options hnested, if_pos hsize]

end Compiler
end TapeCompiler
