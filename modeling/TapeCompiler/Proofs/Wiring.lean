import Mathlib.Data.List.Nodup
import TapeCompiler.Proofs.Lines

/-!
# Loops in compiled text

The labels of a compiled body join each loop end to the loop start that it
matches in the source.  The generator numbers loops by a stack; on a properly
nested source each bracket gets the number of `[` before the one of its loop
(`blocksOf_eq`), no label is defined twice (`labels_of_nested`), and matching
brackets are wired to each other (`wired_of_matching`).

Main statement: `read_compiled_body`.
-/

namespace TapeCompiler
namespace Compiler

open Assembly Source Text

/-! ### The numbers of loops -/

/-- The index of the `[` of the loop that the bracket at an index belongs to. -/
def loopStartOf (source : List Char) (pos : Nat) : Nat :=
  if source[pos]? = some '[' then
    pos
  else
    (openingOf '[' ']' source pos).getD 0

/-- The number of the loop that the bracket at an index belongs to: the number
of `[` before its own. -/
def loopNumber (source : List Char) (pos : Nat) : Nat :=
  (source.take (loopStartOf source pos)).count '['

theorem loopNumber_of_opening {source : List Char} {pos : Nat} (hpos : source[pos]? = some '[') :
    loopNumber source pos = (source.take pos).count '[' := by
  rw [loopNumber, loopStartOf, if_pos hpos]

/-- Both brackets of a loop have the loop's number. -/
theorem loopNumber_of_matching {source : List Char} {first last : Nat}
    (hmatching : Matching '[' ']' source first last) :
    loopNumber source last = (source.take first).count '[' := by
  have hlast : source[last]? ≠ some '[' := by
    rw [hmatching.2.2.1]
    decide
  rw [loopNumber, loopStartOf, if_neg hlast, hmatching.openingOf_eq bracket_ne, Option.getD_some]

abbrev textLoops (source : List Char) : Loops :=
  Loops.after '[' ']' {} source

/-- At a loop end of a nested source the innermost open loop is the one that
the bracket matches. -/
theorem innermost_textLoops {before behind : List Char}
    (hnested : Nested '[' ']' (before ++ ']' :: behind)) :
    (textLoops before).innermost = loopNumber (before ++ ']' :: behind) before.length := by
  obtain ⟨outer, body, rfl, hbody⟩ := hnested.exists_opening bracket_ne
  have hmatching : Matching '[' ']' (outer ++ '[' :: body ++ ']' :: behind) outer.length
      (outer ++ '[' :: body).length := by
    rw [matching_iff_split]
    exact ⟨outer, body, behind, rfl, hbody, rfl, by simp; omega⟩
  have htake : (outer ++ '[' :: body ++ ']' :: behind).take outer.length = outer := by
    rw [List.append_assoc, List.take_left']
    rfl
  have hloops : textLoops (outer ++ '[' :: body) = Loops.after '[' ']' (textLoops outer).enter body :=
    Loops.after_append _ _ _
  rw [loopNumber_of_matching hmatching, htake, hloops, Loops.innermost,
    Loops.opened_after_nested bracket_ne _ hbody]
  have hcount := Loops.count_after bracket_ne {} outer
  rw [Nat.zero_add] at hcount
  exact hcount

/-- In a nested source the generator gives every bracket the number of the loop
that it belongs to. -/
theorem numbered_segmentsFrom {source : List Char} (hnested : Nested '[' ']' source)
    (before : List Char) {rest : List Char} (hsplit : source = before ++ rest) :
    numbered (textLoops before) ((segmentsFrom before.length rest).map Segment.bare) =
      (segmentsFrom before.length rest).map (Segment.map (loopNumber source)) := by
  -- The induction goes along the text; what has been read stands for the loops behind it.
  induction rest generalizing before with
  | nil => rfl
  | cons c rest ih =>
      have hlength : (before ++ [c]).length = before.length + 1 := List.length_append
      have hloops : textLoops (before ++ [c]) = Loops.next '[' ']' (textLoops before) c :=
        Loops.after_append _ _ _
      have hrest := ih (before ++ [c]) (by rw [hsplit, List.append_assoc]; rfl)
      rw [hlength, hloops] at hrest
      cases hc : Command.ofChar? c with
      | none =>
          obtain ⟨hopening, hclosing⟩ := Command.ne_bracket_of_comment hc
          rw [Loops.next_other hopening hclosing] at hrest
          rw [segmentsFrom_comment hc, hrest]
      | some command =>
          obtain rfl := Command.ofChar?_eq_some_iff.mp hc
          rcases command.fused_or_single with ⟨fuse, hfuse⟩ | hsingle
          · have hopening : command.toChar ≠ '[' := by cases command <;> cases hfuse <;> decide
            have hclosing : command.toChar ≠ ']' := by cases command <;> cases hfuse <;> decide
            rw [Loops.next_other hopening hclosing] at hrest
            -- Whether or not the run goes on, what is behind its segment is numbered already.
            rcases segmentsFrom_fused hc hfuse before.length rest with
              ⟨-, count, tail, hbehind, hwhole⟩ | ⟨-, hwhole⟩
            · rw [hbehind] at hrest
              rw [hwhole]
              exact congrArg (List.cons (.plain (fuse (count + 2)))) (List.cons.inj hrest).2
            · rw [hwhole]
              exact congrArg (List.cons (.plain (fuse 1))) hrest
          · obtain ⟨own, hown⟩ := hsingle before.length
            rw [segmentsFrom_single hc hown]
            cases command with
            | right => cases hown
            | left => cases hown
            | increment => cases hown
            | decrement => cases hown
            | write =>
                cases hown
                exact congrArg (List.cons (.plain .write)) hrest
            | read =>
                cases hown
                exact congrArg (List.cons (.plain .read)) hrest
            | loopStart =>
                cases hown
                have hnumber : (textLoops before).count = loopNumber source before.length := by
                  rw [loopNumber_of_opening (by rw [hsplit]; simp [Command.toChar]), hsplit,
                    List.take_left', textLoops, Loops.count_after bracket_ne, Nat.zero_add]
                  rfl
                change .loopStart (textLoops before).count :: numbered (textLoops before).enter _ = _
                rw [hnumber]
                exact congrArg (List.cons (.loopStart _)) hrest
            | loopEnd =>
                cases hown
                have hnumber : (textLoops before).innermost = loopNumber source before.length := by
                  rw [hsplit] at hnested ⊢
                  exact innermost_textLoops hnested
                change .loopEnd (textLoops before).innermost ::
                  numbered (textLoops before).leave _ = _
                rw [hnumber]
                exact congrArg (List.cons (.loopEnd _)) hrest

/-- The blocks of a nested source are its segments, marked with the numbers of
the loops. -/
theorem blocksOf_eq {source : List Char} (hnested : Nested '[' ']' source) :
    blocksOf source = (segments source).map (Segment.map (loopNumber source)) :=
  numbered_segmentsFrom hnested [] rfl

/-! ### Labels -/

def startNumbers (blocks : List (Segment Nat)) : List Nat :=
  blocks.filterMap fun
    | .loopStart number => some number
    | _ => none

def endNumbers (blocks : List (Segment Nat)) : List Nat :=
  blocks.filterMap fun
    | .loopEnd number => some number
    | _ => none

theorem startNumbers_numbered (loops : Loops) (segments : List (Segment Unit)) :
    startNumbers (numbered loops segments) =
      List.range' loops.count (segments.count openingSegment) := by
  induction segments generalizing loops with
  | nil => rfl
  | cons segment rest ih =>
      cases segment with
      | plain action =>
          rw [List.count_cons_of_ne (by simp)]
          exact ih loops
      | loopStart mark =>
          rw [List.count_cons_self, List.range'_succ]
          exact congrArg (List.cons loops.count) (ih loops.enter)
      | loopEnd mark =>
          rw [List.count_cons_of_ne (by simp)]
          exact ih loops.leave

/-- The loops that are closed or left open are those that were open before or
opened on the way, each once. -/
theorem endNumbers_numbered_perm (loops : Loops) {segments : List (Segment Unit)} {depth : Nat}
    (hscan : descend openingSegment closingSegment loops.opened.length segments = some depth) :
    (endNumbers (numbered loops segments) ++ (loopsAfter loops segments).opened).Perm
      (loops.opened ++ startNumbers (numbered loops segments)) := by
  induction segments generalizing loops with
  | nil => simp [numbered, endNumbers, startNumbers]
  | cons segment rest ih =>
      cases segment with
      | plain action =>
          rw [descend_other (by simp) (by simp)] at hscan
          exact ih loops hscan
      | loopStart mark =>
          rw [descend_opening] at hscan
          refine (ih loops.enter hscan).trans ?_
          exact List.perm_middle.symm
      | loopEnd mark =>
          cases hopened : loops.opened with
          | nil =>
              rw [hopened, List.length_nil, descend_closing_zero openingSegment_ne] at hscan
              cases hscan
          | cons number outer =>
              -- The number that is closed moves from the stack to the ends.
              rw [hopened, List.length_cons, descend_closing_succ openingSegment_ne] at hscan
              have hleave : loops.leave.opened = outer := by rw [Loops.leave, hopened]; rfl
              have hinnermost : loops.innermost = number := by rw [Loops.innermost, hopened]; rfl
              have hrest := ih loops.leave (by rw [hleave]; exact hscan)
              rw [hleave] at hrest
              change (loops.innermost :: (endNumbers (numbered loops.leave rest) ++
                (loopsAfter loops.leave rest).opened)).Perm
                  (number :: (outer ++ startNumbers (numbered loops.leave rest)))
              rw [hinnermost]
              exact hrest.cons number

theorem flatMap_labelsOf_perm (blocks : List (Segment Nat)) :
    (blocks.flatMap labelsOf).Perm
      ((startNumbers blocks).map startLabel ++ (endNumbers blocks).map endLabel) := by
  induction blocks with
  | nil => exact List.Perm.refl _
  | cons block rest ih =>
      cases block with
      | plain action => exact ih
      | loopStart number => exact ih.cons (startLabel number)
      | loopEnd number => exact (ih.cons (endLabel number)).trans List.perm_middle.symm

theorem startLabel_injective : Function.Injective startLabel := by
  intro first second hlabel
  have htext := congrArg String.toList hlabel
  rw [toList_startLabel, toList_startLabel] at htext
  exact Numeral.toDigits_injective (by decide) (by decide) (List.append_cancel_left htext)

theorem endLabel_injective : Function.Injective endLabel := by
  intro first second hlabel
  have htext := congrArg String.toList hlabel
  rw [toList_endLabel, toList_endLabel] at htext
  exact Numeral.toDigits_injective (by decide) (by decide) (List.append_cancel_left htext)

theorem startLabel_ne_endLabel (first second : Nat) : startLabel first ≠ endLabel second := by
  intro hlabel
  -- The two names part at their seventh character.
  have htext := congrArg (fun label => (label.toList.drop 6).head?) hlabel
  rw [toList_startLabel, toList_endLabel] at htext
  cases htext

/-- In the blocks of a nested source no label is defined twice, and there are
two for each loop. -/
theorem labels_of_nested {source : List Char} (hnested : Nested '[' ']' source) :
    ((blocksOf source).flatMap labelsOf).Nodup ∧
      ((blocksOf source).flatMap labelsOf).length = 2 * source.count '[' := by
  have hscan : descend openingSegment closingSegment 0 (bareSegments source) = some 0 := by
    rw [descend_bareSegments]
    exact (nested_iff_descend bracket_ne).mp hnested
  have hopened : (loopsAfter {} (bareSegments source)).opened = [] :=
    List.length_eq_zero_iff.mp (Loops.length_opened_after openingSegment_ne {} hscan)
  have hends := endNumbers_numbered_perm {} hscan
  rw [hopened, List.append_nil, List.nil_append] at hends
  have hstarts : startNumbers (blocksOf source) = List.range' 0 (source.count '[') := by
    rw [← count_bareSegments]
    exact startNumbers_numbered {} (bareSegments source)
  have hperm := flatMap_labelsOf_perm (blocksOf source)
  constructor
  · rw [hperm.nodup_iff, List.nodup_append]
    have hnodup : (startNumbers (blocksOf source)).Nodup := by
      rw [hstarts]
      exact List.nodup_range'
    refine ⟨hnodup.map startLabel_injective,
      (hends.nodup_iff.mpr hnodup).map endLabel_injective, ?_⟩
    intro first hfirst second hsecond
    obtain ⟨start, -, rfl⟩ := List.mem_map.mp hfirst
    obtain ⟨stop, -, rfl⟩ := List.mem_map.mp hsecond
    exact startLabel_ne_endLabel start stop
  · have hlength : (endNumbers (blocksOf source)).length = (startNumbers (blocksOf source)).length :=
      hends.length_eq
    rw [hperm.length_eq, List.length_append, List.length_map, List.length_map, hlength, hstarts,
      List.length_range']
    omega

/-- The loop with a number in a listing: its start label stands for the `nop` at
one index, its end label for the instruction behind the `br` at another, the
`br` goes to the start label and the test at the start to the end label. -/
structure Wired (listing : Listing) (number start stop : Nat) : Prop where
  startLabel : listing.index? (startLabel number) = some start
  entry : listing.program[start]? = some ⟨"nop", ""⟩
  test : listing.program[start + 6]? = some ⟨"brfalse", Assembly.endLabel number⟩
  back : listing.program[stop]? = some ⟨"br", Assembly.startLabel number⟩
  endLabel : listing.index? (Assembly.endLabel number) = some (stop + 1)

/-- A loop start and a loop end with one number are wired to each other. -/
theorem wired_listingOf (program : String) {blocks before behind before' behind' : List (Segment Nat)}
    {number : Nat} (hnodup : (blocks.flatMap labelsOf).Nodup)
    (hstart : blocks = before ++ .loopStart number :: behind)
    (hend : blocks = before' ++ .loopEnd number :: behind') :
    Wired (listingOf program blocks) number (codeSize before) (codeSize before') where
  startLabel := by
    subst hstart
    exact index?_listingOf hnodup [] rfl rfl
  entry := by
    subst hstart
    exact getElem?_program_listingOf program before behind (.loopStart number) (show 0 < 7 by decide)
  test := by
    subst hstart
    exact getElem?_program_listingOf program before behind (.loopStart number) (show 6 < 7 by decide)
  back := by
    subst hend
    exact getElem?_program_listingOf program before' behind' (.loopEnd number) (show 0 < 2 by decide)
  endLabel := by
    subst hend
    exact index?_listingOf hnodup [_] rfl rfl

/-- In a nested source the loop of two matching brackets is wired between the
code before the one and the code before the other. -/
theorem wired_of_matching (program : String) {source : List Char} (hnested : Nested '[' ']' source)
    {first last : Nat} (hmatching : Matching '[' ']' source first last) :
    Wired (listingOf program (blocksOf source)) ((source.take first).count '[')
      (codeSize (segments (source.take first))) (codeSize (segments (source.take last))) := by
  have hstart := congrArg (List.map (Segment.map (loopNumber source)))
    (segments_split .loopStart rfl hmatching.2.1 rfl)
  have hend := congrArg (List.map (Segment.map (loopNumber source)))
    (segments_split .loopEnd rfl hmatching.2.2.1 rfl)
  rw [← blocksOf_eq hnested, List.map_append, List.map_cons] at hstart hend
  rw [Segment.map, loopNumber_of_opening hmatching.2.1] at hstart
  rw [Segment.map, loopNumber_of_matching hmatching] at hend
  have hwired := wired_listingOf program (labels_of_nested hnested).1 hstart hend
  rw [codeSize_map, codeSize_map] at hwired
  exact hwired

namespace Session

/-- A compilation counts the loops of its source. -/
theorem loopCount_of_compileSource {options : Options} {source : String}
    {compilation : Compilation} (hcompiled : (compileSource options source).1 = .ok compilation) :
    compilation.loopCount = source.toList.count '[' := by
  rw [(compileSource_eq_ok_iff.mp hcompiled).2.2, compilationOf]

/-- A compiled body reads back as the instructions of the segments of its
source, each bracket with the number of its loop.  It defines two labels for
each loop, none of them twice.  Every bracket has its match, and each pair of
matching brackets is wired together: the loop's number is the number of `[`
before it, and its code stands between the code of the two brackets. -/
theorem read_compiled_body {session : Session} {source body : String}
    (hprogram : '\n' ∉ session.generator.program.toList)
    (hcompiled : (session.compile source).result = .ok body) :
    let text := source.toList
    let listing := Listing.read body
    listing.program.toList =
        (segments text).flatMap (fun segment =>
          instructionsOf session.generator.program (segment.map (loopNumber text))) ∧
      listing.labels.length = 2 * text.count '[' ∧
      (session.compile source).session.generator.loopCount = text.count '[' ∧
      (∀ options compilation, (compileSource options source).1 = .ok compilation →
        compilation.loopCount = text.count '[') ∧
      ((lines body.toList).filterMap fun line => (Entry.read line).label).Nodup ∧
      (∀ first, text[first]? = some '[' → ∃ last, Matching '[' ']' text first last) ∧
      (∀ last, text[last]? = some ']' → ∃ first, Matching '[' ']' text first last) ∧
      ∀ first last, Matching '[' ']' text first last →
        (∃ behind, segments text = segments (text.take first) ++ .loopStart first :: behind) ∧
        (∃ behind, segments text = segments (text.take last) ++ .loopEnd last :: behind) ∧
        Wired listing ((text.take first).count '[') (codeSize (segments (text.take first)))
          (codeSize (segments (text.take last))) := by
  intro text listing
  obtain ⟨hnested, rfl⟩ := compile_eq_ok hcompiled
  obtain ⟨hread, hlabels⟩ := read_bodyOf hprogram text
  have hlisting : listing = listingOf session.generator.program (blocksOf text) := hread
  obtain ⟨hnodup, hlength⟩ := labels_of_nested hnested
  refine ⟨?_, ?_, ?_, ?_, ?_, ?_, ?_, ?_⟩
  · rw [hlisting, program_listingOf, blocksOf_eq hnested, List.flatMap_map]
  · have hnames := labelNames_flatMap_linesOf session.generator.program (blocksOf text)
    rw [← hnames] at hnodup hlength
    rw [hlisting, listingOf, Listing.length_labels_ofLines hnodup, hlength]
  · rw [(session.compile_of_nested (checkBrackets_of_nested session.strict hnested) hnested).2.1,
      loopCount_generated]
  · exact fun options compilation => loopCount_of_compileSource
  · rw [hlabels]
    exact hnodup
  · exact fun first hfirst => hnested.exists_matching_closing bracket_ne hfirst
  · exact fun last hlast => hnested.exists_matching_opening bracket_ne hlast
  · intro first last hmatching
    rw [hlisting]
    exact ⟨⟨_, segments_split .loopStart rfl hmatching.2.1 rfl⟩,
      ⟨_, segments_split .loopEnd rfl hmatching.2.2.1 rfl⟩,
      wired_of_matching _ hnested hmatching⟩

/-- Two loops in a row within a third, with a run of moves in the body. -/
theorem read_compiled_body_loops :
    ∃ body, ((new "Test" true 100).compile "[[-]>>[.]]").result = .ok body ∧
      (Listing.read body).labels.length = 6 ∧
      Wired (Listing.read body) 0 0 44 ∧ Wired (Listing.read body) 1 7 23 ∧
      Wired (Listing.read body) 2 29 42 := by
  have hnested : Nested '[' ']' "[[-]>>[.]]".toList := by decide
  have hcompiled := ((new "Test" true 100).compile_of_nested
    (checkBrackets_of_nested true hnested) hnested).1
  obtain ⟨-, hlabels, -, -, -, -, -, hwired⟩ := read_compiled_body (by decide) hcompiled
  exact ⟨_, hcompiled, hlabels, (hwired 0 9 (by decide)).2.2, (hwired 1 3 (by decide)).2.2,
    (hwired 6 8 (by decide)).2.2⟩

end Session

end Compiler
end TapeCompiler
