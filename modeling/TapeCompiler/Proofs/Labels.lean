import Mathlib.Data.List.Nodup
import TapeCompiler.Proofs.History
import TapeCompiler.Proofs.Wiring

/-!
# Labels along a history

Loops can be opened and closed and labels asked for by hand, in any order and
between compiles.  Two things are kept along the way (`Disciplined`): the open
loops are numbered in the order in which they were opened, all of them below the
number that is next; and the labels handed out since the last reset are those of
the numbers below it, each once.  An emission keeps them, so a compile does,
which is a row of emissions behind a reset (`foldlM_emissionsOf`), and so does
every call.

The innermost open loop is the one of the last opening call that has not been
undone: the calls behind it are nested and none of them starts afresh
(`exists_opening_call`).

Main statement: `labels_after_any_history`.
-/

namespace TapeCompiler
namespace Assembly

theorem toList_loopName (number : Nat) :
    (loopName number).toList = "Branch".toList ++ Nat.toDigits 10 number := by
  rw [show loopName number = "Branch" ++ toString number from rfl]
  simp

theorem loopName_injective : Function.Injective loopName := by
  intro first second hname
  have htext := congrArg String.toList hname
  rw [toList_loopName, toList_loopName] at htext
  exact Numeral.toDigits_injective (by decide) (by decide) (List.append_cancel_left htext)

end Assembly

namespace Compiler

open Assembly Source

/-! ### Labels of a generator -/

namespace Generator

/-- The labels of the open loops, the one opened first in front. -/
def openLabels (generator : Generator) : List String :=
  generator.openLoops.reverse.map loopName

/-- The label that is handed out next. -/
def nextLabel (generator : Generator) : String :=
  loopName generator.nextLoop.1

theorem openLabels_eq_nil_iff {generator : Generator} :
    generator.openLabels = [] ↔ generator.openLoops = [] := by
  simp [openLabels]

theorem openLabels_openLoop (generator : Generator) :
    generator.openLoop.openLabels = generator.openLabels ++ [generator.nextLabel] := by
  simp [openLabels, openLoop, nextLabel, nextLoop, emitLines, emit]

/-- Closing a loop takes the last of the open labels and emits the jump to its
start and the mark of its end. -/
theorem closeLoop_cons {generator : Generator} {number : Nat} {outer : List Nat}
    (hopened : generator.openLoops = number :: outer) :
    ∃ closed, generator.closeLoop = .ok closed ∧
      generator.openLabels = closed.openLabels ++ [loopName number] ∧
      closed.blocks = generator.blocks.push (blockText
        ["br BranchStart" ++ loopName number, "BranchEnd" ++ loopName number ++ ": nop"]) ∧
      closed.loopCount = generator.loopCount := by
  have hlines : (loopEndBlock number).map Line.render =
      ["br BranchStart" ++ loopName number, "BranchEnd" ++ loopName number ++ ": nop"] := by
    simp only [loopEndBlock, List.map_cons, List.map_nil, List.cons.injEq, and_true,
      ← String.toList_inj]
    constructor <;> simp [Line.render, Line.close, Line.marked, startLabel, endLabel]
  rw [closeLoop, hopened]
  refine ⟨_, rfl, ?_, ?_, rfl⟩
  · simp [openLabels, hopened, emitLines, emit]
  · rw [← hlines]
    rfl

end Generator

/-! ### Labels handed out -/

namespace Emission

/-- The labels that have been handed out since the last reset, behind an
emission. -/
def issued (generator : Generator) (known : List String) : Emission → List String
  | openLoop => known ++ [generator.nextLabel]
  | nextLoop => known ++ [generator.nextLabel]
  | reset => []
  | _ => known

/-- The labels that have been handed out since the last reset, behind a row of
emissions up to the first that fails. -/
def issuedAlong : Generator → List String → List Emission → List String
  | _, known, [] => known
  | generator, known, emission :: rest =>
      match emission.perform generator with
      | .ok next => issuedAlong next (emission.issued generator known) rest
      | .error _ => known

end Emission

/-- The emissions that the code of a source is generated by. -/
def emissionsOf (source : List Char) : List Emission :=
  (bareSegments source).map emissionOf

/-- Code is generated by performing the emissions, and as far as they can be. -/
theorem emitRuns_eq_foldlM_perform (generator : Generator) (source : List Char) :
    generator.emitRuns (runs source) = (emissionsOf source).foldlM Emission.perform generator := by
  simp only [emissionsOf, List.foldlM_map, perform_emissionOf]
  exact (generator.emitRuns_eq source).trans (generator.foldlM_emitSegment _).symm

namespace Session

/-- A compile that succeeds performs the emissions of its source behind a
reset. -/
theorem foldlM_emissionsOf {session : Session} {source body : String}
    (hcompiled : (session.compile source).result = .ok body) :
    (emissionsOf source.toList).foldlM Emission.perform session.generator.reset =
      .ok (session.compile source).session.generator := by
  have hnested := (compile_eq_ok hcompiled).1
  have hgenerator :=
    (session.compile_of_nested (checkBrackets_of_nested session.strict hnested) hnested).2.1
  have hscan : descend openingSegment closingSegment 0 (bareSegments source.toList) = some 0 := by
    rw [descend_bareSegments]
    exact (nested_iff_descend bracket_ne).mp hnested
  have hemit := session.generator.reset.emitRuns_eq source.toList
  rw [show session.generator.reset.openLoops.length = 0 from rfl, hscan] at hemit
  rw [← emitRuns_eq_foldlM_perform, hemit, hgenerator]
  rfl

/-- The labels that have been handed out since the last reset, behind a call.  A
compile starts with a reset, and ends with one if it fails. -/
def issued (session : Session) (known : List String) : Call → List String
  | .emission emission => emission.issued session.generator known
  | .request (.compile source) =>
      match (session.compile source).result with
      | .ok _ => Emission.issuedAlong session.generator.reset [] (emissionsOf source.toList)
      | .error _ => []
  | .request _ => known

/-- The labels that have been handed out since the last reset, behind a sequence
of calls. -/
def issuedAfter : Session → List String → List Call → List String
  | _, known, [] => known
  | session, known, call :: rest =>
      (session.perform call).issuedAfter (session.issued known call) rest

end Session

/-! ### What is kept -/

/-- The open loops of a generator are numbered in the order of their opening and
below the next number, and the labels handed out are those below it. -/
structure Disciplined (generator : Generator) (known : List String) : Prop where
  ordered : generator.openLoops.Pairwise (· > ·)
  below : ∀ number ∈ generator.openLoops, number < generator.loopCount
  issued : known = (List.range generator.loopCount).map loopName

namespace Disciplined

variable {generator next : Generator} {known : List String}

theorem of_reset (generator : Generator) : Disciplined generator.reset [] where
  ordered := List.Pairwise.nil
  below := by simp [Generator.reset]
  issued := rfl

/-- One more label is handed out. -/
theorem append_nextLabel (hknown : Disciplined generator known) :
    known ++ [generator.nextLabel] = (List.range (generator.loopCount + 1)).map loopName := by
  rw [List.range_succ, List.map_append, ← hknown.issued]
  rfl

theorem of_openLoop (hknown : Disciplined generator known) :
    Disciplined generator.openLoop (known ++ [generator.nextLabel]) where
  ordered := List.pairwise_cons.mpr ⟨hknown.below, hknown.ordered⟩
  below := by
    intro number hnumber
    change number ∈ generator.loopCount :: generator.openLoops at hnumber
    change number < generator.loopCount + 1
    rcases List.mem_cons.mp hnumber with rfl | hopened
    · omega
    · have := hknown.below number hopened
      omega
  issued := hknown.append_nextLabel

theorem of_nextLoop (hknown : Disciplined generator known) :
    Disciplined generator.nextLoop.2 (known ++ [generator.nextLabel]) where
  ordered := hknown.ordered
  below := by
    intro number hnumber
    have := hknown.below number hnumber
    change number < generator.loopCount + 1
    omega
  issued := hknown.append_nextLabel

theorem of_closeLoop (hknown : Disciplined generator known)
    (hclose : generator.closeLoop = .ok next) : Disciplined next known := by
  cases hopened : generator.openLoops with
  | nil =>
      rw [Generator.closeLoop, hopened] at hclose
      cases hclose
  | cons number outer =>
      rw [Generator.closeLoop, hopened] at hclose
      cases hclose
      have hordered := hknown.ordered
      have hbelow := hknown.below
      rw [hopened] at hordered hbelow
      exact ⟨(List.pairwise_cons.mp hordered).2,
        fun other hother => hbelow other (List.mem_cons_of_mem _ hother), hknown.issued⟩

theorem perform (hknown : Disciplined generator known) {emission : Emission}
    (hperform : emission.perform generator = .ok next) :
    Disciplined next (emission.issued generator known) := by
  cases emission with
  | openLoop =>
      cases hperform
      exact hknown.of_openLoop
  | nextLoop =>
      cases hperform
      exact hknown.of_nextLoop
  | closeLoop => exact hknown.of_closeLoop hperform
  | reset =>
      cases hperform
      exact of_reset generator
  | move _ _ | change _ _ | write | read | emit _ =>
      cases hperform
      exact ⟨hknown.ordered, hknown.below, hknown.issued⟩

theorem foldlM_perform (hknown : Disciplined generator known) {emissions : List Emission}
    (hperform : emissions.foldlM Emission.perform generator = .ok next) :
    Disciplined next (Emission.issuedAlong generator known emissions) := by
  induction emissions generalizing generator known with
  | nil =>
      cases hperform
      exact hknown
  | cons emission rest ih =>
      rw [List.foldlM_cons] at hperform
      obtain ⟨between, hfirst, hrest⟩ := Effects.bind_eq_ok hperform
      rw [Emission.issuedAlong, hfirst]
      exact ih (hknown.perform hfirst) hrest

theorem call {session : Session} (hknown : Disciplined session.generator known) (call : Call) :
    Disciplined (session.perform call).generator (session.issued known call) := by
  cases call with
  | emission emission =>
      rw [Session.perform_emission, Session.issued]
      cases hperform : emission.perform session.generator with
      | ok generator => exact hknown.perform hperform
      | error error =>
          -- Only closing a loop can fail, and it hands out no label.
          cases emission with
          | closeLoop => exact hknown
          | _ => cases hperform
  | request request =>
      cases request with
      | compile source =>
          rw [Session.perform, Session.serve, Session.issued]
          cases hresult : (session.compile source).result with
          | ok body =>
              exact (of_reset session.generator).foldlM_perform (Session.foldlM_emissionsOf hresult)
          | error error =>
              rw [Session.session_of_error hresult]
              exact of_reset session.generator
      | assembly => exact hknown
      | setStrict strict => exact hknown
      | setTapeSize tapeSize => exact hknown
      | setProgram program => exact ⟨hknown.ordered, hknown.below, hknown.issued⟩

theorem after (session : Session) (hknown : Disciplined session.generator known)
    (calls : List Call) :
    Disciplined (session.after calls).generator (session.issuedAfter known calls) := by
  induction calls generalizing session known with
  | nil => exact hknown
  | cons call rest ih => exact ih _ (hknown.call call)

/-- No label has been handed out twice, and the next one not at all. -/
theorem nodup (hknown : Disciplined generator known) :
    known.Nodup ∧ generator.nextLabel ∉ known := by
  have hnodup : (known ++ [generator.nextLabel]).Nodup := by
    rw [hknown.append_nextLabel]
    exact List.nodup_range.map loopName_injective
  rw [List.nodup_append] at hnodup
  exact ⟨hnodup.1, fun hmem => hnodup.2.2 _ hmem _ List.mem_cons_self rfl⟩

/-- A row of emissions hands out no label twice, also if it fails. -/
theorem nodup_issuedAlong (hknown : Disciplined generator known) (emissions : List Emission) :
    (Emission.issuedAlong generator known emissions).Nodup := by
  induction emissions generalizing generator known with
  | nil => exact hknown.nodup.1
  | cons emission rest ih =>
      rw [Emission.issuedAlong]
      cases hperform : emission.perform generator with
      | ok next => exact ih (hknown.perform hperform)
      | error error => exact hknown.nodup.1

end Disciplined

/-! ### The call that opened a loop -/

namespace Call

/-- Whether a call starts afresh, with no loop open. -/
def startsAfresh : Call → Bool
  | .request (.compile _) => true
  | .emission .reset => true
  | _ => false

abbrev opening : Call := .emission .openLoop

abbrev closing : Call := .emission .closeLoop

theorem opening_ne : opening ≠ closing := by decide

end Call

namespace Session

theorem after_concat (session : Session) (calls : List Call) (call : Call) :
    session.after (calls ++ [call]) = (session.after calls).perform call := by
  rw [after, List.foldl_append]
  rfl

/-- No loop is open behind a call that starts afresh. -/
theorem openLoops_of_startsAfresh {call : Call} (hcall : call.startsAfresh = true)
    (session : Session) : (session.perform call).generator.openLoops = [] := by
  cases call with
  | emission emission =>
      cases emission with
      | reset => rfl
      | _ => cases hcall
  | request request =>
      cases request with
      | compile source =>
          change (session.compile source).session.generator.openLoops = []
          cases hresult : (session.compile source).result with
          | error error =>
              rw [session_of_error hresult]
              rfl
          | ok body =>
              have hnested := (compile_eq_ok hresult).1
              have hcheck := checkBrackets_of_nested session.strict hnested
              rw [(session.compile_of_nested hcheck hnested).2.1]
              exact List.length_eq_zero_iff.mp
                (session.openLoops_generated ((nested_iff_descend bracket_ne).mp hnested))
      | _ => cases hcall

/-- A call that neither starts afresh nor opens or closes a loop leaves the open
loops alone. -/
theorem openLoops_perform_other {call : Call} (hcall : call.startsAfresh = false)
    (hopening : call ≠ .opening) (hclosing : call ≠ .closing) (session : Session) :
    (session.perform call).generator.openLoops = session.generator.openLoops := by
  cases call with
  | emission emission =>
      cases emission with
      | openLoop => exact absurd rfl hopening
      | closeLoop => exact absurd rfl hclosing
      | reset => cases hcall
      | _ => rfl
  | request request =>
      cases request with
      | compile source => cases hcall
      | _ => rfl

/-- Closing a loop uncovers the one around it. -/
theorem openLoops_perform_closing (session : Session) :
    (session.perform .closing).generator.openLoops = session.generator.openLoops.tail := by
  cases hopened : session.generator.openLoops with
  | nil =>
      have hclose : session.generator.closeLoop = .error .noOpenLoop := by
        rw [Generator.closeLoop, hopened]
      simp [perform_emission, Emission.perform, hclose, hopened]
  | cons number outer =>
      simp [perform_emission, Emission.perform, Generator.closeLoop, hopened, Generator.emitLines,
        Generator.emit]

/-- The innermost open loop was opened by the last opening call that the calls
behind it leave open: they do not start afresh, and close exactly the loops that
they open themselves. -/
theorem exists_opening_call (start : Session) (hstart : start.generator.openLoops = [])
    {calls : List Call} {number : Nat} {outer : List Nat}
    (hopened : (start.after calls).generator.openLoops = number :: outer) :
    ∃ earlier body, calls = earlier ++ .opening :: body ∧
      (∀ call ∈ body, call.startsAfresh = false) ∧
      Nested Call.opening Call.closing body ∧
      (start.after earlier).generator.loopCount = number ∧
      (start.after earlier).generator.openLoops = outer := by
  -- The calls are taken apart from their end.  Behind a closing call the loop that it has closed
  -- is looked up first and then, among fewer calls, the one around it.
  induction hlength : calls.length using Nat.strongRecOn generalizing calls number outer with
  | ind length ih =>
      rcases List.eq_nil_or_concat calls with rfl | ⟨front, call, rfl⟩
      · rw [show start.after [] = start from rfl, hstart] at hopened
        cases hopened
      rw [List.concat_eq_append, List.length_append, List.length_singleton] at hlength
      rw [List.concat_eq_append, after_concat] at hopened
      rw [List.concat_eq_append]
      cases hfresh : call.startsAfresh with
      | true =>
          rw [openLoops_of_startsAfresh hfresh] at hopened
          cases hopened
      | false =>
          by_cases hopening : call = .opening
          · subst hopening
            obtain ⟨hnumber, houter⟩ := List.cons.inj hopened
            exact ⟨front, [], rfl, by simp, by decide, hnumber, houter⟩
          by_cases hclosing : call = .closing
          · subst hclosing
            rw [openLoops_perform_closing] at hopened
            cases hfront : (start.after front).generator.openLoops with
            | nil =>
                rw [hfront] at hopened
                cases hopened
            | cons inner around =>
                rw [hfront] at hopened
                obtain rfl : around = number :: outer := hopened
                obtain ⟨middle, body, rfl, hbodyFresh, hbody, -, hmiddle⟩ :=
                  ih front.length (by omega) hfront rfl
                rw [List.length_append] at hlength
                obtain ⟨earlier, between, rfl, hbetweenFresh, hbetween, hnumber, houter⟩ :=
                  ih middle.length (by omega) hmiddle rfl
                refine ⟨earlier, between ++ (.opening :: body ++ [.closing]), by simp, ?_, ?_,
                  hnumber, houter⟩
                · simp only [List.forall_mem_append, List.forall_mem_cons, List.not_mem_nil,
                    false_implies, implies_true, and_true]
                  exact ⟨hbetweenFresh, ⟨rfl, hbodyFresh⟩, rfl⟩
                · rw [hbetween.append_iff_right Call.opening_ne, nested_iff_descend Call.opening_ne,
                    List.cons_append, descend_opening, descend_append,
                    hbody.descend_eq Call.opening_ne, Option.bind_some,
                    descend_closing_succ Call.opening_ne, descend_nil]
          · rw [openLoops_perform_other hfresh hopening hclosing] at hopened
            obtain ⟨earlier, body, rfl, hbodyFresh, hbody, hnumber, houter⟩ :=
              ih front.length (by omega) hopened rfl
            refine ⟨earlier, body ++ [call], by simp, ?_, ?_, hnumber, houter⟩
            · rw [List.forall_mem_append, List.forall_mem_singleton]
              exact ⟨hbodyFresh, hfresh⟩
            · rw [hbody.append_iff_right Call.opening_ne, nested_iff_descend Call.opening_ne,
                descend_other hopening hclosing, descend_nil]

/-- Whatever calls a session has served, the labels of its open loops are `Branch`
with numbers in decimal that grow in the order of opening and stay below the
count of loops.  No label has been handed out twice since the last reset, and
the next one, which opening a loop puts behind the open labels, not at all.  Nor
does a compile hand out a label twice, whether its emissions succeed or not.

Closing a loop fails exactly if none is open, and then, though it is done in
place, changes nothing.  Otherwise it takes the label that the last opening call
left open was given, and emits the jump to its start and the mark of its end. -/
theorem labels_after_any_history (program : String) (strict : Bool) (tapeSize : Int)
    (calls : List Call) :
    let start := new program strict tapeSize
    let session := start.after calls
    let generator := session.generator
    let issued := start.issuedAfter [] calls
    (∃ numbers : List Nat,
      generator.openLabels =
        numbers.map (fun number => String.ofList ("Branch".toList ++ Nat.toDigits 10 number)) ∧
      numbers.Pairwise (· < ·) ∧ ∀ number ∈ numbers, number < generator.loopCount) ∧
    issued.Nodup ∧ generator.nextLabel ∉ issued ∧
    generator.openLoop.openLabels = generator.openLabels ++ [generator.nextLabel] ∧
    (∀ source,
      generator.reset.emitRuns (Source.runs source) =
        (emissionsOf source).foldlM Emission.perform generator.reset ∧
      (Emission.issuedAlong generator.reset [] (emissionsOf source)).Nodup) ∧
    (generator.closeLoop = .error .noOpenLoop ↔ generator.openLabels = []) ∧
    (generator.openLabels = [] →
      Procedure.closeLoop.run session = (.error .noOpenLoop, session) ∧
        session.perform .closing = session) ∧
    (generator.openLabels ≠ [] →
      ∃ earlier body closed,
        let label := (start.after earlier).generator.nextLabel
        calls = earlier ++ .opening :: body ∧
        (∀ call ∈ body, call.startsAfresh = false) ∧
        Nested Call.opening Call.closing body ∧
        generator.closeLoop = .ok closed ∧
        generator.openLabels = closed.openLabels ++ [label] ∧
        closed.blocks = generator.blocks.push
          (blockText ["br BranchStart" ++ label, "BranchEnd" ++ label ++ ": nop"]) ∧
        closed.loopCount = generator.loopCount) := by
  intro start session generator issued
  have hknown : Disciplined generator issued :=
    Disciplined.after start (Disciplined.of_reset start.generator) calls
  have hnothing (hnone : generator.openLoops = []) :
      generator.closeLoop = .error .noOpenLoop := by
    rw [Generator.closeLoop, hnone]
  refine ⟨⟨generator.openLoops.reverse, ?_, ?_, ?_⟩, hknown.nodup.1, hknown.nodup.2,
    generator.openLabels_openLoop, ?_, ?_, ?_, ?_⟩
  · refine List.map_congr_left fun number _ => ?_
    rw [← toList_loopName, String.ofList_toList]
  · rw [List.pairwise_reverse]
    exact hknown.ordered
  · intro number hnumber
    exact hknown.below number (List.mem_reverse.mp hnumber)
  · intro source
    exact ⟨emitRuns_eq_foldlM_perform _ source,
      (Disciplined.of_reset generator).nodup_issuedAlong (emissionsOf source)⟩
  · rw [Generator.openLabels_eq_nil_iff]
    refine ⟨fun hfailed => ?_, hnothing⟩
    cases hopened : generator.openLoops with
    | nil => rfl
    | cons number outer =>
        obtain ⟨closed, hclosed, -⟩ := Generator.closeLoop_cons hopened
        rw [hclosed] at hfailed
        cases hfailed
  · intro hnone
    have hfailed := hnothing (Generator.openLabels_eq_nil_iff.mp hnone)
    constructor
    · rw [Procedure.run_closeLoop, hfailed]
    · rw [Call.closing, perform_emission, Emission.perform, hfailed]
  · intro hsome
    rw [ne_eq, Generator.openLabels_eq_nil_iff] at hsome
    obtain ⟨number, outer, hopened⟩ := List.exists_cons_of_ne_nil hsome
    obtain ⟨earlier, body, hcalls, hfresh, hbody, hnumber, -⟩ :=
      exists_opening_call start rfl hopened
    obtain ⟨closed, hclosed, hlabels, hblocks, hcount⟩ := Generator.closeLoop_cons hopened
    have hlabel : (start.after earlier).generator.nextLabel = loopName number := by
      rw [← hnumber]
      rfl
    refine ⟨earlier, body, closed, ?_⟩
    dsimp only
    rw [hlabel]
    exact ⟨hcalls, hfresh, hbody, hclosed, hlabels, hblocks, hcount⟩

end Session
end Compiler
end TapeCompiler
