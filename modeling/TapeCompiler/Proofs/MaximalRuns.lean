import Mathlib.Data.List.Chain
import Mathlib.Data.List.Sort
import TapeCompiler.Proofs.Segments

/-!
# Maximal runs

A run of a source is maximal when it holds nothing but its own command and the
characters next to it are others.  Two maximal runs that share an index are the
same, so a list of maximal runs, in order, that leaves no command out is
determined by the source (`MaximalRuns.unique`).

The runs of a source are such a list.  They are built from the end of the source,
but what they are is seen best from its start: comments are passed over one by
one and runs are taken whole (`Cut`).  A loop over the indices of the source
takes the same runs (`runs_eq_scanFrom`).
-/

namespace TapeCompiler
namespace Source

/-- The characters that are commands. -/
def operators : List Char :=
  ['>', '<', '+', '-', '.', ',', '[', ']']

theorem Command.toChar_mem_operators (command : Command) : command.toChar ∈ operators := by
  cases command <;> decide

theorem mem_operators_iff {c : Char} :
    c ∈ operators ↔ ∃ command, Command.ofChar? c = some command := by
  constructor
  · intro hc
    simp only [operators, List.mem_cons, List.not_mem_nil, or_false] at hc
    rcases hc with rfl | rfl | rfl | rfl | rfl | rfl | rfl | rfl <;> exact ⟨_, rfl⟩
  · rintro ⟨command, hcommand⟩
    rw [Command.ofChar?_eq_some_iff.mp hcommand]
    exact command.toChar_mem_operators

theorem Command.toChar_injective {first second : Command} (h : first.toChar = second.toChar) :
    first = second := by
  have hfirst := ofChar?_toChar first
  rw [h, ofChar?_toChar] at hfirst
  exact (Option.some_inj.mp hfirst).symm

/-! ### Runs of a source -/

namespace Run

def characters (run : Run) : List Char :=
  List.replicate run.count run.command.toChar

theorem length_characters (run : Run) : run.characters.length = run.count :=
  List.length_replicate

/-- The index is that of a character of the run. -/
def Covers (run : Run) (index : Nat) : Prop :=
  run.pos ≤ index ∧ index < run.pos + run.count

/-- The second run starts behind the start of the first, and not before its end. -/
def Precedes (first next : Run) : Prop :=
  first.pos < next.pos ∧ first.pos + first.count ≤ next.pos

/-- A run that has a character, holds no other, and cannot be made longer. -/
structure Maximal (source : List Char) (run : Run) : Prop where
  positive : 1 ≤ run.count
  uniform : ∀ index, run.Covers index → source[index]? = some run.command.toChar
  before : ∀ index, index + 1 = run.pos → source[index]? ≠ some run.command.toChar
  behind : source[run.pos + run.count]? ≠ some run.command.toChar

instance : Trans Precedes Precedes Precedes where
  trans hfirst hsecond :=
    ⟨hfirst.1.trans hsecond.1, hfirst.2.trans hsecond.1.le⟩

instance : Std.Irrefl Precedes where
  irrefl run hbefore := Nat.lt_irrefl run.pos hbefore.1

instance : Std.Antisymm Precedes where
  antisymm _ _ hfirst hsecond := absurd hsecond.1 (Nat.lt_asymm hfirst.1)

namespace Maximal

variable {source : List Char} {one other : Run}

theorem covers_pos (hone : one.Maximal source) : one.Covers one.pos :=
  ⟨Nat.le_refl _, Nat.lt_add_of_pos_right hone.positive⟩

/-- A maximal run reaches as far to both sides as any run of its command that it
shares an index with. -/
theorem extent (hone : one.Maximal source) (hother : other.Maximal source)
    (hcommand : one.command = other.command) {index : Nat} (honeCovers : one.Covers index)
    (hotherCovers : other.Covers index) :
    one.pos ≤ other.pos ∧ other.pos + other.count ≤ one.pos + one.count := by
  obtain ⟨honeLow, honeHigh⟩ := honeCovers
  obtain ⟨hotherLow, hotherHigh⟩ := hotherCovers
  constructor
  · by_contra hlater
    -- The character before the first run would be one of the second.
    obtain ⟨previous, hprevious⟩ : ∃ previous, previous + 1 = one.pos :=
      ⟨one.pos - 1, by omega⟩
    apply hone.before previous hprevious
    rw [hcommand]
    exact hother.uniform previous ⟨by omega, by omega⟩
  · by_contra hshorter
    apply hone.behind
    rw [hcommand]
    exact hother.uniform _ ⟨by omega, by omega⟩

/-- Maximal runs that share an index are the same. -/
theorem eq_of_covers (hone : one.Maximal source) (hother : other.Maximal source) {index : Nat}
    (honeCovers : one.Covers index) (hotherCovers : other.Covers index) : one = other := by
  have hcommand : one.command = other.command := by
    have hcharacter := hone.uniform index honeCovers
    rw [hother.uniform index hotherCovers] at hcharacter
    exact Command.toChar_injective (Option.some_inj.mp hcharacter).symm
  have hforth := hone.extent hother hcommand honeCovers hotherCovers
  have hback := hother.extent hone hcommand.symm hotherCovers honeCovers
  obtain ⟨command, count, pos⟩ := one
  obtain ⟨command', count', pos'⟩ := other
  dsimp only at hcommand hforth hback
  obtain rfl : pos = pos' := by omega
  obtain rfl : count = count' := by omega
  rw [hcommand]

end Maximal
end Run

/-- A list of all maximal runs of a source, in order. -/
structure MaximalRuns (source : List Char) (tokens : List Run) : Prop where
  ordered : tokens.IsChain Run.Precedes
  maximal : ∀ run ∈ tokens, run.Maximal source
  covered : ∀ index c, source[index]? = some c → c ∈ operators →
    ∃ run ∈ tokens, run.Covers index

namespace MaximalRuns

variable {source : List Char} {first second : List Run}

/-- No list of all maximal runs has a run that another one lacks. -/
theorem subset (hfirst : MaximalRuns source first) (hsecond : MaximalRuns source second) :
    first ⊆ second := by
  intro run hrun
  have hmaximal := hfirst.maximal run hrun
  have hcovers := hmaximal.covers_pos
  obtain ⟨other, hother, hotherCovers⟩ := hsecond.covered run.pos _
    (hmaximal.uniform run.pos hcovers) run.command.toChar_mem_operators
  rw [hmaximal.eq_of_covers (hsecond.maximal other hother) hcovers hotherCovers]
  exact hother

/-- A source has one list of all its maximal runs. -/
theorem unique (hfirst : MaximalRuns source first) (hsecond : MaximalRuns source second) :
    first = second :=
  hfirst.ordered.pairwise.eq_of_mem_iff hsecond.ordered.pairwise
    fun _ => ⟨fun hrun => hfirst.subset hsecond hrun, fun hrun => hsecond.subset hfirst hrun⟩

end MaximalRuns

/-! ### The source from its start -/

/-- A text that starts at an index is cut into runs. -/
inductive Cut : Nat → List Char → List Run → Prop
  | done (start : Nat) : Cut start [] []
  | comment {start : Nat} {c : Char} {rest : List Char} {tokens : List Run}
      (hc : Command.ofChar? c = none) (hrest : Cut (start + 1) rest tokens) :
      Cut start (c :: rest) tokens
  /-- A run goes as far as it can. -/
  | run {start : Nat} {text rest : List Char} {run : Run} {behind : List Run}
      (htext : text = run.characters ++ rest) (hpos : run.pos = start) (hcount : 1 ≤ run.count)
      (hend : rest.head? ≠ some run.command.toChar) (hrest : Cut (start + run.count) rest behind) :
      Cut start text (run :: behind)

namespace Cut

/-- One more character of its command makes the first run longer. -/
theorem lengthen {start count : Nat} {command : Command} {text : List Char} {behind : List Run}
    (hhead : text.head? = some command.toChar)
    (hcut : Cut (start + 1) text (⟨command, count, start + 1⟩ :: behind)) :
    Cut start (command.toChar :: text) (⟨command, count + 1, start⟩ :: behind) := by
  cases hcut with
  | comment hc hrest =>
      rw [List.head?_cons, Option.some_inj] at hhead
      rw [hhead, Command.ofChar?_toChar] at hc
      cases hc
  | run htext hpos hcount hend hrest =>
      refine .run ?_ rfl (Nat.le_add_left 1 count) hend ?_
      · rw [htext]
        rfl
      · rw [Nat.add_assoc, Nat.add_comm 1] at hrest
        exact hrest

/-- The runs that are built from the end cut the text from its start. -/
theorem of_runsFrom (start : Nat) (text : List Char) : Cut start text (runsFrom start text) := by
  induction text generalizing start with
  | nil => exact .done start
  | cons c rest ih =>
      have hrest := ih (start + 1)
      cases hc : Command.ofChar? c with
      | none =>
          rw [runsFrom_comment hc]
          exact .comment hc hrest
      | some command =>
          have hchar := Command.ofChar?_eq_some_iff.mp hc
          rcases runsFrom_command hc start rest with
            ⟨hhead, count, behind, hbehind, hruns⟩ | ⟨hhead, hruns⟩
          · rw [hbehind] at hrest
            rw [hruns]
            subst hchar
            exact hrest.lengthen hhead
          · rw [hruns]
            subst hchar
            exact .run rfl rfl (Nat.le_refl 1) hhead hrest

variable {start : Nat} {text : List Char} {tokens : List Run}

theorem ordered (hcut : Cut start text tokens) :
    (∀ run ∈ tokens.head?, start ≤ run.pos) ∧ tokens.IsChain Run.Precedes := by
  induction hcut with
  | done start => exact ⟨nofun, .nil⟩
  | comment hc hrest ih => exact ⟨fun run hrun => Nat.le_of_succ_le (ih.1 run hrun), ih.2⟩
  | run htext hpos hcount hend hrest ih =>
      subst hpos
      refine ⟨?_, List.isChain_cons.mpr ⟨?_, ih.2⟩⟩
      · rintro run ⟨⟩
        exact Nat.le_refl _
      · intro next hnext
        have hbehind := ih.1 next hnext
        exact ⟨by omega, hbehind⟩

/-- Every command of a text is in a run of the cut. -/
theorem covered (hcut : Cut start text tokens) {index : Nat} {c : Char}
    (hindex : text[index]? = some c) (hc : c ∈ operators) :
    ∃ run ∈ tokens, run.Covers (start + index) := by
  induction hcut generalizing index with
  | done start => cases hindex
  | comment hcomment hrest ih =>
      cases index with
      | zero =>
          obtain ⟨command, hcommand⟩ := mem_operators_iff.mp hc
          rw [List.getElem?_cons_zero, Option.some_inj] at hindex
          rw [hindex, hcommand] at hcomment
          cases hcomment
      | succ index =>
          obtain ⟨run, hrun, hcovers⟩ := ih hindex
          rw [Nat.add_assoc, Nat.add_comm 1] at hcovers
          exact ⟨run, hrun, hcovers⟩
  | @run start text rest run behind htext hpos hcount hend hrest ih =>
      by_cases hinside : index < run.count
      · exact ⟨run, List.mem_cons_self, by rw [hpos]; omega, by rw [hpos]; omega⟩
      · obtain ⟨further, rfl⟩ := Nat.exists_eq_add_of_le (Nat.le_of_not_lt hinside)
        rw [htext, List.getElem?_append_right (by rw [run.length_characters]; omega),
          run.length_characters, Nat.add_sub_cancel_left] at hindex
        obtain ⟨other, hother, hcovers⟩ := ih hindex
        rw [Nat.add_assoc] at hcovers
        exact ⟨other, List.mem_cons_of_mem _ hother, hcovers⟩

theorem characters_eq (hcut : Cut start text tokens) :
    tokens.flatMap Run.characters = text.filter fun c => decide (c ∈ operators) := by
  induction hcut with
  | done start => rfl
  | @comment start c rest tokens hc hrest ih =>
      have hnone : c ∉ operators := by
        intro hmem
        obtain ⟨command, hcommand⟩ := mem_operators_iff.mp hmem
        rw [hc] at hcommand
        cases hcommand
      rw [ih, List.filter_cons_of_neg (by simpa using hnone)]
  | @run start text rest run behind htext hpos hcount hend hrest ih =>
      have hall : ∀ c ∈ run.characters, decide (c ∈ operators) = true := by
        intro c hmem
        rw [List.eq_of_mem_replicate hmem]
        exact decide_eq_true run.command.toChar_mem_operators
      rw [htext, List.flatMap_cons, List.filter_append, ih, List.filter_eq_self.mpr hall]

/-- The first run of a cut is maximal in the whole source, if the text before it
does not end in its command. -/
theorem maximal_head {before rest : List Char} {run : Run} (hpos : run.pos = before.length)
    (hcount : 1 ≤ run.count) (hbefore : before.getLast? ≠ some run.command.toChar)
    (hend : rest.head? ≠ some run.command.toChar) :
    run.Maximal (before ++ (run.characters ++ rest)) := by
  have hlength := run.length_characters
  refine ⟨hcount, ?_, ?_, ?_⟩
  · rintro index ⟨hlow, hhigh⟩
    rw [hpos] at hlow hhigh
    rw [List.getElem?_append_right hlow, List.getElem?_append_left (by omega), Run.characters,
      List.getElem?_replicate_of_lt (by omega)]
  · intro index hindex
    rw [hpos] at hindex
    rw [List.getElem?_append_left (by omega)]
    rw [List.getLast?_eq_getElem?, ← hindex, Nat.add_sub_cancel] at hbefore
    exact hbefore
  · rw [hpos, ← List.append_assoc, ← hlength, ← List.length_append,
      List.getElem?_append_right (Nat.le_refl _), Nat.sub_self, ← List.head?_eq_getElem?]
    exact hend

/-- The runs of a cut are maximal in the whole source, if the text before it does
not end in the command that the cut text starts with. -/
theorem maximal (hcut : Cut start text tokens) {before : List Char}
    (hstart : before.length = start)
    (hseam : ∀ command : Command, before.getLast? = some command.toChar →
      text.head? ≠ some command.toChar) :
    ∀ run ∈ tokens, run.Maximal (before ++ text) := by
  induction hcut generalizing before with
  | done start => exact nofun
  | @comment start c rest tokens hc hrest ih =>
      rw [List.append_cons]
      refine ih (by rw [List.length_append, hstart]; rfl) ?_
      intro command hlast
      rw [List.getLast?_concat, Option.some_inj] at hlast
      rw [hlast, Command.ofChar?_toChar] at hc
      cases hc
  | @run start text rest run behind htext hpos hcount hend hrest ih =>
      have hhead : text.head? = some run.command.toChar := by
        obtain ⟨less, hless⟩ := Nat.exists_eq_add_of_le' hcount
        rw [htext, Run.characters, hless]
        rfl
      rw [htext]
      intro other hother
      rcases List.mem_cons.mp hother with rfl | hbehind
      · exact maximal_head (hpos.trans hstart.symm) hcount (fun hlast => hseam _ hlast hhead) hend
      · rw [← List.append_assoc]
        refine ih (by rw [List.length_append, run.length_characters, hstart]) ?_ other hbehind
        intro command hlast
        -- The text now ends in the run just taken, and the rest starts with something else.
        obtain ⟨less, hless⟩ := Nat.exists_eq_add_of_le' hcount
        rw [Run.characters, hless, List.replicate_succ', ← List.append_assoc, List.getLast?_concat,
          Option.some_inj] at hlast
        rw [← hlast]
        exact hend

end Cut

/-! ### The loop over the indices -/

/-- The first index from the given one on that does not have the character. -/
def rowEnd (source : List Char) (c : Char) (index : Nat) : Nat :=
  if index < source.length ∧ source[index]? = some c then rowEnd source c (index + 1) else index
termination_by source.length - index

theorem le_rowEnd (source : List Char) (c : Char) (index : Nat) :
    index ≤ rowEnd source c index := by
  fun_induction rowEnd source c index with
  | case1 index hsame ih => exact Nat.le_of_succ_le ih
  | case2 index hother => exact Nat.le_refl index

/-- The runs from an index on, put behind those that have been taken.  A comment
is passed over, and a run is taken up to where it ends. -/
def scanFrom (source : List Char) (index : Nat) (taken : List Run) : List Run :=
  if hinside : index < source.length then
    match Command.ofChar? (source.get ⟨index, hinside⟩) with
    | none => scanFrom source (index + 1) taken
    | some command =>
        let stop := rowEnd source (source.get ⟨index, hinside⟩) (index + 1)
        scanFrom source stop (taken ++ [⟨command, stop - index, index⟩])
  else
    taken
termination_by source.length - index
decreasing_by
  · omega
  · have hstop := le_rowEnd source (source.get ⟨index, hinside⟩) (index + 1)
    omega

theorem of_drop_eq_cons {source rest : List Char} {c : Char} {index : Nat}
    (hdrop : source.drop index = c :: rest) :
    source[index]? = some c ∧ source.drop (index + 1) = rest := by
  rw [← List.head?_drop, ← List.drop_drop, hdrop]
  exact ⟨rfl, rfl⟩

theorem rowEnd_of_drop {source rest : List Char} {c : Char} {index count : Nat}
    (hdrop : source.drop index = List.replicate count c ++ rest) (hend : rest.head? ≠ some c) :
    rowEnd source c index = index + count := by
  induction count generalizing index with
  | zero =>
      have hother : source[index]? ≠ some c := by
        rw [← List.head?_drop, hdrop]
        exact hend
      rw [rowEnd, if_neg fun hsame => hother hsame.2, Nat.add_zero]
  | succ count ih =>
      obtain ⟨hsame, hrest⟩ := of_drop_eq_cons hdrop
      have hinside := (List.getElem?_eq_some_iff.mp hsame).1
      rw [rowEnd, if_pos ⟨hinside, hsame⟩, ih hrest]
      omega

theorem Cut.scanFrom_eq {source text : List Char} {start : Nat} {tokens : List Run}
    (hcut : Cut start text tokens) (hdrop : source.drop start = text) (taken : List Run) :
    scanFrom source start taken = taken ++ tokens := by
  induction hcut generalizing taken with
  | done start =>
      rw [scanFrom, dif_neg (Nat.not_lt.mpr (List.drop_eq_nil_iff.mp hdrop)), List.append_nil]
  | comment hc hrest ih =>
      obtain ⟨hstart, hbehind⟩ := of_drop_eq_cons hdrop
      obtain ⟨hinside, hget⟩ := List.getElem?_eq_some_iff.mp hstart
      rw [scanFrom, dif_pos hinside, List.get_eq_getElem, hget, hc]
      exact ih hbehind taken
  | @run start text rest run behind htext hpos hcount hend hrest ih =>
      obtain ⟨more, hmore⟩ := Nat.exists_eq_add_of_le' hcount
      rw [htext] at hdrop
      have hbehind : source.drop (start + run.count) = rest := by
        rw [← List.drop_drop, hdrop, List.drop_left' run.length_characters]
      rw [Run.characters, hmore] at hdrop
      obtain ⟨hstart, hrow⟩ := of_drop_eq_cons hdrop
      obtain ⟨hinside, hget⟩ := List.getElem?_eq_some_iff.mp hstart
      have hstop : rowEnd source run.command.toChar (start + 1) = start + run.count := by
        rw [rowEnd_of_drop hrow hend]
        omega
      rw [scanFrom, dif_pos hinside, List.get_eq_getElem, hget, Command.ofChar?_toChar]
      dsimp only
      rw [hstop, Nat.add_sub_cancel_left, ih hbehind, List.append_assoc, ← hpos]
      rfl

/-- The runs of a source are those that a loop over its indices takes. -/
theorem runs_eq_scanFrom (source : List Char) : runs source = scanFrom source 0 [] :=
  ((Cut.of_runsFrom 0 source).scanFrom_eq rfl []).symm

/-- The runs of a source are the one list of its maximal runs: they follow one
another, each has at least one character, holds its own command and nothing else
and cannot be made longer, and every command is in one of them.  So their
characters in order are the source without its comments. -/
theorem runs_exactly_maximal (source : List Char) :
    (∀ tokens, MaximalRuns source tokens ↔ tokens = runs source) ∧
      (runs source).flatMap Run.characters = source.filter fun c => decide (c ∈ operators) := by
  have hcut : Cut 0 source (runs source) := Cut.of_runsFrom 0 source
  have hruns : MaximalRuns source (runs source) := by
    refine ⟨hcut.ordered.2, hcut.maximal (show [].length = 0 from rfl) nofun, ?_⟩
    intro index c hindex hc
    obtain ⟨run, hrun, hcovers⟩ := hcut.covered hindex hc
    rw [Nat.zero_add] at hcovers
    exact ⟨run, hrun, hcovers⟩
  refine ⟨fun tokens => ⟨fun htokens => htokens.unique hruns, ?_⟩, hcut.characters_eq⟩
  rintro rfl
  exact hruns

end Source
end TapeCompiler
