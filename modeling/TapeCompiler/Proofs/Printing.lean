import Mathlib.Data.List.Nodup
import TapeCompiler.Proofs.Joining
import TapeCompiler.Proofs.Lines

/-!
# Reading printed listings back

A listing is printed index by index: a line for each label of the index, then the
line of the instruction.  A reader may be shown these lines with blanks around them
and blank lines in between (`Shown`); none of this is seen, since a line is trimmed
before it is read (`Entry.read_padded`).

The lines of one index put its labels into the table, all of them new and at the
index of the next instruction (`foldl_labelEntries`).  Going on from index to index,
the table collects the labels from each index on (`foldl_entriesFrom`), so that in
the end it has all of them, though in another order.

Main statement: `read_printed`.
-/

namespace TapeCompiler

/-- The order of a table does not matter if each key stands in it once. -/
theorem Table.get?_eq_of_perm {κ ν : Type} [DecidableEq κ] {first second : Table κ ν}
    (hperm : first.Perm second) (hdistinct : (first.map Prod.fst).Nodup) (key : κ) :
    first.get? key = second.get? key := by
  induction hperm with
  | nil => rfl
  | cons entry _ ih =>
      rw [List.map_cons, List.nodup_cons] at hdistinct
      have hrest := ih hdistinct.2
      unfold get? at hrest ⊢
      rw [List.lookup_cons, List.lookup_cons, hrest]
  | swap upper lower rest =>
      have hkeys : (lower.1 == upper.1) = false := by
        rw [beq_eq_false_iff_ne]
        intro hsame
        simp [hsame] at hdistinct
      unfold get?
      rw [List.lookup_cons, List.lookup_cons, List.lookup_cons, List.lookup_cons]
      by_cases hkey : key = lower.1
      · rw [hkey, hkeys]
      · rw [beq_eq_false_iff_ne.mpr hkey]
  | trans hleft _ ihleft ihright =>
      rw [ihleft hdistinct, ihright ((hleft.map Prod.fst).nodup hdistinct)]

namespace Text

/-! ### Blanks around a line -/

theorem trimLeft_append {before : List Char} (hbefore : ∀ c ∈ before, isBlank c = true)
    (text : List Char) : trimLeft (before ++ text) = trimLeft text := by
  rw [trimLeft, List.dropWhile_append_of_pos hbefore]
  rfl

theorem trimRight_append {behind : List Char} (hbehind : ∀ c ∈ behind, isBlank c = true)
    (text : List Char) : trimRight (text ++ behind) = trimRight text := by
  rw [trimRight, List.reverse_append, List.dropWhile_append_of_pos]
  · rfl
  · intro c hc
    exact hbehind c (List.mem_reverse.mp hc)

theorem trimLeft_of_blank {text : List Char} (htext : ∀ c ∈ text, isBlank c = true) :
    trimLeft text = [] := by
  rw [trimLeft, List.dropWhile_eq_nil_iff]
  exact htext

theorem trim_padded {before behind : List Char} (hbefore : ∀ c ∈ before, isBlank c = true)
    (hbehind : ∀ c ∈ behind, isBlank c = true) (text : List Char) :
    trim (before ++ text ++ behind) = trim text := by
  rw [trim, List.append_assoc, trimLeft_append hbefore, trim]
  rw [trimLeft, List.dropWhile_append]
  split
  · rename_i hempty
    -- Nothing but blanks, so the blanks behind are dropped from the left.
    have hnil : trimLeft text = [] := List.isEmpty_iff.mp hempty
    have hnothing : List.dropWhile isBlank behind = [] := trimLeft_of_blank hbehind
    rw [hnothing, hnil]
  · exact trimRight_append hbehind _

theorem Solid.firstWord_eq {text : List Char} (hsolid : Solid text) : firstWord text = text := by
  rw [firstWord, List.takeWhile_eq_self_iff]
  intro c hc
  rw [hsolid c hc]
  rfl

theorem Solid.afterFirstWord_eq {text : List Char} (hsolid : Solid text) :
    afterFirstWord text = [] := by
  have hnothing : text.dropWhile (fun c => !isBlank c) = [] := by
    rw [List.dropWhile_eq_nil_iff]
    intro c hc
    rw [hsolid c hc]
    rfl
  rw [afterFirstWord, hnothing]
  rfl

/-- Blanks that do not end a line. -/
def Padding (text : String) : Prop :=
  ∀ c ∈ text.toList, isBlank c = true ∧ c ≠ '\n'

instance (text : String) : Decidable (Padding text) :=
  List.decidableBAll _ text.toList

/-- Texts that show lines in order: each line stands in blanks, and there are blank
texts among them. -/
inductive Shown : List String → List String → Prop
  | done : Shown [] []
  | blank {blank : String} {lines texts : List String} (hblank : Padding blank)
      (hshown : Shown lines texts) : Shown lines (blank :: texts)
  | line {before behind line : String} {lines texts : List String} (hbefore : Padding before)
      (hbehind : Padding behind) (hshown : Shown lines texts) :
      Shown (line :: lines) ((before ++ line ++ behind) :: texts)

/-- Each line of a text is shown on one line. -/
theorem Shown.newline_not_mem {lines texts : List String} (hshown : Shown lines texts)
    (hlines : ∀ line ∈ lines, '\n' ∉ line.toList) : ∀ text ∈ texts, '\n' ∉ text.toList := by
  induction hshown with
  | done => simp
  | blank hblank _ ih =>
      rw [List.forall_mem_cons]
      exact ⟨fun hmem => (hblank _ hmem).2 rfl, ih hlines⟩
  | line hbefore hbehind _ ih =>
      rw [List.forall_mem_cons] at hlines ⊢
      refine ⟨?_, ih hlines.2⟩
      simp only [String.toList_append, List.mem_append, not_or]
      exact ⟨⟨fun hmem => (hbefore _ hmem).2 rfl, hlines.1⟩, fun hmem => (hbehind _ hmem).2 rfl⟩

end Text

namespace Assembly

open Text

/-! ### Lines -/

/-- The line of an instruction, with one space before an operand. -/
def Instruction.text (instruction : Instruction) : String :=
  if instruction.operand = "" then instruction.opcode
  else instruction.opcode ++ " " ++ instruction.operand

def labelText (name : String) : String :=
  name ++ ":"

/-- The parts of an instruction can be told apart in its line. -/
structure Instruction.Printable (instruction : Instruction) : Prop where
  opcode : IsOpcode instruction.opcode
  operand : Trimmed instruction.operand.toList
  operand_newline : '\n' ∉ instruction.operand.toList

/-- The line of an instruction is one that can be read back. -/
theorem Instruction.Printable.exists_line {instruction : Instruction}
    (hprintable : instruction.Printable) :
    ∃ line : Line, line.Readable ∧ line.render = instruction.text ∧
      line.entry = { instruction := some instruction } := by
  obtain ⟨opcode, operand⟩ := instruction
  by_cases hempty : operand = ""
  · refine ⟨.bare opcode, Line.readable_bare hprintable.opcode, ?_, ?_⟩
    · simp [Instruction.text, Line.bare, Line.render, hempty]
    · simp [Line.entry, Line.instruction, Line.bare, hempty]
  · have hoperand : IsOperand operand :=
      ⟨by simpa using hempty, hprintable.operand, hprintable.operand_newline⟩
    have hreadable : (Line.close opcode operand).Readable :=
      Line.readable_spaced hprintable.opcode Nat.one_pos hoperand
    refine ⟨.close opcode operand, hreadable, ?_, rfl⟩
    simp [Instruction.text, Line.close, Line.render, hempty]

theorem Instruction.Printable.newline_not_mem {instruction : Instruction}
    (hprintable : instruction.Printable) : '\n' ∉ instruction.text.toList := by
  obtain ⟨line, hreadable, htext, -⟩ := hprintable.exists_line
  rw [← htext]
  exact hreadable.newline_not_mem

theorem newline_not_mem_labelText {name : String} (hname : Solid name.toList) :
    '\n' ∉ (labelText name).toList := by
  simpa [labelText] using newline_not_mem_of_solid hname

namespace Entry

theorem read_padded {before behind : String} (hbefore : Padding before) (hbehind : Padding behind)
    (line : String) : read (before ++ line ++ behind).toList = read line.toList := by
  rw [read, read, String.toList_append, String.toList_append,
    trim_padded (fun c hc => (hbefore c hc).1) fun c hc => (hbehind c hc).1]

theorem read_blank {blank : String} (hblank : Padding blank) : read blank.toList = {} := by
  have hnone : Padding "" := fun c hc => by cases hc
  have hread := read_padded hblank hnone ""
  rw [String.append_empty, String.append_empty] at hread
  rw [hread]
  rfl

theorem read_labelText {name : String} (hname : Solid name.toList) :
    read (labelText name).toList = { label := some name } := by
  have htext : (labelText name).toList = name.toList ++ [':'] := by simp [labelText]
  have hsolid : Solid (name.toList ++ [':']) := by
    rw [Solid, List.forall_mem_append, List.forall_mem_singleton]
    exact ⟨hname, by decide⟩
  rw [htext, read, trim_of_trimmed hsolid.trimmed, readTrimmed, hsolid.firstWord_eq,
    hsolid.afterFirstWord_eq]
  simp [readInstruction]

theorem read_text {instruction : Instruction} (hprintable : instruction.Printable) :
    read instruction.text.toList = { instruction := some instruction } := by
  obtain ⟨line, hreadable, htext, hentry⟩ := hprintable.exists_line
  rw [← htext, read_render hreadable, hentry]

end Entry

namespace Listing

/-! ### Printing -/

/-- The labels that stand at an index. -/
def labelsAt (labels : Labels) (index : Nat) : Labels :=
  labels.filter fun entry => entry.2 = index

def labelLines (labels : Labels) (index : Nat) : List String :=
  (labelsAt labels index).map fun entry => labelText entry.1

/-- The lines from an index on: those of its labels, then that of its instruction. -/
def printedFrom (labels : Labels) : Nat → List Instruction → List String
  | index, [] => labelLines labels index
  | index, instruction :: rest =>
      labelLines labels index ++ instruction.text :: printedFrom labels (index + 1) rest

/-- The lines of a listing. -/
def printed (listing : Listing) : List String :=
  printedFrom listing.labels 0 listing.program.toList

/-- The parts of a listing can be told apart in its lines. -/
structure Printable (listing : Listing) : Prop extends Proper listing where
  label : ∀ entry ∈ listing.labels, Solid entry.1.toList
  instruction : ∀ instruction ∈ listing.program.toList, instruction.Printable

/-- What the lines of labels are read as. -/
def labelEntries (labels : Labels) : List Entry :=
  labels.map fun entry => { label := some entry.1 }

/-- What the lines from an index on are read as. -/
def entriesFrom (labels : Labels) : Nat → List Instruction → List Entry
  | index, [] => labelEntries (labelsAt labels index)
  | index, instruction :: rest =>
      labelEntries (labelsAt labels index) ++
        { instruction := some instruction } :: entriesFrom labels (index + 1) rest

theorem map_read_labelLines {labels : Labels}
    (hlabels : ∀ entry ∈ labels, Solid entry.1.toList) (index : Nat) :
    (labelLines labels index).map (fun line => Entry.read line.toList) =
      labelEntries (labelsAt labels index) := by
  rw [labelLines, List.map_map]
  apply List.map_congr_left
  intro entry hentry
  exact Entry.read_labelText (hlabels entry (List.mem_of_mem_filter hentry))

theorem map_read_printedFrom {labels : Labels}
    (hlabels : ∀ entry ∈ labels, Solid entry.1.toList) {program : List Instruction}
    (hprogram : ∀ instruction ∈ program, instruction.Printable) (index : Nat) :
    (printedFrom labels index program).map (fun line => Entry.read line.toList) =
      entriesFrom labels index program := by
  induction program generalizing index with
  | nil => exact map_read_labelLines hlabels index
  | cons instruction rest ih =>
      rw [List.forall_mem_cons] at hprogram
      rw [printedFrom, List.map_append, map_read_labelLines hlabels, List.map_cons,
        Entry.read_text hprogram.1, ih hprogram.2]
      rfl

theorem newline_not_mem_printedFrom {labels : Labels}
    (hlabels : ∀ entry ∈ labels, Solid entry.1.toList) {program : List Instruction}
    (hprogram : ∀ instruction ∈ program, instruction.Printable) (index : Nat) :
    ∀ line ∈ printedFrom labels index program, '\n' ∉ line.toList := by
  have hhere (index : Nat) : ∀ line ∈ labelLines labels index, '\n' ∉ line.toList := by
    rw [labelLines, List.forall_mem_map]
    intro entry hentry
    exact newline_not_mem_labelText (hlabels entry (List.mem_of_mem_filter hentry))
  induction program generalizing index with
  | nil => exact hhere index
  | cons instruction rest ih =>
      rw [List.forall_mem_cons] at hprogram
      rw [printedFrom, List.forall_mem_append, List.forall_mem_cons]
      exact ⟨hhere index, hprogram.1.newline_not_mem, ih hprogram.2 (index + 1)⟩

/-! ### Collecting the labels -/

/-- Labels that are new go in front of the table, the last one first. -/
theorem foldl_labelEntries {found : Labels} {listing : Listing}
    (hindex : ∀ entry ∈ found, entry.2 = listing.program.size)
    (hdistinct : (found.map Prod.fst).Nodup)
    (hfresh : ∀ entry ∈ found, entry.1 ∉ listing.labels.map Prod.fst) :
    (labelEntries found).foldl add listing =
      { listing with labels := found.reverse ++ listing.labels } := by
  induction found generalizing listing with
  | nil => rfl
  | cons entry rest ih =>
      obtain ⟨name, index⟩ := entry
      rw [List.forall_mem_cons] at hindex hfresh
      rw [List.map_cons, List.nodup_cons] at hdistinct
      have hadd : listing.add { label := some name } =
          { listing with labels := (name, index) :: listing.labels } := by
        rw [show listing.add { label := some name } =
          { listing with labels := listing.labels.define name listing.program.size } from rfl,
          Table.define_of_fresh hfresh.1, ← hindex.1]
      rw [labelEntries, List.map_cons, List.foldl_cons, hadd, ← labelEntries, ih]
      · simp
      · exact hindex.2
      · exact hdistinct.2
      · intro other hother hmem
        rcases List.mem_cons.mp hmem with hsame | hold
        · exact hdistinct.1 (hsame ▸ List.mem_map_of_mem hother)
        · exact hfresh.2 other hother hold

theorem foldl_labelsAt {labels : Labels} (hdistinct : (labels.map Prod.fst).Nodup)
    {listing : Listing} {index : Nat} (hsize : listing.program.size = index)
    (hfresh : ∀ entry ∈ labels, index ≤ entry.2 → entry.1 ∉ listing.labels.map Prod.fst) :
    (labelEntries (labelsAt labels index)).foldl add listing =
      { listing with labels := (labelsAt labels index).reverse ++ listing.labels } := by
  apply foldl_labelEntries
  · intro entry hentry
    rw [hsize]
    exact of_decide_eq_true (List.mem_filter.mp hentry).2
  · exact hdistinct.sublist (List.filter_sublist.map Prod.fst)
  · intro entry hentry
    obtain ⟨hmem, hindex⟩ := List.mem_filter.mp hentry
    exact hfresh entry hmem (Nat.le_of_eq (of_decide_eq_true hindex).symm)

/-- The labels from an index on are those at the index and those behind it. -/
theorem labelsAt_append_perm (labels : Labels) (index : Nat) :
    (labelsAt labels index ++ labels.filter fun entry => index + 1 ≤ entry.2).Perm
      (labels.filter fun entry => index ≤ entry.2) := by
  have hsplit := List.filter_append_perm (fun entry : String × Nat => decide (entry.2 = index))
    (labels.filter fun entry => index ≤ entry.2)
  have hat : (labels.filter fun entry => index ≤ entry.2).filter
      (fun entry => decide (entry.2 = index)) = labelsAt labels index := by
    rw [List.filter_filter, labelsAt]
    apply List.filter_congr
    intro entry _
    rw [Bool.eq_iff_iff]
    simp
    omega
  have hbehind : (labels.filter fun entry => index ≤ entry.2).filter
      (fun entry => !decide (entry.2 = index)) =
        labels.filter fun entry => index + 1 ≤ entry.2 := by
    rw [List.filter_filter]
    apply List.filter_congr
    intro entry _
    rw [Bool.eq_iff_iff]
    simp
    omega
  rwa [hat, hbehind] at hsplit

/-- With the labels at an index in the table, those behind it are still new: a label
has one index. -/
theorem fresh_behind {labels known : Labels} (hdistinct : (labels.map Prod.fst).Nodup) {index : Nat}
    (hfresh : ∀ entry ∈ labels, index ≤ entry.2 → entry.1 ∉ known.map Prod.fst) :
    ∀ entry ∈ labels, index + 1 ≤ entry.2 →
      entry.1 ∉ ((labelsAt labels index).reverse ++ known).map Prod.fst := by
  intro entry hentry hindex hmem
  rw [List.map_append, List.mem_append] at hmem
  rcases hmem with hhere | hold
  · obtain ⟨other, hother, hname⟩ := List.mem_map.mp hhere
    obtain ⟨hmember, hat⟩ := List.mem_filter.mp (List.mem_reverse.mp hother)
    have hsame : other = entry := List.inj_on_of_nodup_map hdistinct hmember hentry hname
    rw [hsame, decide_eq_true_eq] at hat
    omega
  · exact hfresh entry hentry (by omega) hold

/-- Printed lines, read into a listing that ends at their index, add the instructions
and all the labels from the index on. -/
theorem foldl_entriesFrom {labels : Labels} (hdistinct : (labels.map Prod.fst).Nodup)
    {program : List Instruction} {index : Nat} {listing : Listing}
    (hsize : listing.program.size = index)
    (hbounded : ∀ entry ∈ labels, entry.2 ≤ index + program.length)
    (hfresh : ∀ entry ∈ labels, index ≤ entry.2 → entry.1 ∉ listing.labels.map Prod.fst) :
    ∃ found, found.Perm (labels.filter fun entry => index ≤ entry.2) ∧
      (entriesFrom labels index program).foldl add listing =
        { program := listing.program ++ program.toArray, labels := found ++ listing.labels } := by
  induction program generalizing index listing with
  | nil =>
      -- All that is left stands behind the last instruction.
      have hlast : labels.filter (fun entry => index + 1 ≤ entry.2) = [] := by
        rw [List.filter_eq_nil_iff]
        intro entry hentry
        have hle := hbounded entry hentry
        simp at hle ⊢
        omega
      have hperm := labelsAt_append_perm labels index
      rw [hlast, List.append_nil] at hperm
      refine ⟨(labelsAt labels index).reverse, (List.reverse_perm _).trans hperm, ?_⟩
      rw [entriesFrom, foldl_labelsAt hdistinct hsize hfresh]
      simp
  | cons instruction rest ih =>
      let next : Listing :=
        { program := listing.program.push instruction
          labels := (labelsAt labels index).reverse ++ listing.labels }
      have hsizeNext : next.program.size = index + 1 := by simp [next, hsize]
      have hboundedNext : ∀ entry ∈ labels, entry.2 ≤ index + 1 + rest.length := by
        intro entry hentry
        have hle := hbounded entry hentry
        simp at hle
        omega
      obtain ⟨found, hfound, hrest⟩ := ih hsizeNext hboundedNext (fresh_behind hdistinct hfresh)
      refine ⟨found ++ (labelsAt labels index).reverse, ?_, ?_⟩
      · have hparts := hfound.append (List.reverse_perm (labelsAt labels index))
        exact hparts.trans (List.perm_append_comm.trans (labelsAt_append_perm labels index))
      · rw [entriesFrom, List.foldl_append, foldl_labelsAt hdistinct hsize hfresh, List.foldl_cons]
        change (entriesFrom labels (index + 1) rest).foldl add next = _
        rw [hrest]
        simp [next]

/-! ### The result -/

/-- Shown lines are read as if they stood alone. -/
theorem foldl_shown {lines texts : List String} (hshown : Shown lines texts) (listing : Listing) :
    (texts.map fun text => Entry.read text.toList).foldl add listing =
      (lines.map fun line => Entry.read line.toList).foldl add listing := by
  induction hshown generalizing listing with
  | done => rfl
  | blank hblank _ ih =>
      rw [List.map_cons, List.foldl_cons, Entry.read_blank hblank, add_empty, ih]
  | line hbefore hbehind _ ih =>
      rw [List.map_cons, List.map_cons, List.foldl_cons, List.foldl_cons,
        Entry.read_padded hbefore hbehind, ih]

theorem read_intercalate {texts : List String} (htexts : ∀ text ∈ texts, '\n' ∉ text.toList) :
    Listing.read ("\n".intercalate texts) =
      (texts.map fun text => Entry.read text.toList).foldl add {} := by
  by_cases hempty : texts = []
  · subst hempty
    rfl
  · have hlines : lines ("\n".intercalate texts).toList = texts.map String.toList := by
      rw [String.toList_intercalate, lines, splitAt_eq_splitOn]
      exact List.splitOn_intercalate '\n' (by simpa using htexts) (by simpa using hempty)
    rw [Listing.read, hlines, List.map_map]
    rfl

/-- A listing whose parts can be told apart is read back from its lines, whatever
blanks stand around them and whatever blank lines between them: the same program,
and a table with the same labels at the same indices. -/
theorem read_printed {listing : Listing} (hprintable : listing.Printable) {texts : List String}
    (hshown : Shown listing.printed texts) :
    let copy := Listing.read ("\n".intercalate texts)
    copy.program = listing.program ∧ copy.labels.Perm listing.labels ∧
      ∀ name, copy.index? name = listing.index? name := by
  intro copy
  have hempty : ({} : Listing).program.size = 0 := rfl
  have hbounded : ∀ entry ∈ listing.labels, entry.2 ≤ 0 + listing.program.toList.length := by
    simpa using hprintable.bounded
  obtain ⟨found, hfound, hfold⟩ :=
    foldl_entriesFrom hprintable.distinct hempty hbounded (by simp)
  have hcopy : copy = { program := listing.program, labels := found } := by
    have hlines := newline_not_mem_printedFrom hprintable.label hprintable.instruction 0
    unfold copy
    rw [read_intercalate (hshown.newline_not_mem hlines), foldl_shown hshown, printed,
      map_read_printedFrom hprintable.label hprintable.instruction, hfold]
    simp
  have hall : (listing.labels.filter fun entry => 0 ≤ entry.2) = listing.labels := by simp
  rw [hall] at hfound
  rw [hcopy]
  refine ⟨rfl, hfound, fun name => ?_⟩
  exact (Table.get?_eq_of_perm hfound.symm hprintable.distinct name).symm

/-- A label without a name, one that ends in a colon, one behind the last instruction
and an operand that looks like a label and an instruction, all with blanks around. -/
theorem read_printed_margins :
    let copy := Listing.read "\t:\r\n\n x::\nnop \n\u2003call a: b\nend:\n"
    copy.program = #[{ opcode := "nop" }, { opcode := "call", operand := "a: b" }] ∧
      copy.index? "" = some 0 ∧ copy.index? "x:" = some 0 ∧ copy.index? "end" = some 2 := by
  let listing : Listing :=
    { program := #[{ opcode := "nop" }, { opcode := "call", operand := "a: b" }]
      labels := [("end", 2), ("", 0), ("x:", 0)] }
  have hprintable : listing.Printable :=
    { distinct := by decide, bounded := by decide, label := by decide
      instruction := by
        intro instruction hmem
        rcases List.mem_cons.mp hmem with rfl | hmem
        · exact ⟨by decide, by decide, by decide⟩
        · obtain rfl := List.mem_singleton.mp hmem
          exact ⟨by decide, by decide, by decide⟩ }
  have hprinted : listing.printed = [":", "x::", "nop", "call a: b", "end:"] := by decide +kernel
  have hshown : Shown listing.printed ["\t" ++ ":" ++ "\r", "", " " ++ "x::" ++ "",
      "" ++ "nop" ++ " ", "\u2003" ++ "call a: b" ++ "", "" ++ "end:" ++ "", ""] := by
    rw [hprinted]
    exact .line (by decide) (by decide) (.blank (by decide) (.line (by decide) (by decide)
      (.line (by decide) (by decide) (.line (by decide) (by decide) (.line (by decide) (by decide)
      (.blank (by decide) .done))))))
  obtain ⟨hprogram, -, hindex⟩ := read_printed hprintable hshown
  exact ⟨hprogram, hindex "", hindex "x:", hindex "end"⟩

end Listing
end Assembly
end TapeCompiler
