import Mathlib.Data.List.Basic
import Mathlib.Data.List.TakeWhile
import TapeCompiler.Assembly.Listing

/-!
# Reading printed lines back

A line whose parts can be told apart, a word as opcode and an operand without
blanks at its ends, is read back from its text exactly (`Entry.read_render`).
Blocks of such lines, one behind the other, read as the listing of all their
lines (`read_join_blocks`): instructions in order, and each label at the
index of the instruction behind it.
-/

namespace TapeCompiler
namespace Text

/-- Neither end of a text is blank. -/
def Trimmed (text : List Char) : Prop :=
  (∀ c ∈ text.head?, isBlank c = false) ∧ ∀ c ∈ text.getLast?, isBlank c = false

/-- No character of a text is blank. -/
def Solid (text : List Char) : Prop :=
  ∀ c ∈ text, isBlank c = false

-- The instances are given by name, since a search may decide the statements
-- for all characters there are instead of those of the text.
instance (text : List Char) : Decidable (Trimmed text) :=
  @instDecidableAnd _ _ (Option.decidableForallMem text.head?)
    (Option.decidableForallMem text.getLast?)

instance (text : List Char) : Decidable (Solid text) :=
  List.decidableBAll _ text

theorem Solid.trimmed {text : List Char} (hsolid : Solid text) : Trimmed text :=
  ⟨fun c hc => hsolid c (List.mem_of_mem_head? hc),
    fun c hc => hsolid c (List.mem_of_mem_getLast? hc)⟩

theorem dropWhile_of_head {text : List Char} (hhead : ∀ c ∈ text.head?, isBlank c = false) :
    text.dropWhile isBlank = text := by
  cases text with
  | nil => rfl
  | cons c rest =>
      rw [List.dropWhile_cons_of_neg]
      rw [hhead c rfl]
      exact Bool.false_ne_true

theorem trimLeft_of_trimmed {text : List Char} (htrimmed : Trimmed text) : trimLeft text = text :=
  dropWhile_of_head htrimmed.1

theorem trim_of_trimmed {text : List Char} (htrimmed : Trimmed text) : trim text = text := by
  rw [trim, trimLeft_of_trimmed htrimmed, trimRight, dropWhile_of_head, List.reverse_reverse]
  rw [List.head?_reverse]
  exact htrimmed.2

theorem firstWord_append {word rest : List Char} (hword : Solid word)
    (hrest : ∀ c ∈ rest.head?, isBlank c = true) : firstWord (word ++ rest) = word := by
  rw [firstWord, List.takeWhile_append_of_pos fun c hc => by rw [hword c hc]; rfl]
  cases rest with
  | nil => simp
  | cons c rest => rw [List.takeWhile_cons_of_neg (by simp [hrest c rfl]), List.append_nil]

/-- What is behind a word starts with its first character that is not blank. -/
theorem afterFirstWord_append {word rest : List Char} (hword : Solid word)
    (hrest : ∀ c ∈ rest.head?, isBlank c = true) : afterFirstWord (word ++ rest) = trimLeft rest := by
  rw [afterFirstWord, List.dropWhile_append_of_pos fun c hc => by rw [hword c hc]; rfl]
  cases rest with
  | nil => rfl
  | cons c rest => rw [List.dropWhile_cons_of_neg (by simp [hrest c rfl])]

theorem trimLeft_replicate_space (count : Nat) (text : List Char) :
    trimLeft (List.replicate count ' ' ++ text) = trimLeft text := by
  rw [trimLeft, List.dropWhile_append_of_pos]
  · rfl
  · intro c hc
    rw [List.eq_of_mem_replicate hc]
    rfl

theorem lines_append_newline {line : List Char} (hline : '\n' ∉ line) (rest : List Char) :
    lines (line ++ '\n' :: rest) = line :: lines rest := by
  rw [lines, lines, splitAt_eq_splitOn, splitAt_eq_splitOn]
  exact List.splitOn_append_cons_self_of_not_mem hline rest

theorem lines_joined (first second : List Char) :
    lines (first ++ '\n' :: second) = lines first ++ lines second := by
  simp only [lines, splitAt_eq_splitOn]
  exact List.splitOn_append_cons_self first second

theorem lines_intercalate {texts : List (List Char)} (hne : texts ≠ [])
    (htexts : ∀ text ∈ texts, '\n' ∉ text) (rest : List Char) :
    lines (['\n'].intercalate texts ++ '\n' :: rest) = texts ++ lines rest := by
  rw [lines_joined, lines, splitAt_eq_splitOn, List.splitOn_intercalate '\n' htexts hne]

theorem newline_not_mem_of_solid {text : List Char} (hsolid : Solid text) : '\n' ∉ text := by
  intro hmem
  have hblank := hsolid _ hmem
  cases hblank

end Text

/-- A definition takes an older one of the same key out of the table; a new key has
none. -/
theorem Table.define_of_fresh {κ ν : Type} [DecidableEq κ] {table : Table κ ν} {key : κ}
    (hfresh : key ∉ table.map Prod.fst) (value : ν) :
    table.define key value = (key, value) :: table := by
  have herase : table.erase key = table := by
    rw [Table.erase, List.filter_eq_self]
    intro entry hentry
    rw [bne_iff_ne]
    rintro rfl
    exact hfresh (List.mem_map_of_mem hentry)
  rw [Table.define, herase]

namespace Assembly

open Text

/-- The parts of a line can be told apart in its text. -/
structure Line.Readable (line : Line) : Prop where
  label : ∀ label ∈ line.label, Solid label.toList
  opcode : Solid line.opcode.toList
  opcode_ne : line.opcode.toList ≠ []
  opcode_colon : line.opcode.toList.getLast? ≠ some ':'
  operand : Trimmed line.operand.toList
  operand_newline : '\n' ∉ line.operand.toList
  gap : line.operand.toList = [] ↔ line.gap = 0

namespace Line

/-- The text of a line behind its label. -/
def tail (line : Line) : List Char :=
  line.opcode.toList ++ (List.replicate line.gap ' ' ++ line.operand.toList)

def entry (line : Line) : Entry :=
  { label := line.label, instruction := some line.instruction }

theorem toList_render_of_none {line : Line} (hlabel : line.label = none) :
    line.render.toList = line.tail := by
  rw [render, hlabel, tail]
  simp

theorem toList_render_of_some {line : Line} {label : String} (hlabel : line.label = some label) :
    line.render.toList = (label.toList ++ [':']) ++ ' ' :: line.tail := by
  rw [render, hlabel, tail]
  simp

variable {line : Line}

/-- Behind the opcode there is nothing or a blank. -/
theorem Readable.head_gap (hline : line.Readable) :
    ∀ c ∈ (List.replicate line.gap ' ' ++ line.operand.toList).head?, isBlank c = true := by
  cases hgap : line.gap with
  | zero =>
      rw [hline.gap.mpr hgap]
      intro c hc
      cases hc
  | succ gap =>
      intro c hc
      rw [List.replicate_succ] at hc
      obtain rfl : ' ' = c := Option.some_inj.mp hc
      rfl

theorem Readable.trimmed_tail (hline : line.Readable) : Trimmed line.tail := by
  constructor
  · rw [tail, List.head?_append_of_ne_nil _ hline.opcode_ne]
    exact hline.opcode.trimmed.1
  · rw [tail]
    cases hoperand : line.operand.toList with
    | nil =>
        rw [hline.gap.mp hoperand, List.replicate_zero, List.append_nil, List.append_nil]
        exact hline.opcode.trimmed.2
    | cons c rest =>
        rw [List.getLast?_append_of_ne_nil _ (by simp), List.getLast?_append_of_ne_nil _ (by simp),
          ← hoperand]
        exact hline.operand.2

theorem Readable.readInstruction_tail (hline : line.Readable) :
    Entry.readInstruction line.tail = some line.instruction := by
  have hne : line.tail.isEmpty = false := by
    rw [List.isEmpty_eq_false_iff, tail]
    exact List.append_ne_nil_of_left_ne_nil hline.opcode_ne _
  rw [Entry.readInstruction, hne, if_neg Bool.false_ne_true, tail,
    firstWord_append hline.opcode hline.head_gap, afterFirstWord_append hline.opcode hline.head_gap,
    trimLeft_replicate_space, trimLeft_of_trimmed hline.operand, String.ofList_toList,
    String.ofList_toList]
  rfl

end Line

/-- A readable line is read back from its text. -/
theorem Entry.read_render {line : Line} (hline : line.Readable) :
    Entry.read line.render.toList = line.entry := by
  cases hlabel : line.label with
  | none =>
      have hword : firstWord line.tail = line.opcode.toList :=
        firstWord_append hline.opcode hline.head_gap
      rw [Line.toList_render_of_none hlabel, Entry.read, trim_of_trimmed hline.trimmed_tail,
        Entry.readTrimmed, hword, if_neg hline.opcode_colon, hline.readInstruction_tail, Line.entry,
        hlabel]
  | some label =>
      have hsolid : Solid (label.toList ++ [':']) := by
        intro c hc
        rcases List.mem_append.mp hc with hmem | hcolon
        · exact hline.label label hlabel c hmem
        · rw [List.mem_singleton.mp hcolon]
          rfl
      have hblank : ∀ c ∈ (' ' :: line.tail).head?, isBlank c = true := by
        intro c hc
        obtain rfl : ' ' = c := Option.some_inj.mp hc
        rfl
      have htrimmed : Trimmed ((label.toList ++ [':']) ++ ' ' :: line.tail) := by
        constructor
        · rw [List.head?_append_of_ne_nil _ (by simp)]
          exact hsolid.trimmed.1
        · have hne : line.tail ≠ [] := List.append_ne_nil_of_left_ne_nil hline.opcode_ne _
          rw [List.getLast?_append_of_ne_nil _ (by simp), List.getLast?_cons_of_ne_nil hne]
          exact hline.trimmed_tail.2
      have hafter : trimLeft (' ' :: line.tail) = line.tail := by
        rw [show ' ' :: line.tail = List.replicate 1 ' ' ++ line.tail from rfl,
          trimLeft_replicate_space, trimLeft_of_trimmed hline.trimmed_tail]
      rw [Line.toList_render_of_some hlabel, Entry.read, trim_of_trimmed htrimmed,
        Entry.readTrimmed, firstWord_append hsolid hblank, afterFirstWord_append hsolid hblank,
        if_pos (by simp), hafter, hline.readInstruction_tail, Line.entry, hlabel]
      simp

theorem Line.Readable.newline_not_mem {line : Line} (hline : line.Readable) :
    '\n' ∉ line.render.toList := by
  have htail : '\n' ∉ line.tail := by
    rw [Line.tail, List.mem_append, List.mem_append]
    rintro (hopcode | hgap | hoperand)
    · exact newline_not_mem_of_solid hline.opcode hopcode
    · cases List.eq_of_mem_replicate hgap
    · exact hline.operand_newline hoperand
  cases hlabel : line.label with
  | none =>
      rw [Line.toList_render_of_none hlabel]
      exact htail
  | some label =>
      rw [Line.toList_render_of_some hlabel]
      have hsolid := newline_not_mem_of_solid (hline.label label hlabel)
      simp [hsolid, htail]

/-! ### Listings of lines -/

namespace Listing

def addLine (listing : Listing) (line : Line) : Listing :=
  listing.add line.entry

/-- The listing of a sequence of lines. -/
def ofLines (lines : List Line) : Listing :=
  lines.foldl addLine {}

/-- The names that lines define, in order. -/
def labelNames (lines : List Line) : List String :=
  lines.filterMap Line.label

theorem program_foldl_add (listing : Listing) (entries : List Entry) :
    (entries.foldl add listing).program.toList =
      listing.program.toList ++ entries.filterMap Entry.instruction := by
  induction entries generalizing listing with
  | nil => simp
  | cons entry rest ih =>
      rw [List.foldl_cons, ih]
      obtain ⟨label, instruction⟩ := entry
      cases label <;> cases instruction <;> simp [add, addLabel, addInstruction]

/-- The instructions of a text are those of its lines. -/
theorem program_read (text : String) :
    (Listing.read text).program.toList =
      ((lines text.toList).map Entry.read).filterMap Entry.instruction :=
  program_foldl_add {} _

theorem program_foldl_addLine (listing : Listing) (lines : List Line) :
    (lines.foldl addLine listing).program.toList =
      listing.program.toList ++ lines.map Line.instruction := by
  have hentries : (lines.map Line.entry).foldl add listing = lines.foldl addLine listing :=
    List.foldl_map
  rw [← hentries, program_foldl_add, List.filterMap_map, ← List.filterMap_eq_map]
  rfl

theorem program_ofLines (lines : List Line) :
    (ofLines lines).program.toList = lines.map Line.instruction :=
  program_foldl_addLine {} lines

theorem labels_add (listing : Listing) (entry : Entry) :
    (listing.add entry).labels =
      match entry.label with
      | none => listing.labels
      | some name => listing.labels.define name listing.program.size := by
  obtain ⟨label, instruction⟩ := entry
  cases label <;> cases instruction <;> simp [add, addLabel, addInstruction]

theorem labels_addLine (listing : Listing) (line : Line) :
    (listing.addLine line).labels =
      match line.label with
      | none => listing.labels
      | some name => listing.labels.define name listing.program.size :=
  labels_add listing line.entry

/-- A label that no later line defines keeps its index. -/
theorem index?_foldl_addLine {name : String} {lines : List Line} (hname : name ∉ labelNames lines)
    (listing : Listing) :
    (lines.foldl addLine listing).index? name = listing.index? name := by
  induction lines generalizing listing with
  | nil => rfl
  | cons line rest ih =>
      rw [List.foldl_cons, ih]
      · rw [index?, labels_addLine]
        cases hlabel : line.label with
        | none => rfl
        | some other =>
            dsimp only
            rw [Table.get?_define, if_neg, index?]
            rintro rfl
            apply hname
            rw [labelNames, List.filterMap_cons_some hlabel]
            exact List.mem_cons_self
      · intro hmem
        apply hname
        cases hlabel : line.label with
        | none =>
            rw [labelNames, List.filterMap_cons_none hlabel]
            exact hmem
        | some other =>
            rw [labelNames, List.filterMap_cons_some hlabel]
            exact List.mem_cons_of_mem _ hmem

/-- The last definition of a label gives its index: the number of lines before
it. -/
theorem index?_ofLines {before behind : List Line} {line : Line} {name : String}
    (hlabel : line.label = some name) (hname : name ∉ labelNames behind) :
    (ofLines (before ++ line :: behind)).index? name = some before.length := by
  have hsize : (before.foldl addLine {}).program.size = before.length := by
    rw [← Array.length_toList, program_foldl_addLine]
    simp
  rw [ofLines, List.foldl_append, List.foldl_cons, index?_foldl_addLine hname, index?,
    labels_addLine, hlabel]
  dsimp only
  rw [Table.get?_define, if_pos rfl, hsize]

/-- Labels that are defined once each make up the table, the last one first. -/
theorem keys_foldl_addLine {lines : List Line} (listing : Listing)
    (hnodup : (labelNames lines).Nodup)
    (hfresh : ∀ name ∈ labelNames lines, name ∉ listing.labels.map Prod.fst) :
    (lines.foldl addLine listing).labels.map Prod.fst =
      (labelNames lines).reverse ++ listing.labels.map Prod.fst := by
  induction lines generalizing listing with
  | nil => rfl
  | cons line rest ih =>
      rw [List.foldl_cons]
      cases hlabel : line.label with
      | none =>
          rw [labelNames, List.filterMap_cons_none hlabel] at hnodup hfresh ⊢
          have hlabels : (listing.addLine line).labels = listing.labels := by
            rw [labels_addLine, hlabel]
          rw [ih _ hnodup (by rw [hlabels]; exact hfresh), hlabels]
          rfl
      | some name =>
          rw [labelNames, List.filterMap_cons_some hlabel] at hnodup hfresh ⊢
          obtain ⟨hname, hrest⟩ := List.nodup_cons.mp hnodup
          have hlabels : (listing.addLine line).labels.map Prod.fst =
              name :: listing.labels.map Prod.fst := by
            rw [labels_addLine, hlabel]
            dsimp only
            rw [Table.define_of_fresh (hfresh _ List.mem_cons_self)]
            rfl
          rw [ih _ hrest, hlabels, List.reverse_cons, List.append_assoc]
          · rfl
          · rw [hlabels]
            intro other hother hmem
            rcases List.mem_cons.mp hmem with rfl | hold
            · exact hname hother
            · exact hfresh other (List.mem_cons_of_mem _ hother) hold

/-- With each label defined once, the table has one entry for each. -/
theorem length_labels_ofLines {lines : List Line} (hnodup : (labelNames lines).Nodup) :
    (ofLines lines).labels.length = (labelNames lines).length := by
  have hkeys := keys_foldl_addLine {} hnodup (by simp)
  have hlength := congrArg List.length hkeys
  simpa [ofLines] using hlength

end Listing

def blockOf (lines : List Line) : String :=
  blockText (lines.map Line.render)

/-- A block of readable lines is read line by line; the empty line behind it
holds nothing. -/
theorem map_read_lines_blockOf {block : List Line} (hne : block ≠ [])
    (hblock : ∀ line ∈ block, line.Readable) (rest : List Char) :
    (lines ((blockOf block).toList ++ rest)).map Entry.read =
      block.map Line.entry ++ {} :: (lines rest).map Entry.read := by
  have htext : (blockOf block).toList ++ rest =
      ['\n'].intercalate (block.map fun line => line.render.toList) ++ '\n' :: '\n' :: rest := by
    rw [blockOf, blockText, String.toList_append, String.toList_intercalate, List.map_map]
    simp [Function.comp_def]
  have hnewline : ∀ text ∈ block.map (fun line => line.render.toList), '\n' ∉ text := by
    intro text htext
    obtain ⟨line, hline, rfl⟩ := List.mem_map.mp htext
    exact (hblock line hline).newline_not_mem
  have hentries : block.map (fun line => Entry.read line.render.toList) = block.map Line.entry :=
    List.map_congr_left fun line hline => Entry.read_render (hblock line hline)
  rw [htext, lines_intercalate (by simpa using hne) hnewline, List.map_append, List.map_map,
    ← hentries]
  have hempty : lines ('\n' :: rest) = [] :: lines rest :=
    lines_append_newline List.not_mem_nil rest
  rw [hempty]
  rfl

/-- The entries of the text of blocks: those of the lines, and an empty one
behind each block and at the end. -/
def entriesOf : List (List Line) → List Entry
  | [] => [{}]
  | block :: rest => block.map Line.entry ++ {} :: entriesOf rest

section Blocks

variable {blocks : List (List Line)} (hne : ∀ block ∈ blocks, block ≠ [])
  (hblocks : ∀ block ∈ blocks, ∀ line ∈ block, line.Readable)
include hne hblocks

/-- Blocks of readable lines, one behind the other, are read line by line. -/
theorem map_read_lines_join :
    (lines (String.join (blocks.map blockOf)).toList).map Entry.read = entriesOf blocks := by
  rw [String.toList_join, List.flatMap_map]
  induction blocks with
  | nil => rfl
  | cons block rest ih =>
      have hrest := ih (fun other hother => hne other (List.mem_cons_of_mem _ hother))
        fun other hother => hblocks other (List.mem_cons_of_mem _ hother)
      rw [List.flatMap_cons, map_read_lines_blockOf (hne block List.mem_cons_self)
        (hblocks block List.mem_cons_self), hrest, entriesOf]

/-- The text of blocks is read as the listing of all their lines. -/
theorem read_join_blocks :
    Listing.read (String.join (blocks.map blockOf)) = Listing.ofLines blocks.flatten := by
  have hfold (blocks : List (List Line)) (listing : Listing) :
      (entriesOf blocks).foldl Listing.add listing =
        blocks.flatten.foldl Listing.addLine listing := by
    induction blocks generalizing listing with
    | nil => rfl
    | cons block rest ih =>
        have hblock : (block.map Line.entry).foldl Listing.add listing =
            block.foldl Listing.addLine listing := List.foldl_map
        rw [entriesOf, List.foldl_append, hblock, List.foldl_cons, ih, List.flatten_cons,
          List.foldl_append]
        rfl
  rw [Listing.read, Listing.ofEntries, map_read_lines_join hne hblocks]
  exact hfold blocks {}

theorem labels_join_blocks :
    (lines (String.join (blocks.map blockOf)).toList).filterMap (fun line => (Entry.read line).label) =
      Listing.labelNames blocks.flatten := by
  have hlabels (blocks : List (List Line)) :
      (entriesOf blocks).filterMap Entry.label = Listing.labelNames blocks.flatten := by
    induction blocks with
    | nil => rfl
    | cons block rest ih =>
        have hblock : (block.map Line.entry).filterMap Entry.label = Listing.labelNames block :=
          List.filterMap_map
        rw [entriesOf, List.filterMap_append, hblock, List.filterMap_cons_none rfl, ih,
          List.flatten_cons]
        exact List.filterMap_append.symm
  rw [← hlabels, ← map_read_lines_join hne hblocks, List.filterMap_map]
  rfl

end Blocks

end Assembly
end TapeCompiler
