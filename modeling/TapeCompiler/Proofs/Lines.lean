import TapeCompiler.Proofs.Acceptance
import TapeCompiler.Proofs.Literals
import TapeCompiler.Proofs.Quoting
import TapeCompiler.Proofs.Reading

/-!
# The lines of compiled blocks

Every line of a block can be told apart into its parts, so the body of a source
is read back as the listing of its blocks (`read_bodyOf`), and the place of an
instruction or a label in the listing follows from the sizes of the blocks
before it.  Program names may hold any character but the newline: they stand
between other characters of an operand, so blanks in them cut nothing off.
-/

namespace TapeCompiler
namespace Assembly

open Text

/-- Whether a text can be told from labels and operands. -/
def IsOpcode (opcode : String) : Prop :=
  Solid opcode.toList ∧ opcode.toList ≠ [] ∧ opcode.toList.getLast? ≠ some ':'

instance (opcode : String) : Decidable (IsOpcode opcode) :=
  inferInstanceAs (Decidable (_ ∧ _ ∧ _))

/-- Whether a text can stand behind an opcode. -/
def IsOperand (operand : String) : Prop :=
  operand.toList ≠ [] ∧ Trimmed operand.toList ∧ '\n' ∉ operand.toList

instance (operand : String) : Decidable (IsOperand operand) :=
  inferInstanceAs (Decidable (_ ∧ _ ∧ _))

namespace Line

theorem readable_bare {opcode : String} (hopcode : IsOpcode opcode) : (bare opcode).Readable where
  label := fun label hlabel => by cases hlabel
  opcode := hopcode.1
  opcode_ne := hopcode.2.1
  opcode_colon := hopcode.2.2
  operand := ⟨fun c hc => (by cases hc), fun c hc => (by cases hc)⟩
  operand_newline := fun hmem => by cases hmem
  gap := ⟨fun _ => rfl, fun _ => rfl⟩

theorem readable_marked {label opcode : String} (hlabel : Solid label.toList)
    (hopcode : IsOpcode opcode) : (marked label opcode).Readable where
  label := fun other hother => by
    obtain rfl : label = other := Option.some_inj.mp hother
    exact hlabel
  opcode := hopcode.1
  opcode_ne := hopcode.2.1
  opcode_colon := hopcode.2.2
  operand := ⟨fun c hc => (by cases hc), fun c hc => (by cases hc)⟩
  operand_newline := fun hmem => by cases hmem
  gap := ⟨fun _ => rfl, fun _ => rfl⟩

/-- A line with an operand behind any positive gap. -/
theorem readable_spaced {opcode operand : String} {gap : Nat} (hopcode : IsOpcode opcode)
    (hgap : 0 < gap) (hoperand : IsOperand operand) :
    ({ opcode, gap, operand } : Line).Readable where
  label := fun label hlabel => by cases hlabel
  opcode := hopcode.1
  opcode_ne := hopcode.2.1
  opcode_colon := hopcode.2.2
  operand := hoperand.2.1
  operand_newline := hoperand.2.2
  gap := by
    constructor
    · intro hempty
      exact absurd hempty hoperand.1
    · intro hzero
      change gap = 0 at hzero
      omega

end Line

theorem newline_not_mem_quoteName {program : String} (hprogram : '\n' ∉ program.toList) :
    '\n' ∉ (quoteName program).toList := by
  have hquoted := forall_mem_quoteName (P := (· ≠ '\n')) (by decide) (by decide) program
  intro hmem
  exact hquoted.mpr (fun c hc hnewline => hprogram (hnewline ▸ hc)) _ hmem rfl

theorem toList_memoryField (program : String) :
    (memoryField program).toList =
      "uint8[]".toList ++ (' ' :: (quoteName program).toList ++ ".Program::Memory".toList) := by
  have hfront : "uint8[] ".toList = "uint8[]".toList ++ [' '] := by decide
  rw [show memoryField program = "uint8[] " ++ quoteName program ++ ".Program::Memory" from rfl,
    String.toList_append, String.toList_append, hfront]
  simp only [List.append_assoc, List.cons_append, List.nil_append]

theorem toList_counterField (program : String) :
    (counterField program).toList =
      "int32".toList ++ (' ' :: (quoteName program).toList ++ ".Program::Counter".toList) := by
  have hfront : "int32 ".toList = "int32".toList ++ [' '] := by decide
  rw [show counterField program = "int32 " ++ quoteName program ++ ".Program::Counter" from rfl,
    String.toList_append, String.toList_append, hfront]
  simp only [List.append_assoc, List.cons_append, List.nil_append]

/-- A text between two words is an operand, whatever blanks are in it. -/
theorem isOperand_enclosed {operand : String} {front middle behind : List Char}
    (htext : operand.toList = front ++ (middle ++ behind))
    (hfront : front ≠ [] ∧ Solid front) (hmiddle : '\n' ∉ middle)
    (hbehind : behind ≠ [] ∧ Solid behind) : IsOperand operand := by
  rw [IsOperand, htext]
  refine ⟨List.append_ne_nil_of_left_ne_nil hfront.1 _, ⟨?_, ?_⟩, ?_⟩
  · rw [List.head?_append_of_ne_nil _ hfront.1]
    exact hfront.2.trimmed.1
  · rw [List.getLast?_append_of_ne_nil _ (List.append_ne_nil_of_right_ne_nil _ hbehind.1),
      List.getLast?_append_of_ne_nil _ hbehind.1]
    exact hbehind.2.trimmed.2
  · simp only [List.mem_append, not_or]
    exact ⟨newline_not_mem_of_solid hfront.2, hmiddle, newline_not_mem_of_solid hbehind.2⟩

section Fields

variable {program : String} (hprogram : '\n' ∉ program.toList)
include hprogram

theorem newline_not_mem_spaced : '\n' ∉ ' ' :: (quoteName program).toList := by
  rw [List.mem_cons, not_or]
  exact ⟨by decide, newline_not_mem_quoteName hprogram⟩

theorem isOperand_memoryField : IsOperand (memoryField program) :=
  isOperand_enclosed (toList_memoryField program) (by decide) (newline_not_mem_spaced hprogram)
    (by decide)

theorem isOperand_counterField : IsOperand (counterField program) :=
  isOperand_enclosed (toList_counterField program) (by decide) (newline_not_mem_spaced hprogram)
    (by decide)

end Fields

theorem isOperand_of_solid {operand : String} (hne : operand.toList ≠ [])
    (hsolid : Solid operand.toList) : IsOperand operand :=
  ⟨hne, hsolid.trimmed, newline_not_mem_of_solid hsolid⟩

theorem solid_toDigits {base : Nat} (hone : 1 < base) (hbase : base ≤ 16) (n : Nat) :
    Solid (Nat.toDigits base n) :=
  Numeral.forall_mem_toDigits hone hbase (by decide) n

theorem solid_numeral (n : Nat) : Solid (Nat.toDigits 10 n) :=
  solid_toDigits (by decide) (by decide) n

theorem isOperand_integer (n : Int) : IsOperand (toString n) := by
  cases n with
  | ofNat m =>
      have htext : (toString (Int.ofNat m)).toList = Nat.toDigits 10 m := Nat.toList_repr
      apply isOperand_of_solid
      · rw [htext]
        exact Nat.toDigits_ne_nil
      · rw [htext]
        exact solid_numeral m
  | negSucc m =>
      have htext : (toString (Int.negSucc m)).toList = '-' :: Nat.toDigits 10 (m + 1) :=
        Numeral.toList_toString_negSucc m
      apply isOperand_of_solid
      · rw [htext]
        exact List.cons_ne_nil _ _
      · rw [htext, Solid, List.forall_mem_cons]
        exact ⟨by decide, solid_numeral (m + 1)⟩

theorem toList_startLabel (number : Nat) :
    (startLabel number).toList = "BranchStartBranch".toList ++ Nat.toDigits 10 number := by
  rw [show startLabel number = "BranchStart" ++ ("Branch" ++ toString number) from rfl]
  simp

theorem toList_endLabel (number : Nat) :
    (endLabel number).toList = "BranchEndBranch".toList ++ Nat.toDigits 10 number := by
  rw [show endLabel number = "BranchEnd" ++ ("Branch" ++ toString number) from rfl]
  simp

theorem solid_numbered {word : List Char} (hword : Solid word) (number : Nat) :
    Solid (word ++ Nat.toDigits 10 number) := by
  intro c hc
  rcases List.mem_append.mp hc with hmem | hmem
  · exact hword c hmem
  · exact solid_numeral number c hmem

theorem solid_startLabel (number : Nat) : Solid (startLabel number).toList := by
  rw [toList_startLabel]
  exact solid_numbered (by decide) number

theorem solid_endLabel (number : Nat) : Solid (endLabel number).toList := by
  rw [toList_endLabel]
  exact solid_numbered (by decide) number

end Assembly

namespace Compiler

open Assembly Source Text

theorem isOpcode_direction (direction : Direction) : IsOpcode direction.opcode := by
  cases direction <;> decide

section Lines

variable {program : String} (hprogram : '\n' ∉ program.toList)

include hprogram

theorem readable_loadCell : ∀ line ∈ loadCell program, line.Readable := by
  rw [loadCell, List.forall_mem_cons, List.forall_mem_singleton]
  exact ⟨Line.readable_spaced (by decide) (by decide) (isOperand_memoryField hprogram),
    Line.readable_spaced (by decide) (by decide) (isOperand_counterField hprogram)⟩

theorem readable_fetchCell : ∀ line ∈ fetchCell program, line.Readable := by
  rw [fetchCell, List.forall_mem_append]
  refine ⟨readable_loadCell hprogram, ?_⟩
  simp only [List.forall_mem_cons, List.not_mem_nil, false_implies, implies_true, and_true]
  exact ⟨Line.readable_bare (by decide), Line.readable_bare (by decide),
    Line.readable_bare (by decide)⟩

theorem readable_moveBlock (direction : Direction) (n : Int) :
    ∀ line ∈ moveBlock program direction n, line.Readable := by
  simp only [moveBlock, List.forall_mem_cons, List.not_mem_nil, false_implies, implies_true,
    and_true]
  exact ⟨Line.readable_spaced (by decide) (by decide) (isOperand_counterField hprogram),
    Line.readable_spaced (by decide) (by decide) (isOperand_integer n),
    Line.readable_bare (isOpcode_direction direction),
    Line.readable_spaced (by decide) (by decide) (isOperand_counterField hprogram)⟩

theorem readable_changeBlock (direction : Direction) (n : Int) :
    ∀ line ∈ changeBlock program direction n, line.Readable := by
  rw [changeBlock, List.forall_mem_append]
  refine ⟨readable_loadCell hprogram, ?_⟩
  simp only [List.forall_mem_cons, List.not_mem_nil, false_implies,
    implies_true, and_true]
  exact ⟨Line.readable_spaced (by decide) (by decide) (by decide),
    Line.readable_bare (by decide), Line.readable_bare (by decide),
    Line.readable_spaced (by decide) (by decide) (isOperand_integer n),
    Line.readable_bare (isOpcode_direction direction), Line.readable_bare (by decide),
    Line.readable_bare (by decide)⟩

theorem readable_linesOfPlain (action : Plain) :
    ∀ line ∈ linesOfPlain program action, line.Readable := by
  cases action with
  | move direction count => exact readable_moveBlock hprogram direction count
  | change direction count => exact readable_changeBlock hprogram direction count
  | write =>
      rw [linesOfPlain, writeBlock, List.forall_mem_append, List.forall_mem_singleton]
      exact ⟨readable_fetchCell hprogram,
        Line.readable_spaced (by decide) (by decide) (by decide)⟩
  | read =>
      rw [linesOfPlain, readBlock, List.forall_mem_append, List.forall_mem_append]
      simp only [List.forall_mem_cons, List.not_mem_nil, false_implies,
        implies_true, and_true]
      exact ⟨⟨⟨Line.readable_spaced (by decide) (by decide) (by decide),
        Line.readable_bare (by decide)⟩, readable_loadCell hprogram⟩,
        Line.readable_bare (by decide), Line.readable_bare (by decide),
        Line.readable_bare (by decide)⟩

/-- All lines of a segment can be read back. -/
theorem readable_linesOf (segment : Segment Nat) :
    ∀ line ∈ linesOf program segment, line.Readable := by
  cases segment with
  | plain action => exact readable_linesOfPlain hprogram action
  | loopStart number =>
      have hlabel : (endLabel number).toList ≠ [] := by
        rw [toList_endLabel]
        exact List.append_ne_nil_of_left_ne_nil (by decide) _
      rw [linesOf, loopStartBlock, List.cons_append, List.forall_mem_cons, List.forall_mem_append,
        List.forall_mem_singleton]
      exact ⟨Line.readable_marked (solid_startLabel number) (by decide),
        readable_fetchCell hprogram,
        Line.readable_spaced (by decide) (by decide)
          (isOperand_of_solid hlabel (solid_endLabel number))⟩
  | loopEnd number =>
      have hlabel : (startLabel number).toList ≠ [] := by
        rw [toList_startLabel]
        exact List.append_ne_nil_of_left_ne_nil (by decide) _
      rw [linesOf, loopEndBlock, List.forall_mem_cons, List.forall_mem_singleton]
      exact ⟨Line.readable_spaced (by decide) (by decide)
          (isOperand_of_solid hlabel (solid_startLabel number)),
        Line.readable_marked (solid_endLabel number) (by decide)⟩

end Lines

/-! ### Instructions and labels -/

def instructionsOf (program : String) : Segment Nat → List Instruction
  | .plain (.move direction count) =>
      [⟨"ldsfld", counterField program⟩, ⟨"ldc.i4", toString count⟩, ⟨direction.opcode, ""⟩,
        ⟨"stsfld", counterField program⟩]
  | .plain (.change direction count) =>
      [⟨"ldsfld", memoryField program⟩, ⟨"ldsfld", counterField program⟩,
        ⟨"ldelema", "[mscorlib]System.Byte"⟩, ⟨"dup", ""⟩, ⟨"ldind.u1", ""⟩,
        ⟨"ldc.i4", toString count⟩, ⟨direction.opcode, ""⟩, ⟨"conv.u1", ""⟩, ⟨"stind.i1", ""⟩]
  | .plain .write =>
      [⟨"ldsfld", memoryField program⟩, ⟨"ldsfld", counterField program⟩, ⟨"ldelem.u1", ""⟩,
        ⟨"stloc.0", ""⟩, ⟨"ldloc.0", ""⟩,
        ⟨"call", "void [mscorlib]System.Console::Write(char)"⟩]
  | .plain .read =>
      [⟨"call", "int32 [mscorlib]System.Console::Read()"⟩, ⟨"stloc.0", ""⟩,
        ⟨"ldsfld", memoryField program⟩, ⟨"ldsfld", counterField program⟩, ⟨"ldloc.0", ""⟩,
        ⟨"conv.u1", ""⟩, ⟨"stelem.i1", ""⟩]
  | .loopStart number =>
      [⟨"nop", ""⟩, ⟨"ldsfld", memoryField program⟩, ⟨"ldsfld", counterField program⟩,
        ⟨"ldelem.u1", ""⟩, ⟨"stloc.0", ""⟩, ⟨"ldloc.0", ""⟩, ⟨"brfalse", endLabel number⟩]
  | .loopEnd number => [⟨"br", startLabel number⟩, ⟨"nop", ""⟩]

theorem map_instruction_linesOf (program : String) (segment : Segment Nat) :
    (linesOf program segment).map Line.instruction = instructionsOf program segment := by
  cases segment with
  | plain action => cases action <;> rfl
  | loopStart number => rfl
  | loopEnd number => rfl

theorem length_instructionsOf (program : String) (segment : Segment Nat) :
    (instructionsOf program segment).length = segment.size := by
  cases segment with
  | plain action => cases action <;> rfl
  | loopStart number => rfl
  | loopEnd number => rfl

theorem length_flatMap_instructionsOf (program : String) (blocks : List (Segment Nat)) :
    (blocks.flatMap (instructionsOf program)).length = codeSize blocks :=
  length_flatMap_of_size (length_instructionsOf program) blocks

theorem length_linesOf (program : String) (segment : Segment Nat) :
    (linesOf program segment).length = segment.size := by
  rw [← length_instructionsOf program, ← map_instruction_linesOf, List.length_map]

theorem length_flatMap_linesOf (program : String) (blocks : List (Segment Nat)) :
    (blocks.flatMap (linesOf program)).length = codeSize blocks :=
  length_flatMap_of_size (length_linesOf program) blocks

theorem linesOf_ne_nil (program : String) (segment : Segment Nat) : linesOf program segment ≠ [] := by
  cases segment with
  | plain action => cases action <;> exact List.cons_ne_nil _ _
  | loopStart number => exact List.cons_ne_nil _ _
  | loopEnd number => exact List.cons_ne_nil _ _

/-- The label that a segment defines. -/
def labelsOf : Segment Nat → List String
  | .plain _ => []
  | .loopStart number => [startLabel number]
  | .loopEnd number => [endLabel number]

theorem labelNames_linesOf (program : String) (segment : Segment Nat) :
    Listing.labelNames (linesOf program segment) = labelsOf segment := by
  cases segment with
  | plain action => cases action <;> rfl
  | loopStart number => rfl
  | loopEnd number => rfl

theorem labelNames_flatMap_linesOf (program : String) (blocks : List (Segment Nat)) :
    Listing.labelNames (blocks.flatMap (linesOf program)) = blocks.flatMap labelsOf := by
  induction blocks with
  | nil => rfl
  | cons block rest ih =>
      rw [List.flatMap_cons, List.flatMap_cons, ← ih, ← labelNames_linesOf program]
      exact List.filterMap_append

/-! ### The listing of a text -/

def listingOf (program : String) (blocks : List (Segment Nat)) : Listing :=
  Listing.ofLines (blocks.flatMap (linesOf program))

section Text

variable {program : String} (hprogram : '\n' ∉ program.toList)
include hprogram

/-- The generated text reads back as the listing of its blocks, and the labels
in it are those of its blocks. -/
theorem read_bodyOf (source : List Char) :
    Listing.read (bodyOf program source) = listingOf program (blocksOf source) ∧
      (lines (bodyOf program source).toList).filterMap (fun line => (Entry.read line).label) =
        (blocksOf source).flatMap labelsOf := by
  have hblocks : (blocksOf source).map (textOf program) =
      ((blocksOf source).map (linesOf program)).map blockOf := by
    rw [List.map_map]
    rfl
  have hne : ∀ block ∈ (blocksOf source).map (linesOf program), block ≠ [] := by
    intro block hblock
    obtain ⟨segment, -, rfl⟩ := List.mem_map.mp hblock
    exact linesOf_ne_nil program segment
  have hreadable : ∀ block ∈ (blocksOf source).map (linesOf program),
      ∀ line ∈ block, line.Readable := by
    intro block hblock
    obtain ⟨segment, -, rfl⟩ := List.mem_map.mp hblock
    exact readable_linesOf hprogram segment
  rw [bodyOf, hblocks, read_join_blocks hne hreadable, labels_join_blocks hne hreadable,
    ← List.flatMap_def, labelNames_flatMap_linesOf]
  exact ⟨rfl, rfl⟩

end Text

theorem program_listingOf (program : String) (blocks : List (Segment Nat)) :
    (listingOf program blocks).program.toList = blocks.flatMap (instructionsOf program) := by
  rw [listingOf, Listing.program_ofLines, List.map_flatMap]
  simp only [map_instruction_linesOf]

/-- A label stands for the instruction on its line, if no label is defined
twice. -/
theorem index?_listingOf {program : String} {before behind : List (Segment Nat)}
    {segment : Segment Nat} (hnodup : ((before ++ segment :: behind).flatMap labelsOf).Nodup)
    (first : List Line) {last : List Line} {line : Line}
    (hlines : linesOf program segment = first ++ line :: last)
    {name : String} (hlabel : line.label = some name) :
    (listingOf program (before ++ segment :: behind)).index? name =
      some (codeSize before + first.length) := by
  have hall : (before ++ segment :: behind).flatMap (linesOf program) =
      (before.flatMap (linesOf program) ++ first) ++
        line :: (last ++ behind.flatMap (linesOf program)) := by
    rw [List.flatMap_append, List.flatMap_cons, hlines]
    simp only [List.append_assoc, List.cons_append]
  have hname : name ∉ Listing.labelNames (last ++ behind.flatMap (linesOf program)) := by
    rw [← labelNames_flatMap_linesOf program, hall, Listing.labelNames, List.filterMap_append,
      List.filterMap_cons_some hlabel] at hnodup
    exact (List.nodup_cons.mp (List.nodup_append.mp hnodup).2.1).1
  rw [listingOf, hall, Listing.index?_ofLines hlabel hname, List.length_append,
    length_flatMap_linesOf]

/-- An instruction of a segment stands as far behind the code before the segment
as within the segment. -/
theorem getElem?_program_listingOf (program : String) (before behind : List (Segment Nat))
    (segment : Segment Nat) {offset : Nat} (hoffset : offset < segment.size) :
    (listingOf program (before ++ segment :: behind)).program[codeSize before + offset]? =
      (instructionsOf program segment)[offset]? := by
  rw [← Array.getElem?_toList, program_listingOf, List.flatMap_append, List.flatMap_cons,
    List.getElem?_append_right (by rw [length_flatMap_instructionsOf]; omega),
    length_flatMap_instructionsOf, Nat.add_sub_cancel_left,
    List.getElem?_append_left (by rw [length_instructionsOf]; exact hoffset)]

end Compiler
end TapeCompiler
