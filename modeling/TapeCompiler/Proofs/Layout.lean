import TapeCompiler.Machine.Run
import TapeCompiler.Proofs.Wiring

/-!
# The layout of compiled code

What the machine makes of a compiled body.  The instructions of every segment
decode to operations that do not mention the program's name any more, and the
jumps of a loop have their targets resolved: the test at the loop's start goes
behind the jump at its end, and that jump goes back to the start.  `Layout`
collects what is known of the operations and is all that the theory of their
execution needs: nothing behind this module looks at text.
-/

namespace TapeCompiler
namespace Assembly

def Direction.operation : Direction → Machine.Operation
  | .up => .add
  | .down => .subtract

end Assembly

namespace Machine

open Assembly Source

theorem ofOperand?_memoryField (program : String) :
    Field.ofOperand? (memoryField program) = some .tape := by
  have hsuffix : "::Memory".toList <:+ (memoryField program).toList := by
    have hend : "::Memory".toList <:+ ".Program::Memory".toList := by decide
    rw [toList_memoryField]
    exact hend.trans ((List.suffix_append _ _).trans (List.suffix_append _ _))
  rw [Field.ofOperand?, if_pos (List.isSuffixOf_iff_suffix.mpr hsuffix)]

theorem ofOperand?_counterField (program : String) :
    Field.ofOperand? (counterField program) = some .counter := by
  have hsuffix : "::Counter".toList <:+ (counterField program).toList := by
    have hend : "::Counter".toList <:+ ".Program::Counter".toList := by decide
    rw [toList_counterField]
    exact hend.trans ((List.suffix_append _ _).trans (List.suffix_append _ _))
  -- The shorter of two endings of one text is an ending of the longer.
  have hother : ¬ "::Memory".toList <:+ (counterField program).toList := by
    intro hmemory
    have hshorter := List.suffix_of_suffix_length_le hmemory hsuffix (by decide)
    revert hshorter
    decide
  rw [Field.ofOperand?, if_neg (mt List.isSuffixOf_iff_suffix.mp hother),
    if_pos (List.isSuffixOf_iff_suffix.mpr hsuffix)]

/-! ### The operations of segments -/

def moveOperations (direction : Direction) (n : Int) : List Operation :=
  [.loadCounter, .push (.ok (Numeral.wrap n)), direction.operation, .storeCounter]

def changeOperations (direction : Direction) (n : Int) : List Operation :=
  [.loadTape, .loadCounter, .loadAddress, .duplicate, .loadIndirect,
    .push (.ok (Numeral.wrap n)), direction.operation, .toByte, .storeIndirect]

def plainOperations : Plain → List Operation
  | .move direction count => moveOperations direction count
  | .change direction count => changeOperations direction count
  | .write => [.loadTape, .loadCounter, .loadElement, .storeScratch, .loadScratch, .writeChar]
  | .read =>
      [.readChar, .storeScratch, .loadTape, .loadCounter, .loadScratch, .toByte, .storeElement]

/-- The operations that bring the cell under the cursor to the top of the stack
at a loop start. -/
def testOperations : List Operation :=
  [.skip, .loadTape, .loadCounter, .loadElement, .storeScratch, .loadScratch]

/-- The operations of a loop start with its exit. -/
def startOperations (label : String) (target : Option Nat) : List Operation :=
  testOperations ++ [.jumpIfZero label target]

/-- The operations of a loop end with its way back. -/
def endOperations (label : String) (target : Option Nat) : List Operation :=
  [.jump label target, .skip]

/-- The operations of a numbered segment among labels. -/
def operationsOf (labels : Labels) : Segment Nat → List Operation
  | .plain action => plainOperations action
  | .loopStart number => startOperations (endLabel number) (labels.get? (endLabel number))
  | .loopEnd number => endOperations (startLabel number) (labels.get? (startLabel number))

theorem length_operationsOf (labels : Labels) (segment : Segment Nat) :
    (operationsOf labels segment).length = segment.size := by
  cases segment with
  | plain action => cases action <;> rfl
  | loopStart number => rfl
  | loopEnd number => rfl

section Decode

variable (labels : Labels) (program : String)

theorem decode_loadMemory :
    Operation.decode labels ⟨"ldsfld", memoryField program⟩ = .loadTape := by
  change Operation.loadField (memoryField program) = .loadTape
  rw [Operation.loadField, ofOperand?_memoryField]

theorem decode_loadCounter :
    Operation.decode labels ⟨"ldsfld", counterField program⟩ = .loadCounter := by
  change Operation.loadField (counterField program) = .loadCounter
  rw [Operation.loadField, ofOperand?_counterField]

theorem decode_storeCounter :
    Operation.decode labels ⟨"stsfld", counterField program⟩ = .storeCounter := by
  change Operation.storeField (counterField program) = .storeCounter
  rw [Operation.storeField, ofOperand?_counterField]

theorem decode_direction (direction : Direction) :
    Operation.decode labels ⟨direction.opcode, ""⟩ = direction.operation := by
  cases direction <;> rfl

theorem decode_push {n : Int} (hdigits : (Nat.toDigits 10 n.natAbs).length ≤ Numeral.maxDigits) :
    Operation.decode labels ⟨"ldc.i4", toString n⟩ = .push (.ok (Numeral.wrap n)) := by
  change Operation.push ((Numeral.readLiteral .marked (toString n)).map Numeral.wrap) = _
  rw [Numeral.readLiteral_toString n hdigits]
  rfl

theorem map_decode_moveBlock {n : Int} (direction : Direction)
    (hdigits : (Nat.toDigits 10 n.natAbs).length ≤ Numeral.maxDigits) :
    (moveBlock program direction n).map (fun line => Operation.decode labels line.instruction) =
      moveOperations direction n := by
  simp only [moveBlock, List.map_cons, List.map_nil, Line.instruction, Line.aligned, Line.close,
    Line.bare, decode_loadCounter, decode_push labels hdigits, decode_direction,
    decode_storeCounter, moveOperations]

theorem map_decode_changeBlock {n : Int} (direction : Direction)
    (hdigits : (Nat.toDigits 10 n.natAbs).length ≤ Numeral.maxDigits) :
    (changeBlock program direction n).map (fun line => Operation.decode labels line.instruction) =
      changeOperations direction n := by
  simp only [changeBlock, loadCell, List.cons_append, List.nil_append, List.map_cons,
    List.map_nil, Line.instruction, Line.aligned, Line.close, Line.bare, decode_loadMemory,
    decode_loadCounter, decode_push labels hdigits, decode_direction, changeOperations]
  rfl

/-- The instructions of a segment decode to its operations, if its number of
commands can be read. -/
theorem map_decode_instructionsOf {segment : Segment Nat}
    (hcount : segment.commands.length < 2 ^ 63) :
    (Compiler.instructionsOf program segment).map (Operation.decode labels) =
      operationsOf labels segment := by
  cases segment with
  | plain action =>
      cases action with
      | move direction count =>
          have hpush : count < 2 ^ 63 := by
            simpa [Segment.commands, Plain.commands] using hcount
          rw [← Compiler.map_instruction_linesOf, List.map_map]
          exact map_decode_moveBlock labels program direction
            (Numeral.length_toDigits_le_maxDigits hpush)
      | change direction count =>
          have hpush : count < 2 ^ 63 := by
            simpa [Segment.commands, Plain.commands] using hcount
          rw [← Compiler.map_instruction_linesOf, List.map_map]
          exact map_decode_changeBlock labels program direction
            (Numeral.length_toDigits_le_maxDigits hpush)
      | write =>
          simp only [Compiler.instructionsOf, List.map_cons, decode_loadMemory, decode_loadCounter]
          rfl
      | read =>
          simp only [Compiler.instructionsOf, List.map_cons, decode_loadMemory, decode_loadCounter]
          rfl
  | loopStart number =>
      simp only [Compiler.instructionsOf, List.map_cons, decode_loadMemory, decode_loadCounter]
      rfl
  | loopEnd number => rfl

end Decode

/-! ### Code at a place -/

/-- A block of operations stands in a program at an index. -/
def CodeAt (operations : Array Operation) (pc : Nat) (block : List Operation) : Prop :=
  ∀ offset < block.length, operations[pc + offset]? = block[offset]?

namespace CodeAt

variable {operations : Array Operation} {pc : Nat}

theorem head {operation : Operation} {block : List Operation}
    (hcode : CodeAt operations pc (operation :: block)) : operations[pc]? = some operation :=
  hcode 0 (Nat.zero_lt_succ _)

theorem tail {operation : Operation} {block : List Operation}
    (hcode : CodeAt operations pc (operation :: block)) : CodeAt operations (pc + 1) block := by
  intro offset hoffset
  have hnext := hcode (offset + 1) (Nat.succ_lt_succ hoffset)
  rw [List.getElem?_cons_succ] at hnext
  rw [← hnext, Nat.add_assoc, Nat.add_comm 1]

theorem left {first second : List Operation} (hcode : CodeAt operations pc (first ++ second)) :
    CodeAt operations pc first := by
  intro offset hoffset
  rw [hcode offset (by rw [List.length_append]; omega), List.getElem?_append_left hoffset]

theorem right {first second : List Operation} (hcode : CodeAt operations pc (first ++ second)) :
    CodeAt operations (pc + first.length) second := by
  intro offset hoffset
  rw [Nat.add_assoc, hcode _ (by rw [List.length_append]; omega),
    List.getElem?_append_right (Nat.le_add_right _ _), Nat.add_sub_cancel_left]

theorem of_append {before block behind : List Operation} :
    CodeAt (before ++ block ++ behind).toArray before.length block := by
  intro offset hoffset
  rw [List.getElem?_toArray, List.append_assoc, List.getElem?_append_right (Nat.le_add_right _ _),
    Nat.add_sub_cancel_left, List.getElem?_append_left hoffset]

end CodeAt

/-- Where the code of segments stands in a program.  Plain segments have their
operations at the place that the segments before them leave; a loop has its
test at the start, with an exit behind the jump at the end, and that jump goes
back to the test. -/
structure Layout (operations : Array Operation) (segments : List (Segment Unit)) : Prop where
  size : operations.size = codeSize segments
  plain : ∀ {before behind : List (Segment Unit)} {action : Plain},
    segments = before ++ .plain action :: behind →
      CodeAt operations (codeSize before) (plainOperations action)
  loop : ∀ {before body behind : List (Segment Unit)},
    segments = before ++ Compiler.openingSegment :: body ++ Compiler.closingSegment :: behind →
    Nested Compiler.openingSegment Compiler.closingSegment body →
    ∃ startName endName,
      CodeAt operations (codeSize before)
        (startOperations endName
          (some (codeSize (before ++ Compiler.openingSegment :: body) + 1))) ∧
      CodeAt operations (codeSize (before ++ Compiler.openingSegment :: body))
        (endOperations startName (some (codeSize before)))

section Compiled

variable {program : String} {source : List Char}

def compiledCode (program : String) (source : List Char) : Array Operation :=
  Operation.ofListing (Compiler.listingOf program (Compiler.blocksOf source))

abbrev compiledLabels (program : String) (source : List Char) : Labels :=
  (Compiler.listingOf program (Compiler.blocksOf source)).labels

theorem compiledCode_eq (hlength : source.length < 2 ^ 63) :
    compiledCode program source =
      ((Compiler.blocksOf source).flatMap
        (operationsOf (compiledLabels program source))).toArray := by
  have hdecode : ∀ block ∈ Compiler.blocksOf source,
      (Compiler.instructionsOf program block).map
        (Operation.decode (compiledLabels program source)) =
          operationsOf (compiledLabels program source) block := by
    intro block hblock
    -- No block has more commands than the source has characters.
    apply map_decode_instructionsOf
    have hmem : block.bare ∈ bareSegments source := by
      rw [← Compiler.map_bare_numbered {} (bareSegments source)]
      exact List.mem_map_of_mem hblock
    have hcommands := (length_commands_of_mem_bareSegments hmem).2
    rw [Segment.commands_bare] at hcommands
    omega
  apply Array.toList_inj.mp
  rw [compiledCode, Operation.ofListing, Array.toList_map, Compiler.program_listingOf,
    List.map_flatMap]
  exact List.flatMap_congr hdecode

theorem length_flatMap_operationsOf (labels : Labels) (blocks : List (Segment Nat)) :
    (blocks.flatMap (operationsOf labels)).length = codeSize blocks :=
  length_flatMap_of_size (length_operationsOf labels) blocks

/-- The operations of a block stand behind those of the blocks before it. -/
theorem codeAt_compiledCode (hlength : source.length < 2 ^ 63) {before behind : List (Segment Nat)}
    {block : Segment Nat} (hsplit : Compiler.blocksOf source = before ++ block :: behind) :
    CodeAt (compiledCode program source) (codeSize before)
      (operationsOf (compiledLabels program source) block) := by
  rw [compiledCode_eq hlength, hsplit, List.flatMap_append, List.flatMap_cons, ← List.append_assoc,
    ← length_flatMap_operationsOf (compiledLabels program source) before]
  exact CodeAt.of_append

theorem codeSize_bare {blocks : List (Segment Nat)} {segments : List (Segment Unit)}
    (hblocks : blocks.map Segment.bare = segments) : codeSize segments = codeSize blocks := by
  rw [← hblocks]
  exact codeSize_map _ blocks

/-- The operations of a compiled body are laid out along the segments of its
source. -/
theorem layout_compiledCode (hnested : Nested '[' ']' source) (hlength : source.length < 2 ^ 63) :
    Layout (compiledCode program source) (bareSegments source) where
  size := by
    rw [compiledCode_eq hlength, List.size_toArray, length_flatMap_operationsOf]
    exact (codeSize_bare (Compiler.map_bare_numbered {} (bareSegments source))).symm
  plain := by
    intro before behind action hsplit
    have hblocks : Compiler.blocksOf source =
        Compiler.numbered {} before ++
          .plain action :: Compiler.numbered (Compiler.loopsAfter {} before) behind := by
      rw [Compiler.blocksOf, hsplit, Compiler.numbered_append]
      rfl
    rw [codeSize_bare (Compiler.map_bare_numbered {} before)]
    exact codeAt_compiledCode hlength hblocks
  loop := by
    intro before body behind hsplit hbody
    obtain ⟨blocksBefore, blocksBody, blocksBehind, hblocks, hbefore, hbodyBlocks, -⟩ :=
      Compiler.numbered_loop {} before body behind hbody
    rw [← hsplit] at hblocks
    change Compiler.blocksOf source = _ at hblocks
    -- Both brackets carry this number, so the label of each is the target of the other.
    let number := 0 + before.count Compiler.openingSegment
    have hstart : codeSize before = codeSize blocksBefore := codeSize_bare hbefore
    have hend : codeSize (before ++ Compiler.openingSegment :: body) =
        codeSize (blocksBefore ++ .loopStart number :: blocksBody) := by
      apply codeSize_bare
      rw [List.map_append, List.map_cons, hbefore, hbodyBlocks]
      rfl
    have hopening : Compiler.blocksOf source =
        blocksBefore ++ .loopStart number :: (blocksBody ++ .loopEnd number :: blocksBehind) := by
      rw [hblocks, List.append_assoc]
      rfl
    have hwired := Compiler.wired_listingOf program (Compiler.labels_of_nested hnested).1
      hopening hblocks
    refine ⟨startLabel number, endLabel number, ?_, ?_⟩
    · rw [hstart, hend, ← hwired.endLabel]
      exact codeAt_compiledCode hlength hopening
    · rw [hstart, hend, ← hwired.startLabel]
      exact codeAt_compiledCode hlength hblocks

end Compiled

/-- What the machine makes of a compiled body is laid out along the segments of
its source. -/
theorem layout_of_compiled {session : Compiler.Session} {source body : String}
    (hlength : source.length < 2 ^ 63) (hprogram : '\n' ∉ session.generator.program.toList)
    (hcompiled : (session.compile source).result = .ok body) :
    Layout (Operation.ofListing (Listing.read body)) (bareSegments source.toList) ∧
      Nested Compiler.openingSegment Compiler.closingSegment (bareSegments source.toList) := by
  obtain ⟨hnested, rfl⟩ := Compiler.Session.compile_eq_ok hcompiled
  rw [(Compiler.read_bodyOf hprogram source.toList).1]
  exact ⟨layout_compiledCode hnested (by rw [String.length_toList]; exact hlength),
    nested_bareSegments hnested⟩

end Machine
end TapeCompiler
