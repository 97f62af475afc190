import TapeCompiler.Assembly.Frame
import TapeCompiler.Machine.Operation
import TapeCompiler.Machine.State
import TapeCompiler.Proofs.Lines

/-!
# What a frame tells

The text of a frame is read from the left.  A quoted name shows where it ends,
whatever is in it and whatever follows (`quoteName_append_inj`), the tape size ends
with its line, and the body is what is left before the fixed end.  So nothing of
what a frame is made from is lost.

The tape size is written in full, and the machine reads it as it reads every
literal, as a word.  A frame takes any positive size and therefore declares the
size that was asked for only if that is a word.

Main statements: `frame_declares_size_iff` and `frame_determines_parts`.
-/

namespace TapeCompiler
namespace Assembly

open Text

/-! ### Tape sizes -/

theorem toList_tapeSizeText (size : Nat) :
    (tapeSizeText size).toList = '0' :: 'x' :: Nat.toDigits 16 size := by
  have hwidth : 1 - (Nat.toDigits 16 size).length = 0 :=
    Nat.sub_eq_zero_of_le Nat.length_toDigits_pos
  simp [tapeSizeText, hexadecimal, hwidth]

/-- A tape size is known from the front of a text, if its line ends behind it. -/
theorem tapeSizeText_append_inj {first second : Nat} {rest others : List Char}
    (htext : (tapeSizeText first).toList ++ ("\n".toList ++ rest) =
      (tapeSizeText second).toList ++ ("\n".toList ++ others)) :
    first = second ∧ rest = others := by
  have hnewline (size : Nat) : '\n' ∉ (tapeSizeText size).toList := by
    have hdigits : '\n' ∉ Nat.toDigits 16 size :=
      Numeral.not_mem_toDigits (by decide) (by decide) (by decide) size
    simp [toList_tapeSizeText, hdigits]
  have hlines := congrArg lines htext
  change lines (_ ++ '\n' :: rest) = lines (_ ++ '\n' :: others) at hlines
  rw [lines_append_newline (hnewline first), lines_append_newline (hnewline second)] at hlines
  have hdigits := (List.cons.inj hlines).1
  rw [toList_tapeSizeText, toList_tapeSizeText, List.cons.injEq, List.cons.injEq] at hdigits
  obtain rfl := Numeral.toDigits_injective (by decide) (by decide) hdigits.2.2
  exact ⟨rfl, List.append_cancel_left (List.append_cancel_left htext)⟩

/-- A tape size is a literal that reads as the size, however large it is. -/
theorem readLiteral_tapeSizeText (size : Nat) :
    Numeral.readLiteral .marked (tapeSizeText size) = .ok size := by
  have hsign : Numeral.takeSign ((tapeSizeText size).toList.dropWhile Numeral.isMargin) =
      (1, '0' :: 'x' :: Nat.toDigits 16 size) := by
    rw [toList_tapeSizeText]
    exact Numeral.takeSign_dropWhile_digit (by decide) _
  have hradix : Numeral.takeRadix .marked ('0' :: 'x' :: Nat.toDigits 16 size) =
      (16, Nat.toDigits 16 size) :=
    Numeral.takeRadix_mark rfl (Numeral.not_mem_toDigits (by decide) (by decide) (by decide) size)
  rw [Numeral.readLiteral_of_digits (by decide) (by decide) hsign hradix
    (fun hten => absurd hten (by decide)), Int.one_mul]

/-! ### The allocation -/

theorem Listing.program_read_indented {line : Line} (hline : line.Readable) (rest : String) :
    (Listing.read ("    " ++ line.render ++ "\n" ++ rest)).program.toList =
      line.instruction :: (Listing.read rest).program.toList := by
  have htext : ("    " ++ line.render ++ "\n" ++ rest).toList =
      (List.replicate 4 ' ' ++ line.render.toList) ++ '\n' :: rest.toList := by simp
  have hnewline : '\n' ∉ List.replicate 4 ' ' ++ line.render.toList := by
    simpa using hline.newline_not_mem
  have hread : Entry.read (List.replicate 4 ' ' ++ line.render.toList) = line.entry := by
    rw [← Entry.read_render hline, Entry.read, Entry.read, trim, trim, trimLeft_replicate_space]
  rw [program_read, program_read, htext, lines_append_newline hnewline, List.map_cons, hread]
  rfl

def sizeLine (size : Nat) : Line :=
  .aligned "ldc.i4" (tapeSizeText size)

def allocationLine : Line :=
  .aligned "newarr" "[mscorlib]System.Byte"

/-- What a frame has before the line with the tape size. -/
def frameFront (program : String) : String :=
  frameHead ++
  ".assembly " ++ quoteName program ++ " \x7b\x7d\n" ++
  ".module " ++ quoteName (program ++ ".exe") ++ "\n" ++
  "\n" ++
  ".class private auto ansi beforefieldinit " ++ quoteName program ++ ".Program\n" ++
  frameConstructors

/-- What a frame has behind the allocation. -/
def frameBack (body program : String) : String :=
  "    stsfld     uint8[] " ++ quoteName program ++ ".Program::Memory\n" ++
  frameEntry ++
  body ++
  frameTail

theorem frame_eq (body program : String) (size : Nat) :
    frame body program size =
      frameFront program ++ ("    " ++ (sizeLine size).render ++ "\n" ++
        ("    " ++ allocationLine.render ++ "\n" ++ frameBack body program)) := by
  have hgap : 11 - "ldc.i4".length = 5 := by decide
  have hsize : "    " ++ (sizeLine size).render = "    ldc.i4     " ++ tapeSizeText size := by
    apply String.toList_inj.mp
    simp [sizeLine, Line.aligned, Line.render, hgap, List.replicate]
  have hallocation : "    " ++ allocationLine.render ++ "\n" =
      "    newarr     [mscorlib]System.Byte\n" := by decide
  rw [hsize, hallocation]
  unfold frame frameFront frameBack
  simp only [String.append_assoc]

theorem readable_sizeLine (size : Nat) : (sizeLine size).Readable := by
  refine Line.readable_spaced (by decide) (by decide) (isOperand_of_solid ?_ ?_)
  · rw [toList_tapeSizeText]
    exact List.cons_ne_nil _ _
  · rw [toList_tapeSizeText, Solid, List.forall_mem_cons, List.forall_mem_cons]
    exact ⟨by decide, by decide, solid_toDigits (by decide) (by decide) size⟩

theorem readable_allocationLine : allocationLine.Readable :=
  Line.readable_spaced (by decide) (by decide) (by decide)

/-- Behind the front of a frame stand the load of the tape size and the
allocation. -/
theorem program_read_behind_front (body program : String) (size : Nat) :
    ∃ behind later, frame body program size = frameFront program ++ behind ∧
      (Listing.read behind).program.toList =
        (sizeLine size).instruction :: allocationLine.instruction :: later := by
  refine ⟨_, (Listing.read (frameBack body program)).program.toList, frame_eq body program size, ?_⟩
  rw [Listing.program_read_indented (readable_sizeLine size),
    Listing.program_read_indented readable_allocationLine]

/-! ### The parts of a frame -/

/-- A frame is taken apart from the left: the name behind a fixed text, then the
size behind a text that the name fixes, then the body before the fixed end. -/
theorem frame_inj {body otherBody program otherProgram : String} {size otherSize : Nat}
    (hframe : frame body program size = frame otherBody otherProgram otherSize) :
    body = otherBody ∧ program = otherProgram ∧ size = otherSize := by
  have htext := congrArg String.toList hframe
  unfold frame at htext
  simp only [String.toList_append, List.append_assoc, List.append_cancel_left_eq] at htext
  obtain ⟨rfl, hbehindName⟩ := quoteName_append_inj htext
  simp only [List.append_cancel_left_eq] at hbehindName
  obtain ⟨rfl, hbehindSize⟩ := tapeSizeText_append_inj hbehindName
  simp only [List.append_cancel_left_eq] at hbehindSize
  exact ⟨String.toList_inj.mp (List.append_cancel_right hbehindSize), rfl, rfl⟩

/-- Two frames are the same text exactly if they have the same body, the same
program name and the same tape size. -/
theorem frame_determines_parts {body otherBody program otherProgram : String}
    {size otherSize : Int} (hsize : 0 < size) (hother : 0 < otherSize) :
    frame? body program size = frame? otherBody otherProgram otherSize ↔
      body = otherBody ∧ program = otherProgram ∧ size = otherSize := by
  constructor
  · intro hframe
    rw [frame?, frame?, if_pos hsize, if_pos hother, Option.some.injEq] at hframe
    obtain ⟨hbody, hprogram, hnat⟩ := frame_inj hframe
    exact ⟨hbody, hprogram, by omega⟩
  · rintro ⟨rfl, rfl, rfl⟩
    rfl

/-- A backslash before an apostrophe is told from the one that quoting puts there,
and a body that repeats the end of a frame from that end. -/
theorem frame_determines_parts_lookalikes :
    (0 : Int) < 16 ∧ frame? "" "a\x27" 16 ≠ frame? "" "a\\\x27" 16 ∧
      frame? frameTail "a" 16 ≠ frame? "" "a" 16 := by
  refine ⟨by decide, fun hsame => ?_, fun hsame => ?_⟩
  · have hprogram := ((frame_determines_parts (by decide) (by decide)).mp hsame).2.1
    exact absurd hprogram (by decide)
  · have hbody := ((frame_determines_parts (by decide) (by decide)).mp hsame).1
    exact absurd hbody (by decide)

end Assembly

namespace Machine

open Assembly

/-! ### The declared size -/

/-- Behind the front of a frame a text loads a number, as the machine reads it, and
allocates a tape of that size. -/
def Declares (program text : String) (size : Int) : Prop :=
  ∃ behind load later,
    text = frameFront program ++ behind ∧
    (Listing.read behind).program.toList =
      load :: { opcode := "newarr", operand := "[mscorlib]System.Byte" } :: later ∧
    load.opcode = "ldc.i4" ∧
    ∀ labels, Operation.decode labels load = .push (.ok size)

theorem decode_sizeLine (labels : Labels) (size : Nat) :
    Operation.decode labels (sizeLine size).instruction = .push (.ok (Numeral.wrap size)) := by
  change Operation.push ((Numeral.readLiteral .marked (tapeSizeText size)).map Numeral.wrap) = _
  rw [readLiteral_tapeSizeText]
  rfl

/-- The machine reads the size in a frame as a word. -/
theorem declares_frame_iff (body program : String) (size : Nat) (declared : Int) :
    Declares program (frame body program size) declared ↔ declared = Numeral.wrap size := by
  obtain ⟨behind, later, htext, hcode⟩ := program_read_behind_front body program size
  constructor
  · rintro ⟨other, load, rest, hother, hread, -, hdecode⟩
    obtain rfl : behind = other := by
      have hsame := congrArg String.toList (htext.symm.trans hother)
      rw [String.toList_append, String.toList_append] at hsame
      exact String.toList_inj.mp (List.append_cancel_left hsame)
    obtain rfl : (sizeLine size).instruction = load := (List.cons.inj (hcode.symm.trans hread)).1
    have hpush := (hdecode []).symm.trans (decode_sizeLine [] size)
    exact Except.ok.inj (Operation.push.inj hpush)
  · intro hdeclared
    rw [hdeclared]
    exact ⟨behind, _, later, htext, hcode, rfl, fun labels => decode_sizeLine labels size⟩

/-- A frame that is made for a size declares it, as the machine reads it, exactly if
the size is below `2 ^ 31`, and otherwise declares the word that the size wraps to.
A machine of the size, if it can be had, has a tape of just that size. -/
theorem frame_declares_size_iff {body program text : String} {size : Int}
    (hframe : frame? body program size = some text) :
    (Declares program text size ↔ size < 0x80000000) ∧
      Declares program text (Numeral.wrap size) ∧
      ∀ state, State.new size = .ok state → (state.tape.size : Int) = size := by
  obtain ⟨hpositive, htext⟩ : 0 < size ∧ frame body program size.toNat = text := by
    simpa [frame?] using hframe
  have hnat : (size.toNat : Int) = size := Int.toNat_of_nonneg (by omega)
  have hdeclares (declared : Int) :
      Declares program text declared ↔ declared = Numeral.wrap size := by
    rw [← htext, declares_frame_iff, hnat]
  refine ⟨?_, (hdeclares _).mpr rfl, ?_⟩
  · rw [hdeclares]
    constructor
    · intro hwrap
      rw [hwrap]
      exact Numeral.wrap_upper size
    · intro hword
      exact (Numeral.wrap_of_range (by omega) hword).symm
  · intro state hstate
    unfold State.new at hstate
    split at hstate
    · cases hstate
    · split at hstate
      · cases hstate
      · cases hstate
        exact hnat

/-- The greatest size that is declared, for a name and a body that look like parts
of a frame. -/
theorem frame_declares_size_greatest :
    ∃ text,
      frame? "    ldc.i4     0x1\n    newarr     [mscorlib]System.Byte\n" "it\x27s\n" 0x7fffffff =
        some text ∧
      Declares "it\x27s\n" text 0x7fffffff :=
  ⟨_, if_pos (by decide), (frame_declares_size_iff (if_pos (by decide))).1.mpr (by decide)⟩

/-- A frame for the next size declares a negative one, and there is a machine of
that size. -/
theorem frame_declares_size_wrapped :
    ∃ text state, frame? "" "P" 0x80000000 = some text ∧
      ¬ Declares "P" text 0x80000000 ∧ Declares "P" text (-0x80000000) ∧
      State.new 0x80000000 = .ok state ∧ state.tape.size = 0x80000000 := by
  have hwrap : Numeral.wrap ((0x80000000 : Nat) : Int) = -0x80000000 := by decide
  refine ⟨_, _, if_pos (by decide), ?_, ?_, rfl, rfl⟩
  · intro hdeclares
    have hsame := (declares_frame_iff "" "P" 0x80000000 _).mp hdeclares
    rw [hwrap] at hsame
    exact absurd hsame (by decide)
  · exact (declares_frame_iff "" "P" 0x80000000 _).mpr hwrap.symm

end Machine
end TapeCompiler
