import TapeCompiler.Proofs.Building
import TapeCompiler.Proofs.Framing

/-!
# ASCII code

Assembly text can be written to a file only if it is ASCII.  All that a compile
puts into it is ASCII but for the name of the program (`isAscii_frame`,
`isAscii_bodyOf`), and comments of the source do not get into it.  A name that
is made from that of a file is an identifier (`isIdentifier_identifierOf`),
whatever characters the file name has.

Hence a build fails on the encoding of its text only if it is asked for a name
that is not ASCII (`avoids_buildExecutable`).

Main statement: `code_ascii_iff_name_ascii`.
-/

namespace TapeCompiler

namespace Text

/-- All characters of a text are ASCII. -/
def IsAscii (text : String) : Prop :=
  ∀ c ∈ text.toList, c.toNat < 0x80

instance (text : String) : Decidable (IsAscii text) :=
  List.decidableBAll _ text.toList

-- A literal is the text of its characters, and these are quicker to decide on than
-- what `toList` gets from its bytes.
theorem isAscii_ofList {chars : List Char} (hchars : chars.all (·.toNat < 0x80) = true) :
    IsAscii (String.ofList chars) := by
  unfold IsAscii
  rw [String.toList_ofList]
  simpa using hchars

theorem Encoding.asciiBytes?_eq_none_iff {text : String} :
    asciiBytes? text = none ↔ ¬ IsAscii text := by
  unfold asciiBytes? IsAscii
  split <;> simp_all

@[simp] theorem isAscii_append {first second : String} :
    IsAscii (first ++ second) ↔ IsAscii first ∧ IsAscii second := by
  unfold IsAscii
  rw [String.toList_append, List.forall_mem_append]

theorem isAscii_join {texts : List String} (htexts : ∀ text ∈ texts, IsAscii text) :
    IsAscii (String.join texts) := by
  unfold IsAscii
  rw [String.toList_join]
  intro c hc
  obtain ⟨text, htext, hmem⟩ := List.mem_flatMap.mp hc
  exact htexts text htext c hmem

theorem isAscii_intercalate {separator : String} (hseparator : IsAscii separator)
    {texts : List String} (htexts : ∀ text ∈ texts, IsAscii text) :
    IsAscii (separator.intercalate texts) := by
  induction texts with
  | nil => simp [IsAscii]
  | cons text rest ih =>
      rw [List.forall_mem_cons] at htexts
      by_cases hrest : rest = []
      · simpa [hrest] using htexts.1
      · rw [String.intercalate_cons_of_ne_nil hrest]
        simp [htexts.1, hseparator, ih htexts.2]

theorem toNat_of_mem_toDigits {base : Nat} (hone : 1 < base) (hbase : base ≤ 16) (n : Nat) :
    ∀ c ∈ Nat.toDigits base n, c.toNat < 0x80 :=
  Numeral.forall_mem_toDigits hone hbase (by decide) n

theorem isAscii_numbered {text front : String} {n : Nat} (hfront : IsAscii front)
    (htext : text.toList = front.toList ++ Nat.toDigits 10 n) : IsAscii text := by
  unfold IsAscii
  rw [htext, List.forall_mem_append]
  exact ⟨hfront, toNat_of_mem_toDigits (by decide) (by decide) n⟩

theorem isAscii_natural (n : Nat) : IsAscii (toString n) := by
  have htext : (toString n).toList = "".toList ++ Nat.toDigits 10 n := Nat.toList_repr
  exact isAscii_numbered (by decide) htext

end Text

namespace Assembly

open Text

/-! ### Names -/

/-- A letter or an underscore, and behind it letters, digits and underscores. -/
def IsIdentifier (name : String) : Prop :=
  ∃ first rest, name.toList = first :: rest ∧ (first.isAlpha = true ∨ first = '_') ∧
    ∀ c ∈ rest, isIdentifierChar c = true

theorem toNat_of_isIdentifierChar {c : Char} (hc : isIdentifierChar c = true) :
    c.toNat < 0x80 := by
  have hkinds : (((c.isUpper || c.isLower) || c.isDigit) || c == '_') = true := hc
  simp only [Bool.or_eq_true, beq_iff_eq] at hkinds
  rcases hkinds with ((hupper | hlower) | hdigit) | rfl
  · have hlast : c.toNat ≤ 90 := (of_decide_eq_true hupper).2
    omega
  · have hlast : c.toNat ≤ 122 := of_decide_eq_true (Bool.and_eq_true_iff.mp hlower).2
    omega
  · have hrange := Numeral.range_of_isDigit hdigit
    omega
  · decide

theorem isIdentifierChar_of_first {c : Char} (hc : c.isAlpha = true ∨ c = '_') :
    isIdentifierChar c = true := by
  rcases hc with halpha | rfl
  · simp [isIdentifierChar, Char.isAlphanum, halpha]
  · decide

theorem IsIdentifier.isAscii {name : String} (hname : IsIdentifier name) : IsAscii name := by
  obtain ⟨first, rest, htext, hfirst, hrest⟩ := hname
  unfold IsAscii
  rw [htext, List.forall_mem_cons]
  exact ⟨toNat_of_isIdentifierChar (isIdentifierChar_of_first hfirst),
    fun c hc => toNat_of_isIdentifierChar (hrest c hc)⟩

/-- Every text gives an identifier: no character is left that may not stand in one, and
the first is no digit. -/
theorem isIdentifier_identifierOf (text : String) : IsIdentifier (identifierOf text) := by
  have hchars : ∀ c ∈ text.toList.map fun c => if isIdentifierChar c then c else '_',
      isIdentifierChar c = true := by
    rw [List.forall_mem_map]
    intro c _
    by_cases hc : isIdentifierChar c = true
    · rw [if_pos hc, hc]
    · rw [if_neg hc]
      decide
  rw [identifierOf]
  split
  · exact ⟨'P', "rogram".toList, by decide, by decide, List.all_eq_true.mp (by decide)⟩
  · rename_i first rest hmap
    rw [hmap, List.forall_mem_cons] at hchars
    split
    · -- The digit moves behind the underscore.
      refine ⟨'_', first :: rest, by simp, by decide, ?_⟩
      rw [List.forall_mem_cons]
      exact hchars
    · rename_i hdigit
      refine ⟨first, rest, by simp, ?_, hchars.2⟩
      simpa [isIdentifierChar, Char.isAlphanum, hdigit] using hchars.1

@[simp] theorem isAscii_quoteName {name : String} : IsAscii (quoteName name) ↔ IsAscii name :=
  forall_mem_quoteName (by decide) (by decide) name

/-! ### Code -/

theorem Line.isAscii_render {line : Line} (hlabel : ∀ label ∈ line.label, IsAscii label)
    (hopcode : IsAscii line.instruction.opcode) (hoperand : IsAscii line.instruction.operand) :
    IsAscii line.render := by
  have hgap : IsAscii (String.ofList (List.replicate line.gap ' ')) := isAscii_ofList (by simp)
  unfold render
  simp only [isAscii_append]
  refine ⟨⟨⟨?_, hopcode⟩, hgap⟩, hoperand⟩
  cases hline : line.label with
  | none => decide
  | some label =>
      simp only [isAscii_append]
      exact ⟨hlabel label hline, by decide⟩

theorem isAscii_frame {body program : String} {size : Nat} :
    IsAscii (frame body program size) ↔ IsAscii program ∧ IsAscii body := by
  have hsize : IsAscii (tapeSizeText size) := by
    unfold IsAscii
    rw [toList_tapeSizeText, List.forall_mem_cons, List.forall_mem_cons]
    exact ⟨by decide, by decide, toNat_of_mem_toDigits (by decide) (by decide) size⟩
  constructor
  · intro hframe
    unfold frame at hframe
    simp only [isAscii_append, isAscii_quoteName] at hframe
    -- The name and the body are among the parts.
    grind
  · rintro ⟨hprogram, hbody⟩
    unfold frame frameHead frameConstructors frameEntry frameTail
    simp only [isAscii_append, isAscii_quoteName, hprogram, hbody, hsize, true_and, and_true]
    and_intros <;> exact isAscii_ofList (by decide)

end Assembly

namespace Compiler

open Assembly Source Text

theorem isAscii_startLabel (number : Nat) : IsAscii (startLabel number) :=
  isAscii_numbered (by decide) (toList_startLabel number)

theorem isAscii_endLabel (number : Nat) : IsAscii (endLabel number) :=
  isAscii_numbered (by decide) (toList_endLabel number)

theorem isAscii_labelsOf (segment : Segment Nat) : ∀ label ∈ labelsOf segment, IsAscii label := by
  cases segment with
  | plain action => simp [labelsOf]
  | loopStart number => simp [labelsOf, isAscii_startLabel]
  | loopEnd number => simp [labelsOf, isAscii_endLabel]

section Code

variable {program : String} (hprogram : IsAscii program)
include hprogram

theorem isAscii_memoryField : IsAscii (memoryField program) := by
  rw [show memoryField program = "uint8[] " ++ quoteName program ++ ".Program::Memory" from rfl]
  simp only [isAscii_append, isAscii_quoteName]
  exact ⟨⟨by decide, hprogram⟩, by decide⟩

theorem isAscii_counterField : IsAscii (counterField program) := by
  rw [show counterField program = "int32 " ++ quoteName program ++ ".Program::Counter" from rfl]
  simp only [isAscii_append, isAscii_quoteName]
  exact ⟨⟨by decide, hprogram⟩, by decide⟩

theorem isAscii_instructionsOf (segment : Segment Nat) :
    ∀ instruction ∈ instructionsOf program segment,
      IsAscii instruction.opcode ∧ IsAscii instruction.operand := by
  have hmemory := isAscii_memoryField hprogram
  have hcounter := isAscii_counterField hprogram
  have hdirection (direction : Direction) : IsAscii direction.opcode := by
    cases direction <;> decide
  cases segment with
  | plain action =>
      cases action <;>
      · simp only [instructionsOf, List.forall_mem_cons, List.not_mem_nil, false_implies,
          implies_true, hmemory, hcounter, isAscii_natural, hdirection, and_true, true_and]
        and_intros <;> exact isAscii_ofList (by decide)
  | loopStart number =>
      simp only [instructionsOf, List.forall_mem_cons, List.not_mem_nil, false_implies,
        implies_true, hmemory, hcounter, isAscii_endLabel, and_true]
      and_intros <;> exact isAscii_ofList (by decide)
  | loopEnd number =>
      simp only [instructionsOf, List.forall_mem_cons, List.not_mem_nil, false_implies,
        implies_true, isAscii_startLabel, and_true]
      and_intros <;> exact isAscii_ofList (by decide)

theorem isAscii_linesOf (segment : Segment Nat) :
    ∀ line ∈ linesOf program segment, IsAscii line.render := by
  intro line hline
  have hinstruction : line.instruction ∈ instructionsOf program segment := by
    rw [← map_instruction_linesOf]
    exact List.mem_map_of_mem hline
  obtain ⟨hopcode, hoperand⟩ := isAscii_instructionsOf hprogram segment _ hinstruction
  refine Line.isAscii_render (fun label hlabel => ?_) hopcode hoperand
  have hmem : label ∈ labelsOf segment := by
    rw [← labelNames_linesOf program]
    exact List.mem_filterMap.mpr ⟨line, hline, hlabel⟩
  exact isAscii_labelsOf segment label hmem

/-- The body of a source is ASCII if the name of the program is: of the source itself
nothing but its commands gets into the body. -/
theorem isAscii_bodyOf (source : List Char) : IsAscii (bodyOf program source) := by
  apply isAscii_join
  rw [List.forall_mem_map]
  intro segment _
  unfold textOf blockText
  rw [isAscii_append]
  refine ⟨isAscii_intercalate (by decide) ?_, by decide⟩
  rw [List.forall_mem_map]
  exact isAscii_linesOf hprogram segment

end Code

theorem isAscii_programName {options : Options} :
    IsAscii options.programName ↔ ∀ name ∈ options.program, IsAscii name := by
  have hdefault : IsAscii defaultName := by decide
  have hempty : IsAscii "" := by decide
  unfold Options.programName
  cases options.program with
  | none => simpa using hdefault
  | some name =>
      by_cases hname : name = ""
      · simp [hname, hdefault, hempty]
      · simp [hname]

/-- What comes of a source is ASCII if and only if the name of the program is. -/
theorem isAscii_compileSource {options : Options} {source : String} {compilation : Compilation}
    (hcompiled : (compileSource options source).1 = .ok compilation) :
    IsAscii compilation.assembly ↔ ∀ name ∈ options.program, IsAscii name := by
  obtain ⟨-, -, rfl⟩ := compileSource_eq_ok_iff.mp hcompiled
  unfold compilationOf
  rw [isAscii_frame, ← isAscii_programName]
  exact ⟨fun hboth => hboth.1, fun hname => ⟨hname, isAscii_bodyOf hname source.toList⟩⟩

end Compiler

namespace Workspace

open Assembly Compiler Effects Source Text

/-! ### Builds -/

theorem Path.isIdentifier_programName (path : Path) : IsIdentifier path.programName :=
  isIdentifier_identifierOf path.stem

theorem avoids_compileFile (path : Path) (options : Options) (encoding : String) :
    (compileFile path options encoding).Avoids .notAscii := by
  rw [compileFile]
  refine (avoids_resolveSource not_isAccess_notAscii _).bind fun file =>
    (avoids_readSource not_isAccess_notAscii _ _).bind fun source =>
      (Task.avoids_modify _ _).bind fun _ => ?_
  split
  · exact Task.avoids_pure _ _
  · exact Task.avoids_throw (by simp)

/-- A file is compiled to ASCII code, unless another name is asked for. -/
theorem isAscii_compileFile {path : Path} {options : Options} {encoding : String}
    {bench : Workbench} {compilation : Compilation}
    (hname : ∀ name ∈ options.program, IsAscii name)
    (hcompiled : ((compileFile path options encoding).run bench).1 = .ok compilation) :
    IsAscii compilation.assembly := by
  rw [(run_compileFile path options encoding bench).1] at hcompiled
  obtain ⟨file, -, hcompiled⟩ := bind_eq_ok hcompiled
  obtain ⟨source, -, hcompiled⟩ := bind_eq_ok hcompiled
  rw [isAscii_compileSource (ok_of_mapError hcompiled)]
  intro name hmem
  obtain rfl := Option.some_inj.mp hmem
  have hfile := file.isIdentifier_programName.isAscii
  cases hprogram : options.program with
  | none => rwa [Option.getD_none]
  | some asked => exact hname asked hprogram

theorem avoids_assemble {text : String} (htext : IsAscii text) (base : Path)
    (explicit : Option String) (keep : Bool) :
    (assemble text base explicit keep).Avoids .notAscii := by
  intro bench
  rcases run_assemble text base explicit keep bench with ⟨-, hother, -⟩ |
    ⟨source, -, target, -, ⟨-, hnone, -⟩ | ⟨hother, -⟩⟩
  · exact hother
  · exact absurd htext (Encoding.asciiBytes?_eq_none_iff.mp hnone)
  · exact hother

/-- A build writes ASCII text, unless another name is asked for. -/
theorem avoids_buildExecutable {options : BuildOptions}
    (hname : ∀ name ∈ options.program, IsAscii name) (path : Path) :
    (buildExecutable path options).Avoids .notAscii := by
  rw [buildExecutable]
  refine (avoids_compileFile _ _ _).bind_given fun compilation hgiven => ?_
  obtain ⟨bench, hcompiled⟩ := hgiven
  refine (avoids_resolveSource not_isAccess_notAscii _).bind fun file => ?_
  split
  · exact Task.avoids_throw (by simp)
  · exact avoids_assemble (isAscii_compileFile hname hcompiled) _ _ _

/-- The name of a program that is made from the path of a file is an identifier,
whatever the path.  The code of a source is ASCII if and only if the name that is
asked for is.  Hence no build fails on characters that are not ASCII, whatever the
path and the content of its source, unless the name that is asked for has some. -/
theorem code_ascii_iff_name_ascii :
    (∀ text, IsIdentifier (Path.ofString text).programName) ∧
      (∀ options source, (∃ compilation, (compileSource options source).1 = .ok compilation) ↔
        Nested '[' ']' source.toList ∧ 0 < options.tapeSize) ∧
      (∀ options source compilation, (compileSource options source).1 = .ok compilation →
        (IsAscii compilation.assembly ↔ ∀ name ∈ options.program, IsAscii name)) ∧
      ∀ bench text (options : BuildOptions), (∀ name ∈ options.program, IsAscii name) →
        ((buildExecutable (Path.ofString text) options).run bench).1 ≠ .error .notAscii := by
  refine ⟨?_, ?_, ?_, ?_⟩
  · intro text
    exact Path.isIdentifier_programName _
  · intro options source
    simp [compileSource_eq_ok_iff]
  · intro options source compilation
    exact isAscii_compileSource
  · intro bench text options hname
    exact avoids_buildExecutable hname _ bench

/-- An assembler and a source of one command, with letters that are not ASCII in its
name and in a comment. -/
def accentedBench : Workbench :=
  { store := { nodes :=
      [(["asm"], .file { content := .program {}, executable := true }),
       (["3é.bf"], .file { content := .data [43, 195, 169] })] }
    environment := { assembler := some "./asm" } }

/-- A build of such a source does not fail on these letters, but code under a name with
one of them is not ASCII. -/
theorem code_ascii_iff_name_ascii_accented :
    (Path.ofString "3é.bf").programName = "_3_" ∧ IsIdentifier "_3_" ∧
      accentedBench.store.read "3é.bf" = .ok [43, 195, 169] ∧
      ((buildExecutable (Path.ofString "3é.bf") {}).run accentedBench).1 ≠ .error .notAscii ∧
      ∃ compilation, (compileSource { program := some "é" } "+").1 = .ok compilation ∧
        ¬ IsAscii compilation.assembly := by
  obtain ⟨hidentifier, haccepted, hcode, hbuild⟩ := code_ascii_iff_name_ascii
  have hfile : (Path.ofString "3é.bf").programName = "_3_" := by decide +kernel
  have hnested : Nested '[' ']' "+".toList := (nested_iff_descend bracket_ne).mpr rfl
  obtain ⟨compilation, hcompiled⟩ :=
    (haccepted { program := some "é" } "+").mpr ⟨hnested, by decide⟩
  refine ⟨hfile, hfile ▸ hidentifier "3é.bf", rfl, hbuild accentedBench "3é.bf" {} (by simp),
    compilation, hcompiled, fun hascii => ?_⟩
  have hname := (hcode _ _ _ hcompiled).mp hascii "é" rfl
  exact absurd hname (by decide)

end Workspace
end TapeCompiler
