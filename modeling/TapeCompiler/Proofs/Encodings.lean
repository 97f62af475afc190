import TapeCompiler.Proofs.Bytes
import TapeCompiler.Proofs.Outline
import TapeCompiler.Proofs.Tasks

/-!
# Source files in any encoding

The bytes of a source file beyond ASCII stand in comments, and so does whatever
an encoding makes of them.  The three encodings differ in how many characters
that is, and so do files with other newlines, but a comment stays a comment of
at least one character.  The outline of the text is therefore that of the bytes
themselves, and with the outline the compiled code is the same.

Main statement: `compileFile_in_any_encoding`.
-/

namespace TapeCompiler

open Source Text

/-! ### The outline of a decoded text -/

theorem Source.Command.ofChar?_ofNat {code : Nat} (hcode : 0x80 ≤ code) :
    ofChar? (Char.ofNat code) = none := by
  cases hcommand : ofChar? (Char.ofNat code) with
  | none => rfl
  | some command =>
      have hsame : (Char.ofNat code).toNat = command.toChar.toNat :=
        congrArg Char.toNat (ofChar?_eq_some_iff.mp hcommand)
      have hcode' : (Char.ofNat code).toNat = code ∨ (Char.ofNat code).toNat = 0 := by
        by_cases hvalid : code.isValidChar
        · left
          rw [Char.ofNat, dif_pos hvalid]
          rfl
        · right
          rw [Char.ofNat, dif_neg hvalid]
          rfl
      have hascii : 0 < command.toChar.toNat ∧ command.toChar.toNat < 0x80 := by
        cases command <;> decide
      omega

namespace Text

variable (behind : Outline)

theorem Encoding.ofChar?_byteChar {byte : UInt8} (hbyte : 0x80 ≤ byte) :
    Command.ofChar? (byteChar byte) = none :=
  Command.ofChar?_ofNat (UInt8.le_iff_toNat_le.mp hbyte)

/-- Uniform newlines do not change the outline. -/
theorem onto_normalizeNewlines (text : List Char) :
    Outline.onto (normalizeNewlines text) behind = Outline.onto text behind := by
  fun_induction normalizeNewlines text with
  | case1 => rfl
  | case2 rest ih =>
      -- Two comment characters become one.
      rw [Outline.onto_cons, Outline.onto_cons, Outline.onto_cons, ih]
      rfl
  | case3 rest hnext ih =>
      rw [Outline.onto_cons, Outline.onto_cons, ih]
      rfl
  | case4 c rest hother hpair ih => rw [Outline.onto_cons, Outline.onto_cons, ih]

def Utf8.Piece.char (substitute : Char) : Utf8.Piece → Char
  | .character c => c
  | .illFormed _ _ => substitute

theorem Utf8.decodeWith_eq (substitute : Char) (bytes : List UInt8) :
    decodeWith substitute bytes = (piecesFrom 0 bytes).map (Piece.char substitute) := by
  apply List.map_congr_left
  intro piece _
  cases piece <;> rfl

/-- Reading UTF-8 keeps the outline of the bytes.  Inside a piece, where bytes
have been taken in already, it does so behind the comment that the piece is. -/
theorem Utf8.onto_piecesFrom {substitute : Char} (hsubstitute : Command.ofChar? substitute = none)
    (skip : Nat) (bytes : List UInt8) (hskip : ∀ byte ∈ bytes.take skip, 0x80 ≤ byte) :
    let decoded := Outline.onto ((piecesFrom skip bytes).map (Piece.char substitute)) behind
    let plain := Outline.onto (bytes.map Encoding.byteChar) behind
    decoded.gap = plain.gap ∧ (skip = 0 → decoded = plain) := by
  induction bytes generalizing skip with
  | nil => cases skip <;> exact ⟨rfl, fun _ => rfl⟩
  | cons byte rest ih =>
      intro decoded plain
      have hplain : plain = (Outline.onto (rest.map Encoding.byteChar) behind).extend
        (Encoding.byteChar byte) := rfl
      cases skip with
      | succ skip =>
          obtain ⟨hbyte, hrest⟩ := List.forall_mem_cons.mp hskip
          refine ⟨?_, nofun⟩
          rw [hplain, Outline.extend_comment _ (Encoding.ofChar?_byteChar hbyte)]
          exact (ih skip hrest).1
      | zero =>
          have hdecoded : decoded = (Outline.onto
              ((piecesFrom (firstPiece byte rest).2 rest).map (Piece.char substitute)) behind).extend
                ((firstPiece byte rest).1.char substitute) := rfl
          suffices hsame : decoded = plain from ⟨congrArg Outline.gap hsame, fun _ => hsame⟩
          rw [hdecoded, hplain]
          rcases firstPiece_cases byte rest with ⟨-, hpiece⟩ | ⟨hbyte, htaken, hcharacter⟩
          · rw [hpiece, (ih 0 nofun).2 rfl]
            rfl
          · have hcomment : Command.ofChar? ((firstPiece byte rest).1.char substitute) = none := by
              cases hpiece : (firstPiece byte rest).1 with
              | character c =>
                  obtain ⟨code, hcode, rfl⟩ := hcharacter c hpiece
                  exact Command.ofChar?_ofNat hcode
              | illFormed bytes reason => exact hsubstitute
            rw [Outline.extend_comment _ hcomment,
              Outline.extend_comment _ (Encoding.ofChar?_byteChar hbyte), (ih _ htaken).1]

/-- Every encoding keeps the outline of the bytes. -/
theorem Encoding.onto_decode (encoding : Encoding) (bytes : List UInt8) :
    Outline.onto (encoding.decode bytes) behind = Outline.onto (bytes.map byteChar) behind := by
  have hcomment : Command.ofChar? '\ufffd' = none := by decide
  cases encoding with
  | latin1 => rfl
  | utf8 =>
      change Outline.onto (Utf8.decodeWith '\ufffd' bytes) behind = _
      rw [Utf8.decodeWith_eq]
      exact (Utf8.onto_piecesFrom behind hcomment 0 bytes nofun).2 rfl
  | ascii =>
      induction bytes with
      | nil => rfl
      | cons byte rest ih =>
          change (Outline.onto (ascii.decode rest) behind).extend _ = _
          rw [ih, List.map_cons, Outline.onto_cons]
          dsimp only
          split
          · rfl
          · rename_i hbyte
            rw [Outline.extend_comment _ hcomment,
              Outline.extend_comment _ (ofChar?_byteChar (UInt8.not_lt.mp hbyte))]

/-- The runs of a source file are those of its bytes, whatever its encoding. -/
theorem Encoding.shapes_readText (encoding : Encoding) (bytes : List UInt8) :
    shapes (encoding.readText bytes).toList = shapes (bytes.map byteChar) := by
  rw [shapes_eq, shapes_eq, readText, String.toList_ofList, onto_normalizeNewlines, onto_decode]

def Encoding.name : Encoding → String
  | ascii => "ascii"
  | utf8 => "utf-8"
  | latin1 => "latin-1"

theorem Encoding.ofName?_name (encoding : Encoding) : ofName? encoding.name = some encoding := by
  cases encoding <;> rfl

end Text

/-! ### Compiled files -/

namespace Workspace

open Compiler Effects

/-- Failures of one kind: the same failure, or two reports on refused brackets,
which quote the text and may differ. -/
def Failure.Alike (first second : Failure) : Prop :=
  first = second ∨
    ∃ one other, first = .compile (.refused one) ∧ second = .compile (.refused other)

/-- Two texts of one file have the same shapes, and they are there together. -/
theorem readSource_agrees (file : Path) (first second : Encoding) (bench : Workbench) :
    Agree (fun one other => shapes one.toList = shapes other.toList) Failure.Alike
      ((readSource file first.name).run bench).1 ((readSource file second.name).run bench).1 := by
  rw [run_readSource, run_readSource, first.ofName?_name, second.ofName?_name]
  split
  · split
    · exact .inl rfl
    · rename_i bytes _
      exact (first.shapes_readText bytes).trans (second.shapes_readText bytes).symm
  · exact .inl rfl

/-- A source file is compiled to the same code in every encoding, or fails
alike; and its runs are those of its bytes, each taken for a character. -/
theorem compileFile_in_any_encoding (bench : Workbench) (path : Path) (options : Options)
    (first second : Encoding) :
    let one := ((compileFile path options first.name).run bench).1
    let other := ((compileFile path options second.name).run bench).1
    Agree Compilation.Alike Failure.Alike one other ∧
      ∀ compilation, one = .ok compilation →
        ∃ file bytes, ((resolveSource path).run bench).1 = .ok file ∧
          bench.store.read file.render = .ok bytes ∧
          compilation.runs.map Run.shape = shapes (bytes.map Encoding.byteChar) := by
  intro one other
  have hone := (run_compileFile path options first.name bench).1
  have hother := (run_compileFile path options second.name bench).1
  change one = _ at hone
  change other = _ at hother
  rw [hone, hother]
  constructor
  · cases ((resolveSource path).run bench).1 with
    | error failure => exact .inl rfl
    | ok file =>
        apply (readSource_agrees file first second bench).bind
        intro source source' hshapes
        apply (compileSource_agrees hshapes _).mapError
        rintro error error' (rfl | ⟨report, report', rfl, rfl⟩)
        · exact .inl rfl
        · exact .inr ⟨report, report', rfl, rfl⟩
  · intro compilation hcompiled
    obtain ⟨file, hfile, hcompiled⟩ := bind_eq_ok hcompiled
    obtain ⟨source, hsource, hcompiled⟩ := bind_eq_ok hcompiled
    rw [run_readSource, first.ofName?_name] at hsource
    split at hsource
    · split at hsource
      · cases hsource
      · rename_i bytes hread
        refine ⟨file, bytes, hfile, hread, ?_⟩
        rw [← first.shapes_readText bytes, Except.ok.inj hsource,
          runs_of_compileSource (ok_of_mapError hcompiled)]
        rfl
    · cases hsource

/-- A source file of two commands with the first byte of a longer character
between them. -/
def malformedBench : Workbench :=
  { store := { nodes := [(["prog.bf"], .file { content := .data [0x2B, 0xC3, 0x2B] })] } }

/-- A byte that starts a character takes no command with it, and it keeps two runs
apart. -/
theorem compileFile_in_any_encoding_malformed :
    ∃ one other,
      ((compileFile (Path.ofString "prog.bf") {} "utf-8").run malformedBench).1 = .ok one ∧
      ((compileFile (Path.ofString "prog.bf") {} "latin-1").run malformedBench).1 = .ok other ∧
      one.assembly = other.assembly ∧
      one.runs.map Run.shape = [(.increment, 1), (.increment, 1)] := by
  have hone : ((compileFile (Path.ofString "prog.bf") {} "utf-8").run
    malformedBench).1.toOption.isSome = true := by decide +kernel
  have hother : ((compileFile (Path.ofString "prog.bf") {} "latin-1").run
    malformedBench).1.toOption.isSome = true := by decide +kernel
  obtain ⟨one, hone⟩ := Option.isSome_iff_exists.mp hone
  obtain ⟨other, hother⟩ := Option.isSome_iff_exists.mp hother
  have hone := ok_of_toOption hone
  have hother := ok_of_toOption hother
  obtain ⟨hagree, hruns⟩ :=
    compileFile_in_any_encoding malformedBench (Path.ofString "prog.bf") {} .utf8 .latin1
  obtain ⟨file, bytes, hfile, hread, hshapes⟩ := hruns one hone
  change Agree _ _ ((compileFile (Path.ofString "prog.bf") {} "utf-8").run malformedBench).1
    ((compileFile (Path.ofString "prog.bf") {} "latin-1").run malformedBench).1 at hagree
  rw [hone, hother] at hagree
  have hfound : ((resolveSource (Path.ofString "prog.bf")).run malformedBench).1 =
    .ok (Path.ofString "prog.bf") := rfl
  rw [hfound] at hfile
  obtain rfl := Except.ok.inj hfile
  have hbytes : malformedBench.store.read (Path.ofString "prog.bf").render =
    .ok [0x2B, 0xC3, 0x2B] := rfl
  rw [hbytes] at hread
  obtain rfl := Except.ok.inj hread
  exact ⟨one, other, hone, hother, hagree.assembly, hshapes⟩

end Workspace
end TapeCompiler
