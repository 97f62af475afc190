import TapeCompiler.Proofs.MaximalRuns
import TapeCompiler.Proofs.Wiring

/-!
# The program behind a compiled body

A body can be read in one way only.  Its text determines its instructions, since
they are read back from it, and no block of instructions is the start of another
one, so the instructions determine the blocks (`flatMap_instructionsOf_injective`)
with their counts and their loop numbers.  The blocks without the numbers are the
runs of the source, those of commands that are not fused taken apart into single
occurrences (`map_piece_bareSegments`).

Main statement: `compiled_body_determines_program`.
-/

namespace TapeCompiler
namespace Source

/-! ### Runs taken apart -/

/-- The commands of a run with their counts, where only moves and changes are
counted together. -/
def Run.pieces (run : Run) : List (Command × Nat) :=
  match run.command with
  | .right | .left | .increment | .decrement => [(run.command, run.count)]
  | .write | .read | .loopStart | .loopEnd => List.replicate run.count (run.command, 1)

def Segment.piece : Segment Unit → Command × Nat
  | .plain (.move direction count) => (.moving direction, count)
  | .plain (.change direction count) => (.changing direction, count)
  | .plain .write => (.write, 1)
  | .plain .read => (.read, 1)
  | .loopStart _ => (.loopStart, 1)
  | .loopEnd _ => (.loopEnd, 1)

theorem Segment.piece_injective : Function.Injective Segment.piece := by
  rintro ((⟨_ | _, _⟩ | ⟨_ | _, _⟩ | _ | _) | _ | _)
    ((⟨_ | _, _⟩ | ⟨_ | _, _⟩ | _ | _) | _ | _) hpiece <;>
  simp_all [piece, Command.moving, Command.changing]

theorem Run.map_piece_segments (run : Run) :
    run.segments.map (fun segment => segment.bare.piece) = run.pieces := by
  obtain ⟨command, count, pos⟩ := run
  cases command <;>
  simp [Run.segments, Run.pieces, Segment.bare, Segment.map, Segment.piece, Command.moving,
    Command.changing, Function.comp_def, List.map_const']

/-- The segments of a source are its runs taken apart. -/
theorem map_piece_bareSegments (source : List Char) :
    (bareSegments source).map Segment.piece = (runs source).flatMap Run.pieces := by
  simp only [bareSegments, segments, List.map_map, List.map_flatMap, Function.comp_def,
    Run.map_piece_segments]

theorem map_toChar_commands (source : List Char) :
    (commands source).map Command.toChar = source.filter (· ∈ operators) := by
  induction source with
  | nil => rfl
  | cons c rest ih =>
      rw [commands] at ih ⊢
      cases hc : Command.ofChar? c with
      | none =>
          have hcomment : c ∉ operators := by simp [mem_operators_iff, hc]
          simp [hc, hcomment, ih]
      | some command =>
          have hcommand : c ∈ operators := mem_operators_iff.mpr ⟨command, hc⟩
          simp [hc, hcommand, ih, ← Command.ofChar?_eq_some_iff.mp hc]

end Source

namespace Assembly

theorem memoryField_ne_counterField (program : String) :
    memoryField program ≠ counterField program := by
  intro hfield
  -- The two references part at their first character.
  have htext := congrArg (fun field => field.toList.head?) hfield
  simp [toList_memoryField, toList_counterField] at htext

theorem Direction.opcode_injective : Function.Injective Direction.opcode := by
  intro first second hopcode
  cases first <;> cases second <;> simp_all [Direction.opcode]

end Assembly

namespace Compiler

open Assembly Source

/-! ### Blocks of instructions -/

/-- No block of instructions is the start of another one: the first instructions
tell the kinds of blocks apart, and the operands the blocks of one kind. -/
theorem instructionsOf_append_inj {program : String} {first second : Segment Nat}
    {rest others : List Instruction}
    (hcode : instructionsOf program first ++ rest = instructionsOf program second ++ others) :
    first = second ∧ rest = others := by
  have hfield := memoryField_ne_counterField program
  have hcount {m n : Nat} (htext : toString m = toString n) : m = n := by
    have hdigits : m.repr.toList = n.repr.toList := congrArg String.toList htext
    rw [Nat.toList_repr, Nat.toList_repr] at hdigits
    exact Numeral.toDigits_injective (by decide) (by decide) hdigits
  rcases first with (⟨_, _⟩ | ⟨_, _⟩ | _ | _) | _ | _ <;>
    rcases second with (⟨_, _⟩ | ⟨_, _⟩ | _ | _) | _ | _
  case plain.move.plain.move =>
    simp only [instructionsOf, List.cons_append, List.nil_append, List.cons.injEq,
      Instruction.mk.injEq] at hcode
    obtain ⟨-, ⟨-, htext⟩, ⟨hopcode, -⟩, -, hrest⟩ := hcode
    rw [hcount htext, Direction.opcode_injective hopcode]
    exact ⟨rfl, hrest⟩
  case plain.change.plain.change =>
    simp only [instructionsOf, List.cons_append, List.nil_append, List.cons.injEq,
      Instruction.mk.injEq] at hcode
    obtain ⟨-, -, -, -, -, ⟨-, htext⟩, ⟨hopcode, -⟩, -, -, hrest⟩ := hcode
    rw [hcount htext, Direction.opcode_injective hopcode]
    exact ⟨rfl, hrest⟩
  all_goals
    simp_all [instructionsOf, hfield.symm, startLabel_injective.eq_iff, endLabel_injective.eq_iff]

theorem flatMap_instructionsOf_injective (program : String) :
    Function.Injective fun blocks : List (Segment Nat) =>
      blocks.flatMap (instructionsOf program) := by
  have hsome (block : Segment Nat) : instructionsOf program block ≠ [] := by
    rcases block with (_ | _ | _ | _) | _ | _ <;> simp [instructionsOf]
  intro first
  induction first with
  | nil =>
      rintro (_ | ⟨block, rest⟩) hcode
      · rfl
      · simp [hsome] at hcode
  | cons block rest ih =>
      rintro (_ | ⟨other, others⟩) hcode
      · simp [hsome] at hcode
      · simp only [List.flatMap_cons] at hcode
        obtain ⟨rfl, hrest⟩ := instructionsOf_append_inj hcode
        rw [ih hrest]

/-- Bodies are equal exactly for sources with the same segments. -/
theorem bodyOf_eq_iff {program : String} (hprogram : '\n' ∉ program.toList)
    {first second : List Char} :
    bodyOf program first = bodyOf program second ↔ bareSegments first = bareSegments second := by
  constructor
  · intro hbody
    have hlisting : listingOf program (blocksOf first) = listingOf program (blocksOf second) := by
      rw [← (read_bodyOf hprogram first).1, hbody, (read_bodyOf hprogram second).1]
    have hcode := congrArg (fun listing => listing.program.toList) hlisting
    simp only [program_listingOf] at hcode
    have hblocks : blocksOf first = blocksOf second :=
      flatMap_instructionsOf_injective program hcode
    rw [← map_bare_numbered {} (bareSegments first), ← map_bare_numbered {} (bareSegments second)]
    exact congrArg (List.map Segment.bare) hblocks
  · intro hsegments
    rw [bodyOf, bodyOf, blocksOf, blocksOf, hsegments]

namespace Session

/-- Two sources that are compiled under one program name have the same body
exactly if their runs are the same once those of commands other than moves and
changes are taken apart.  So a body determines the commands of its source. -/
theorem compiled_body_determines_program {session other : Session}
    {first second body otherBody : String}
    (hsame : other.generator.program = session.generator.program)
    (hprogram : '\n' ∉ session.generator.program.toList)
    (hfirst : (session.compile first).result = .ok body)
    (hsecond : (other.compile second).result = .ok otherBody) :
    (body = otherBody ↔
      (Source.runs first.toList).flatMap Run.pieces =
        (Source.runs second.toList).flatMap Run.pieces) ∧
    (body = otherBody →
      first.toList.filter (· ∈ operators) = second.toList.filter (· ∈ operators)) := by
  obtain ⟨-, rfl⟩ := compile_eq_ok hfirst
  obtain ⟨-, rfl⟩ := compile_eq_ok hsecond
  rw [hsame, bodyOf_eq_iff hprogram]
  constructor
  · rw [← map_piece_bareSegments, ← map_piece_bareSegments,
      Segment.piece_injective.list_map.eq_iff]
  · intro hsegments
    rw [← map_toChar_commands, ← map_toChar_commands, ← flatMap_commands_bareSegments,
      ← flatMap_commands_bareSegments, hsegments]

/-- A comment within a run shows in the body if the run is fused, and only
then. -/
theorem compiled_body_determines_program_comment :
    ∃ written others fused parted,
      ((new "p" true 10).compile "..").result = .ok written ∧
      ((new "p" false 10).compile ". .").result = .ok others ∧
      ((new "p" true 10).compile "++").result = .ok fused ∧
      ((new "p" false 10).compile "+ +").result = .ok parted ∧
      written = others ∧ fused ≠ parted := by
  have hcompiled (strict : Bool) (source : String) (hnested : Nested '[' ']' source.toList) :=
    ((new "p" strict 10).compile_of_nested (checkBrackets_of_nested strict hnested) hnested).1
  have hwritten := hcompiled true ".." (by decide)
  have hothers := hcompiled false ". ." (by decide)
  have hfused := hcompiled true "++" (by decide)
  have hparted := hcompiled false "+ +" (by decide)
  refine ⟨_, _, _, _, hwritten, hothers, hfused, hparted, ?_, ?_⟩
  · have hpieces := (compiled_body_determines_program (by rfl) (by decide) hwritten hothers).1
    exact hpieces.mpr (by decide)
  · have hpieces := (compiled_body_determines_program (by rfl) (by decide) hfused hparted).1
    rw [ne_eq, hpieces]
    decide

end Session
end Compiler
end TapeCompiler
