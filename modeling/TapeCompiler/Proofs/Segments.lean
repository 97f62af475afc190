import TapeCompiler.Assembly.Block
import TapeCompiler.Proofs.Nesting
import TapeCompiler.Source.Run

/-!
# Segments

A segment is what one block of code is generated for: a whole run of moves or
of cell changes, or a single occurrence of another command.  The brackets of
loops carry a mark: their index in the source as the source is cut, the number
of their loop once loops are numbered, or nothing.

The segments of a source are those of its runs in order.  Main statements: a
bracket always has a segment of its own, so cutting the source at a bracket
cuts the segments (`segments_split`); and the commands of the segments are the
commands of the source (`flatMap_commands_bareSegments`).
-/

namespace TapeCompiler
namespace Source

open Assembly

/-- The commands of a source, comments left out. -/
def commands (source : List Char) : List Command :=
  source.filterMap Command.ofChar?

theorem Command.ne_bracket_of_comment {c : Char} (hc : Command.ofChar? c = none) :
    c ≠ '[' ∧ c ≠ ']' := by
  constructor
  · rintro rfl
    cases hc
  · rintro rfl
    cases hc

/-- A segment that is no bracket. -/
inductive Plain where
  | move (direction : Direction) (count : Nat)
  | change (direction : Direction) (count : Nat)
  | write
  | read
deriving DecidableEq, Repr

/-- A segment whose brackets carry marks. -/
inductive Segment (ν : Type) where
  | plain (action : Plain)
  | loopStart (mark : ν)
  | loopEnd (mark : ν)
deriving DecidableEq, Repr

/-- The command that moves the cursor by one cell. -/
def Command.moving : Direction → Command
  | .up => .right
  | .down => .left

/-- The command that changes a cell by one. -/
def Command.changing : Direction → Command
  | .up => .increment
  | .down => .decrement

namespace Plain

/-- The commands of a plain segment. -/
def commands : Plain → List Command
  | move direction count => List.replicate count (.moving direction)
  | change direction count => List.replicate count (.changing direction)
  | write => [.write]
  | read => [.read]

/-- The number of instructions of a plain segment. -/
def size : Plain → Nat
  | move _ _ => 4
  | change _ _ => 9
  | write => 6
  | read => 7

theorem ne_bracket_of_mem_commands {action : Plain} {command : Command}
    (hcommand : command ∈ action.commands) : command ≠ .loopStart ∧ command ≠ .loopEnd := by
  cases action with
  | move direction count =>
      rw [List.eq_of_mem_replicate hcommand]
      cases direction <;> decide
  | change direction count =>
      rw [List.eq_of_mem_replicate hcommand]
      cases direction <;> decide
  | write =>
      rw [List.mem_singleton.mp hcommand]
      decide
  | read =>
      rw [List.mem_singleton.mp hcommand]
      decide

end Plain

namespace Segment

variable {ν μ : Type}

def map (f : ν → μ) : Segment ν → Segment μ
  | plain action => plain action
  | loopStart mark => loopStart (f mark)
  | loopEnd mark => loopEnd (f mark)

def bare (segment : Segment ν) : Segment Unit :=
  segment.map fun _ => ()

/-- The commands of a segment. -/
def commands : Segment ν → List Command
  | plain action => action.commands
  | loopStart _ => [.loopStart]
  | loopEnd _ => [.loopEnd]

/-- The number of instructions of a segment. -/
def size : Segment ν → Nat
  | plain action => action.size
  | loopStart _ => 7
  | loopEnd _ => 2

@[simp] theorem commands_bare (segment : Segment ν) : segment.bare.commands = segment.commands := by
  cases segment <;> rfl

@[simp] theorem size_map (f : ν → μ) (segment : Segment ν) : (segment.map f).size = segment.size := by
  cases segment <;> rfl

end Segment

section CodeSize

variable {ν μ β : Type}

/-- The number of instructions of a list of segments. -/
def codeSize : List (Segment ν) → Nat
  | [] => 0
  | segment :: rest => segment.size + codeSize rest

@[simp] theorem codeSize_map (f : ν → μ) (segments : List (Segment ν)) :
    codeSize (segments.map (Segment.map f)) = codeSize segments := by
  induction segments with
  | nil => rfl
  | cons segment rest ih => rw [List.map_cons, codeSize, codeSize, Segment.size_map, ih]

theorem codeSize_append (first second : List (Segment ν)) :
    codeSize (first ++ second) = codeSize first + codeSize second := by
  induction first with
  | nil => exact (Nat.zero_add _).symm
  | cons segment rest ih => rw [List.cons_append, codeSize, codeSize, ih, Nat.add_assoc]

/-- What is as long as its segment at each segment is as long as the code. -/
theorem length_flatMap_of_size {expand : Segment ν → List β}
    (hexpand : ∀ segment, (expand segment).length = segment.size) (segments : List (Segment ν)) :
    (segments.flatMap expand).length = codeSize segments := by
  induction segments with
  | nil => rfl
  | cons segment rest ih => rw [List.flatMap_cons, List.length_append, hexpand, ih, codeSize]

end CodeSize

/-- The segments of a run.  Moves and changes are taken whole; of the other
commands each occurrence is a segment, and brackets are marked with their
indices. -/
def Run.segments (run : Run) : List (Segment Nat) :=
  match run.command with
  | .right => [.plain (.move .up run.count)]
  | .left => [.plain (.move .down run.count)]
  | .increment => [.plain (.change .up run.count)]
  | .decrement => [.plain (.change .down run.count)]
  | .write => List.replicate run.count (.plain .write)
  | .read => List.replicate run.count (.plain .read)
  | .loopStart => (List.range' run.pos run.count).map .loopStart
  | .loopEnd => (List.range' run.pos run.count).map .loopEnd

def segments (source : List Char) : List (Segment Nat) :=
  (runs source).flatMap Run.segments

/-! ### The cut of a source into runs -/

def runsFrom (start : Nat) (source : List Char) : List Run :=
  (source.zipIdx start).foldr Run.extend []

theorem runsFrom_cons (start : Nat) (c : Char) (rest : List Char) :
    runsFrom start (c :: rest) = Run.extend (c, start) (runsFrom (start + 1) rest) := rfl

/-- A command character starts the first run of a text at its own index. -/
theorem runsFrom_head {c : Char} {command : Command} (hc : Command.ofChar? c = some command)
    (start : Nat) (rest : List Char) :
    ∃ count behind, runsFrom start (c :: rest) = ⟨command, count + 1, start⟩ :: behind := by
  rw [runsFrom_cons, Run.extend, hc]
  cases runsFrom (start + 1) rest with
  | nil => exact ⟨0, [], rfl⟩
  | cons run behind =>
      dsimp only
      split
      · exact ⟨run.count, behind, rfl⟩
      · exact ⟨0, run :: behind, rfl⟩

theorem runsFrom_comment {c : Char} (hc : Command.ofChar? c = none) (start : Nat)
    (rest : List Char) : runsFrom start (c :: rest) = runsFrom (start + 1) rest := by
  rw [runsFrom_cons, Run.extend, hc]

/-- The first run of a text stands at the text's start only if the text starts
with its command. -/
theorem head_of_runsFrom {start : Nat} {source : List Char} {run : Run} {behind : List Run}
    (hruns : runsFrom start source = run :: behind) :
    start ≤ run.pos ∧ (run.pos = start → source.head? = some run.command.toChar) := by
  induction source generalizing start with
  | nil => cases hruns
  | cons c rest ih =>
      cases hc : Command.ofChar? c with
      | none =>
          rw [runsFrom_comment hc] at hruns
          have hbehind := (ih hruns).1
          exact ⟨by omega, fun hpos => by omega⟩
      | some command =>
          obtain ⟨count, behind', hhead⟩ := runsFrom_head hc start rest
          rw [hhead] at hruns
          obtain ⟨rfl, -⟩ := List.cons.inj hruns
          refine ⟨Nat.le_refl _, fun _ => ?_⟩
          rw [List.head?_cons, Command.ofChar?_eq_some_iff.mp hc]

/-- A command character either joins the run right behind it or starts a run. -/
theorem runsFrom_command {c : Char} {command : Command} (hc : Command.ofChar? c = some command)
    (start : Nat) (rest : List Char) :
    (rest.head? = some c ∧ ∃ count behind,
      runsFrom (start + 1) rest = ⟨command, count + 1, start + 1⟩ :: behind ∧
      runsFrom start (c :: rest) = ⟨command, count + 2, start⟩ :: behind) ∨
    (rest.head? ≠ some c ∧
      runsFrom start (c :: rest) = ⟨command, 1, start⟩ :: runsFrom (start + 1) rest) := by
  by_cases hhead : rest.head? = some c
  · left
    refine ⟨hhead, ?_⟩
    cases rest with
    | nil => cases hhead
    | cons next rest =>
        obtain rfl : next = c := Option.some_inj.mp hhead
        obtain ⟨count, behind, hruns⟩ := runsFrom_head hc (start + 1) rest
        refine ⟨count, behind, hruns, ?_⟩
        rw [runsFrom_cons, hruns, Run.extend, hc]
        dsimp only
        rw [if_pos ⟨rfl, rfl⟩]
  · right
    refine ⟨hhead, ?_⟩
    rw [runsFrom_cons, Run.extend, hc]
    cases hruns : runsFrom (start + 1) rest with
    | nil => rfl
    | cons run behind =>
        dsimp only
        rw [if_neg]
        rintro ⟨hcommand, hpos⟩
        apply hhead
        rw [(head_of_runsFrom hruns).2 hpos, hcommand, Command.ofChar?_eq_some_iff.mp hc]

/-! ### The cut of a source into segments -/

def segmentsFrom (start : Nat) (source : List Char) : List (Segment Nat) :=
  (runsFrom start source).flatMap Run.segments

theorem segmentsFrom_zero (source : List Char) : segmentsFrom 0 source = segments source := rfl

/-- The segment of a run of a command whose runs are taken whole. -/
def Command.fused? : Command → Option (Nat → Plain)
  | .right => some (.move .up)
  | .left => some (.move .down)
  | .increment => some (.change .up)
  | .decrement => some (.change .down)
  | _ => none

/-- The segment of one occurrence of a command whose runs are not fused. -/
def Command.single? (pos : Nat) : Command → Option (Segment Nat)
  | .write => some (.plain .write)
  | .read => some (.plain .read)
  | .loopStart => some (.loopStart pos)
  | .loopEnd => some (.loopEnd pos)
  | _ => none

/-- The runs of every command are either fused or taken apart. -/
theorem Command.fused_or_single (command : Command) :
    (∃ fuse, command.fused? = some fuse) ∨ ∀ pos, ∃ segment, command.single? pos = some segment := by
  cases command <;> simp [fused?, single?]

theorem Command.fused?_injective {command : Command} {fuse : Nat → Plain}
    (hfuse : command.fused? = some fuse) {first second : Nat} (h : fuse first = fuse second) :
    first = second := by
  cases command <;> cases hfuse <;> cases h <;> rfl

theorem Command.single?_of_fused? {command : Command} {fuse : Nat → Plain}
    (hfuse : command.fused? = some fuse) (pos : Nat) : command.single? pos = none := by
  cases command <;> cases hfuse <;> rfl

theorem Run.segments_fused {command : Command} {fuse : Nat → Plain}
    (hfuse : command.fused? = some fuse) (count pos : Nat) :
    Run.segments ⟨command, count, pos⟩ = [.plain (fuse count)] := by
  cases command <;> cases hfuse <;> rfl

theorem Run.segments_single {command : Command} {pos : Nat} {segment : Segment Nat}
    (hsingle : command.single? pos = some segment) (count : Nat) :
    Run.segments ⟨command, count + 1, pos⟩ =
      segment :: Run.segments ⟨command, count, pos + 1⟩ := by
  cases command <;> cases hsingle <;> rfl

theorem Run.segments_single_zero {command : Command} {pos : Nat} {segment : Segment Nat}
    (hsingle : command.single? pos = some segment) (other : Nat) :
    Run.segments ⟨command, 0, other⟩ = [] := by
  cases command <;> cases hsingle <;> rfl

theorem segmentsFrom_comment {c : Char} (hc : Command.ofChar? c = none) (start : Nat)
    (rest : List Char) : segmentsFrom start (c :: rest) = segmentsFrom (start + 1) rest := by
  rw [segmentsFrom, runsFrom_comment hc, segmentsFrom]

/-- A command that is not fused has a segment of its own, whether or not it
joins a run. -/
theorem segmentsFrom_single {c : Char} {command : Command} (hc : Command.ofChar? c = some command)
    {start : Nat} {segment : Segment Nat} (hsingle : command.single? start = some segment)
    (rest : List Char) :
    segmentsFrom start (c :: rest) = segment :: segmentsFrom (start + 1) rest := by
  rw [segmentsFrom, segmentsFrom]
  rcases runsFrom_command hc start rest with ⟨-, count, behind, hbehind, hruns⟩ | ⟨-, hruns⟩
  · rw [hruns, hbehind, List.flatMap_cons, List.flatMap_cons, Run.segments_single hsingle]
    rfl
  · rw [hruns, List.flatMap_cons, Run.segments_single hsingle, Run.segments_single_zero hsingle]
    rfl

/-- A fused command lengthens the segment right behind it or starts one. -/
theorem segmentsFrom_fused {c : Char} {command : Command} (hc : Command.ofChar? c = some command)
    {fuse : Nat → Plain} (hfuse : command.fused? = some fuse) (start : Nat) (rest : List Char) :
    (rest.head? = some c ∧ ∃ count behind,
      segmentsFrom (start + 1) rest = .plain (fuse (count + 1)) :: behind ∧
      segmentsFrom start (c :: rest) = .plain (fuse (count + 2)) :: behind) ∨
    (rest.head? ≠ some c ∧
      segmentsFrom start (c :: rest) = .plain (fuse 1) :: segmentsFrom (start + 1) rest) := by
  rcases runsFrom_command hc start rest with ⟨hhead, count, behind, hbehind, hruns⟩ | ⟨hhead, hruns⟩
  · left
    refine ⟨hhead, count, behind.flatMap Run.segments, ?_, ?_⟩
    · rw [segmentsFrom, hbehind, List.flatMap_cons, Run.segments_fused hfuse]
      rfl
    · rw [segmentsFrom, hruns, List.flatMap_cons, Run.segments_fused hfuse]
      rfl
  · right
    refine ⟨hhead, ?_⟩
    rw [segmentsFrom, hruns, List.flatMap_cons, Run.segments_fused hfuse]
    rfl

/-- A source cut at an occurrence of a command that is not fused has its
segments cut at the segment of that occurrence. -/
theorem segmentsFrom_split {c : Char} {command : Command} (hc : Command.ofChar? c = some command)
    (start : Nat) (before behind : List Char) {segment : Segment Nat}
    (hsingle : command.single? (start + before.length) = some segment) :
    segmentsFrom start (before ++ c :: behind) =
      segmentsFrom start before ++ segment :: segmentsFrom (start + before.length + 1) behind := by
  induction before generalizing start with
  | nil => exact segmentsFrom_single hc hsingle behind
  | cons first before ih =>
      have hlength : start + (first :: before).length = start + 1 + before.length := by
        rw [List.length_cons]
        omega
      rw [hlength] at hsingle ⊢
      have hrest := ih (start + 1) hsingle
      rw [List.cons_append]
      cases hfirst : Command.ofChar? first with
      | none => rw [segmentsFrom_comment hfirst, segmentsFrom_comment hfirst, hrest]
      | some firstCommand =>
          rcases firstCommand.fused_or_single with ⟨fuse, hfuse⟩ | hfirstSingle
          · -- The occurrence in question joins no fused run, so both sides see the same character.
            have hhead : (before ++ c :: behind).head? = some first ↔ before.head? = some first := by
              cases before with
              | nil =>
                  constructor
                  · intro h
                    obtain rfl : c = first := Option.some_inj.mp h
                    rw [hc] at hfirst
                    obtain rfl := Option.some_inj.mp hfirst
                    rw [Command.single?_of_fused? hfuse] at hsingle
                    cases hsingle
                  · intro h
                    cases h
              | cons next before => rfl
            rcases segmentsFrom_fused hfirst hfuse start (before ++ c :: behind) with
              ⟨hjoins, count, tail, hbehind, hwhole⟩ | ⟨hstarts, hwhole⟩
            · rcases segmentsFrom_fused hfirst hfuse start before with
                ⟨-, count', tail', hbehind', hbefore⟩ | ⟨hstarts, -⟩
              · rw [hbehind, hbehind', List.cons_append] at hrest
                obtain ⟨hsame, htail⟩ := List.cons.inj hrest
                obtain rfl := Nat.succ.inj (Command.fused?_injective hfuse (Segment.plain.inj hsame))
                rw [hwhole, hbefore, htail, List.cons_append]
              · exact absurd (hhead.mp hjoins) hstarts
            · rcases segmentsFrom_fused hfirst hfuse start before with
                ⟨hjoins, -⟩ | ⟨-, hbefore⟩
              · exact absurd (hhead.mpr hjoins) hstarts
              · rw [hwhole, hbefore, hrest, List.cons_append]
          · obtain ⟨own, hown⟩ := hfirstSingle start
            rw [segmentsFrom_single hfirst hown, segmentsFrom_single hfirst hown, hrest,
              List.cons_append]

/-- The segments of a source around the segment of an occurrence of a command
that is not fused. -/
theorem segments_split {c : Char} (command : Command) (hc : Command.ofChar? c = some command)
    {source : List Char} {pos : Nat} (hpos : source[pos]? = some c) {segment : Segment Nat}
    (hsingle : command.single? pos = some segment) :
    segments source =
      segments (source.take pos) ++ segment :: segmentsFrom (pos + 1) (source.drop (pos + 1)) := by
  obtain ⟨before, behind, rfl, rfl⟩ := split_at hpos
  rw [List.take_left, List.append_cons, List.drop_left' (by simp), ← List.append_cons]
  have hsplit := segmentsFrom_split hc 0 before behind (by rw [Nat.zero_add]; exact hsingle)
  rw [Nat.zero_add] at hsplit
  exact hsplit

/-- The segments of a source without their marks. -/
def bareSegments (source : List Char) : List (Segment Unit) :=
  (segments source).map Segment.bare

/-! ### The commands of the segments -/

theorem Command.commands_fused {command : Command} {fuse : Nat → Plain}
    (hfuse : command.fused? = some fuse) (count : Nat) :
    (fuse count).commands = List.replicate count command := by
  cases command <;> cases hfuse <;> rfl

theorem Command.commands_single {command : Command} {pos : Nat} {segment : Segment Nat}
    (hsingle : command.single? pos = some segment) : segment.commands = [command] := by
  cases command <;> cases hsingle <;> rfl

theorem flatMap_commands_segmentsFrom (start : Nat) (source : List Char) :
    (segmentsFrom start source).flatMap Segment.commands = commands source := by
  induction source generalizing start with
  | nil => rfl
  | cons c rest ih =>
      have hrest := ih (start + 1)
      cases hc : Command.ofChar? c with
      | none => rw [segmentsFrom_comment hc, hrest, commands, commands, List.filterMap_cons_none hc]
      | some command =>
          rw [commands, List.filterMap_cons_some hc, ← commands, ← hrest]
          rcases command.fused_or_single with ⟨fuse, hfuse⟩ | hsingle
          · rcases segmentsFrom_fused hc hfuse start rest with
              ⟨-, count, tail, hbehind, hwhole⟩ | ⟨-, hwhole⟩
            · rw [hbehind, hwhole, List.flatMap_cons, List.flatMap_cons, Segment.commands,
                Segment.commands, Command.commands_fused hfuse, Command.commands_fused hfuse,
                List.replicate_succ, List.cons_append]
            · rw [hwhole, List.flatMap_cons, Segment.commands, Command.commands_fused hfuse]
              rfl
          · obtain ⟨own, hown⟩ := hsingle start
            rw [segmentsFrom_single hc hown, List.flatMap_cons, Command.commands_single hown]
            rfl

/-- Expanding the segments gives the commands of the source in order. -/
theorem flatMap_commands_bareSegments (source : List Char) :
    (bareSegments source).flatMap Segment.commands = commands source := by
  rw [← flatMap_commands_segmentsFrom 0 source, bareSegments, List.flatMap_map, segmentsFrom_zero]
  simp only [Segment.commands_bare]

theorem commands_ne_nil_of_mem_segmentsFrom {start : Nat} {source : List Char}
    {segment : Segment Nat} (hmem : segment ∈ segmentsFrom start source) :
    segment.commands ≠ [] := by
  induction source generalizing start with
  | nil => cases hmem
  | cons c rest ih =>
      cases hc : Command.ofChar? c with
      | none =>
          rw [segmentsFrom_comment hc] at hmem
          exact ih hmem
      | some command =>
          rcases command.fused_or_single with ⟨fuse, hfuse⟩ | hsingle
          · rcases segmentsFrom_fused hc hfuse start rest with
              ⟨-, count, tail, hbehind, hwhole⟩ | ⟨-, hwhole⟩
            · rw [hwhole] at hmem
              rcases List.mem_cons.mp hmem with rfl | htail
              · rw [Segment.commands, Command.commands_fused hfuse]
                simp
              · have hrest : segment ∈ segmentsFrom (start + 1) rest := by
                  rw [hbehind]
                  exact List.mem_cons_of_mem _ htail
                exact ih hrest
            · rw [hwhole] at hmem
              rcases List.mem_cons.mp hmem with rfl | hbehind
              · rw [Segment.commands, Command.commands_fused hfuse]
                simp
              · exact ih hbehind
          · obtain ⟨own, hown⟩ := hsingle start
            rw [segmentsFrom_single hc hown] at hmem
            rcases List.mem_cons.mp hmem with rfl | hbehind
            · rw [Command.commands_single hown]
              simp
            · exact ih hbehind

/-- A segment of a source stands for at least one command and for no more than
the source has characters. -/
theorem length_commands_of_mem_bareSegments {source : List Char} {segment : Segment Unit}
    (hmem : segment ∈ bareSegments source) :
    0 < segment.commands.length ∧ segment.commands.length ≤ source.length := by
  constructor
  · obtain ⟨marked, hmarked, rfl⟩ := List.mem_map.mp hmem
    rw [Segment.commands_bare]
    rw [← segmentsFrom_zero] at hmarked
    exact List.length_pos_iff.mpr (commands_ne_nil_of_mem_segmentsFrom hmarked)
  · have hinfix : segment.commands <:+: (bareSegments source).flatMap Segment.commands := by
      rw [List.flatMap_def]
      exact List.infix_of_mem_flatten (List.mem_map_of_mem hmem)
    calc
      segment.commands.length ≤ ((bareSegments source).flatMap Segment.commands).length :=
        hinfix.length_le
      _ = (commands source).length := by rw [flatMap_commands_bareSegments]
      _ ≤ source.length := List.length_filterMap_le _ _

end Source
end TapeCompiler
