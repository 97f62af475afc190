import Mathlib.Data.List.Induction
import TapeCompiler.Proofs.Reading

/-!
# One text behind another

Reading goes through the lines of a text and keeps a listing, which each line may
make longer by an instruction and in which it may define a label.  What lines do
to a listing depends on it only through its length: their instructions go to its
end, and their labels are moved by its length and take precedence over the older
ones (`program_foldl_add`, `index?_foldl_add`).  So the listing of two texts, one
behind the other, is known from the listings of the two.

In every listing that is read, each label stands once in the table, at an index up
to the number of instructions (`Listing.Proper`): a label at the very end stands
for the instruction that comes next, if another text follows.

Main statement: `read_joined`.
-/

namespace TapeCompiler

namespace Assembly
namespace Listing

open Text

/-! ### What a line does to a listing -/

theorem add_empty (listing : Listing) : listing.add {} = listing := rfl

/-- A line defines its label at the end of the listing and no other label. -/
theorem index?_add (listing : Listing) (entry : Entry) (name : String) :
    (listing.add entry).index? name =
      if entry.label = some name then some listing.program.size else listing.index? name := by
  rw [index?, labels_add]
  cases entry.label with
  | none => simp [index?]
  | some other =>
      simp only [Table.get?_define, Option.some.injEq]
      by_cases hname : name = other
      · simp [hname]
      · simp [hname, Ne.symm hname, index?]

/-! ### What lines do to a listing -/

theorem ofEntries_concat (entries : List Entry) (entry : Entry) :
    ofEntries (entries ++ [entry]) = (ofEntries entries).add entry := by
  simp [ofEntries]

theorem size_foldl_add (listing : Listing) (entries : List Entry) :
    (entries.foldl add listing).program.size =
      listing.program.size + (ofEntries entries).program.size := by
  have hlisting := congrArg List.length (program_foldl_add listing entries)
  have hnothing := congrArg List.length (program_foldl_add {} entries)
  simp only [Array.length_toList, List.length_append] at hlisting hnothing
  rw [hlisting, ofEntries, hnothing]
  simp

/-- Lines move their labels behind the listing; all other labels stay where they are. -/
theorem index?_foldl_add (listing : Listing) (entries : List Entry) (name : String) :
    (entries.foldl add listing).index? name =
      (((ofEntries entries).index? name).map (· + listing.program.size)).or
        (listing.index? name) := by
  -- The last line decides, so the induction takes the lines from the end.
  induction entries using List.reverseRecOn with
  | nil => rfl
  | append_singleton entries entry ih =>
      rw [List.foldl_concat, ofEntries_concat, index?_add, index?_add, ih, size_foldl_add]
      by_cases hlabel : entry.label = some name
      · simp [hlabel, Nat.add_comm]
      · simp [hlabel]

/-! ### Labels in range -/

/-- Each label stands in the table once, and at most behind the last instruction. -/
structure Proper (listing : Listing) : Prop where
  distinct : (listing.labels.map Prod.fst).Nodup
  bounded : ∀ entry ∈ listing.labels, entry.2 ≤ listing.program.size

theorem proper_empty : Proper {} where
  distinct := List.nodup_nil
  bounded := by simp

/-- A definition takes an older one of the same label out of the table. -/
theorem Proper.define {listing : Listing} (hproper : listing.Proper) (name : String) :
    Proper { listing with labels := listing.labels.define name listing.program.size } where
  distinct := by
    rw [Table.define, List.map_cons, List.nodup_cons]
    constructor
    · simp [Table.erase]
    · exact hproper.distinct.sublist (List.filter_sublist.map Prod.fst)
  bounded := by
    intro entry hentry
    rcases List.mem_cons.mp hentry with rfl | hold
    · exact Nat.le_refl _
    · exact hproper.bounded entry (List.mem_of_mem_filter hold)

theorem Proper.push {listing : Listing} (hproper : listing.Proper) (instruction : Instruction) :
    Proper { listing with program := listing.program.push instruction } where
  distinct := hproper.distinct
  bounded := by
    intro entry hentry
    have hle := hproper.bounded entry hentry
    simp only [Array.size_push]
    omega

theorem Proper.add {listing : Listing} (hproper : listing.Proper) (entry : Entry) :
    (listing.add entry).Proper := by
  have hlabel : (listing.addLabel entry.label).Proper := by
    cases entry.label with
    | none => exact hproper
    | some name => exact hproper.define name
  rw [Listing.add]
  cases entry.instruction with
  | none => exact hlabel
  | some instruction => exact hlabel.push instruction

theorem proper_ofEntries (entries : List Entry) : (ofEntries entries).Proper := by
  induction entries using List.reverseRecOn with
  | nil => exact proper_empty
  | append_singleton entries entry ih =>
      rw [ofEntries_concat]
      exact ih.add entry

theorem proper_read (text : String) : (Listing.read text).Proper :=
  proper_ofEntries _

/-! ### The result -/

theorem read_append_newline (first second : String) :
    Listing.read (first ++ "\n" ++ second) =
      ((lines second.toList).map Entry.read).foldl add (Listing.read first) := by
  have htext : (first ++ "\n" ++ second).toList = first.toList ++ '\n' :: second.toList := by simp
  rw [Listing.read, htext, lines_joined, List.map_append, ofEntries, List.foldl_append]
  rfl

theorem index?_read_joined (first second name : String) :
    (Listing.read (first ++ "\n" ++ second)).index? name =
      (((Listing.read second).index? name).map (· + (Listing.read first).program.size)).or
        ((Listing.read first).index? name) := by
  rw [read_append_newline]
  exact index?_foldl_add _ _ name

/-- Two texts with a newline between them have the instructions of both in order.  A
label of the second text is moved by the number of instructions of the first, and
every other label stands where it stands in the first.  Whatever is read, a label
stands once in the table and at most behind the last instruction. -/
theorem read_joined (first second : String) :
    (Listing.read (first ++ "\n" ++ second)).program =
        (Listing.read first).program ++ (Listing.read second).program ∧
      (∀ name index, (Listing.read second).index? name = some index →
        (Listing.read (first ++ "\n" ++ second)).index? name =
          some (index + (Listing.read first).program.size)) ∧
      (∀ name, (Listing.read second).index? name = none →
        (Listing.read (first ++ "\n" ++ second)).index? name =
          (Listing.read first).index? name) ∧
      ∀ text, (Listing.read text).Proper := by
  refine ⟨?_, ?_, ?_, proper_read⟩
  · apply Array.toList_inj.mp
    rw [read_append_newline, program_foldl_add, Array.toList_append, program_read second]
  · intro name index hsecond
    simp [index?_read_joined, hsecond]
  · intro name hsecond
    simp [index?_read_joined, hsecond]

/-- A label that both texts define, and one at the end of the first text, which then
stands for the first instruction of the second. -/
theorem read_joined_redefined :
    (Listing.read "b: nop\na:").index? "b" = some 0 ∧
      (Listing.read "b: nop\na:").index? "a" = some 1 ∧
      (Listing.read "ret\nb:").index? "b" = some 1 ∧
      (Listing.read ("b: nop\na:" ++ "\n" ++ "ret\nb:")).index? "b" = some 2 ∧
      (Listing.read ("b: nop\na:" ++ "\n" ++ "ret\nb:")).index? "a" = some 1 := by
  have hfirst : (Listing.read "b: nop\na:").index? "a" = some 1 := by decide +kernel
  have hsecond : (Listing.read "ret\nb:").index? "b" = some 1 := by decide +kernel
  have hsize : (Listing.read "b: nop\na:").program.size = 1 := by decide +kernel
  obtain ⟨-, hmoved, hkept, -⟩ := read_joined "b: nop\na:" "ret\nb:"
  refine ⟨by decide +kernel, hfirst, hsecond, ?_, ?_⟩
  · rw [hmoved "b" 1 hsecond, hsize]
  · rw [hkept "a" (by decide +kernel), hfirst]

end Listing
end Assembly
end TapeCompiler
