import TapeCompiler.Proofs.Effects
import TapeCompiler.Proofs.Locations

/-!
# What file operations leave alone

Writing and removing files change what some paths lead to.  A frame says that
nothing else has changed, and that the directories are the same, so that every
path that led somewhere still leads to the same location (`Frame.locate_iff`).
That is why frames can be put together although they speak of paths.
-/

namespace TapeCompiler
namespace Workspace
namespace Store

open Effects

/-- A store that differs from the one before at most where the given paths lead,
and not in its directories. -/
structure Frame (paths : List String) (before after : Store) : Prop where
  here : after.here = before.here
  directory : ∀ location,
    after.node? location = some .directory ↔ before.node? location = some .directory
  same : ∀ location, (∀ path ∈ paths, before.locate path ≠ .ok location) →
    after.node? location = before.node? location

/-! ### Locations behind a frame -/

theorem follow_iff_of_directory {before after : Store}
    (hdirectory : ∀ location,
      after.node? location = some .directory ↔ before.node? location = some .directory)
    {start location : Location} {names : List String} :
    after.follow start names = .ok location ↔ before.follow start names = .ok location := by
  induction names generalizing start with
  | nil => rw [follow, follow]
  | cons name rest ih => rw [follow_cons_eq_ok_iff, follow_cons_eq_ok_iff, hdirectory, ih]

namespace Frame

variable {paths more : List String} {before between after : Store}

/-- Paths lead where they led. -/
theorem locate_iff (hframe : Frame paths before after) {path : String} {location : Location} :
    after.locate path = .ok location ↔ before.locate path = .ok location := by
  rw [locate_eq_ok_iff, locate_eq_ok_iff, follow_iff_of_directory hframe.directory]
  simp only [origin, hframe.here]

theorem refl (paths : List String) (store : Store) : Frame paths store store :=
  ⟨rfl, fun _ => Iff.rfl, fun _ _ => rfl⟩

theorem trans (hfirst : Frame paths before between) (hsecond : Frame more between after) :
    Frame (paths ++ more) before after where
  here := hsecond.here.trans hfirst.here
  directory location := (hsecond.directory location).trans (hfirst.directory location)
  same location hother := by
    rw [List.forall_mem_append] at hother
    have hrest : ∀ path ∈ more, between.locate path ≠ .ok location := fun path hpath hlocate =>
      hother.2 path hpath (hfirst.locate_iff.mp hlocate)
    exact (hsecond.same location hrest).trans (hfirst.same location hother.1)

theorem mono (hframe : Frame paths before after) (hpaths : paths ⊆ more) :
    Frame more before after where
  here := hframe.here
  directory := hframe.directory
  same location hother := hframe.same location fun path hpath => hother path (hpaths hpath)

/-- What a path leads to is the same, if none of the paths leads there. -/
theorem find_eq (hframe : Frame paths before after) {path : String} {location : Location}
    (hlocate : before.locate path = .ok location)
    (hother : ∀ other ∈ paths, before.locate other ≠ .ok location) :
    after.find path = before.find path := by
  rw [find, find, hlocate, hframe.locate_iff.mpr hlocate, ok_bind, ok_bind,
    hframe.same location hother]

end Frame

/-! ### Operations -/

theorem ne_root_of_not_directory {store : Store} {location : Location}
    (hnode : store.node? location ≠ some .directory) : location ≠ [] := by
  rintro rfl
  exact hnode rfl

theorem find_eq_ok_iff {store : Store} {path : String} {node : Node} :
    store.find path = .ok node ↔
      ∃ location, store.locate path = .ok location ∧ store.node? location = some node := by
  rw [find]
  constructor
  · intro hfind
    obtain ⟨location, hlocate, hnode⟩ := bind_eq_ok hfind
    refine ⟨location, hlocate, ?_⟩
    split at hnode
    · rename_i found hfound
      rw [hfound, ← Except.ok.inj hnode]
    · cases hnode
  · rintro ⟨location, hlocate, hnode⟩
    rw [hlocate, ok_bind, hnode]
    rfl

theorem exists_file_of_read {store : Store} {path : String} {bytes : List UInt8}
    (hread : store.read path = .ok bytes) :
    ∃ location file, store.locate path = .ok location ∧
      store.node? location = some (.file file) := by
  rw [read] at hread
  obtain ⟨node, hfind, hread⟩ := bind_eq_ok hread
  obtain ⟨location, hlocate, hnode⟩ := find_eq_ok_iff.mp hfind
  cases node with
  | directory => cases hread
  | file file => exact ⟨location, file, hlocate, hnode⟩

theorem write_of_file {store : Store} {path : String} {location : Location} {file : File}
    (hlocate : store.locate path = .ok location) (hfile : store.node? location = some (.file file))
    (bytes : List UInt8) :
    store.write path bytes =
      .ok (store.set location (.file { file with content := .data bytes })) := by
  rw [write, hlocate, ok_bind, hfile]
  rfl

/-- What has been written is a file where the path leads, which was no directory. -/
theorem exists_file_of_write {before after : Store} {path : String} {bytes : List UInt8}
    (hwrite : before.write path bytes = .ok after) :
    ∃ location file, before.locate path = .ok location ∧
      before.node? location ≠ some .directory ∧ file.bytes = bytes ∧
      after = before.set location (.file file) ∧ after.node? location = some (.file file) := by
  rw [write] at hwrite
  obtain ⟨location, hlocate, hwrite⟩ := bind_eq_ok hwrite
  suffices hset : before.node? location ≠ some .directory ∧
      ∃ file : File, file.bytes = bytes ∧ after = before.set location (.file file) by
    obtain ⟨hnode, file, hbytes, rfl⟩ := hset
    refine ⟨location, file, hlocate, hnode, hbytes, rfl, ?_⟩
    rw [node?_set _ (ne_root_of_not_directory hnode), if_pos rfl]
  split at hwrite
  · cases hwrite
  · rename_i file hfile
    exact ⟨by simp [hfile], _, rfl, (Except.ok.inj hwrite).symm⟩
  · rename_i hnone
    exact ⟨by simp [hnone], _, rfl, (Except.ok.inj hwrite).symm⟩

/-- Putting a file where a path leads to no directory keeps all else. -/
theorem frame_set {store : Store} {path : String} {location : Location} (file : File)
    (hlocate : store.locate path = .ok location)
    (hnode : store.node? location ≠ some .directory) :
    Frame [path] store (store.set location (.file file)) := by
  have hbelow := ne_root_of_not_directory hnode
  refine ⟨rfl, fun other => ?_, fun other hother => ?_⟩
  · rw [node?_set store hbelow]
    split
    · rename_i hsame
      simp [hsame, hnode]
    · rfl
  · rw [node?_set store hbelow, if_neg]
    rintro rfl
    exact hother path List.mem_cons_self hlocate

theorem frame_write {before after : Store} {path : String} {bytes : List UInt8}
    (hwrite : before.write path bytes = .ok after) : Frame [path] before after := by
  obtain ⟨location, file, hlocate, hnode, -, rfl, -⟩ := exists_file_of_write hwrite
  exact frame_set file hlocate hnode

theorem read_of_write {before after : Store} {path : String} {bytes : List UInt8}
    (hwrite : before.write path bytes = .ok after) : after.read path = .ok bytes := by
  have hframe := frame_write hwrite
  obtain ⟨location, file, hlocate, -, rfl, -, hfile⟩ := exists_file_of_write hwrite
  rw [read, find_eq_ok_iff.mpr ⟨location, hframe.locate_iff.mpr hlocate, hfile⟩]
  rfl

/-- A file that has been removed is gone, and all else is kept. -/
theorem frame_remove {store : Store} {path : String} {location : Location}
    (hlocate : store.locate path = .ok location)
    (hnode : store.node? location ≠ some .directory) :
    Frame [path] store (store.remove path) ∧ (store.remove path).node? location = none := by
  have hbelow := ne_root_of_not_directory hnode
  rw [remove, hlocate]
  dsimp only
  refine ⟨⟨rfl, fun other => ?_, fun other hother => ?_⟩, ?_⟩
  · rw [node?_erase store hbelow]
    split
    · rename_i hsame
      simp [hsame, hnode]
    · rfl
  · rw [node?_erase store hbelow, if_neg]
    rintro rfl
    exact hother path List.mem_cons_self hlocate
  · rw [node?_erase store hbelow, if_pos rfl]

end Store
end Workspace
end TapeCompiler
