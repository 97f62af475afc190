import TapeCompiler.Workspace.Path
import TapeCompiler.Workspace.Store

/-!
# Where paths lead

A path text leads to a location if every name but the last is that of a
directory, and then the location is where its last name leads from the directory
in front of it (`exists_above_of_locate`).  The names in the text of a path are
those of its root and its parts, if the parts are such as are read from a text
(`Path.namesOf_render`).

A location that is reached from the root directory has directories above it
(`directory_above_of_follow`).  From the working directory this need not be so:
nothing is assumed of a store.
-/

namespace TapeCompiler
namespace Workspace

open Text

/-! ### Following names -/

def namesOf (path : String) : List String :=
  (splitAt '/' path.toList).map String.ofList

/-- A name other than those that have a meaning of their own. -/
def IsProper (name : String) : Prop :=
  name ≠ "" ∧ name ≠ "." ∧ name ≠ ".."

namespace Location

theorem enter_of_isProper {name : String} (hname : IsProper name) (location : Location) :
    location.enter name = location ++ [name] := by
  obtain ⟨hempty, hdot, hdots⟩ := hname
  rw [enter, if_neg (not_or.mpr ⟨hempty, hdot⟩), if_neg hdots]

theorem enter_dots (location : Location) : location.enter ".." = location.dropLast := by
  rw [enter, if_neg (by decide), if_pos rfl]

theorem enter_cases (location : Location) (name : String) :
    location.enter name = location ∨ location.enter name = location.dropLast ∨
      location.enter name = location ++ [name] := by
  unfold enter
  split
  · exact .inl rfl
  · split
    · exact .inr (.inl rfl)
    · exact .inr (.inr rfl)

end Location

namespace Store

variable {store : Store}

/-- A name is followed from a directory. -/
theorem follow_cons_eq_ok_iff {start location : Location} {name : String} {rest : List String} :
    store.follow start (name :: rest) = .ok location ↔
      store.node? start = some .directory ∧ name.utf8ByteSize ≤ maxNameBytes ∧
        store.follow (start.enter name) rest = .ok location := by
  rw [follow]
  cases hnode : store.node? start with
  | none => simp
  | some node =>
      cases node with
      | file file => simp
      | directory =>
          dsimp only
          by_cases hsize : maxNameBytes < name.utf8ByteSize
          · simp [if_pos hsize, Nat.not_le.mpr hsize]
          · simp [if_neg hsize, Nat.not_lt.mp hsize]

theorem follow_append_eq_ok_iff {start location : Location} {first second : List String} :
    store.follow start (first ++ second) = .ok location ↔
      ∃ between, store.follow start first = .ok between ∧
        store.follow between second = .ok location := by
  induction first generalizing start with
  | nil => simp [follow]
  | cons name first ih =>
      rw [List.cons_append, follow_cons_eq_ok_iff, ih]
      constructor
      · rintro ⟨hnode, hsize, between, hfirst, hsecond⟩
        exact ⟨between, follow_cons_eq_ok_iff.mpr ⟨hnode, hsize, hfirst⟩, hsecond⟩
      · rintro ⟨between, hfirst, hsecond⟩
        obtain ⟨hnode, hsize, hfirst⟩ := follow_cons_eq_ok_iff.mp hfirst
        exact ⟨hnode, hsize, between, hfirst, hsecond⟩

/-- Where a path text starts. -/
def origin (store : Store) (path : String) : Location :=
  if path.toList.head? = some '/' then [] else store.here

/-- A path leads where its names do. -/
theorem locate_eq_ok_iff {path : String} {location : Location} :
    store.locate path = .ok location ↔
      path ≠ "" ∧ path.utf8ByteSize < pathBytesLimit ∧
        store.follow (store.origin path) (namesOf path) = .ok location := by
  rw [locate]
  split
  · rename_i hempty
    simp [hempty]
  · rename_i hempty
    split
    · rename_i hsize
      simp [Nat.not_lt.mpr hsize]
    · rename_i hsize
      simp only [ne_eq, hempty, not_false_eq_true, Nat.not_le.mp hsize, true_and]
      rfl

/-- A path leads into a directory and from there where its last name does. -/
theorem exists_above_of_locate {path name : String} {front : List String} {location : Location}
    (hnames : namesOf path = front ++ [name]) (hlocate : store.locate path = .ok location) :
    ∃ above, store.follow (store.origin path) front = .ok above ∧
      store.node? above = some .directory ∧ location = above.enter name := by
  obtain ⟨-, -, hfollow⟩ := locate_eq_ok_iff.mp hlocate
  rw [hnames] at hfollow
  obtain ⟨above, hfront, hname⟩ := follow_append_eq_ok_iff.mp hfollow
  obtain ⟨hnode, -, hend⟩ := follow_cons_eq_ok_iff.mp hname
  exact ⟨above, hfront, hnode, (Except.ok.inj hend).symm⟩

/-- If there are directories above the start, there are above the location
reached: names are only followed from directories. -/
theorem directory_above_of_follow {start location : Location} {names : List String}
    (hstart : ∀ above, above <+: start → above ≠ start → store.node? above = some .directory)
    (hfollow : store.follow start names = .ok location) :
    ∀ above, above <+: location → above ≠ location → store.node? above = some .directory := by
  induction names generalizing start with
  | nil =>
      cases hfollow
      exact hstart
  | cons name rest ih =>
      obtain ⟨hnode, -, hrest⟩ := follow_cons_eq_ok_iff.mp hfollow
      refine ih ?_ hrest
      intro above habove hne
      rcases Location.enter_cases start name with henter | henter | henter
      · rw [henter] at habove hne
        exact hstart above habove hne
      · rw [henter] at habove hne
        refine hstart above (habove.trans (List.dropLast_prefix start)) ?_
        rintro rfl
        exact hne (habove.eq_of_length_le (List.dropLast_prefix _).length_le)
      · rw [henter] at habove hne
        rcases List.prefix_concat_iff.mp habove with hwhole | habove
        · exact absurd hwhole hne
        · by_cases hsame : above = start
          · rw [hsame]
            exact hnode
          · exact hstart above habove hsame

end Store

/-! ### The text of a path -/

def Root.names : Root → List String
  | .relative => []
  | .slash => [""]
  | .doubleSlash => ["", ""]

/-- Where a root is in a store. -/
def Store.rootOf (store : Store) : Root → Location
  | .relative => store.here
  | .slash => []
  | .doubleSlash => []

namespace Path

/-- A path with parts such as are read from a text: each of them says something
and holds no slash. -/
def Clean (path : Path) : Prop :=
  ∀ part ∈ path.parts, isPart part = true ∧ '/' ∉ part.toList

theorem isPart_iff {part : String} : isPart part = true ↔ part ≠ "" ∧ part ≠ "." := by
  rw [isPart, Bool.and_eq_true, bne_iff_ne, bne_iff_ne]

theorem clean_ofString (text : String) : (ofString text).Clean := by
  intro part hpart
  obtain ⟨hmem, hpart⟩ := List.mem_filter.mp hpart
  obtain ⟨piece, hpiece, rfl⟩ := List.mem_map.mp hmem
  refine ⟨hpart, ?_⟩
  rw [String.toList_ofList]
  exact not_mem_of_mem_splitAt hpiece

theorem toList_render {path : Path} (hparts : path.parts ≠ []) :
    path.render.toList =
      path.root.text.toList ++ ['/'].intercalate (path.parts.map String.toList) := by
  unfold render
  split
  · rename_i hnone
    exact absurd hnone hparts
  · rw [String.toList_append, String.toList_intercalate]
    rfl

/-- The names in the text of a path are those of its root and its parts. -/
theorem namesOf_render {path : Path} (hclean : path.Clean) (hparts : path.parts ≠ []) :
    namesOf path.render = path.root.names ++ path.parts := by
  have hsplit : splitAt '/' (['/'].intercalate (path.parts.map String.toList)) =
      path.parts.map String.toList := by
    rw [splitAt_eq_splitOn]
    apply List.splitOn_intercalate
    · intro piece hpiece
      obtain ⟨part, hpart, rfl⟩ := List.mem_map.mp hpiece
      exact (hclean part hpart).2
    · simpa using hparts
  have hback : (path.parts.map String.toList).map String.ofList = path.parts := by
    simp [List.map_map, Function.comp_def]
  rw [namesOf, toList_render hparts]
  cases path.root with
  | relative =>
      change (splitAt '/' (['/'].intercalate _)).map String.ofList = path.parts
      rw [hsplit, hback]
  | slash =>
      change ([] :: splitAt '/' (['/'].intercalate _)).map String.ofList = "" :: path.parts
      rw [hsplit, List.map_cons, hback]
  | doubleSlash =>
      change ([] :: [] :: splitAt '/' (['/'].intercalate _)).map String.ofList =
        "" :: "" :: path.parts
      rw [hsplit, List.map_cons, List.map_cons, hback]

theorem origin_render {path : Path} (hclean : path.Clean) (hparts : path.parts ≠ [])
    (store : Store) : store.origin path.render = store.rootOf path.root := by
  rw [Store.origin, toList_render hparts]
  cases path.root with
  | slash => rfl
  | doubleSlash => rfl
  | relative =>
      obtain ⟨first, rest, hfirst⟩ := List.exists_cons_of_ne_nil hparts
      obtain ⟨hpart, hslash⟩ := hclean first (by rw [hfirst]; exact List.mem_cons_self)
      refine if_neg ?_
      rw [hfirst, List.map_cons]
      change (['/'].intercalate (first.toList :: rest.map String.toList)).head? ≠ some '/'
      cases hchars : first.toList with
      | nil => exact absurd (String.toList_eq_nil_iff.mp hchars) (isPart_iff.mp hpart).1
      | cons c more =>
          have hc : c ≠ '/' := by
            rintro rfl
            exact hslash (hchars ▸ List.mem_cons_self)
          cases rest with
          | nil => simpa using hc
          | cons second rest => simpa [List.intercalate_cons_cons] using hc

/-- A path leads into a directory, the same for all paths that differ in their
last part only, and from there where its last part does. -/
theorem exists_above_of_locate_render {path : Path} {front : List String} {name : String}
    {store : Store} {location : Location} (hclean : path.Clean)
    (hparts : path.parts = front ++ [name]) (hlocate : store.locate path.render = .ok location) :
    ∃ above, store.follow (store.rootOf path.root) (path.root.names ++ front) = .ok above ∧
      store.node? above = some .directory ∧ location = above.enter name := by
  have hne : path.parts ≠ [] := by simp [hparts]
  have hnames : namesOf path.render = (path.root.names ++ front) ++ [name] := by
    rw [namesOf_render hclean hne, hparts, List.append_assoc]
  rw [← origin_render hclean hne]
  exact Store.exists_above_of_locate hnames hlocate

end Path
end Workspace
end TapeCompiler
