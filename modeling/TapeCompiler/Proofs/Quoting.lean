import TapeCompiler.Assembly.Name

/-!
# Quoted names end where they end

A name is quoted character by character.  The same text comes of two passes over
the whole name, the first putting backslashes before the backslashes and the
second before the apostrophes (`flatMap_escapeNameChar`); in the other order the
second pass would take the marks of the first for characters of the name.

Reading a literal from the left undoes this, whatever stands behind the literal
(`unquote_quoteName`).  What has been read stays read when more text follows
(`unquote_append`), so a literal is not over before its last character.

Main statement: `quoteName_cannot_be_left`.
-/

namespace TapeCompiler
namespace Assembly

open Text

/-! ### Writing -/

/-- A text with a backslash before every occurrence of a character. -/
def guarded (mark : Char) (text : List Char) : List Char :=
  text.flatMap fun c => if c = mark then [backslash, c] else [c]

/-- Guarding the backslashes and then the apostrophes escapes each character by
itself. -/
theorem flatMap_escapeNameChar (name : List Char) :
    name.flatMap escapeNameChar = guarded apostrophe (guarded backslash name) := by
  have hmarks : backslash ≠ apostrophe := by decide
  induction name with
  | nil => rfl
  | cons c name ih =>
      rw [List.flatMap_cons, ih]
      by_cases hbackslash : c = backslash
      · simp [escapeNameChar, guarded, hbackslash, hmarks]
      · by_cases hapostrophe : c = apostrophe
        · simp [escapeNameChar, guarded, hapostrophe, hmarks.symm]
        · simp [escapeNameChar, guarded, hbackslash, hapostrophe]

theorem toList_quoteName (name : String) :
    (quoteName name).toList = apostrophe :: name.toList.flatMap escapeNameChar ++ [apostrophe] := by
  rw [quoteName, String.toList_ofList]

/-- Quoting brings in backslashes and apostrophes and no other characters. -/
theorem forall_mem_quoteName {P : Char → Prop} (hbackslash : P backslash)
    (hapostrophe : P apostrophe) (name : String) :
    (∀ c ∈ (quoteName name).toList, P c) ↔ ∀ c ∈ name.toList, P c := by
  have hescaped (c : Char) : (∀ d ∈ escapeNameChar c, P d) ↔ P c := by
    rw [escapeNameChar]
    split <;> simp [hbackslash]
  rw [toList_quoteName, List.forall_mem_append, List.forall_mem_cons, List.forall_mem_singleton]
  simp only [hapostrophe, true_and, and_true, List.mem_flatMap, forall_exists_index, and_imp]
  constructor
  · intro hall c hc
    exact (hescaped c).mp fun d hd => hall d c hc hd
  · intro hname d c hc
    exact (hescaped c).mpr (hname c hc) d

/-! ### Reading -/

/-- What has been read, with one more character of the name in front. -/
def withChar (c : Char) (read : List Char × List Char) : List Char × List Char :=
  (c :: read.1, read.2)

theorem unquoteRest_apostrophe (rest : List Char) :
    unquoteRest (apostrophe :: rest) = some ([], rest) := by
  rw [unquoteRest.eq_def]
  rfl

theorem unquoteRest_backslash (c : Char) (rest : List Char) :
    unquoteRest (backslash :: c :: rest) = (unquoteRest rest).map (withChar c) := by
  rw [unquoteRest.eq_def]
  dsimp only
  rw [if_neg (by decide), if_pos rfl]
  rfl

theorem unquoteRest_other {c : Char} (hc : ¬ (c = backslash ∨ c = apostrophe)) (rest : List Char) :
    unquoteRest (c :: rest) = (unquoteRest rest).map (withChar c) := by
  rw [not_or] at hc
  rw [unquoteRest.eq_def]
  dsimp only
  rw [if_neg hc.2, if_neg hc.1]
  rfl

/-- An escaped name is read up to the apostrophe behind it. -/
theorem unquoteRest_escaped (name rest : List Char) :
    unquoteRest (name.flatMap escapeNameChar ++ apostrophe :: rest) = some (name, rest) := by
  induction name with
  | nil => exact unquoteRest_apostrophe rest
  | cons c name ih =>
      rw [List.flatMap_cons, List.append_assoc, escapeNameChar]
      by_cases hc : c = backslash ∨ c = apostrophe
      · rw [if_pos hc, List.cons_append, List.singleton_append, unquoteRest_backslash, ih]
        rfl
      · rw [if_neg hc, List.singleton_append, unquoteRest_other hc, ih]
        rfl

/-- A quoted name is read back, and what follows it is left as it is. -/
theorem unquote_quoteName (name : String) (rest : List Char) :
    unquote ((quoteName name).toList ++ rest) = some (name.toList, rest) := by
  have htext : (quoteName name).toList ++ rest =
      apostrophe :: (name.toList.flatMap escapeNameChar ++ apostrophe :: rest) := by
    simp [toList_quoteName]
  rw [htext, unquote, if_pos rfl, unquoteRest_escaped]

/-- A quoted name is known from the front of a text. -/
theorem quoteName_append_inj {first second : String} {rest others : List Char}
    (htext : (quoteName first).toList ++ rest = (quoteName second).toList ++ others) :
    first = second ∧ rest = others := by
  have hread := congrArg unquote htext
  rw [unquote_quoteName, unquote_quoteName, Option.some.injEq, Prod.mk.injEq] at hread
  exact ⟨String.toList_inj.mp hread.1, hread.2⟩

/-! ### Reading with more text behind -/

/-- What has been read, with more text left over. -/
def withMore (more : List Char) (read : List Char × List Char) : List Char × List Char :=
  (read.1, read.2 ++ more)

/-- A literal that is over is read in the same way when more text follows. -/
theorem unquoteRest_append (text more : List Char) {read : List Char × List Char}
    (hread : unquoteRest text = some read) :
    unquoteRest (text ++ more) = some (withMore more read) := by
  induction text using unquoteRest.induct generalizing read with
  | case1 => simp [unquoteRest] at hread
  | case2 text =>
      rw [unquoteRest_apostrophe] at hread
      obtain rfl := Option.some.inj hread
      exact unquoteRest_apostrophe _
  | case3 => simp [unquoteRest, show backslash ≠ apostrophe by decide] at hread
  | case4 next text _ ih =>
      rw [unquoteRest_backslash] at hread
      obtain ⟨inner, hinner, rfl⟩ := Option.map_eq_some_iff.mp hread
      rw [List.cons_append, List.cons_append, unquoteRest_backslash, ih hinner]
      rfl
  | case5 c text hapostrophe hbackslash ih =>
      have hc : ¬ (c = backslash ∨ c = apostrophe) := not_or.mpr ⟨hbackslash, hapostrophe⟩
      rw [unquoteRest_other hc] at hread
      obtain ⟨inner, hinner, rfl⟩ := Option.map_eq_some_iff.mp hread
      rw [List.cons_append, unquoteRest_other hc, ih hinner]
      rfl

theorem unquote_append (text more : List Char) {read : List Char × List Char}
    (hread : unquote text = some read) : unquote (text ++ more) = some (withMore more read) := by
  cases text with
  | nil => cases hread
  | cons c text =>
      rw [unquote] at hread
      rw [List.cons_append, unquote]
      split at hread
      · rename_i hopening
        rw [if_pos hopening]
        exact unquoteRest_append text more hread
      · cases hread

/-- No part of a quoted name that lacks its end is a literal. -/
theorem unquote_of_quoteName_cut {name : String} {front behind : List Char} {c : Char}
    (hcut : (quoteName name).toList = front ++ c :: behind) : unquote front = none := by
  cases hread : unquote front with
  | none => rfl
  | some read =>
      -- The rest of the literal would be left over, but nothing is.
      have hwhole := unquote_quoteName name []
      rw [List.append_nil, hcut, unquote_append front (c :: behind) hread] at hwhole
      have hleft := congrArg Prod.snd (Option.some.inj hwhole)
      exact absurd hleft (List.append_ne_nil_of_right_ne_nil _ (List.cons_ne_nil _ _))

/-! ### The result -/

/-- No name gets out of its quotes.  The quoted name, which two passes over the name
give as well, is read back as the name whatever follows, and what follows is left
over in full; no shorter part of it is a literal at all. -/
theorem quoteName_cannot_be_left (name : String) :
    (quoteName name).toList =
        apostrophe :: guarded apostrophe (guarded backslash name.toList) ++ [apostrophe] ∧
      (∀ rest, unquote ((quoteName name).toList ++ rest) = some (name.toList, rest)) ∧
      ∀ front c behind, (quoteName name).toList = front ++ c :: behind → unquote front = none := by
  refine ⟨?_, unquote_quoteName name, fun front c behind hcut => unquote_of_quoteName_cut hcut⟩
  rw [toList_quoteName, flatMap_escapeNameChar]

/-- A name with a backslash before an apostrophe and a backslash at its end, before
a text that begins with an apostrophe. -/
theorem quoteName_cannot_be_left_lookalike :
    (quoteName "it\\\x27s\\").toList = "\x27it\\\\\\\x27s\\\\".toList ++ ['\x27'] ∧
      unquote ((quoteName "it\\\x27s\\").toList ++ "\x27 \x7b\x7d".toList) =
        some ("it\\\x27s\\".toList, "\x27 \x7b\x7d".toList) ∧
      unquote "\x27it\\\\\\\x27s\\\\".toList = none := by
  have hcut : (quoteName "it\\\x27s\\").toList =
      "\x27it\\\\\\\x27s\\\\".toList ++ ['\x27'] := by decide
  have hname := quoteName_cannot_be_left "it\\\x27s\\"
  exact ⟨hcut, hname.2.1 _, hname.2.2 _ _ _ hcut⟩

/-- With the passes in the other order an apostrophe closes its own literal. -/
example :
    unquote (apostrophe :: guarded backslash (guarded apostrophe [apostrophe]) ++ [apostrophe]) =
      some ([backslash], [apostrophe]) := by
  decide

end Assembly
end TapeCompiler
