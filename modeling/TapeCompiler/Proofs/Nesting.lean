import Mathlib.Data.List.Infix

/-!
# Proper nesting

Two items of an alphabet act as brackets.  A list is nested when no prefix
closes more than it opens and the whole closes all that it opens.  The same
notion is used on the characters of a source, on its commands and on the
segments that code is generated for, so it is stated once, over any alphabet.

`descend` is the scan that decides it: it keeps the depth and gives up at a
closing item that closes nothing.  `descend_eq_some_iff` ties the scan to the
counts over prefixes.  Two positions match when they hold an opening and a
closing item with a nested list between them; each bracket of a nested list
has exactly one partner.
-/

namespace TapeCompiler
namespace Source

variable {α β : Type} [DecidableEq α] [DecidableEq β]

/-- The depth behind a list, from the depth before it.  There is none if some
item closes more than is open. -/
def descend (opening closing : α) : Nat → List α → Option Nat
  | depth, [] => some depth
  | depth, item :: rest =>
      if item = opening then
        descend opening closing (depth + 1) rest
      else if item = closing then
        if depth = 0 then none else descend opening closing (depth - 1) rest
      else
        descend opening closing depth rest

/-- No prefix closes more than it opens, and the totals are equal. -/
def Nested (opening closing : α) (items : List α) : Prop :=
  (∀ front, front <+: items → front.count closing ≤ front.count opening) ∧
    items.count opening = items.count closing

instance (opening closing : α) (items : List α) : Decidable (Nested opening closing items) :=
  decidable_of_iff
    ((∀ front ∈ items.inits, front.count closing ≤ front.count opening) ∧
      items.count opening = items.count closing)
    (by simp only [List.mem_inits, Nested])

/-- The item at `first` opens and the one at `last` closes, and what lies
between them is nested. -/
def Matching (opening closing : α) (items : List α) (first last : Nat) : Prop :=
  first < last ∧ items[first]? = some opening ∧ items[last]? = some closing ∧
    Nested opening closing ((items.take last).drop (first + 1))

instance (opening closing : α) (items : List α) (first last : Nat) :
    Decidable (Matching opening closing items first last) :=
  inferInstanceAs (Decidable (_ ∧ _ ∧ _ ∧ _))

section Scan

variable {opening closing : α}

@[simp] theorem descend_nil (depth : Nat) :
    descend opening closing depth [] = some depth := rfl

@[simp] theorem descend_opening (depth : Nat) (rest : List α) :
    descend opening closing depth (opening :: rest) =
      descend opening closing (depth + 1) rest := by
  rw [descend, if_pos rfl]

theorem descend_closing_zero (hne : opening ≠ closing) (rest : List α) :
    descend opening closing 0 (closing :: rest) = none := by
  rw [descend, if_neg hne.symm, if_pos rfl, if_pos rfl]

theorem descend_closing_succ (hne : opening ≠ closing) (depth : Nat) (rest : List α) :
    descend opening closing (depth + 1) (closing :: rest) =
      descend opening closing depth rest := by
  rw [descend, if_neg hne.symm, if_pos rfl, if_neg (Nat.succ_ne_zero depth), Nat.add_sub_cancel]

theorem descend_other {item : α} (hopening : item ≠ opening) (hclosing : item ≠ closing)
    (depth : Nat) (rest : List α) :
    descend opening closing depth (item :: rest) = descend opening closing depth rest := by
  rw [descend, if_neg hopening, if_neg hclosing]

theorem descend_append (depth : Nat) (first second : List α) :
    descend opening closing depth (first ++ second) =
      (descend opening closing depth first).bind
        fun between => descend opening closing between second := by
  induction first generalizing depth with
  | nil => rfl
  | cons item rest ih =>
      rw [List.cons_append, descend, descend]
      split
      · exact ih (depth + 1)
      · split
        · split
          · rfl
          · exact ih (depth - 1)
        · exact ih depth

/-- A scan over expanded items is the scan over the items, if it is for each
item. -/
theorem descend_flatMap {opening' closing' : β} {expand : α → List β}
    (hexpand : ∀ depth item, descend opening' closing' depth (expand item) =
      descend opening closing depth [item])
    (depth : Nat) (items : List α) :
    descend opening' closing' depth (items.flatMap expand) =
      descend opening closing depth items := by
  induction items generalizing depth with
  | nil => rfl
  | cons item rest ih =>
      have hitems : descend opening closing depth (item :: rest) =
          (descend opening closing depth [item]).bind
            fun between => descend opening closing between rest :=
        descend_append depth [item] rest
      rw [List.flatMap_cons, descend_append, hexpand, hitems]
      simp only [ih]

/-- A scan succeeds exactly when no prefix closes more than is open by then,
and it then ends at the depth that the counts give. -/
theorem descend_eq_some_iff (hne : opening ≠ closing) {depth after : Nat} {items : List α} :
    descend opening closing depth items = some after ↔
      (∀ front, front <+: items → front.count closing ≤ depth + front.count opening) ∧
        depth + items.count opening = after + items.count closing := by
  induction items generalizing depth with
  | nil =>
      rw [descend_nil, Option.some_inj]
      constructor
      · rintro rfl
        refine ⟨?_, rfl⟩
        intro front hfront
        rw [List.prefix_nil.mp hfront]
        exact Nat.zero_le _
      · rintro ⟨-, hcount⟩
        simpa using hcount
  | cons item rest ih =>
      -- Every prefix but the empty one starts with the item.
      have hfronts (P : List α → Prop) (hnil : P []) :
          (∀ front, front <+: item :: rest → P front) ↔
            ∀ front, front <+: rest → P (item :: front) := by
        constructor
        · intro h front hfront
          exact h _ (List.cons_prefix_cons.mpr ⟨rfl, hfront⟩)
        · intro h front hfront
          rcases List.prefix_cons_iff.mp hfront with rfl | ⟨tail, rfl, htail⟩
          · exact hnil
          · exact h tail htail
      rw [hfronts _ (Nat.zero_le _)]
      by_cases hopening : item = opening
      · subst hopening
        rw [descend_opening, ih]
        simp only [List.count_cons_self, List.count_cons_of_ne hne]
        simp only [Nat.add_assoc, Nat.add_comm 1]
      by_cases hclosing : item = closing
      · subst hclosing
        simp only [List.count_cons_self, List.count_cons_of_ne (Ne.symm hne)]
        cases depth with
        | zero =>
            rw [descend_closing_zero hne]
            constructor
            · intro h
              cases h
            · rintro ⟨hfront, -⟩
              have := hfront [] List.nil_prefix
              simp at this
        | succ outer =>
            rw [descend_closing_succ hne, ih]
            constructor
            · rintro ⟨hfront, hcount⟩
              exact ⟨fun front h => by have := hfront front h; omega, by omega⟩
            · rintro ⟨hfront, hcount⟩
              exact ⟨fun front h => by have := hfront front h; omega, by omega⟩
      · rw [descend_other hopening hclosing, ih]
        simp only [List.count_cons_of_ne hopening, List.count_cons_of_ne hclosing]

/-- A list is nested exactly when the scan from depth zero ends at depth zero. -/
theorem nested_iff_descend (hne : opening ≠ closing) {items : List α} :
    Nested opening closing items ↔ descend opening closing 0 items = some 0 := by
  rw [descend_eq_some_iff hne, Nested]
  simp only [Nat.zero_add]

theorem Nested.descend_eq (hne : opening ≠ closing) {items : List α}
    (hnested : Nested opening closing items) (depth : Nat) :
    descend opening closing depth items = some depth := by
  refine (descend_eq_some_iff hne).mpr ⟨fun front hfront => ?_, by rw [hnested.2]⟩
  exact Nat.le_trans (hnested.1 front hfront) (Nat.le_add_left _ depth)

/-- Behind a nested list the rest has to be nested by itself. -/
theorem Nested.append_iff_right (hne : opening ≠ closing) {first second : List α}
    (hfirst : Nested opening closing first) :
    Nested opening closing (first ++ second) ↔ Nested opening closing second := by
  rw [nested_iff_descend hne, nested_iff_descend hne, descend_append, hfirst.descend_eq hne]
  rfl

/-- Before a nested list the rest has to be nested by itself. -/
theorem Nested.append_iff_left (hne : opening ≠ closing) {first second : List α}
    (hsecond : Nested opening closing second) :
    Nested opening closing (first ++ second) ↔ Nested opening closing first := by
  rw [nested_iff_descend hne, nested_iff_descend hne, descend_append]
  simp only [hsecond.descend_eq hne, Option.bind_fun_some]

/-- A scan that ends below the depth at which it starts passes a closing item
with a nested list before it.  The start is taken `extra` levels deeper, since
the induction goes through items that open. -/
theorem exists_closing_of_descend (hne : opening ≠ closing) {low after : Nat} (extra : Nat)
    {items : List α} (hscan : descend opening closing (low + 1 + extra) items = some after)
    (hlow : after ≤ low) :
    ∃ body behind, items = body ++ closing :: behind ∧
      descend opening closing extra body = some 0 := by
  induction items generalizing extra with
  | nil =>
      rw [descend_nil, Option.some_inj] at hscan
      omega
  | cons item rest ih =>
      by_cases hopening : item = opening
      · subst hopening
        rw [descend_opening] at hscan
        obtain ⟨body, behind, hrest, hbody⟩ := ih (extra + 1) hscan
        refine ⟨item :: body, behind, by rw [hrest, List.cons_append], ?_⟩
        rw [descend_opening, hbody]
      by_cases hclosing : item = closing
      · subst hclosing
        cases extra with
        | zero => exact ⟨[], rest, rfl, rfl⟩
        | succ extra =>
            rw [show low + 1 + (extra + 1) = low + 1 + extra + 1 by omega,
              descend_closing_succ hne] at hscan
            obtain ⟨body, behind, hrest, hbody⟩ := ih extra hscan
            refine ⟨item :: body, behind, by rw [hrest, List.cons_append], ?_⟩
            rw [descend_closing_succ hne, hbody]
      · rw [descend_other hopening hclosing] at hscan
        obtain ⟨body, behind, hrest, hbody⟩ := ih extra hscan
        refine ⟨item :: body, behind, by rw [hrest, List.cons_append], ?_⟩
        rw [descend_other hopening hclosing, hbody]

/-- A scan that ends above the depth at which it starts passes an opening item
with a nested list behind it.  The list is taken apart from its end. -/
theorem exists_opening_of_descend (hne : opening ≠ closing) {depth low : Nat} (extra : Nat)
    {items : List α} (hscan : descend opening closing depth items = some (low + 1 + extra))
    (hlow : depth ≤ low) :
    ∃ before body, items = before ++ opening :: body ∧
      descend opening closing 0 body = some extra := by
  induction items using List.reverseRecOn generalizing extra with
  | nil =>
      rw [descend_nil, Option.some_inj] at hscan
      omega
  | append_singleton front item ih =>
      rw [descend_append] at hscan
      obtain ⟨between, hfront, hitem⟩ := Option.bind_eq_some_iff.mp hscan
      have hextend {before body : List α} (hsplit : front = before ++ opening :: body) :
          front ++ [item] = before ++ opening :: (body ++ [item]) := by
        rw [hsplit, List.append_assoc, List.cons_append]
      by_cases hopening : item = opening
      · subst hopening
        rw [descend_opening, descend_nil, Option.some_inj] at hitem
        cases extra with
        | zero => exact ⟨front, [], rfl, rfl⟩
        | succ extra =>
            rw [show between = low + 1 + extra by omega] at hfront
            obtain ⟨before, body, hsplit, hbody⟩ := ih extra hfront
            refine ⟨before, body ++ [item], hextend hsplit, ?_⟩
            rw [descend_append, hbody, Option.bind_some, descend_opening, descend_nil]
      by_cases hclosing : item = closing
      · subst hclosing
        cases between with
        | zero =>
            rw [descend_closing_zero hne] at hitem
            cases hitem
        | succ between =>
            rw [descend_closing_succ hne, descend_nil, Option.some_inj] at hitem
            rw [show between + 1 = low + 1 + (extra + 1) by omega] at hfront
            obtain ⟨before, body, hsplit, hbody⟩ := ih (extra + 1) hfront
            refine ⟨before, body ++ [item], hextend hsplit, ?_⟩
            rw [descend_append, hbody, Option.bind_some, descend_closing_succ hne, descend_nil]
      · rw [descend_other hopening hclosing, descend_nil, Option.some_inj] at hitem
        rw [hitem] at hfront
        obtain ⟨before, body, hsplit, hbody⟩ := ih extra hfront
        refine ⟨before, body ++ [item], hextend hsplit, ?_⟩
        rw [descend_append, hbody, Option.bind_some, descend_other hopening hclosing, descend_nil]

end Scan

section Partners

variable {opening closing : α}

/-- Every opening item of a nested list has its loop behind it. -/
theorem Nested.exists_closing (hne : opening ≠ closing) {before rest : List α}
    (hnested : Nested opening closing (before ++ opening :: rest)) :
    ∃ body behind, rest = body ++ closing :: behind ∧ Nested opening closing body := by
  have hscan := (nested_iff_descend hne).mp hnested
  rw [descend_append] at hscan
  obtain ⟨depth, -, hrest⟩ := Option.bind_eq_some_iff.mp hscan
  rw [descend_opening] at hrest
  obtain ⟨body, behind, hsplit, hbody⟩ :=
    exists_closing_of_descend hne 0 hrest (Nat.zero_le depth)
  exact ⟨body, behind, hsplit, (nested_iff_descend hne).mpr hbody⟩

/-- Every closing item of a nested list has its loop before it. -/
theorem Nested.exists_opening (hne : opening ≠ closing) {front behind : List α}
    (hnested : Nested opening closing (front ++ closing :: behind)) :
    ∃ before body, front = before ++ opening :: body ∧ Nested opening closing body := by
  have hscan := (nested_iff_descend hne).mp hnested
  rw [descend_append] at hscan
  obtain ⟨depth, hfront, hbehind⟩ := Option.bind_eq_some_iff.mp hscan
  cases depth with
  | zero =>
      rw [descend_closing_zero hne] at hbehind
      cases hbehind
  | succ depth =>
      obtain ⟨before, body, hsplit, hbody⟩ :=
        exists_opening_of_descend hne 0 hfront (Nat.zero_le depth)
      exact ⟨before, body, hsplit, (nested_iff_descend hne).mpr hbody⟩

/-- Two positions match exactly when the list is cut at them around a nested
body. -/
theorem matching_iff_split {items : List α} {first last : Nat} :
    Matching opening closing items first last ↔
      ∃ before body behind, items = before ++ opening :: body ++ closing :: behind ∧
        Nested opening closing body ∧ before.length = first ∧
        before.length + 1 + body.length = last := by
  constructor
  · rintro ⟨hlt, hfirst, hlast, hbody⟩
    obtain ⟨hlastLt, hlastItem⟩ := List.getElem?_eq_some_iff.mp hlast
    obtain ⟨hfirstLt, hfirstItem⟩ := List.getElem?_eq_some_iff.mp hfirst
    refine ⟨items.take first, (items.take last).drop (first + 1), items.drop (last + 1), ?_,
      hbody, ?_, ?_⟩
    · have htail : items.drop last = closing :: items.drop (last + 1) := by
        rw [List.drop_eq_getElem_cons hlastLt, hlastItem]
      have hmiddle : (items.take last).drop first =
          opening :: (items.take last).drop (first + 1) := by
        rw [List.drop_eq_getElem_cons (by rw [List.length_take]; omega), List.getElem_take,
          hfirstItem]
      have hfront : items.take first = (items.take last).take first := by
        rw [List.take_take, Nat.min_eq_left (Nat.le_of_lt hlt)]
      calc
        items = items.take last ++ items.drop last := (List.take_append_drop last items).symm
        _ = ((items.take last).take first ++ (items.take last).drop first) ++
              items.drop last := by rw [List.take_append_drop first (items.take last)]
        _ = _ := by rw [htail, hmiddle, ← hfront]
    · rw [List.length_take]
      omega
    · rw [List.length_take, List.length_drop, List.length_take]
      omega
  · rintro ⟨before, body, behind, rfl, hbody, rfl, rfl⟩
    refine ⟨by omega, ?_, ?_, ?_⟩
    · rw [List.append_assoc, List.getElem?_append_right (Nat.le_refl _)]
      simp
    · have hlength : (before ++ opening :: body).length = before.length + 1 + body.length := by
        simp
        omega
      rw [← hlength, List.getElem?_append_right (Nat.le_refl _), Nat.sub_self]
      rfl
    · have htake : (before ++ opening :: body ++ closing :: behind).take
          (before.length + 1 + body.length) = before ++ opening :: body := by
        rw [List.take_append_of_le_length (by simp; omega), List.take_of_length_le (by simp; omega)]
      have hdrop : (before ++ opening :: body).drop (before.length + 1) = body := by
        rw [List.append_cons, List.drop_left' (by simp)]
      rw [htake, hdrop]
      exact hbody

theorem Nested.matching_around {body : List α} (hbody : Nested opening closing body)
    (before behind : List α) :
    Matching opening closing (before ++ opening :: body ++ closing :: behind)
      before.length (before ++ opening :: body).length := by
  rw [matching_iff_split]
  refine ⟨before, body, behind, rfl, hbody, rfl, ?_⟩
  rw [List.length_append, List.length_cons]
  omega

/-- No nested list goes on with the closing item of another. -/
theorem Nested.not_append_closing {inner outer : List α} (hne : opening ≠ closing)
    (hinner : Nested opening closing inner) (houter : Nested opening closing outer) :
    ¬ inner ++ [closing] <+: outer := by
  intro hfront
  have hbound := houter.1 _ hfront
  have hequal := hinner.2
  rw [List.count_append, List.count_append, List.count_singleton_self,
    List.count_singleton, if_neg (by simpa using hne.symm)] at hbound
  omega

theorem Matching.last_unique (hne : opening ≠ closing) {items : List α} {first last other : Nat}
    (hlast : Matching opening closing items first last)
    (hother : Matching opening closing items first other) : last = other := by
  obtain ⟨before, body, behind, hitems, hbody, hbefore, rfl⟩ := matching_iff_split.mp hlast
  obtain ⟨before', body', behind', hitems', hbody', hbefore', rfl⟩ :=
    matching_iff_split.mp hother
  rw [hitems, List.append_assoc, List.append_assoc] at hitems'
  obtain ⟨-, htails⟩ := List.append_inj hitems' (hbefore.trans hbefore'.symm)
  have hrests : body ++ closing :: behind = body' ++ closing :: behind' := by
    simpa using htails
  -- The longer of the two bodies would start with the shorter one and its closing item.
  rcases Nat.lt_trichotomy body.length body'.length with hlt | heq | hgt
  · have hshort : body ++ [closing] <+: body ++ closing :: behind := ⟨behind, by simp⟩
    have hlong : body' <+: body ++ closing :: behind := ⟨closing :: behind', hrests.symm⟩
    have hfront := List.prefix_of_prefix_length_le hshort hlong (by simp; omega)
    exact absurd hfront (hbody.not_append_closing hne hbody')
  · omega
  · have hshort : body' ++ [closing] <+: body ++ closing :: behind :=
      ⟨behind', by rw [hrests]; simp⟩
    have hlong : body <+: body ++ closing :: behind := List.prefix_append body _
    have hfront := List.prefix_of_prefix_length_le hshort hlong (by simp; omega)
    exact absurd hfront (hbody'.not_append_closing hne hbody)

/-- No nested list ends in the opening item of another and that list. -/
theorem Nested.not_cons_opening {inner outer : List α} (hne : opening ≠ closing)
    (hinner : Nested opening closing inner) (houter : Nested opening closing outer) :
    ¬ opening :: inner <:+ outer := by
  rintro ⟨front, rfl⟩
  have hfront := houter.1 front (List.prefix_append front _)
  have houterCount := houter.2
  have hinnerCount := hinner.2
  rw [List.count_append, List.count_append, List.count_cons_self,
    List.count_cons_of_ne hne] at houterCount
  omega

theorem Matching.first_unique (hne : opening ≠ closing) {items : List α} {first other last : Nat}
    (hfirst : Matching opening closing items first last)
    (hother : Matching opening closing items other last) : first = other := by
  obtain ⟨before, body, behind, hitems, hbody, rfl, hlast⟩ := matching_iff_split.mp hfirst
  obtain ⟨before', body', behind', hitems', hbody', rfl, hlast'⟩ :=
    matching_iff_split.mp hother
  rw [hitems] at hitems'
  have hlength : (before ++ opening :: body).length = (before' ++ opening :: body').length := by
    simp
    omega
  have hfronts := (List.append_inj hitems' hlength).1
  -- The loop that starts later would be a suffix of the body of the other.
  rcases List.append_eq_append_iff.mp hfronts with ⟨gap, hgap, htail⟩ | ⟨gap, hgap, htail⟩
  · cases gap with
    | nil => simp [hgap]
    | cons item gap =>
        have hsuffix : opening :: body' <:+ body := ⟨gap, (List.cons.inj htail).2.symm⟩
        exact absurd hsuffix (hbody'.not_cons_opening hne hbody)
  · cases gap with
    | nil => simp [hgap]
    | cons item gap =>
        have hsuffix : opening :: body <:+ body' := ⟨gap, (List.cons.inj htail).2.symm⟩
        exact absurd hsuffix (hbody.not_cons_opening hne hbody')

/-- The index of the opening item that the item at an index matches. -/
def openingOf (opening closing : α) (items : List α) (last : Nat) : Option Nat :=
  (List.range last).find? fun first => decide (Matching opening closing items first last)

/-- The index of the closing item that the item at an index matches. -/
def closingOf (opening closing : α) (items : List α) (first : Nat) : Option Nat :=
  (List.range items.length).find? fun last => decide (Matching opening closing items first last)

theorem Matching.openingOf_eq (hne : opening ≠ closing) {items : List α} {first last : Nat}
    (hmatching : Matching opening closing items first last) :
    openingOf opening closing items last = some first := by
  cases hfind : openingOf opening closing items last with
  | none =>
      have hnone := List.find?_eq_none.mp hfind first (List.mem_range.mpr hmatching.1)
      simp [hmatching] at hnone
  | some other =>
      have hother := List.find?_some hfind
      simp only [decide_eq_true_eq] at hother
      rw [hother.first_unique hne hmatching]

theorem Matching.closingOf_eq (hne : opening ≠ closing) {items : List α} {first last : Nat}
    (hmatching : Matching opening closing items first last) :
    closingOf opening closing items first = some last := by
  have hlast := (List.getElem?_eq_some_iff.mp hmatching.2.2.1).1
  cases hfind : closingOf opening closing items first with
  | none =>
      have hnone := List.find?_eq_none.mp hfind last (List.mem_range.mpr hlast)
      simp [hmatching] at hnone
  | some other =>
      have hother := List.find?_some hfind
      simp only [decide_eq_true_eq] at hother
      rw [hother.last_unique hne hmatching]

omit [DecidableEq α] in
theorem split_at {items : List α} {pos : Nat} {item : α} (hpos : items[pos]? = some item) :
    ∃ before behind, items = before ++ item :: behind ∧ before.length = pos := by
  obtain ⟨hlt, rfl⟩ := List.getElem?_eq_some_iff.mp hpos
  refine ⟨items.take pos, items.drop (pos + 1), ?_, List.length_take_of_le (Nat.le_of_lt hlt)⟩
  rw [← List.drop_eq_getElem_cons hlt, List.take_append_drop]

theorem Nested.exists_matching_closing (hne : opening ≠ closing) {items : List α}
    (hnested : Nested opening closing items) {first : Nat} (hfirst : items[first]? = some opening) :
    ∃ last, Matching opening closing items first last := by
  obtain ⟨before, rest, rfl, rfl⟩ := split_at hfirst
  obtain ⟨body, behind, rfl, hbody⟩ := hnested.exists_closing hne
  refine ⟨_, matching_iff_split.mpr ⟨before, body, behind, ?_, hbody, rfl, rfl⟩⟩
  simp

theorem Nested.exists_matching_opening (hne : opening ≠ closing) {items : List α}
    (hnested : Nested opening closing items) {last : Nat} (hlast : items[last]? = some closing) :
    ∃ first, Matching opening closing items first last := by
  obtain ⟨front, behind, rfl, rfl⟩ := split_at hlast
  obtain ⟨before, body, rfl, hbody⟩ := hnested.exists_opening hne
  refine ⟨_, matching_iff_split.mpr ⟨before, body, behind, rfl, hbody, rfl, ?_⟩⟩
  simp
  omega

end Partners

end Source
end TapeCompiler
