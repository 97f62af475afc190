import TapeCompiler.Proofs.Lines
import TapeCompiler.Proofs.Positions

/-!
# Excerpts and carets

An excerpt shows the lines around a place with their numbers, and a caret below
the column.  The lines are cut into a `Window`: the marked one, those near it,
and those too far away.  The rows of the excerpt are the rows of the window
(`Window.toList_excerptLines`), and since no row has a newline they are found
again when the excerpt is cut into lines (`Window.lines_excerpt`).  For any place,
inside the lines or not, the rows are those of the numbers in reach, one after the
other (`excerptLines_eq_numbers`).

The margin before a numbered line grows with the number, and the margin before
the caret does not.  The caret stands below its character as long as the number
has at most four digits, and too far to the left from line 10000 on.

Main statements: `placed_excerpt_shows_window` and `caret_below_character_iff`.
-/

namespace TapeCompiler
namespace Source

open Text

/-! ### Rows -/

/-- What stands before a numbered line: the mark, the number right-aligned to
four places, and a bar. -/
def margin (mark : Char) (number : Nat) : List Char :=
  let digits := Nat.toDigits 10 number
  mark :: ' ' :: (List.replicate (4 - digits.length) ' ' ++ digits ++ [' ', '|', ' '])

def numberedRow (mark : Char) (number : Nat) (text : List Char) : List Char :=
  margin mark number ++ text

def caretRow (column : Nat) : List Char :=
  List.replicate 7 ' ' ++ ['|', ' '] ++ List.replicate (column - 1) ' ' ++ ['^']

theorem toList_rightAligned (width number : Nat) :
    (rightAligned width number).toList =
      List.replicate (width - (Nat.toDigits 10 number).length) ' ' ++ Nat.toDigits 10 number := by
  simp [rightAligned, ← String.length_toList]

theorem toList_numberedLine (marked : Bool) (number : Nat) (text : List Char) :
    (numberedLine marked number (String.ofList text)).toList =
      numberedRow (if marked then '>' else ' ') number text := by
  cases marked <;> simp [numberedLine, numberedRow, margin, toList_rightAligned]

theorem toList_caretLine (column : Nat) : (caretLine column).toList = caretRow column := by
  have hwidth : ((column : Int) - 1).toNat = column - 1 := by omega
  simp [caretLine, caretRow, hwidth]

/-! ### Windows -/

/-- Lines cut around one of them, with up to `reach` lines near it on either
side. -/
structure Window (texts : List (List Char)) (line reach : Nat) where
  far : List (List Char)
  near : List (List Char)
  text : List Char
  next : List (List Char)
  rest : List (List Char)
  cut : texts = far ++ (near ++ text :: (next ++ rest))
  length_far : far.length = line - 1 - reach
  length_near : far.length + near.length + 1 = line
  length_next : next.length = min reach (texts.length - line)

/-- The window around a line that exists. -/
def Window.around (texts : List (List Char)) (reach : Nat) {line : Nat} (hfirst : 1 ≤ line)
    (hlast : line ≤ texts.length) : Window texts line reach where
  far := texts.take (line - 1 - reach)
  near := (texts.take (line - 1)).drop (line - 1 - reach)
  text := texts.get ⟨line - 1, by omega⟩
  next := (texts.drop line).take reach
  rest := (texts.drop line).drop reach
  cut := by
    have hline : texts.drop (line - 1) = texts.get ⟨line - 1, by omega⟩ :: texts.drop line := by
      have hnext : line - 1 + 1 = line := by omega
      rw [List.drop_eq_getElem_cons (by omega), hnext]
      rfl
    have hfar :
        texts.take (line - 1 - reach) = (texts.take (line - 1)).take (line - 1 - reach) := by
      rw [List.take_take, Nat.min_eq_left (Nat.sub_le _ _)]
    rw [List.take_append_drop, ← hline, hfar, ← List.append_assoc, List.take_append_drop,
      List.take_append_drop]
  length_far := by
    rw [List.length_take]
    omega
  length_near := by
    rw [List.length_drop, List.length_take, List.length_take]
    omega
  length_next := by
    rw [List.length_take, List.length_drop]

/-- The rows of lines without a mark, numbered from `first` on. -/
def plainRows (first : Nat) (texts : List (List Char)) : List (List Char) :=
  (texts.zipIdx first).map fun (text, number) => numberedRow ' ' number text

/-- The rows of the lines with the given numbers.  There are none if one of the
numbers is that of no line. -/
def plainRows? (texts : List (List Char)) (numbers : List Nat) : Option (List (List Char)) :=
  numbers.mapM fun number => (texts[number - 1]?).map (numberedRow ' ' number)

def numbersFrom (first last : Nat) : List Nat :=
  List.range' first (last + 1 - first)

theorem plainRows?_part (front part back : List (List Char)) :
    plainRows? (front ++ (part ++ back)) (List.range' (front.length + 1) part.length) =
      some (plainRows (front.length + 1) part) := by
  induction part generalizing front with
  | nil => rfl
  | cons text part ih =>
      have hfound : (front ++ (text :: part ++ back))[front.length + 1 - 1]? = some text := by
        simp
      have hrest := ih (front ++ [text])
      rw [List.length_append, List.length_singleton, List.append_assoc, List.singleton_append,
        ← List.cons_append] at hrest
      rw [plainRows?] at hrest ⊢
      rw [List.length_cons, List.range'_succ, List.mapM_cons, hfound, hrest]
      rfl

/-! ### The rows of an excerpt -/

/-- The rows that an excerpt has for one line. -/
def rowsAt (marked column context : Int) (text : String) (index : Nat) : List String :=
  let number : Int := index + 1
  if marked - context ≤ number ∧ number ≤ marked + context then
    if number = marked then
      [numberedLine true (index + 1) text, caretLine column]
    else
      [numberedLine false (index + 1) text]
  else
    []

theorem excerptLines_eq (texts : List String) (line column context : Int) :
    excerptLines texts line column context =
      texts.zipIdx.flatMap fun entry => rowsAt (max 1 line) column context entry.1 entry.2 := rfl

/-! ### The loop over the numbers -/

/-- The rows of the line with a number, with the caret below it if it is the
marked one. -/
def rowsOf (marked column : Int) (number : Nat) (text : String) : List String :=
  numberedLine (number = marked) number text :: if number = marked then [caretLine column] else []

theorem rowsAt_eq_rowsOf (marked column context : Int) (text : String) (index : Nat) :
    rowsAt marked column context text index =
      if max 1 (marked - context) ≤ (index : Int) + 1 ∧ (index : Int) + 1 ≤ marked + context then
        rowsOf marked column (index + 1) text
      else
        [] := by
  have hreach : max 1 (marked - context) ≤ (index : Int) + 1 ↔
      marked - context ≤ (index : Int) + 1 := by omega
  simp only [rowsAt, rowsOf, hreach]
  by_cases hmarked : (index : Int) + 1 = marked <;> simp [hmarked]

/-- The numbers of the lines in reach, of so many lines. -/
def numbersInReach (marked context : Int) (length : Nat) : List Nat :=
  numbersFrom (max 1 (marked - context)).toNat (min (length : Int) (marked + context)).toNat

theorem numbersFrom_eq_nil {first last : Nat} (hfirst : last < first) :
    numbersFrom first last = [] := by
  rw [numbersFrom, Nat.sub_eq_zero_of_le hfirst]
  rfl

theorem numbersFrom_succ {first last : Nat} (hfirst : first ≤ last + 1) :
    numbersFrom first (last + 1) = numbersFrom first last ++ [last + 1] := by
  have hlength : last + 1 + 1 - first = last + 1 - first + 1 := by omega
  have hlast : first + (last + 1 - first) = last + 1 := by omega
  rw [numbersFrom, hlength, List.range'_1_concat, hlast, numbersFrom]

section Reach

variable {marked context : Int} {length : Nat}

theorem numbersInReach_zero : numbersInReach marked context 0 = [] :=
  numbersFrom_eq_nil (by omega)

theorem bounds_of_mem_numbersInReach {number : Nat}
    (hmem : number ∈ numbersInReach marked context length) : 1 ≤ number ∧ number ≤ length := by
  rw [numbersInReach, numbersFrom, List.mem_range'_1] at hmem
  omega

/-- One more line adds its number if it is in reach. -/
theorem numbersInReach_succ :
    numbersInReach marked context (length + 1) =
      numbersInReach marked context length ++
        if max 1 (marked - context) ≤ (length : Int) + 1 ∧ (length : Int) + 1 ≤ marked + context
        then [length + 1] else [] := by
  rw [numbersInReach, numbersInReach]
  split
  · have hbefore : (min (length : Int) (marked + context)).toNat = length := by omega
    have hafter : (min ((length + 1 : Nat) : Int) (marked + context)).toNat = length + 1 := by omega
    rw [hbefore, hafter, numbersFrom_succ (by omega)]
  · rw [List.append_nil]
    by_cases hshort : (length : Int) + 1 < max 1 (marked - context)
    · rw [numbersFrom_eq_nil (by omega), numbersFrom_eq_nil (by omega)]
    · have hsame : (min ((length + 1 : Nat) : Int) (marked + context)).toNat =
          (min (length : Int) (marked + context)).toNat := by omega
      rw [hsame]

end Reach

theorem flatMap_rowsAt (marked column context : Int) (texts : List String) :
    (texts.zipIdx.flatMap fun entry => rowsAt marked column context entry.1 entry.2) =
      (numbersInReach marked context texts.length).flatMap fun number =>
        rowsOf marked column number (texts[number - 1]?.getD "") := by
  -- Lines are taken away from the end, so that those before keep their numbers.
  induction texts using List.reverseRecOn with
  | nil =>
      rw [List.length_nil, numbersInReach_zero]
      rfl
  | append_singleton texts text ih =>
      have hkept : ∀ number ∈ numbersInReach marked context texts.length,
          rowsOf marked column number (texts[number - 1]?.getD "") =
            rowsOf marked column number ((texts ++ [text])[number - 1]?.getD "") := by
        intro number hnumber
        have hbounds := bounds_of_mem_numbersInReach hnumber
        rw [List.getElem?_append_left (by omega)]
      have hlast : ([text].zipIdx texts.length).flatMap
          (fun entry => rowsAt marked column context entry.1 entry.2) =
            rowsAt marked column context text texts.length := by simp
      rw [List.zipIdx_append, List.flatMap_append, ih, List.flatMap_congr hkept, Nat.zero_add, hlast,
        rowsAt_eq_rowsOf, List.length_append, List.length_singleton, numbersInReach_succ,
        List.flatMap_append]
      split <;> simp

/-- The rows of an excerpt are those of the lines from the first number in reach
to the last. -/
theorem excerptLines_eq_numbers (texts : List String) (line column context : Int) :
    let marked := max 1 line
    let first := max 1 (marked - context)
    let last := min (texts.length : Int) (marked + context)
    excerptLines texts line column context =
      (numbersFrom first.toNat last.toNat).flatMap fun number =>
        rowsOf marked column number (texts[number - 1]?.getD "") := by
  intro marked first last
  rw [excerptLines_eq]
  exact flatMap_rowsAt marked column context texts

section Parts

variable {marked column context : Int} {part : List (List Char)} {start : Nat}

theorem rowsAt_far (hfar : ∀ index, start ≤ index → index < start + part.length →
      (index : Int) + 1 < marked - context ∨ marked + context < (index : Int) + 1) :
    ((part.map String.ofList).zipIdx start).flatMap
      (fun entry => rowsAt marked column context entry.1 entry.2) = [] := by
  rw [List.flatMap_eq_nil_iff]
  rintro ⟨text, index⟩ hentry
  obtain ⟨hfirst, hlast, -⟩ := List.mem_zipIdx hentry
  rw [List.length_map] at hlast
  have houtside := hfar index hfirst hlast
  rw [rowsAt, if_neg (by omega)]

/-- Lines within reach have one row each, the marked one apart. -/
theorem rowsAt_near (hnear : ∀ index, start ≤ index → index < start + part.length →
      marked - context ≤ (index : Int) + 1 ∧ (index : Int) + 1 ≤ marked + context ∧
        (index : Int) + 1 ≠ marked) :
    (((part.map String.ofList).zipIdx start).flatMap
      (fun entry => rowsAt marked column context entry.1 entry.2)).map String.toList =
      plainRows (start + 1) part := by
  induction part generalizing start with
  | nil => rfl
  | cons text part ih =>
      have hrest := @ih (start + 1) fun index hfirst hlast =>
        hnear index (by omega) (by rw [List.length_cons]; omega)
      obtain ⟨hlow, hhigh, hother⟩ := hnear start (Nat.le_refl _) (by simp)
      rw [List.map_cons, List.zipIdx_cons, List.flatMap_cons, List.map_append, hrest, rowsAt,
        if_pos ⟨hlow, hhigh⟩, if_neg hother, List.map_singleton, toList_numberedLine]
      rfl

theorem rowsAt_marked (hcontext : 0 ≤ context) {index : Nat} (hmarked : marked = index + 1)
    (text : String) :
    rowsAt marked column context text index =
      [numberedLine true (index + 1) text, caretLine column] := by
  rw [rowsAt, if_pos (by omega), if_pos hmarked.symm]

end Parts

namespace Window

variable {texts : List (List Char)} {line reach : Nat}

def before (window : Window texts line reach) : List (List Char) :=
  plainRows (window.far.length + 1) window.near

def behind (window : Window texts line reach) : List (List Char) :=
  plainRows (line + 1) window.next

def rows (window : Window texts line reach) (column : Nat) : List (List Char) :=
  window.before ++ numberedRow '>' line window.text :: caretRow column :: window.behind

theorem text_found (window : Window texts line reach) : texts[line - 1]? = some window.text := by
  obtain ⟨far, near, text, next, rest, rfl, hfar, rfl, hnext⟩ := window
  have hfound : ((far ++ near) ++ text :: (next ++ rest))[(far ++ near).length]? = some text := by
    rw [List.getElem?_append_right (Nat.le_refl _), Nat.sub_self]
    rfl
  rwa [List.append_assoc, List.length_append] at hfound

theorem before_found (window : Window texts line reach) :
    plainRows? texts (numbersFrom (max 1 (line - reach)) (line - 1)) = some window.before := by
  obtain ⟨far, near, text, next, rest, rfl, hfar, rfl, hnext⟩ := window
  have hfirst : max 1 (far.length + near.length + 1 - reach) = far.length + 1 := by omega
  have hcount : far.length + near.length + 1 - 1 + 1 - (far.length + 1) = near.length := by omega
  rw [numbersFrom, hfirst, hcount]
  exact plainRows?_part _ _ _

theorem behind_found (window : Window texts line reach) :
    plainRows? texts (numbersFrom (line + 1) (min texts.length (line + reach))) =
      some window.behind := by
  have hcount : min texts.length (line + reach) + 1 - (line + 1) = window.next.length := by
    have hnext := window.length_next
    omega
  rw [numbersFrom, hcount]
  obtain ⟨far, near, text, next, rest, rfl, hfar, rfl, hnext⟩ := window
  have hpart := plainRows?_part (far ++ (near ++ [text])) next rest
  simp only [List.append_assoc, List.singleton_append, List.length_append, List.length_singleton,
    ← Nat.add_assoc] at hpart
  exact hpart

/-- The excerpt around a line has the rows of its window. -/
theorem toList_excerptLines (window : Window texts line reach) (column : Nat) :
    (excerptLines (texts.map String.ofList) line column reach).map String.toList =
      window.rows column := by
  obtain ⟨far, near, text, next, rest, rfl, hfar, rfl, hnext⟩ := window
  have hmarked : max 1 ((far.length + near.length + 1 : Nat) : Int) =
      ((far.length + near.length + 1 : Nat) : Int) := by omega
  have hends : next.length ≤ reach ∧ (rest.length = 0 ∨ next.length = reach) := by
    simp only [List.length_append, List.length_cons] at hnext
    omega
  -- The lines are gone through part by part: only the near ones and the marked one have rows.
  rw [excerptLines_eq, hmarked]
  simp only [List.map_append, List.map_cons, List.zipIdx_append, List.zipIdx_cons,
    List.flatMap_append, List.flatMap_cons, List.length_map, Nat.zero_add]
  rw [rowsAt_far ?far, rowsAt_near ?near,
    rowsAt_marked (Int.natCast_nonneg reach) (Int.natCast_succ _), rowsAt_near ?next,
    rowsAt_far ?rest]
  case far | near | next | rest =>
    intro index hfirst hlast
    omega
  simp only [List.map_nil, List.nil_append, List.append_nil, List.map_cons, toList_numberedLine,
    toList_caretLine, if_true]
  rfl

end Window

/-! ### Excerpts cut into lines -/

theorem newline_not_mem_margin {mark : Char} (hmark : mark ≠ '\n') (number : Nat) :
    '\n' ∉ margin mark number := by
  have hdigits := newline_not_mem_of_solid (Assembly.solid_numeral number)
  simp [margin, hmark.symm, hdigits]

theorem newline_not_mem_numberedRow {mark : Char} (hmark : mark ≠ '\n') (number : Nat)
    {text : List Char} (htext : '\n' ∉ text) : '\n' ∉ numberedRow mark number text := by
  rw [numberedRow, List.mem_append, not_or]
  exact ⟨newline_not_mem_margin hmark number, htext⟩

theorem newline_not_mem_plainRows {texts : List (List Char)}
    (htexts : ∀ text ∈ texts, '\n' ∉ text) (first : Nat) :
    ∀ row ∈ plainRows first texts, '\n' ∉ row := by
  intro row hrow
  obtain ⟨⟨text, number⟩, hentry, rfl⟩ := List.mem_map.mp hrow
  exact newline_not_mem_numberedRow (by decide) number
    (htexts text (List.fst_mem_of_mem_zipIdx hentry))

namespace Window

variable {texts : List (List Char)} {line reach : Nat}

theorem newline_not_mem_rows (window : Window texts line reach)
    (htexts : ∀ text ∈ texts, '\n' ∉ text) (column : Nat) :
    ∀ row ∈ window.rows column, '\n' ∉ row := by
  have hparts (text : List Char)
      (htext : text ∈ window.near ∨ text = window.text ∨ text ∈ window.next) : '\n' ∉ text := by
    apply htexts
    rw [window.cut]
    simp only [List.mem_append, List.mem_cons]
    tauto
  intro row hrow
  simp only [rows, List.mem_append, List.mem_cons] at hrow
  rcases hrow with hbefore | rfl | rfl | hbehind
  · exact newline_not_mem_plainRows (fun text htext => hparts text (.inl htext)) _ row hbefore
  · exact newline_not_mem_numberedRow (by decide) line (hparts _ (.inr (.inl rfl)))
  · simp [caretRow]
  · exact newline_not_mem_plainRows (fun text htext => hparts text (.inr (.inr htext))) _ row
      hbehind

/-- An excerpt is cut into the rows of its window. -/
theorem lines_excerpt (window : Window texts line reach) (htexts : ∀ text ∈ texts, '\n' ∉ text)
    (column : Nat) :
    lines (excerpt (texts.map String.ofList) line column reach).toList = window.rows column := by
  have hne : window.rows column ≠ [] := by simp [rows]
  rw [excerpt, String.toList_intercalate, window.toList_excerptLines, lines, splitAt_eq_splitOn]
  exact List.splitOn_intercalate '\n' (window.newline_not_mem_rows htexts column) hne

end Window

/-- The lines of a source around a place. -/
def placedWindow (source : List Char) (pos : Int) :
    Window (lines source) (Position.of source pos).line 2 :=
  .around _ 2 (Position.line_bounds source pos).1 (Position.line_bounds source pos).2

/-- The context of a report is cut into the rows around its place. -/
theorem lines_context (message : String) (source : List Char) (pos : Int) :
    lines (Diagnostic.placed message source pos).context.toList =
      (placedWindow source pos).rows (Position.of source pos).column :=
  (placedWindow source pos).lines_excerpt (fun _ htext => not_mem_of_mem_splitAt htext) _

/-- Whatever the index, the line of a report is one of the lines of the source,
and its context is cut into the rows of the lines from two before it to two behind
it, as far as there are such lines.  Each is found by its number and stands behind
it as it is.  The row of the line itself is the only one with a mark, and directly
behind it is the one row with the caret. -/
theorem placed_excerpt_shows_window (message : String) (source : List Char) (pos : Int) :
    let report := Diagnostic.placed message source pos
    let count := (lines source).length
    1 ≤ report.line ∧ report.line ≤ count ∧
    ∃ before text behind,
      plainRows? (lines source) (numbersFrom (max 1 (report.line - 2)) (report.line - 1)) =
        some before ∧
      (lines source)[report.line - 1]? = some text ∧
      plainRows? (lines source) (numbersFrom (report.line + 1) (min count (report.line + 2))) =
        some behind ∧
      lines report.context.toList =
        before ++ numberedRow '>' report.line text :: caretRow report.column :: behind := by
  intro report count
  obtain ⟨hfirst, hlast⟩ := Position.line_bounds source pos
  exact ⟨hfirst, hlast, _, _, _, (placedWindow source pos).before_found,
    (placedWindow source pos).text_found, (placedWindow source pos).behind_found,
    lines_context message source pos⟩

/-! ### The caret and its character -/

/-- In the context of a report the row with the mark, and no other, starts with
`>`.  It shows the line of the character at an index behind a margin, and in the
row directly behind it the caret stands `shift` places to the left of the
character. -/
def CaretLeftBy (report : Diagnostic) (source : List Char) (pos shift : Nat) : Prop :=
  ∃ before lead c caret behind,
    source[pos]? = some c ∧
    lines report.context.toList =
      before ++ (lead ++ (lastLine (source.take pos) ++ c :: firstLine (source.drop (pos + 1)))) ::
        caret :: behind ∧
    lead.head? = some '>' ∧ (∀ row ∈ before ++ caret :: behind, row.head? ≠ some '>') ∧
    ∀ offset, caret[offset]? = some '^' ↔
      offset + shift = lead.length + (lastLine (source.take pos)).length

theorem length_margin (mark : Char) (number : Nat) :
    (margin mark number).length = max 4 (Nat.toDigits 10 number).length + 5 := by
  simp only [margin, List.length_cons, List.length_append, List.length_replicate, List.length_nil]
  omega

/-- The caret stands behind the nine characters of its margin and a blank for each
column before its own. -/
theorem caretRow_offset (column offset : Nat) :
    (caretRow (column + 1))[offset]? = some '^' ↔ offset = column + 9 := by
  have hblank : '^' ∉ List.replicate 7 ' ' ++ ['|', ' '] ++ List.replicate column ' ' := by
    simp
  have hlength : (List.replicate 7 ' ' ++ ['|', ' '] ++ List.replicate column ' ').length =
      column + 9 := by
    simp only [List.length_append, List.length_replicate, List.length_cons, List.length_nil]
    omega
  rw [caretRow, Nat.add_sub_cancel, ← hlength]
  generalize List.replicate 7 ' ' ++ ['|', ' '] ++ List.replicate column ' ' = blank at hblank
  constructor
  · intro hoffset
    rcases Nat.lt_trichotomy offset blank.length with hinside | hend | hbeyond
    · rw [List.getElem?_append_left hinside] at hoffset
      exact absurd (List.mem_of_getElem? hoffset) hblank
    · exact hend
    · have hend : (blank ++ ['^']).length ≤ offset := by
        rw [List.length_append, List.length_singleton]
        omega
      rw [List.getElem?_eq_none hend] at hoffset
      cases hoffset
  · rintro rfl
    exact List.getElem?_concat_length

/-- Lists of rows that are equal are equal from the first row with a mark on. -/
theorem eq_of_marked {α : Type} (marked : α → Bool) {before others behind further : List α}
    {first row : α} (hrows : before ++ first :: behind = others ++ row :: further)
    (hfirst : marked first = true) (hbefore : ∀ other ∈ before, marked other = false)
    (hrow : marked row = true) (hothers : ∀ other ∈ others, marked other = false) :
    first :: behind = row :: further := by
  have hdrop {front tail : List α} {next : α} (hfront : ∀ other ∈ front, marked other = false)
      (hnext : marked next = true) :
      (front ++ next :: tail).dropWhile (fun other => !marked other) = next :: tail := by
    rw [List.dropWhile_append_of_pos fun other hother => by rw [hfront other hother]; rfl,
      List.dropWhile_cons_of_neg (by rw [hnext]; exact Bool.false_ne_true)]
  rw [← hdrop hbefore hfirst, hrows, hdrop hothers hrow]

theorem head?_plainRows (first : Nat) (texts : List (List Char)) :
    ∀ row ∈ plainRows first texts, row.head? ≠ some '>' := by
  intro row hrow
  obtain ⟨⟨text, number⟩, -, rfl⟩ := List.mem_map.mp hrow
  simp [numberedRow, margin]

theorem Window.head?_rows {texts : List (List Char)} {line reach : Nat}
    (window : Window texts line reach) (column : Nat) :
    ∀ row ∈ window.before ++ caretRow column :: window.behind, row.head? ≠ some '>' := by
  intro row hrow
  rw [List.mem_append, List.mem_cons] at hrow
  rcases hrow with hbefore | rfl | hbehind
  · exact head?_plainRows _ _ row hbefore
  · simp [caretRow]
  · exact head?_plainRows _ _ row hbehind

/-- The caret is off by what the margin of the marked row has beyond nine
characters. -/
theorem caretLeftBy_iff (message : String) {source : List Char} {pos : Nat} {c : Char}
    (hpos : source[pos]? = some c) (hc : c ≠ '\n') (shift : Nat) :
    CaretLeftBy (Diagnostic.placed message source pos) source pos shift ↔
      shift + 9 = (margin '>' (Position.of source pos).line).length := by
  have htext : (placedWindow source pos).text =
      lastLine (source.take pos) ++ c :: firstLine (source.drop (pos + 1)) := by
    have hfound := (placedWindow source pos).text_found
    have hline := getElem?_lines_index hpos hc
    have hnumber : (Position.of source pos).line - 1 = (source.take pos).count '\n' := by
      rw [Position.of_index hpos, Nat.add_sub_cancel]
    rw [← hnumber] at hline
    exact Option.some.inj (hfound.symm.trans hline)
  have hcolumn : (Position.of source pos).column = (lastLine (source.take pos)).length + 1 := by
    rw [Position.of_index hpos]
  have hothers := (placedWindow source pos).head?_rows (Position.of source pos).column
  have hmark : (margin '>' (Position.of source pos).line).head? = some '>' := rfl
  rw [hcolumn] at hothers
  rw [CaretLeftBy, lines_context, Window.rows, htext, hcolumn]
  constructor
  · rintro ⟨before, lead, other, caret, behind, hother, hrows, hlead, hplain, hoffset⟩
    obtain rfl : c = other := Option.some.inj (hpos.symm.trans hother)
    -- The mark tells which row is meant, and its text how long its margin is.
    have hmarked := eq_of_marked (fun row => row.head? == some '>') hrows rfl
      (fun row hrow => by simpa using hothers row (List.mem_append_left _ hrow))
      (by simp [hlead])
      (fun row hrow => by simpa using hplain row (List.mem_append_left _ hrow))
    obtain ⟨hrow, hbehind⟩ := List.cons.inj hmarked
    obtain rfl := List.append_cancel_right hrow
    obtain ⟨rfl, -⟩ := List.cons.inj hbehind
    have hcaret := (hoffset _).mp ((caretRow_offset _ _).mpr rfl)
    omega
  · intro hshift
    refine ⟨_, _, c, _, _, hpos, rfl, hmark, hothers, ?_⟩
    intro offset
    rw [caretRow_offset]
    omega

/-- The caret stands below the character at an index, other than a newline, exactly
in the first 9999 lines.  Otherwise it is to the left of it by the number of digits
that the line number has beyond four. -/
theorem caret_below_character_iff (message : String) {source : List Char} {pos : Nat} {c : Char}
    (hpos : source[pos]? = some c) (hc : c ≠ '\n') :
    let report := Diagnostic.placed message source pos
    (CaretLeftBy report source pos 0 ↔ report.line < 10000) ∧
      CaretLeftBy report source pos ((Nat.toDigits 10 report.line).length - 4) := by
  intro report
  have hdigits : (Nat.toDigits 10 report.line).length ≤ 4 ↔ report.line < 10 ^ 4 :=
    Nat.length_toDigits_le_iff (by decide) (by decide)
  have hline : report.line = (Position.of source pos).line := rfl
  rw [caretLeftBy_iff message hpos hc, caretLeftBy_iff message hpos hc, length_margin, ← hline]
  omega

/-- A stray bracket in a second line that starts with a tab. -/
theorem caret_below_character_in_second_line :
    let source := "[\n\t+]]".toList
    source[4]? = some ']' ∧ ']' ≠ '\n' ∧
      CaretLeftBy (Diagnostic.placed "" source 4) source 4 0 := by
  intro source
  exact ⟨rfl, by decide, (caret_below_character_iff "" rfl (by decide)).1.mpr (by decide)⟩

/-- In line 10000 the caret stands one place to the left of the character. -/
theorem caret_misses_character :
    let source := List.replicate 9999 '\n' ++ [']']
    source[9999]? = some ']' ∧ ']' ≠ '\n' ∧
      ¬ CaretLeftBy (Diagnostic.placed "" source 9999) source 9999 0 ∧
      CaretLeftBy (Diagnostic.placed "" source 9999) source 9999 1 := by
  intro source
  have hlength : (List.replicate 9999 '\n').length = 9999 := List.length_replicate
  have hpos : source[9999]? = some ']' := by
    rw [List.getElem?_append_right (Nat.le_of_eq hlength), hlength]
    rfl
  have hplace : (Position.of source 9999).line = 10000 := by
    have happend := Position.of_append (List.replicate 9999 '\n') [']']
    rw [hlength, List.count_replicate_self] at happend
    exact congrArg Position.line happend
  have hshift (shift : Nat) :
      CaretLeftBy (Diagnostic.placed "" source 9999) source 9999 shift ↔ shift + 9 = 10 := by
    have hiff := caretLeftBy_iff "" hpos (by decide) shift
    rw [show ((9999 : Nat) : Int) = 9999 from rfl, hplace] at hiff
    exact hiff
  exact ⟨hpos, by decide, fun hbelow => absurd ((hshift 0).mp hbelow) (by decide),
    (hshift 1).mpr rfl⟩

end Source
end TapeCompiler
