import Mathlib.Algebra.Group.Nat.Defs
import Mathlib.Data.List.Basic
import Mathlib.Data.List.TakeWhile
import TapeCompiler.Numeral.Literal

/-!
# Literals of numbers

The digits of a number in a radix up to sixteen have that number as their value,
so behind a sign and a radix mark they read as the number
(`readLiteral_of_digits`).  An integer written in decimal reads back as itself, as
long as the number of its digits does not exceed what a literal may have: its text
has no leading zero unless it is the number zero, so the radix mark and the rule
on leading zeros never come into play.
-/

namespace TapeCompiler
namespace Numeral

open Text

theorem range_of_isDigit {c : Char} (hdigit : c.isDigit = true) :
    48 ≤ c.toNat ∧ c.toNat ≤ 57 := by
  simp only [Char.isDigit, Bool.and_eq_true, decide_eq_true_eq] at hdigit
  exact hdigit

theorem decimalValue?_of_isDigit {c : Char} (hdigit : c.isDigit = true) :
    decimalValue? c = some (c.toNat - 48) := by
  have hrange := range_of_isDigit hdigit
  rw [decimalValue?, digitZeros, List.find?_cons_of_pos]
  · rfl
  · simp only [Bool.and_eq_true, decide_eq_true_eq]
    omega

/-! ### Digits in any radix -/

theorem digitValue?_digitChar {value : Nat} (hvalue : value < 16) :
    digitValue? value.digitChar = some value := by
  have hall : ∀ digit : Fin 16, digitValue? (Nat.digitChar digit) = some digit.val := by decide
  exact hall ⟨value, hvalue⟩

section Radix

variable {base : Nat} (hone : 1 < base) (hbase : base ≤ 16)
include hone

theorem exists_value_of_mem_toDigits {n : Nat} {c : Char} (hc : c ∈ Nat.toDigits base n) :
    ∃ value, value < base ∧ c = value.digitChar := by
  induction n using Nat.strongRecOn with
  | ind n ih =>
      by_cases hsmall : n < base
      · rw [Nat.toDigits_of_lt_base hsmall] at hc
        exact ⟨n, hsmall, List.mem_singleton.mp hc⟩
      · rw [Nat.toDigits_of_base_le hone (by omega), List.mem_append] at hc
        rcases hc with hfront | hlast
        · exact ih (n / base) (Nat.div_lt_self (by omega) hone) hfront
        · exact ⟨n % base, Nat.mod_lt _ (by omega), List.mem_singleton.mp hlast⟩

include hbase

theorem isDigitOf_of_mem_toDigits {n : Nat} {c : Char} (hc : c ∈ Nat.toDigits base n) :
    isDigitOf base c = true := by
  obtain ⟨value, hvalue, rfl⟩ := exists_value_of_mem_toDigits hone hc
  rw [isDigitOf, digitValue?_digitChar (by omega)]
  exact decide_eq_true hvalue

/-- What holds of the sixteen digits there are holds of the digits of a number. -/
theorem forall_mem_toDigits {P : Char → Prop} (hdigits : ∀ digit : Fin 16, P (Nat.digitChar digit))
    (n : Nat) : ∀ c ∈ Nat.toDigits base n, P c := by
  intro c hc
  obtain ⟨value, hvalue, rfl⟩ := exists_value_of_mem_toDigits hone hc
  exact hdigits ⟨value, by omega⟩

theorem not_mem_toDigits {c : Char} (hc : digitValue? c = none) (n : Nat) :
    c ∉ Nat.toDigits base n := by
  intro hmem
  have hdigit := isDigitOf_of_mem_toDigits hone hbase hmem
  rw [isDigitOf, hc] at hdigit
  cases hdigit

/-- The digits of a number have it as their value. -/
theorem digitsValue_toDigits (n : Nat) : digitsValue base (Nat.toDigits base n) = n := by
  induction n using Nat.strongRecOn with
  | ind n ih =>
      by_cases hsmall : n < base
      · rw [Nat.toDigits_of_lt_base hsmall, digitsValue, List.foldl_cons, List.foldl_nil,
          digitValue?_digitChar (by omega)]
        simp
      · have hfront := ih (n / base) (Nat.div_lt_self (by omega) hone)
        have hlast : n % base < 16 := Nat.lt_of_lt_of_le (Nat.mod_lt _ (by omega)) hbase
        rw [digitsValue] at hfront
        rw [Nat.toDigits_of_base_le hone (by omega), digitsValue, List.foldl_append, hfront,
          List.foldl_cons, List.foldl_nil, digitValue?_digitChar hlast]
        exact Nat.div_add_mod' n base

theorem toDigits_injective {first second : Nat}
    (hdigits : Nat.toDigits base first = Nat.toDigits base second) : first = second := by
  rw [← digitsValue_toDigits hone hbase first, hdigits, digitsValue_toDigits hone hbase]

end Radix

/-! ### Reading literals -/

/-- Only the numeral of zero starts with a zero. -/
theorem startsWithZero_toDigits {n : Nat} (hzero : startsWithZero (Nat.toDigits 10 n) = true) :
    n = 0 := by
  induction n using Nat.strongRecOn with
  | ind n ih =>
      by_cases hsmall : n < 10
      · rw [Nat.toDigits_of_lt_base hsmall] at hzero
        have hdigit : n.digitChar.isDigit = true := by
          rw [Nat.isDigit_digitChar, decide_eq_true hsmall]
        rw [startsWithZero, decimalValue?_of_isDigit hdigit,
          Nat.toNat_digitChar_sub_48_of_lt_ten hsmall] at hzero
        simpa using hzero
      · rw [Nat.toDigits_of_base_le (by decide) (by omega)] at hzero
        have hfront : startsWithZero (Nat.toDigits 10 (n / 10)) = true := by
          cases hdigits : Nat.toDigits 10 (n / 10) with
          | nil => exact absurd hdigits Nat.toDigits_ne_nil
          | cons c rest =>
              rw [hdigits] at hzero
              exact hzero
        have := ih (n / 10) (by omega) hfront
        omega

theorem underscoresBetween_of_not_mem {digits : List Char} (hnone : '_' ∉ digits) :
    underscoresBetween digits = true := by
  induction digits with
  | nil => rfl
  | cons c rest ih =>
      have hc : c ≠ '_' := fun h => hnone (h ▸ List.mem_cons_self)
      have hrest := ih fun h => hnone (List.mem_cons_of_mem _ h)
      rw [underscoresBetween.eq_def]
      split <;> simp_all

theorem isDigit_of_mem_numeral {n : Nat} {c : Char} (hc : c ∈ Nat.toDigits 10 n) :
    c.isDigit = true :=
  Nat.isDigit_of_mem_toDigits (by decide) (by decide) hc

theorem takeRadix_toDigits (n : Nat) :
    takeRadix .marked (Nat.toDigits 10 n) = (10, Nat.toDigits 10 n) := by
  cases hzero : startsWithZero (Nat.toDigits 10 n) with
  | false =>
      rw [takeRadix]
      intro _ _ _ _ htrue
      rw [hzero] at htrue
      cases htrue
  | true =>
      obtain rfl := startsWithZero_toDigits hzero
      rfl

theorem takeRadix_mark {mark : Char} {base : Nat} {digits : List Char}
    (hmark : markedRadix? mark = some base) (hnone : '_' ∉ digits) :
    takeRadix .marked ('0' :: mark :: digits) = (base, digits) := by
  have hzero : startsWithZero ('0' :: mark :: digits) = true := rfl
  rw [takeRadix.eq_def, hzero]
  dsimp only
  rw [hmark]
  dsimp only
  split
  · exact absurd List.mem_cons_self hnone
  · rfl

/-- Digits behind a sign and a radix mark read as the signed number. -/
theorem readLiteral_of_digits {text : String} {sign : Int} {unsigned : List Char} {base n : Nat}
    (hone : 1 < base) (hbase : base ≤ 16)
    (hsign : takeSign (text.toList.dropWhile isMargin) = (sign, unsigned))
    (hradix : takeRadix .marked unsigned = (base, Nat.toDigits base n))
    (hlength : base = 10 → (Nat.toDigits base n).length ≤ maxDigits) :
    readLiteral .marked text = .ok (sign * n) := by
  have hall : ∀ c ∈ Nat.toDigits base n, (isDigitOf base c || c == '_') = true := by
    intro c hc
    rw [isDigitOf_of_mem_toDigits hone hbase hc, Bool.true_or]
  have hnone : '_' ∉ Nat.toDigits base n := not_mem_toDigits hone hbase (by decide) n
  have hdigits : (Nat.toDigits base n).takeWhile (fun c => isDigitOf base c || c == '_') =
      Nat.toDigits base n := List.takeWhile_eq_self_iff.mpr hall
  have hbehind : (Nat.toDigits base n).dropWhile (fun c => isDigitOf base c || c == '_') = [] :=
    List.dropWhile_eq_nil_iff.mpr hall
  have hcount : (Nat.toDigits base n).countP (· != '_') = (Nat.toDigits base n).length := by
    rw [List.countP_eq_length]
    intro c hc
    rw [bne_iff_ne]
    rintro rfl
    exact hnone hc
  have hhead : (Nat.toDigits base n).head? ≠ some '_' := fun h =>
    hnone (List.mem_of_mem_head? h)
  have hpositive : 0 < (Nat.toDigits base n).length := Nat.length_toDigits_pos
  rw [readLiteral, hsign]
  dsimp only
  rw [hradix]
  dsimp only
  rw [hdigits, hbehind, hcount, digitsValue_toDigits hone hbase,
    underscoresBetween_of_not_mem hnone]
  rw [if_neg (by simpa using hhead), if_neg (by omega), if_neg]
  rintro (⟨hzero, hne⟩ | hempty | hrest)
  · simp only [Bool.and_eq_true, beq_iff_eq] at hzero
    obtain ⟨⟨-, rfl⟩, hzero⟩ := hzero
    exact hne (startsWithZero_toDigits hzero)
  · omega
  · cases hrest

theorem takeSign_dropWhile_digit {c : Char} (hdigit : c.isDigit = true) (rest : List Char) :
    takeSign ((c :: rest).dropWhile isMargin) = (1, c :: rest) := by
  have hrange := range_of_isDigit hdigit
  have hmargin : isMargin c = false := by
    rw [isMargin, if_pos (by omega)]
    rw [Bool.or_eq_false_iff, beq_eq_false_iff_ne]
    constructor
    · rintro rfl
      exact absurd hrange (by decide)
    · simp only [Bool.and_eq_false_iff, decide_eq_false_iff_not]
      omega
  rw [List.dropWhile_cons_of_neg (by rw [hmargin]; exact Bool.false_ne_true), takeSign]
  · rintro rest' h
    obtain ⟨rfl, -⟩ := List.cons.inj h
    exact absurd hrange (by decide)
  · rintro rest' h
    obtain ⟨rfl, -⟩ := List.cons.inj h
    exact absurd hrange (by decide)

theorem toList_toString_negSucc (m : Nat) :
    (toString (Int.negSucc m)).toList = '-' :: Nat.toDigits 10 (m + 1) := by
  rw [Int.toString_eq_repr, Int.repr, String.toList_append, Nat.toList_repr]
  rfl

/-- A number written in decimal reads back as itself. -/
theorem readLiteral_toString (n : Int)
    (hlength : (Nat.toDigits 10 n.natAbs).length ≤ maxDigits) :
    readLiteral .marked (toString n) = .ok n := by
  cases n with
  | ofNat m =>
      have hsign : takeSign ((toString (Int.ofNat m)).toList.dropWhile isMargin) =
          (1, Nat.toDigits 10 m) := by
        rw [show (toString (Int.ofNat m)).toList = Nat.toDigits 10 m from Nat.toList_repr]
        cases hdigits : Nat.toDigits 10 m with
        | nil => exact absurd hdigits Nat.toDigits_ne_nil
        | cons c rest =>
            have hc : c ∈ Nat.toDigits 10 m := hdigits ▸ List.mem_cons_self
            exact takeSign_dropWhile_digit (isDigit_of_mem_numeral hc) rest
      rw [readLiteral_of_digits (by decide) (by decide) hsign (takeRadix_toDigits m)
        fun _ => hlength, Int.one_mul]
      rfl
  | negSucc m =>
      have hsign : takeSign ((toString (Int.negSucc m)).toList.dropWhile isMargin) =
          (-1, Nat.toDigits 10 (m + 1)) := by
        rw [toList_toString_negSucc]
        rfl
      rw [readLiteral_of_digits (by decide) (by decide) hsign (takeRadix_toDigits (m + 1))
        fun _ => hlength, Int.neg_one_mul]
      rfl

/-- The number of commands of a run is short enough to be read back. -/
theorem length_toDigits_le_maxDigits {count : Nat} (hcount : count < 2 ^ 63) :
    (Nat.toDigits 10 count).length ≤ maxDigits := by
  have hdigits : (Nat.toDigits 10 count).length ≤ 19 := by
    rw [Nat.length_toDigits_le_iff (by decide) (by decide)]
    omega
  exact Nat.le_trans hdigits (by decide)

end Numeral
end TapeCompiler
