import BehaviorTree.Lexical.Number
import Mathlib.Data.List.Forall2
import Mathlib.Data.Nat.Digits.Defs

/-!
# Numerals

What digits denote, told by the place that each of them has among all digits. The value that is
computed from left to right is that number, also where the computation is done with numbers of a
limited size, as long as the result is one of them.
-/

namespace BehaviorTree

namespace Digit

/-- The digits of all radices up to 16 in the order of their values, with letters of either case. -/
def alphabets : List (List Char) := ["0123456789abcdef".toList, "0123456789ABCDEF".toList]

/-- The character is the digit for a value in a radix. -/
def StandsFor (radix : Nat) (c : Char) (value : Nat) : Prop :=
  value < radix ∧ ∃ alphabet ∈ alphabets, alphabet[value]? = some c

/-- The digits denote a number in a radix: each stands for a value, the last one counts least. -/
def Denotes (radix : Nat) (digits : List Char) (number : Nat) : Prop :=
  ∃ values, List.Forall₂ (StandsFor radix) digits values ∧
    Nat.ofDigits radix values.reverse = number

variable {radix : Nat} {c : Char} {digits : List Char}

/-! ### One digit -/

theorem lt_128_of_isDigitOf (hdigit : isDigitOf radix c = true) : c.toNat < 128 := by
  simp only [isDigitOf, Bool.and_eq_true, Bool.or_eq_true, Char.isDigit, decide_eq_true_eq,
    Char.le_def, UInt32.le_iff_toNat_le] at hdigit
  have hbound : c.val.toNat ≤ 'f'.val.toNat := by
    rcases hdigit.1 with (h | h) | h
    · exact h.2.trans (by decide)
    · exact h.2
    · exact h.2.trans (by decide)
  exact Nat.lt_of_le_of_lt hbound (by decide)

/-- The digits are those of the alphabets, and each has its place there as value. -/
theorem mem_alphabets_iff {value : Nat} :
    (∃ alphabet ∈ alphabets, alphabet[value]? = some c) ↔
      isDigitOf 16 c = true ∧ Digit.value c = value := by
  constructor
  · rintro ⟨alphabet, hmem, hplace⟩
    have hall : ∀ alphabet ∈ alphabets, ∀ place ∈ alphabet.zipIdx,
        isDigitOf 16 place.1 = true ∧ Digit.value place.1 = place.2 := by decide +kernel
    exact hall alphabet hmem (c, value) (List.mk_mem_zipIdx_iff_getElem?.mpr hplace)
  · rintro ⟨hdigit, rfl⟩
    have hall : ∀ code < 128, isDigitOf 16 (Char.ofNat code) = true →
        ∃ alphabet ∈ alphabets,
          alphabet[Digit.value (Char.ofNat code)]? = some (Char.ofNat code) := by decide +kernel
    have hplace := hall c.toNat (lt_128_of_isDigitOf hdigit)
    rw [Char.ofNat_toNat] at hplace
    exact hplace hdigit

theorem standsFor_iff (hradix : radix ≤ 16) {value : Nat} :
    StandsFor radix c value ↔ isDigitOf radix c = true ∧ Digit.value c = value := by
  unfold StandsFor
  rw [mem_alphabets_iff]
  simp only [isDigitOf, Bool.and_eq_true, decide_eq_true_eq]
  constructor
  · rintro ⟨hlt, ⟨hletter, -⟩, rfl⟩
    exact ⟨⟨hletter, hlt⟩, rfl⟩
  · rintro ⟨⟨hletter, hlt⟩, rfl⟩
    exact ⟨hlt, ⟨hletter, by omega⟩, rfl⟩

theorem isDigitOf_ten (c : Char) : isDigitOf 10 c = c.isDigit := by
  cases hdigit : c.isDigit with
  | true =>
      have hvalue : Digit.value c < 10 := by
        have hbounds : '0' ≤ c ∧ c ≤ '9' := by
          simpa [Char.isDigit, Char.le_def, UInt32.le_iff_toNat_le] using hdigit
        simp only [Char.le_def, UInt32.le_iff_toNat_le] at hbounds
        have hnine : c.toNat ≤ 57 := hbounds.2
        simp only [Digit.value, hdigit, if_true, Char.reduceToNat]
        omega
      simp [isDigitOf, hdigit, hvalue]
  | false =>
      have hvalue : ¬ Digit.value c < 10 := by
        simp only [Digit.value, hdigit]
        simp only [Bool.false_eq_true, if_false]
        split <;> omega
      simp [isDigitOf, hvalue]

/-! ### The number -/

theorem ofDigits_eq (radix : Nat) (digits : List Char) :
    ofDigits radix digits = Nat.ofDigits radix (digits.map Digit.value).reverse := by
  rw [Nat.ofDigits_eq_foldr, List.foldr_reverse, List.foldl_map]
  unfold ofDigits
  congr 1
  funext sum digit
  simp only [Nat.cast_id]
  ring

/-- The computed value is the number that the digits denote. -/
theorem denotes_iff (hradix : radix ≤ 16) {number : Nat} : Denotes radix digits number ↔
    (∀ c ∈ digits, isDigitOf radix c = true) ∧ ofDigits radix digits = number := by
  have hvalues : ∀ digits values, List.Forall₂ (StandsFor radix) digits values ↔
      (∀ c ∈ digits, isDigitOf radix c = true) ∧ digits.map Digit.value = values := by
    intro digits
    induction digits with
    | nil =>
        intro values
        simp
    | cons c digits ih =>
        intro values
        cases values with
        | nil => simp
        | cons value values =>
            simp only [List.forall₂_cons, standsFor_iff hradix, ih, List.forall_mem_cons,
              List.map_cons, List.cons.injEq]
            tauto
  rw [ofDigits_eq]
  constructor
  · rintro ⟨values, hdigits, rfl⟩
    obtain ⟨hall, rfl⟩ := (hvalues digits values).mp hdigits
    exact ⟨hall, rfl⟩
  · rintro ⟨hall, rfl⟩
    exact ⟨_, (hvalues digits _).mpr ⟨hall, rfl⟩, rfl⟩

theorem ofDigits_lt (hradix : 1 < radix) (hall : ∀ c ∈ digits, isDigitOf radix c = true) :
    ofDigits radix digits < radix ^ digits.length := by
  rw [ofDigits_eq]
  have hlt := Nat.ofDigits_lt_base_pow_length (l := (digits.map Digit.value).reverse) hradix ?_
  · simpa using hlt
  · intro value hmem
    obtain ⟨c, hc, rfl⟩ := List.mem_map.mp (List.mem_reverse.mp hmem)
    have hdigit := hall c hc
    simp only [isDigitOf, Bool.and_eq_true, decide_eq_true_eq] at hdigit
    exact hdigit.2

/-! ### Numbers of a limited size -/

/-- The number that digits denote, computed from left to right and given up where it leaves the
numbers below a limit. -/
def ofDigitsBelow? (limit radix : Nat) (digits : List Char) : Option Nat :=
  digits.foldlM (fun sum digit =>
    let next := sum * radix + Digit.value digit
    if next < limit then some next else none) 0

theorem le_foldl_digits (hradix : 0 < radix) (sum : Nat) :
    sum ≤ digits.foldl (fun sum digit => sum * radix + Digit.value digit) sum := by
  induction digits generalizing sum with
  | nil => exact Nat.le_refl sum
  | cons c digits ih =>
      have hnext : sum ≤ sum * radix + Digit.value c :=
        (Nat.le_mul_of_pos_right sum hradix).trans (Nat.le_add_right _ _)
      exact hnext.trans (ih _)

/-- The limit is met only by numbers that are too large themselves. -/
theorem ofDigitsBelow?_of_lt {limit : Nat} (hradix : 0 < radix)
    (hlt : ofDigits radix digits < limit) :
    ofDigitsBelow? limit radix digits = some (ofDigits radix digits) := by
  unfold ofDigitsBelow? ofDigits at *
  generalize 0 = sum at hlt ⊢
  induction digits generalizing sum with
  | nil => rfl
  | cons c digits ih =>
      rw [List.foldl_cons] at hlt
      have hnext := Nat.lt_of_le_of_lt (le_foldl_digits hradix _) hlt
      rw [List.foldlM_cons, List.foldl_cons]
      simp only [hnext, if_true]
      exact ih _ hlt

end Digit

end BehaviorTree
