import BehaviorTree.Proofs.Lexical.Numerals
import BehaviorTree.Proofs.Lexical.Reports
import Mathlib.Data.List.Nodup

/-!
# Number literals have their mathematical value

The value of an integer is what its digits denote in the radix that its mark announces, if that is a
number of 64 bits with a sign; every other integer is reported, once, and counts for zero. The text
of a float is one that every reader of floats accepts.
-/

namespace BehaviorTree

namespace NumberLiteral

open NumberLiteral.Decimal

/-! ### Integers -/

/-- The marks in front of digits and the radices that they announce. -/
def marks : List (List Char × Nat) :=
  [("0x".toList, 16), ("0X".toList, 16), ("0b".toList, 2), ("0B".toList, 2)]

/-- A text as its mark, with a radix, and the text behind it, or as a decimal if it has no mark. -/
inductive Announces : List Char → Nat → List Char → Prop
  | marked {mark rest : List Char} {radix : Nat} : (mark, radix) ∈ marks →
    Announces (mark ++ rest) radix rest
  | decimal {text : List Char} : (∀ entry ∈ marks, ¬ entry.1 <+: text) → Announces text 10 text

/-- Apart from separators, the text is digits of its radix for a number that is not too large. -/
def HasValue (text : List Char) (number : Nat) : Prop :=
  ∃ radix rest, Announces text radix rest ∧ withoutSeparators rest ≠ [] ∧
    Digit.Denotes radix (withoutSeparators rest) number ∧ number ≤ 2 ^ 63 - 1

theorem mem_marks_iff {mark : List Char} {radix : Nat} : (mark, radix) ∈ marks ↔
    ∃ c announced, mark = ['0', c] ∧ RadixMark.ofChar? c = some announced ∧
      announced.radix = radix := by
  constructor
  · intro hmem
    simp only [marks, List.mem_cons, Prod.mk.injEq, List.not_mem_nil, or_false] at hmem
    rcases hmem with ⟨rfl, rfl⟩ | ⟨rfl, rfl⟩ | ⟨rfl, rfl⟩ | ⟨rfl, rfl⟩
    · exact ⟨'x', .hexadecimal, by decide, rfl, rfl⟩
    · exact ⟨'X', .hexadecimal, by decide, rfl, rfl⟩
    · exact ⟨'b', .binary, by decide, rfl, rfl⟩
    · exact ⟨'B', .binary, by decide, rfl, rfl⟩
  · rintro ⟨c, announced, rfl, hmark, rfl⟩
    unfold RadixMark.ofChar? at hmark
    split at hmark <;> cases hmark <;> decide

/-- The radix of a text and what stands behind its mark. -/
def announced (text : List Char) : Nat × List Char :=
  match text with
  | '0' :: c :: rest => ((RadixMark.ofChar? c).map fun mark => (mark.radix, rest)).getD (10, text)
  | _ => (10, text)

theorem announces_iff {text rest : List Char} {radix : Nat} :
    Announces text radix rest ↔ announced text = (radix, rest) := by
  constructor
  · rintro (@⟨mark, _, _, hmem⟩ | hnone)
    · obtain ⟨c, announced, rfl, hmark, rfl⟩ := mem_marks_iff.mp hmem
      simp [NumberLiteral.announced, hmark]
    · unfold announced
      split
      · rename_i c rest
        cases hmark : RadixMark.ofChar? c with
        | none => rfl
        | some announced =>
            exact absurd ⟨rest, rfl⟩ (hnone (['0', c], announced.radix)
              (mem_marks_iff.mpr ⟨c, announced, rfl, hmark, rfl⟩))
      · rfl
  · intro hsame
    unfold announced at hsame
    split at hsame
    · rename_i c rest
      cases hmark : RadixMark.ofChar? c with
      | some announced =>
          rw [hmark] at hsame
          cases hsame
          have hmem : (['0', c], announced.radix) ∈ marks :=
            mem_marks_iff.mpr ⟨c, announced, rfl, hmark, rfl⟩
          exact .marked hmem
      | none =>
          rw [hmark] at hsame
          cases hsame
          refine .decimal fun entry hmem hfront => ?_
          obtain ⟨d, announced, hentry, hd, -⟩ := mem_marks_iff.mp hmem
          rw [hentry] at hfront
          simp only [List.cons_prefix_cons] at hfront
          rw [← hfront.2.1, hd] at hmark
          cases hmark
    · rename_i hshort
      cases hsame
      refine .decimal fun entry hmem hfront => ?_
      obtain ⟨d, announced, hentry, -, -⟩ := mem_marks_iff.mp hmem
      obtain ⟨rest, rfl⟩ := hfront
      rw [hentry] at hshort
      exact hshort d rest rfl

theorem radix_announced_le (text : List Char) : (announced text).1 ≤ 16 := by
  unfold announced
  split
  · rename_i c rest
    cases RadixMark.ofChar? c with
    | none => exact (by decide : 10 ≤ 16)
    | some mark =>
        cases mark with
        | hexadecimal => exact Nat.le_refl 16
        | binary => exact (by decide : 2 ≤ 16)
  · exact (by decide : 10 ≤ 16)

/-- The value of an integer, if it has one. -/
def value? (text : List Char) : Option Nat :=
  let radix := (announced text).1
  let digits := withoutSeparators (announced text).2
  if digits ≠ [] ∧ digits.all (Digit.isDigitOf radix) = true ∧
    Digit.ofDigits radix digits ≤ maxInteger then some (Digit.ofDigits radix digits) else none

theorem value?_eq_some_iff {text : List Char} {number : Nat} :
    value? text = some number ↔ HasValue text number := by
  have hdenotes : ∀ digits, Digit.Denotes (announced text).1 digits number ↔
      (∀ c ∈ digits, Digit.isDigitOf (announced text).1 c = true) ∧
        Digit.ofDigits (announced text).1 digits = number :=
    fun _ => Digit.denotes_iff (radix_announced_le text)
  unfold value?
  dsimp only
  constructor
  · intro hvalue
    split at hvalue
    · rename_i hgood
      cases hvalue
      exact ⟨_, _, announces_iff.mpr rfl, hgood.1,
        (hdenotes _).mpr ⟨List.all_eq_true.mp hgood.2.1, rfl⟩, hgood.2.2⟩
    · cases hvalue
  · rintro ⟨radix, rest, hannounces, hsome, hnumber, hbound⟩
    have hsame := announces_iff.mp hannounces
    rw [hsame] at hdenotes ⊢
    obtain ⟨hall, rfl⟩ := (hdenotes _).mp hnumber
    exact if_pos ⟨hsome, List.all_eq_true.mpr hall, hbound⟩

/-- What is wrong with an integer that has no value: there are no digits behind its mark, one of
them is none of its radix, or the number is too large. -/
def faultOf (text : List Char) : NumberFault :=
  match text with
  | '0' :: c :: rest =>
    match RadixMark.ofChar? c with
    | some mark =>
      if withoutSeparators rest = [] then .noDigits ['0', c]
      else match (withoutSeparators rest).find? fun d => !Digit.isDigitOf mark.radix d with
        | some bad => .badDigit bad mark
        | none => .tooLarge
    | none => .tooLarge
  | _ => .tooLarge

def integer (text : List Char) : Except NumberFault Nat :=
  match value? text with
  | some number => .ok number
  | none => .error (faultOf text)

theorem markedInteger_eq {c : Char} {mark : RadixMark} (hmark : RadixMark.ofChar? c = some mark)
    (rest : List Char) :
    markedInteger mark ['0', c] (withoutSeparators rest) = integer ('0' :: c :: rest) := by
  have hannounced : announced ('0' :: c :: rest) = (mark.radix, rest) := by
    simp [announced, hmark]
  unfold integer value? faultOf markedInteger boundedInteger
  simp only [hannounced, hmark]
  by_cases hsome : withoutSeparators rest = []
  · simp only [hsome, if_true, ne_eq, not_true_eq_false, false_and, if_false]
  · cases hbad : (withoutSeparators rest).find? fun c => !Digit.isDigitOf mark.radix c with
    | some bad =>
        have hall : (withoutSeparators rest).all (Digit.isDigitOf mark.radix) = false := by
          obtain ⟨hnot, front, back, hdigits, -⟩ := List.find?_eq_some_iff_append.mp hbad
          rw [List.all_eq_false]
          exact ⟨bad, by rw [hdigits]; simp, by simpa using hnot⟩
        simp [hsome, hall]
    | none =>
        have hall : (withoutSeparators rest).all (Digit.isDigitOf mark.radix) = true := by
          simpa using List.find?_eq_none.mp hbad
        by_cases hbound : Digit.ofDigits mark.radix (withoutSeparators rest) ≤ maxInteger <;>
          simp [hsome, hall, hbound]

/-- Digits, with no separator left. -/
def IsDigits (text : List Char) : Prop := text ≠ [] ∧ ∀ c ∈ text, c.isDigit = true

theorem ofChar?_of_isDigitPart {c : Char} (hc : isDigitPart c = true) :
    RadixMark.ofChar? c = none := by
  unfold RadixMark.ofChar?
  split <;> first | rfl | exact absurd hc (by decide)

theorem boundedInteger_eq {text : List Char} (htext : ∀ c ∈ text, isDigitPart c = true)
    (hdigits : IsDigits (withoutSeparators text)) :
    boundedInteger 10 (withoutSeparators text) = integer text := by
  have hall : (withoutSeparators text).all (Digit.isDigitOf 10) = true := by
    rw [List.all_eq_true]
    intro c hmem
    rw [Digit.isDigitOf_ten]
    exact hdigits.2 c hmem
  have hmark : announced text = (10, text) ∧ faultOf text = .tooLarge := by
    unfold announced faultOf
    split
    · rename_i c rest
      rw [ofChar?_of_isDigitPart (htext c (by simp))]
      exact ⟨rfl, rfl⟩
    · exact ⟨rfl, rfl⟩
  unfold integer value? boundedInteger
  simp only [hmark.1, hmark.2]
  by_cases hbound : Digit.ofDigits 10 (withoutSeparators text) ≤ maxInteger <;>
    simp [hdigits.1, hall, hbound]

/-- The value of an integer is that of its text, and zero if its text has none. -/
theorem intLexeme_integer (text : List Char) :
    (intLexeme text (integer text)).kind = .int ((value? text).getD 0) ∧
      (intLexeme text (integer text)).faults =
        if (value? text).isNone then [⟨0, byteLength text, .number (faultOf text)⟩] else [] := by
  unfold integer
  cases value? text <;> exact ⟨rfl, rfl⟩

/-! ### Floats -/

/-- The text of a fraction, or none, and its digits. -/
inductive IsFraction : List Char → List Char → Prop
  | none : IsFraction [] []
  | some {digits : List Char} : IsDigits digits → IsFraction ('.' :: digits) digits

/-- The text of an exponent, or none, and the power of ten that it denotes. -/
inductive IsExponent : List Char → Int → Prop
  | none : IsExponent [] 0
  | unsigned {e : Char} {digits : List Char} {number : Nat} : e = 'e' ∨ e = 'E' → IsDigits digits →
    Digit.Denotes 10 digits number → IsExponent (e :: digits) number
  | positive {e : Char} {digits : List Char} {number : Nat} : e = 'e' ∨ e = 'E' → IsDigits digits →
    Digit.Denotes 10 digits number → IsExponent (e :: '+' :: digits) number
  | negative {e : Char} {digits : List Char} {number : Nat} : e = 'e' ∨ e = 'E' → IsDigits digits →
    Digit.Denotes 10 digits number → IsExponent (e :: '-' :: digits) (-number)

/-- The text of a float and its value: digits, a fraction and an exponent, not both of them left
out. -/
inductive IsFloat : List Char → Binary64 → Prop
  | intro {whole fraction exponent digits : List Char} {number : Nat} {power : Int} :
    IsDigits whole → IsFraction fraction digits → IsExponent exponent power →
    fraction ≠ [] ∨ exponent ≠ [] → Digit.Denotes 10 (whole ++ digits) number →
    IsFloat (whole ++ fraction ++ exponent) (.ofDecimal number (power - digits.length))

section Runs

variable {run : List Char}

/-- What is left of a run of digits and separators are the digits. -/
theorem withoutSeparators_run (hrun : ∀ c ∈ run, isDigitPart c = true) :
    withoutSeparators run = digitsOf run := by
  refine List.filter_congr fun c hmem => ?_
  have hpart := hrun c hmem
  rw [isDigitPart, Bool.or_eq_true, beq_iff_eq] at hpart
  rcases hpart with hdigit | rfl
  · have hc : c ≠ '_' := by
      rintro rfl
      cases hdigit
    simp [hc, hdigit]
  · rfl

theorem isDigits_digitsOf (hfirst : run.head?.any Char.isDigit = true) :
    IsDigits (digitsOf run) := by
  refine ⟨?_, fun c hmem => (List.mem_filter.mp hmem).2⟩
  cases run with
  | nil => cases hfirst
  | cons c rest =>
      have hc : c.isDigit = true := hfirst
      simp [digitsOf, hc]

theorem denotes_digitsOf (run : List Char) :
    Digit.Denotes 10 (digitsOf run) (Digit.ofDigits 10 (digitsOf run)) := by
  refine (Digit.denotes_iff (by decide)).mpr ⟨fun c hmem => ?_, rfl⟩
  rw [Digit.isDigitOf_ten]
  exact (List.mem_filter.mp hmem).2

end Runs

theorem withoutSeparators_append (left right : List Char) :
    withoutSeparators (left ++ right) = withoutSeparators left ++ withoutSeparators right :=
  List.filter_append ..

theorem isFraction_scanFraction (chars : List Char) :
    IsFraction (withoutSeparators (scanFraction chars).1) (digitsOf (scanFraction chars).1) ∧
      ((scanFraction chars).1 ≠ [] → withoutSeparators (scanFraction chars).1 ≠ []) := by
  unfold scanFraction
  split
  · rename_i d rest
    split
    · rename_i hd
      have hrun : ∀ c ∈ (d :: rest).takeWhile isDigitPart, isDigitPart c = true :=
        fun _ => mem_takeWhile _
      have hfirst : ((d :: rest).takeWhile isDigitPart).head?.any Char.isDigit = true := by
        rw [List.takeWhile_cons_of_pos (isDigitPart_of_isDigit hd)]
        exact hd
      have htext : withoutSeparators ('.' :: (d :: rest).takeWhile isDigitPart) =
          '.' :: digitsOf ((d :: rest).takeWhile isDigitPart) :=
        congrArg ('.' :: ·) (withoutSeparators_run hrun)
      dsimp only
      rw [htext]
      exact ⟨.some (isDigits_digitsOf hfirst), fun _ => List.cons_ne_nil _ _⟩
    · exact ⟨.none, fun h => h⟩
  · exact ⟨.none, fun h => h⟩

/-- An exponent without its separators, and the power that is read off it. -/
theorem exponent_parts {e : Char} {sign run : List Char} (hletter : e = 'e' ∨ e = 'E')
    (hsign : sign = ['+'] ∨ sign = ['-'] ∨ sign = []) (hrun : ∀ c ∈ run, isDigitPart c = true)
    (whole fraction : List Char) :
    withoutSeparators (e :: (sign ++ run)) = e :: (sign ++ digitsOf run) ∧
      Decimal.power ⟨whole, fraction, e :: (sign ++ run)⟩ =
        if sign = ['-'] then -(Digit.ofDigits 10 (digitsOf run) : Int)
        else Digit.ofDigits 10 (digitsOf run) := by
  have hminus : '-' ∉ run := fun hmem => absurd (hrun _ hmem) (by decide)
  have hdigits : digitsOf (e :: (sign ++ run)) = digitsOf run := by
    rcases hletter with rfl | rfl <;> rcases hsign with rfl | rfl | rfl <;> rfl
  have hclean := withoutSeparators_run hrun
  constructor
  · rw [← hclean]
    rcases hletter with rfl | rfl <;> rcases hsign with rfl | rfl | rfl <;> rfl
  · simp only [power, hdigits]
    rcases hletter with rfl | rfl <;> rcases hsign with rfl | rfl | rfl <;> simp [hminus]

/-- The power of ten of a decimal is that of its exponent. -/
theorem isExponent_scanExponent (whole fraction chars : List Char) :
    IsExponent (withoutSeparators (scanExponent chars).1)
        (Decimal.power ⟨whole, fraction, (scanExponent chars).1⟩) ∧
      ((scanExponent chars).1 ≠ [] → withoutSeparators (scanExponent chars).1 ≠ []) := by
  rcases chars with _ | ⟨e, rest⟩
  · exact ⟨.none, fun h => h⟩
  · let digits := rest.drop (signOf rest).length
    by_cases he : ((e == 'e' || e == 'E') && digits.head?.any Char.isDigit) = true
    · let run := digits.takeWhile isDigitPart
      have hread : (scanExponent (e :: rest)).1 = e :: (signOf rest ++ run) := by
        simp only [scanExponent, digits, run, if_pos he, List.cons_append]
      rw [Bool.and_eq_true, Bool.or_eq_true, beq_iff_eq, beq_iff_eq] at he
      obtain ⟨hletter, hhead⟩ := he
      have hrun : ∀ c ∈ run, isDigitPart c = true := fun _ => mem_takeWhile _
      have hfirst : run.head?.any Char.isDigit = true := by
        cases hdigits : digits with
        | nil => simp [hdigits] at hhead
        | cons d more =>
            have hd : d.isDigit = true := by simpa [hdigits] using hhead
            simpa [run, hdigits, isDigitPart_of_isDigit hd] using hd
      have hsign : signOf rest = ['+'] ∨ signOf rest = ['-'] ∨ signOf rest = [] := by
        unfold signOf
        split <;> simp
      obtain ⟨htext, hpower⟩ := exponent_parts hletter hsign hrun whole fraction
      rw [hread, htext, hpower]
      refine ⟨?_, fun _ => List.cons_ne_nil _ _⟩
      have hdigits := isDigits_digitsOf hfirst
      have hnumber := denotes_digitsOf run
      rcases hsign with hsign | hsign | hsign
      · rw [hsign, if_neg (by decide)]
        exact .positive hletter hdigits hnumber
      · rw [hsign, if_pos rfl]
        exact .negative hletter hdigits hnumber
      · rw [hsign, if_neg (by decide)]
        exact .unsigned hletter hdigits hnumber
    · have hread : (scanExponent (e :: rest)).1 = [] := by
        simp only [scanExponent, digits, if_neg he]
      rw [hread]
      exact ⟨.none, fun h => h⟩

theorem isDigits_whole {c : Char} (hdigit : c.isDigit = true) (rest : List Char) :
    withoutSeparators ((c :: rest).takeWhile isDigitPart) =
        digitsOf ((c :: rest).takeWhile isDigitPart) ∧
      IsDigits (digitsOf ((c :: rest).takeWhile isDigitPart)) := by
  refine ⟨withoutSeparators_run fun _ => mem_takeWhile _, isDigits_digitsOf ?_⟩
  rw [List.takeWhile_cons_of_pos (isDigitPart_of_isDigit hdigit)]
  exact hdigit

/-- A decimal with a fraction or an exponent has the value of its text. -/
theorem isFloat_scanDecimal {c : Char} (hdigit : c.isDigit = true) (rest : List Char)
    (hfloat : (scanDecimal (c :: rest)).1.isFloat = true) :
    IsFloat (withoutSeparators (scanDecimal (c :: rest)).1.text)
      (scanDecimal (c :: rest)).1.float := by
  obtain ⟨hclean, hwhole⟩ := isDigits_whole hdigit rest
  obtain ⟨hfraction, hfractionSome⟩ :=
    isFraction_scanFraction ((c :: rest).dropWhile isDigitPart)
  obtain ⟨hexponent, hexponentSome⟩ := isExponent_scanExponent
    ((c :: rest).takeWhile isDigitPart) (scanFraction ((c :: rest).dropWhile isDigitPart)).1
    (scanFraction ((c :: rest).dropWhile isDigitPart)).2
  have hnumber := denotes_digitsOf ((scanDecimal (c :: rest)).1.whole ++
    (scanDecimal (c :: rest)).1.fraction)
  unfold digitsOf at hnumber
  rw [List.filter_append] at hnumber
  unfold Decimal.text Decimal.float
  rw [withoutSeparators_append, withoutSeparators_append]
  refine .intro (hclean ▸ hwhole) hfraction hexponent ?_ ?_
  · simp only [isFloat, Bool.or_eq_true, Bool.not_eq_true', List.isEmpty_eq_false_iff] at hfloat
    exact hfloat.imp hfractionSome hexponentSome
  · rw [show withoutSeparators (scanDecimal (c :: rest)).1.whole = _ from hclean]
    exact hnumber

/-! ### Reading floats -/

def readDigits? (text : List Char) : Option Int :=
  if text ≠ [] ∧ text.all Char.isDigit = true then some (Digit.ofDigits 10 text) else none

/-- The power of ten at the end of a float. -/
def readExponent? : List Char → Option Int
  | [] => some 0
  | e :: rest =>
    if e = 'e' ∨ e = 'E' then
      match rest with
      | '+' :: digits => readDigits? digits
      | '-' :: digits => (readDigits? digits).map fun size => -size
      | digits => readDigits? digits
    else none

/-- Digits behind a dot, if there is one, and what follows them. -/
def readFraction : List Char → List Char × List Char
  | '.' :: rest => (rest.takeWhile Char.isDigit, rest.dropWhile Char.isDigit)
  | rest => ([], rest)

/-- A float as it is read in general: there must be a digit in front of the dot or behind it, and
the dot and the exponent may be left out. -/
def readFloat? (text : List Char) : Option Binary64 :=
  let whole := text.takeWhile Char.isDigit
  let fraction := readFraction (text.dropWhile Char.isDigit)
  if whole = [] ∧ fraction.1 = [] then none
  else (readExponent? fraction.2).map fun power =>
    .ofDecimal (Digit.ofDigits 10 (whole ++ fraction.1)) (power - fraction.1.length)

theorem readDigits?_of_isDigits {digits : List Char} {number : Nat} (hdigits : IsDigits digits)
    (hnumber : Digit.Denotes 10 digits number) : readDigits? digits = some (number : Int) := by
  obtain ⟨-, rfl⟩ := (Digit.denotes_iff (by decide)).mp hnumber
  exact if_pos ⟨hdigits.1, List.all_eq_true.mpr hdigits.2⟩

theorem readExponent?_of_isExponent {exponent : List Char} {power : Int}
    (hexponent : IsExponent exponent power) : readExponent? exponent = some power := by
  cases hexponent with
  | none => rfl
  | @unsigned e digits number hletter hdigits hnumber =>
      rw [readExponent?, if_pos hletter]
      · exact readDigits?_of_isDigits hdigits hnumber
      · rintro more rfl
        exact absurd (hdigits.2 '+' List.mem_cons_self) (by decide)
      · rintro more rfl
        exact absurd (hdigits.2 '-' List.mem_cons_self) (by decide)
  | positive hletter hdigits hnumber =>
      rw [readExponent?, if_pos hletter]
      exact readDigits?_of_isDigits hdigits hnumber
  | negative hletter hdigits hnumber =>
      rw [readExponent?, if_pos hletter]
      exact congrArg (Option.map fun size => -size) (readDigits?_of_isDigits hdigits hnumber)

theorem IsExponent.head? {exponent : List Char} {power : Int} (h : IsExponent exponent power) :
    exponent.head?.any Char.isDigit = false ∧ exponent.head? ≠ some '.' := by
  have hletter : ∀ {e : Char}, e = 'e' ∨ e = 'E' → e.isDigit = false ∧ some e ≠ some '.' := by
    rintro e (rfl | rfl) <;> decide
  cases h with
  | none => decide
  | unsigned he => exact hletter he
  | positive he => exact hletter he
  | negative he => exact hletter he

/-- The text of a float is read as its value. -/
theorem IsFloat.readFloat?_eq {text : List Char} {value : Binary64} (h : IsFloat text value) :
    readFloat? text = some value := by
  obtain ⟨hwhole, hfraction, hexponent, -, hnumber⟩ := h
  rename_i whole fraction exponent digits number power
  obtain ⟨hhead, hdot⟩ := hexponent.head?
  obtain ⟨-, rfl⟩ := (Digit.denotes_iff (by decide)).mp hnumber
  have hfirst : (fraction ++ exponent).head?.any Char.isDigit = false := by
    cases hfraction with
    | none => exact hhead
    | some => rfl
  have hread : readFraction (fraction ++ exponent) = (digits, exponent) := by
    cases hfraction with
    | none =>
        rw [List.nil_append, readFraction]
        rintro rest rfl
        exact hdot rfl
    | some hdigits =>
        exact Prod.ext (takeWhile_append_stop hdigits.2 hhead)
          (dropWhile_append_stop hdigits.2 hhead)
  unfold readFloat?
  rw [List.append_assoc, takeWhile_append_stop hwhole.2 hfirst,
    dropWhile_append_stop hwhole.2 hfirst, hread]
  dsimp only
  rw [if_neg fun hnone => hwhole.1 hnone.1, readExponent?_of_isExponent hexponent]
  rfl

/-! ### All literals -/

theorem decimal_literal {c : Char} (hdigit : c.isDigit = true) (rest : List Char) :
    ∃ text, (scanDecimal (c :: rest)).1.lexeme = intLexeme text (integer text) ∨
      ∃ value, (scanDecimal (c :: rest)).1.lexeme = .plain (.float value) text ∧
        IsFloat (withoutSeparators text) value := by
  by_cases hfloat : (scanDecimal (c :: rest)).1.isFloat = true
  · exact ⟨_, .inr ⟨_, if_pos hfloat, isFloat_scanDecimal hdigit rest hfloat⟩⟩
  · have hwhole : (scanDecimal (c :: rest)).1.text = (c :: rest).takeWhile isDigitPart := by
      simp only [isFloat, Bool.or_eq_true, Bool.not_eq_true', not_or, Bool.not_eq_false,
        List.isEmpty_iff] at hfloat
      rw [Decimal.text, hfloat.1, hfloat.2, List.append_nil, List.append_nil]
      rfl
    obtain ⟨hclean, hdigits⟩ := isDigits_whole hdigit rest
    refine ⟨(c :: rest).takeWhile isDigitPart, .inl ?_⟩
    rw [lexeme, if_neg hfloat, hwhole,
      ← boundedInteger_eq (fun _ => mem_takeWhile _) (hclean ▸ hdigits)]
    rfl

/-- A number literal is an integer with the value of its text, or a float with the value of its. -/
theorem number_literal {c : Char} (hdigit : c.isDigit = true) (rest : List Char) :
    ∃ text, (scan (c :: rest)).1 = intLexeme text (integer text) ∨
      ∃ value, (scan (c :: rest)).1 = .plain (.float value) text ∧
        IsFloat (withoutSeparators text) value := by
  have hdecimal := decimal_literal hdigit rest
  unfold scan
  split
  · rename_i letter behind _
    split
    · rename_i hmark
      refine ⟨'0' :: letter :: behind.takeWhile isWordPart, .inl ?_⟩
      rw [scanMarked, markedInteger_eq hmark]
      rfl
    · exact hdecimal
  · exact hdecimal

end NumberLiteral

/-! ### Tokens -/

open NumberLiteral

/-- The token is an integer without a value. -/
def Token.lacksValue (token : Token) : Bool :=
  match token.kind with
  | .int _ => (value? token.text.toList).isNone
  | _ => false

/-- The value of a number token and its faults are those of its text. -/
structure Token.Numbered (token : Token) : Prop where
  int : ∀ value, token.kind = .int value →
    (HasValue token.text.toList value ∧ token.lacksValue = false) ∨
      (value = 0 ∧ (∀ number, ¬ HasValue token.text.toList number) ∧ token.lacksValue = true)
  float : ∀ value, token.kind = .float value →
    IsFloat (withoutSeparators token.text.toList) value ∧
      readFloat? (withoutSeparators token.text.toList) = some value
  reported : TokenStream.reports
      (token.faults.filter fun located => located.fault.code = Code.invalidNumber)
      token.range.file token.range.start =
    if token.lacksValue then
      [(LexicalFault.number (faultOf token.text.toList)).report token.range]
    else []

namespace TokenStream

variable {token : Token}

/-- A token that is no number has nothing to be said about its value. -/
theorem numbered_of_other (hint : ∀ value, token.kind ≠ .int value)
    (hfloat : ∀ value, token.kind ≠ .float value)
    (hcode : ∀ located ∈ token.faults, located.fault.code ≠ Code.invalidNumber) :
    token.Numbered := by
  have hlacks : token.lacksValue = false := by
    unfold Token.lacksValue
    split
    · rename_i value hkind
      exact absurd hkind (hint value)
    · rfl
  refine ⟨fun value hkind => absurd hkind (hint value),
    fun value hkind => absurd hkind (hfloat value), ?_⟩
  rw [reports_without hcode, hlacks]
  rfl

theorem numbered_of_int (htext : token.kind = .int ((value? token.text.toList).getD 0))
    (hfaults : token.faults = if (value? token.text.toList).isNone then
      [⟨0, byteLength token.text.toList, .number (faultOf token.text.toList)⟩] else [])
    (hrange : token.range.stop = token.range.start + byteLength token.text.toList) :
    token.Numbered := by
  have hlacks : token.lacksValue = (value? token.text.toList).isNone := by
    simp only [Token.lacksValue, htext]
  refine ⟨fun value hkind => ?_, fun value hkind => ?_, ?_⟩
  · rw [htext] at hkind
    obtain rfl := TokenKind.int.inj hkind
    rw [hlacks]
    cases hvalue : value? token.text.toList with
    | some number => exact .inl ⟨value?_eq_some_iff.mp hvalue, rfl⟩
    | none =>
        refine .inr ⟨rfl, fun number hnumber => ?_, rfl⟩
        rw [value?_eq_some_iff.mpr hnumber] at hvalue
        cases hvalue
  · rw [htext] at hkind
    cases hkind
  · rw [hlacks, hfaults]
    split
    · have hwhole : token.range = ⟨token.range.file, token.range.start + 0,
          token.range.start + byteLength token.text.toList⟩ := by
        rw [Nat.add_zero, ← hrange]
      rw [hwhole]
      rfl
    · rfl

theorem numbered_of_float {value : Binary64} (hkind : token.kind = .float value)
    (hfloat : IsFloat (withoutSeparators token.text.toList) value) (hfaults : token.faults = []) :
    token.Numbered := by
  refine ⟨fun other hother => ?_, fun other hother => ?_, ?_⟩
  · rw [hkind] at hother
    cases hother
  · rw [hkind] at hother
    obtain rfl := TokenKind.float.inj hother
    exact ⟨hfloat, hfloat.readFloat?_eq⟩
  · have hlacks : token.lacksValue = false := by
      simp only [Token.lacksValue, hkind]
    rw [hfaults, hlacks]
    rfl

theorem numbered_of_foundIn {file : FileId} {offset : Nat} {chars : List Char}
    (hfound : token.FoundIn file offset chars) : token.Numbered := by
  obtain ⟨before, rest, newlineBefore⟩ := hfound
  rename_i c
  have hfaults := Lexeme.faults_token c rest file (offset + byteLength before) newlineBefore
  have htext : ((Lexeme.scan c rest).1.token file (offset + byteLength before)
      newlineBefore).text.toList = (Lexeme.scan c rest).1.text := String.toList_ofList
  rcases Lexeme.scan_literal c rest with ⟨-, -, hquoted⟩ | ⟨hdigit, hscan, -⟩ | hbare
  · obtain ⟨value, hkind⟩ := hquoted.kind
    refine numbered_of_other ?_ ?_ fun located hmem => ?_
    · simp [Lexeme.token, hkind]
    · simp [Lexeme.token, hkind]
    · rcases hquoted.code located (hfaults ▸ hmem) with hcode | hcode <;> rw [hcode] <;> decide
  · obtain ⟨text, hint | ⟨value, hfloat, hvalue⟩⟩ := number_literal hdigit rest
    · obtain ⟨hkind, hreported⟩ := intLexeme_integer text
      have hsame : (intLexeme text (integer text)).text = text := text_intLexeme _ _
      rw [hscan, hint] at hfaults htext ⊢
      rw [hsame] at htext
      refine numbered_of_int ?_ ?_ ?_
      · rw [htext]
        exact hkind
      · rw [hfaults, htext]
        exact hreported
      · rw [htext]
        exact congrArg (_ + byteLength ·) hsame
    · rw [hscan, hfloat] at hfaults htext ⊢
      exact numbered_of_float rfl (htext ▸ hvalue) hfaults
  · have hliteral := hbare.kind
    refine numbered_of_other (fun value hkind => ?_) (fun value hkind => ?_) fun located hmem => ?_
    · rw [show (Lexeme.scan c rest).1.kind = _ from hkind] at hliteral
      cases hliteral
    · rw [show (Lexeme.scan c rest).1.kind = _ from hkind] at hliteral
      cases hliteral
    · rw [hbare.code located (hfaults ▸ hmem)]
      decide

theorem numbered_ofText (file : FileId) (text : String) :
    ∀ token ∈ (ofText file text).tokens, token.Numbered := by
  intro token hmem
  rcases foundIn_scanFrom file 0 text.toList token hmem with ⟨hend, hempty⟩ | hfound
  · refine numbered_of_other (by simp [hend]) (by simp [hend]) ?_
    rw [Token.faults_of_empty hempty]
    exact fun _ h => by cases h
  · exact numbered_of_foundIn hfound

/-- No two tokens of a text have one range. -/
theorem nodup_ranges (file : FileId) (text : String) :
    ((ofText file text).tokens.map Token.range).Nodup := by
  have hstarts := (placed_scanFrom file 0 text.toList).nodup_starts
  refine List.Nodup.of_map SourceRange.start ?_
  rw [List.map_map]
  exact hstarts

/-- The tokens that satisfy a test, counted by the range of one of them. -/
theorem count_ranges {tokens : List Token} (hnodup : (tokens.map Token.range).Nodup)
    (p : Token → Bool) {token : Token} (hmem : token ∈ tokens) :
    ((tokens.filter p).map Token.range).count token.range = if p token then 1 else 0 := by
  have hfiltered : ((tokens.filter p).map Token.range).Nodup :=
    hnodup.sublist (List.filter_sublist.map _)
  split
  · rename_i hp
    exact List.count_eq_one_of_mem hfiltered
      (List.mem_map_of_mem (List.mem_filter.mpr ⟨hmem, hp⟩))
  · rename_i hp
    refine List.count_eq_zero_of_not_mem fun hrange => ?_
    obtain ⟨other, hother, hsame⟩ := List.mem_map.mp hrange
    obtain ⟨hother, hpother⟩ := List.mem_filter.mp hother
    exact hp (List.inj_on_of_nodup_map hnodup hother hmem hsame ▸ hpother)

/-- **Numbers are what they denote.** An integer has the value of its text without separators and
mark, if the digits are those of its radix and the number is one of 64 bits with a sign. The other
integers count for zero, and the reports on invalid numbers are those on them, in their order: one
at the range of each and none at another place. The text of a float has the form of one, and so it
is read. -/
theorem ofText_numbers (file : FileId) (text : String) :
    let stream := ofText file text
    let invalid := stream.diagnostics.filter fun diagnostic =>
      diagnostic.code = some Code.invalidNumber
    (∀ token ∈ stream.tokens, token.Numbered) ∧
      (invalid = (stream.tokens.filter Token.lacksValue).map fun token =>
        (LexicalFault.number (faultOf token.text.toList)).report token.range) ∧
      (file.isDetached = false →
        (∀ token ∈ stream.tokens, (invalid.map Diagnostic.primaryRange).count token.range =
          if token.lacksValue then 1 else 0) ∧
        ∀ diagnostic ∈ invalid, ∃ token ∈ stream.tokens, (∃ value, token.kind = .int value) ∧
          token.lacksValue = true ∧ diagnostic.primaryRange = token.range) := by
  intro stream invalid
  have hnumbered := numbered_ofText file text
  have hinvalid : invalid = (stream.tokens.filter Token.lacksValue).map fun token =>
      (LexicalFault.number (faultOf token.text.toList)).report token.range :=
    (filter_code_scanFrom (by decide) file 0 text.toList).trans
      (flatMap_eq_map_filter fun token hmem => (hnumbered token hmem).reported)
  refine ⟨hnumbered, hinvalid, fun hregistered => ?_⟩
  have hlocated : ∀ token ∈ stream.tokens, token.range.isLocated = true := by
    intro token hmem
    have hfile := (placed_scanFrom file 0 text.toList).file_eq token hmem
    rw [SourceRange.isLocated, hfile, hregistered]
    rfl
  have hranges : invalid.map Diagnostic.primaryRange =
      (stream.tokens.filter Token.lacksValue).map Token.range := by
    rw [hinvalid, List.map_map]
    exact List.map_congr_left fun token hmem =>
      LexicalFault.primaryRange_report _ (hlocated token (List.mem_filter.mp hmem).1)
  constructor
  · intro token hmem
    rw [hranges]
    exact count_ranges (nodup_ranges file text) _ hmem
  · intro diagnostic hmem
    rw [hinvalid] at hmem
    obtain ⟨token, htoken, rfl⟩ := List.mem_map.mp hmem
    obtain ⟨htoken, hlacks⟩ := List.mem_filter.mp htoken
    refine ⟨token, htoken, ?_, hlacks, LexicalFault.primaryRange_report _ (hlocated token htoken)⟩
    unfold Token.lacksValue at hlacks
    split at hlacks
    · rename_i value hkind
      exact ⟨value, hkind⟩
    · cases hlacks

end TokenStream

end BehaviorTree
