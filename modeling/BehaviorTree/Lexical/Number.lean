import BehaviorTree.Lexical.Escape
import BehaviorTree.Lexical.Lexeme

/-!
Number literals: decimal integers and floats, and integers with a radix mark. Digits may be
separated by `_`. A literal without a value is reported and counts as zero.
-/

namespace BehaviorTree.NumberLiteral

def isDigitPart (c : Char) : Bool := c.isDigit || c == '_'

def isWordPart (c : Char) : Bool := c.isAlphanum || c == '_'

/-- The text without separators. -/
def withoutSeparators (text : List Char) : List Char := text.filter (· != '_')

/-- The integer that digits denote, if it is not too large. -/
def boundedInteger (radix : Nat) (digits : List Char) : Except NumberFault Nat :=
  let value := Digit.ofDigits radix digits
  if value ≤ maxInteger then .ok value else .error .tooLarge

def intLexeme (text : List Char) : Except NumberFault Nat → Lexeme
  | .ok value => .plain (.int value) text
  | .error fault => .faulty (.int 0) text (.number fault)

/-- The integer behind a radix mark. -/
def markedInteger (mark : RadixMark) (markText digits : List Char) : Except NumberFault Nat :=
  if digits = [] then .error (.noDigits markText)
  else match digits.find? fun c => !Digit.isDigitOf mark.radix c with
    | some bad => .error (.badDigit bad mark)
    | none => boundedInteger mark.radix digits

def scanMarked (mark : RadixMark) (markText rest : List Char) : Lexeme × List Char :=
  let body := rest.takeWhile isWordPart
  (intLexeme (markText ++ body) (markedInteger mark markText (withoutSeparators body)),
    rest.dropWhile isWordPart)

/-- The texts of the parts of a decimal number; a fraction has its dot and an exponent its `e`. -/
structure Decimal where
  whole : List Char
  fraction : List Char
  exponent : List Char
  deriving DecidableEq

namespace Decimal

def text (decimal : Decimal) : List Char :=
  decimal.whole ++ decimal.fraction ++ decimal.exponent

def isFloat (decimal : Decimal) : Bool :=
  !decimal.fraction.isEmpty || !decimal.exponent.isEmpty

def digitsOf (part : List Char) : List Char := part.filter Char.isDigit

/-- The power of ten that the exponent part denotes. -/
def power (decimal : Decimal) : Int :=
  let size : Int := Digit.ofDigits 10 (digitsOf decimal.exponent)
  if '-' ∈ decimal.exponent then -size else size

def float (decimal : Decimal) : Binary64 :=
  let fraction := digitsOf decimal.fraction
  .ofDecimal (Digit.ofDigits 10 (digitsOf decimal.whole ++ fraction))
    (decimal.power - fraction.length)

def lexeme (decimal : Decimal) : Lexeme :=
  if decimal.isFloat then .plain (.float decimal.float) decimal.text
  else intLexeme decimal.text (boundedInteger 10 (withoutSeparators decimal.whole))

end Decimal

/-- A dot and digits, if the text starts with them. -/
def scanFraction : List Char → List Char × List Char
  | '.' :: d :: rest =>
    if d.isDigit then
      ('.' :: (d :: rest).takeWhile isDigitPart, (d :: rest).dropWhile isDigitPart)
    else ([], '.' :: d :: rest)
  | chars => ([], chars)

def signOf : List Char → List Char
  | '+' :: _ => ['+']
  | '-' :: _ => ['-']
  | _ => []

/-- An `e`, a sign or none, and digits, if the text starts with them. -/
def scanExponent : List Char → List Char × List Char
  | [] => ([], [])
  | e :: rest =>
    let sign := signOf rest
    let digits := rest.drop sign.length
    if (e == 'e' || e == 'E') && digits.head?.any Char.isDigit then
      (e :: sign ++ digits.takeWhile isDigitPart, digits.dropWhile isDigitPart)
    else ([], e :: rest)

def scanDecimal (chars : List Char) : Decimal × List Char :=
  let fraction := scanFraction (chars.dropWhile isDigitPart)
  let exponent := scanExponent fraction.2
  (⟨chars.takeWhile isDigitPart, fraction.1, exponent.1⟩, exponent.2)

/-- The number literal that a text starts with, given that it starts with a digit. -/
def scan (chars : List Char) : Lexeme × List Char :=
  match chars with
  | '0' :: c :: rest =>
    match RadixMark.ofChar? c with
    | some mark => scanMarked mark ['0', c] rest
    | none => ((scanDecimal chars).1.lexeme, (scanDecimal chars).2)
  | _ => ((scanDecimal chars).1.lexeme, (scanDecimal chars).2)

theorem text_intLexeme (text : List Char) (value : Except NumberFault Nat) :
    (intLexeme text value).text = text := by
  cases value <;> rfl

theorem Decimal.text_lexeme (decimal : Decimal) : decimal.lexeme.text = decimal.text := by
  unfold lexeme
  split
  · rfl
  · exact text_intLexeme _ _

theorem scanFraction_append (chars : List Char) :
    (scanFraction chars).1 ++ (scanFraction chars).2 = chars := by
  unfold scanFraction
  split
  · split
    · rw [List.cons_append, List.takeWhile_append_dropWhile]
    · rfl
  · rfl

theorem signOf_append_drop (chars : List Char) :
    signOf chars ++ chars.drop (signOf chars).length = chars := by
  unfold signOf
  split <;> rfl

theorem scanExponent_append (chars : List Char) :
    (scanExponent chars).1 ++ (scanExponent chars).2 = chars := by
  unfold scanExponent
  split
  · rfl
  · dsimp only
    split
    · rw [List.cons_append, List.cons_append, List.append_assoc,
        List.takeWhile_append_dropWhile, signOf_append_drop]
    · rfl

theorem scanDecimal_append (chars : List Char) :
    (scanDecimal chars).1.text ++ (scanDecimal chars).2 = chars := by
  simp only [scanDecimal, Decimal.text, List.append_assoc, scanExponent_append,
    scanFraction_append, List.takeWhile_append_dropWhile]

theorem scan_append (chars : List Char) : (scan chars).1.text ++ (scan chars).2 = chars := by
  unfold scan
  split
  · split
    · simp only [scanMarked, text_intLexeme, List.takeWhile_append_dropWhile, List.cons_append,
        List.nil_append]
    · rw [Decimal.text_lexeme, scanDecimal_append]
  · rw [Decimal.text_lexeme, scanDecimal_append]

theorem scan_text_ne_nil {c : Char} (digit : c.isDigit = true) (rest : List Char) :
    (scan (c :: rest)).1.text ≠ [] := by
  have decimal : (scanDecimal (c :: rest)).1.lexeme.text ≠ [] := by
    simp [Decimal.text_lexeme, Decimal.text, scanDecimal, isDigitPart, digit]
  unfold scan
  split
  · split
    · simp [scanMarked, text_intLexeme]
    · simp_all
  · exact decimal

end BehaviorTree.NumberLiteral
