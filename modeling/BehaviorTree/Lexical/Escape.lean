import BehaviorTree.Lexical.Fault

/-!
The body of a string literal as a sequence of plain characters, escapes and malformed escapes. The
items' texts concatenate to the body; a malformed escape stands for no character.
-/

namespace BehaviorTree

namespace Digit

/-- The value of a hexadecimal digit. -/
def value (c : Char) : Nat :=
  if c.isDigit then c.toNat - '0'.toNat
  else if 'a' ≤ c ∧ c ≤ 'f' then c.toNat - 'a'.toNat + 10
  else c.toNat - 'A'.toNat + 10

/-- Whether a character is a digit in a radix of at most 16. -/
def isDigitOf (radix : Nat) (c : Char) : Bool :=
  (c.isDigit || ('a' ≤ c && c ≤ 'f') || ('A' ≤ c && c ≤ 'F')) && value c < radix

def ofDigits (radix : Nat) (digits : List Char) : Nat :=
  digits.foldl (fun total digit => total * radix + value digit) 0

end Digit

inductive EscapeItem
  | plain (c : Char)
  | escape (text : List Char) (value : Char)
  | malformed (text : List Char) (fault : EscapeFault)
  deriving DecidableEq

namespace EscapeItem

def text : EscapeItem → List Char
  | plain c => [c]
  | escape text _ => text
  | malformed text _ => text

def value : EscapeItem → List Char
  | plain c => [c]
  | escape _ value => [value]
  | malformed _ _ => []

/-- The character of an escape that takes one letter. -/
def ofLetter? : Char → Option Char
  | 'n' => some '\n'
  | 't' => some '\t'
  | 'r' => some '\r'
  | '0' => some '\x00'
  | 'b' => some '\x08'
  | 'f' => some '\x0c'
  | '\\' => some '\\'
  | '"' => some '"'
  | _ => none

/-- The character that the digits between the braces of a unicode escape denote. -/
def ofHexDigits (digits : List Char) : Except EscapeFault Char :=
  if digits = [] then .error .noDigits
  else match digits.find? fun c => !Digit.isDigitOf 16 c with
    | some bad => .error (.badDigit bad)
    | none =>
      if 6 < digits.length then .error (.tooLong digits)
      else
        let number := Digit.ofDigits 16 digits
        if 0x10FFFF < number then .error (.tooLarge digits)
        else if 0xD800 ≤ number ∧ number ≤ 0xDFFF then .error (.surrogate digits)
        else .ok (Char.ofNat number)

/-- The escape behind a backslash and a `u`, and what follows it. -/
def unicode (rest : List Char) : EscapeItem × List Char :=
  match rest with
  | '\x7b' :: inner =>
    let digits := inner.takeWhile (· != '\x7d')
    match inner.dropWhile (· != '\x7d') with
    | [] => (malformed ('\\' :: 'u' :: '\x7b' :: digits) .unclosed, [])
    | _ :: rest =>
      let text := '\\' :: 'u' :: '\x7b' :: digits ++ ['\x7d']
      match ofHexDigits digits with
      | .ok value => (escape text value, rest)
      | .error fault => (malformed text fault, rest)
  | _ => (malformed ['\\', 'u'] .missingBrace, rest)

/-- The first item of a body and what follows it. -/
def next (c : Char) (rest : List Char) : EscapeItem × List Char :=
  if c = '\\' then
    match rest with
    | [] => (malformed ['\\'] .endsEarly, [])
    | 'u' :: rest => unicode rest
    | letter :: rest =>
      match ofLetter? letter with
      | some value => (escape ['\\', letter] value, rest)
      | none => (malformed ['\\', letter] (.unknown letter), rest)
  else (plain c, rest)

theorem unicode_text_append (rest : List Char) :
    (unicode rest).1.text ++ (unicode rest).2 = '\\' :: 'u' :: rest := by
  unfold unicode
  split
  · rename_i inner
    have split_inner := List.takeWhile_append_dropWhile (p := (· != '\x7d')) (l := inner)
    dsimp only
    split
    · rename_i empty
      simp only [empty, List.append_nil] at split_inner
      simp [text, split_inner]
    · rename_i close rest behind
      have closing : close = '\x7d' := by
        have := List.head?_dropWhile_not (· != '\x7d') inner
        simpa [behind] using this
      subst closing
      split <;> simp only [text, List.cons_append, List.append_assoc, List.nil_append] <;>
        rw [← behind, split_inner]
  · rfl

theorem next_text_append (c : Char) (rest : List Char) :
    (next c rest).1.text ++ (next c rest).2 = c :: rest := by
  unfold next
  split
  · rename_i backslash
    subst backslash
    split
    · rfl
    · exact unicode_text_append _
    · split <;> rfl
  · rfl

theorem text_ne_nil_of_next (c : Char) (rest : List Char) : (next c rest).1.text ≠ [] := by
  unfold next unicode
  split
  · split
    · simp [text]
    · split
      · split
        · simp [text]
        · dsimp only
          split <;> simp [text]
      · simp [text]
    · split <;> simp [text]
  · simp [text]

theorem length_next_lt (c : Char) (rest : List Char) :
    (next c rest).2.length < (c :: rest).length := by
  have whole := congrArg List.length (next_text_append c rest)
  have positive := List.length_pos_iff.2 (text_ne_nil_of_next c rest)
  rw [List.length_append] at whole
  omega

/-- The items of a body, from left to right. -/
def split : List Char → List EscapeItem
  | [] => []
  | c :: rest => (next c rest).1 :: split (next c rest).2
  termination_by body => body.length
  decreasing_by exact length_next_lt c rest

theorem split_text (body : List Char) : (split body).flatMap text = body := by
  fun_induction split body with
  | case1 => rfl
  | case2 c rest ih => rw [List.flatMap_cons, ih, next_text_append]

/-- The faults of a sequence of items that starts at an offset. -/
def faults : Nat → List EscapeItem → List LocatedFault
  | _, [] => []
  | offset, item :: rest =>
    let stop := offset + byteLength item.text
    match item with
    | malformed _ fault => ⟨offset, stop, .escape fault⟩ :: faults stop rest
    | _ => faults stop rest

end EscapeItem

/-- A decoded string body and the faults in it. -/
structure Unescaped where
  value : List Char
  faults : List LocatedFault
  deriving DecidableEq

def unescape (body : List Char) : Unescaped :=
  let items := EscapeItem.split body
  ⟨items.flatMap EscapeItem.value, EscapeItem.faults 0 items⟩

end BehaviorTree
