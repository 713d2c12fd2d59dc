import BehaviorTree.Diagnostic
import BehaviorTree.Diagnostic.Code

/-!
What can be wrong with the characters of a source text, and how each fault is worded.
-/

namespace BehaviorTree

/-- Why an escape of a string literal has no value. -/
inductive EscapeFault
  | endsEarly
  | unknown (c : Char)
  | missingBrace
  | unclosed
  | noDigits
  | badDigit (c : Char)
  | tooLong (digits : List Char)
  | tooLarge (digits : List Char)
  | surrogate (digits : List Char)
  deriving DecidableEq

namespace EscapeFault

def unicodeForm (digits : List Char) : String :=
  "`\\u\x7b" ++ String.ofList digits ++ "\x7d`"

def message : EscapeFault → String
  | endsEarly => "unterminated escape sequence"
  | unknown c => "unknown escape sequence `\\" ++ c.toString ++ "`"
  | missingBrace => "expected `\x7b` after `\\u`"
  | unclosed => "unterminated unicode escape, expected `\x7d`"
  | noDigits => "empty unicode escape " ++ unicodeForm []
  | badDigit c => "invalid hexadecimal digit `" ++ c.toString ++ "` in unicode escape"
  | tooLong digits => "unicode escape " ++ unicodeForm digits ++ " has more than 6 hex digits"
  | tooLarge digits =>
    "unicode escape " ++ unicodeForm digits ++ " is out of range, the maximum is `10FFFF`"
  | surrogate digits =>
    "unicode escape " ++ unicodeForm digits ++
      " is a surrogate codepoint, which is not a valid character"

def help? : EscapeFault → Option String
  | unknown _ =>
    some ("supported escapes are `\\n`, `\\t`, `\\r`, `\\0`, `\\b`, `\\f`, `\\\\`, `\\\"` and " ++
      unicodeForm "HEX".toList)
  | _ => none

end EscapeFault

/-- The radix that the first two characters of a number can announce. -/
inductive RadixMark
  | hexadecimal
  | binary
  deriving DecidableEq

namespace RadixMark

def ofChar? : Char → Option RadixMark
  | 'x' | 'X' => some hexadecimal
  | 'b' | 'B' => some binary
  | _ => none

def radix : RadixMark → Nat
  | hexadecimal => 16
  | binary => 2

def name : RadixMark → String
  | hexadecimal => "hexadecimal"
  | binary => "binary"

end RadixMark

/-- Why a number literal has no value. -/
inductive NumberFault
  | noDigits (mark : List Char)
  | badDigit (digit : Char) (mark : RadixMark)
  | tooLarge
  deriving DecidableEq

/-- The largest integer that a literal can denote. -/
def maxInteger : Nat := 0x7FFFFFFFFFFFFFFF

def NumberFault.message : NumberFault → String
  | noDigits mark => "missing digits after `" ++ String.ofList mark ++ "`"
  | badDigit digit mark => "invalid digit `" ++ digit.toString ++ "` in " ++ mark.name ++ " literal"
  | tooLarge => "integer literal is too large, the maximum is `" ++ toString maxInteger ++ "`"

inductive LexicalFault
  | unexpected (text : List Char)
  | unterminatedString
  | escape (fault : EscapeFault)
  | number (fault : NumberFault)
  | unterminatedComment
  deriving DecidableEq

namespace LexicalFault

def message : LexicalFault → String
  | unexpected text =>
    if text.length = 1 then "unexpected character `" ++ String.ofList text ++ "`"
    else "unexpected characters `" ++ String.ofList text ++ "`"
  | unterminatedString => "unterminated string literal"
  | escape fault => fault.message
  | number fault => fault.message
  | unterminatedComment => "unterminated block comment"

def code : LexicalFault → String
  | unexpected _ => Code.unexpectedCharacter
  | unterminatedString => Code.unterminatedString
  | escape _ => Code.invalidEscape
  | number _ => Code.invalidNumber
  | unterminatedComment => Code.unterminatedComment

def report (fault : LexicalFault) (range : SourceRange) : Diagnostic :=
  let diagnostic := (Diagnostic.error range fault.message).withCode fault.code
  match fault with
  | unterminatedString =>
    (diagnostic.withLabel "string starts here").withHelp
      "add a closing `\"` before the end of the line"
  | unterminatedComment =>
    (diagnostic.withLabel "comment starts here").withHelp "close the comment with `*/`"
  | escape fault =>
    match fault.help? with
    | some help => diagnostic.withHelp help
    | none => diagnostic
  | _ => diagnostic

end LexicalFault

/-- A fault and the bytes it covers, counted from the start of the text under inspection. -/
structure LocatedFault where
  start : Nat
  stop : Nat
  fault : LexicalFault
  deriving DecidableEq

namespace LocatedFault

def shift (located : LocatedFault) (distance : Nat) : LocatedFault :=
  { located with start := located.start + distance, stop := located.stop + distance }

/-- The diagnostic of a fault in a text that starts at `base` of a file. -/
def report (located : LocatedFault) (file : FileId) (base : Nat) : Diagnostic :=
  located.fault.report ⟨file, base + located.start, base + located.stop⟩

theorem report_shift (located : LocatedFault) (file : FileId) (base distance : Nat) :
    (located.shift distance).report file base = located.report file (base + distance) := by
  simp only [report, shift, Nat.add_assoc, Nat.add_comm distance]

end LocatedFault

end BehaviorTree
