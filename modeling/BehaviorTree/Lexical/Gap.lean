import BehaviorTree.Lexical.Fault
import BehaviorTree.Text.Blank

/-!
What separates tokens: white space, line comments that are no documentation, and block comments,
which nest. A block comment without an end runs to the end of the text.
-/

namespace BehaviorTree

/-- A comment that documents what follows it, or the module. -/
inductive DocMark
  | item
  | module
  deriving DecidableEq

/-- The mark behind two slashes that makes a comment documentation, and the text behind it. A
third slash makes one only if no fourth follows. -/
def docMark? : List Char → Option (DocMark × List Char)
  | '!' :: rest => some (.module, rest)
  | '/' :: rest => if rest.head? = some '/' then none else some (.item, rest)
  | _ => none

namespace Gap

/-- Where in a gap a character stands: between comments, in a line comment, or in a block comment
that opened at an offset and has further ones open inside it. -/
inductive Mode
  | between
  | line
  | block (start : Nat) (inner : Nat)
  deriving DecidableEq

def Mode.close : Mode → Mode
  | block start (inner + 1) => block start inner
  | _ => between

end Gap

/-- A gap: its text, what follows it, and how it ended. -/
structure Gap where
  text : List Char
  rest : List Char
  mode : Gap.Mode
  deriving DecidableEq

namespace Gap

def push (front : List Char) (gap : Gap) : Gap :=
  { gap with text := front ++ gap.text }

/-- Runs through a gap from an offset in it. -/
def scanFrom (offset : Nat) : Mode → List Char → Gap
  | mode, [] => ⟨[], [], mode⟩
  | .block start inner, '/' :: '*' :: rest =>
    (scanFrom (offset + 2) (.block start (inner + 1)) rest).push ['/', '*']
  | .block start inner, '*' :: '/' :: rest =>
    (scanFrom (offset + 2) (Mode.block start inner).close rest).push ['*', '/']
  | .block start inner, c :: rest =>
    (scanFrom (offset + c.utf8Size) (.block start inner) rest).push [c]
  | .line, c :: rest =>
    (scanFrom (offset + c.utf8Size) (if c = '\n' then .between else .line) rest).push [c]
  | .between, '/' :: '*' :: rest =>
    (scanFrom (offset + 2) (.block offset 0) rest).push ['/', '*']
  | .between, '/' :: '/' :: rest =>
    if (docMark? rest).isSome then ⟨[], '/' :: '/' :: rest, .between⟩
    else (scanFrom (offset + 2) .line rest).push ['/', '/']
  | .between, c :: rest =>
    if isBlank c then (scanFrom (offset + c.utf8Size) .between rest).push [c]
    else ⟨[], c :: rest, .between⟩

/-- The gap that a text starts with. -/
def scan (chars : List Char) : Gap := scanFrom 0 .between chars

theorem scanFrom_append (offset : Nat) (mode : Mode) (chars : List Char) :
    (scanFrom offset mode chars).text ++ (scanFrom offset mode chars).rest = chars := by
  fun_induction scanFrom offset mode chars <;> simp_all [push]

theorem scan_append (chars : List Char) : (scan chars).text ++ (scan chars).rest = chars :=
  scanFrom_append 0 .between chars

theorem length_rest_scan_le (chars : List Char) : (scan chars).rest.length ≤ chars.length := by
  have whole := congrArg List.length (scan_append chars)
  rw [List.length_append] at whole
  omega

def hasNewline (gap : Gap) : Bool := gap.text.contains '\n'

/-- The fault of a gap that ends inside a block comment: it covers the opening mark. -/
def faults (gap : Gap) : List LocatedFault :=
  match gap.mode with
  | .block start _ => [⟨start, start + 2, .unterminatedComment⟩]
  | _ => []

end Gap

end BehaviorTree
