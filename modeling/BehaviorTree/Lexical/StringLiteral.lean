import BehaviorTree.Lexical.Escape
import BehaviorTree.Lexical.Lexeme

/-!
String literals. A literal ends at the first quote that no backslash covers, or where its line ends.
-/

namespace BehaviorTree.StringLiteral

/-- How the body of a literal ends. -/
inductive Ending
  /-- A closing quote follows. -/
  | closed
  /-- The line or the file ends. -/
  | cut
  /-- The line or the file ends behind a backslash, which covers nothing. -/
  | cutInEscape
  deriving DecidableEq

/-- The body that a text starts with, its ending, and the text from there on. -/
structure Body where
  text : List Char
  ending : Ending
  rest : List Char
  deriving DecidableEq

def Body.push (front : List Char) (body : Body) : Body :=
  { body with text := front ++ body.text }

def scanBody : List Char → Body
  | [] => ⟨[], .cut, []⟩
  | '\\' :: [] => ⟨['\\'], .cutInEscape, []⟩
  | '\\' :: c :: rest =>
    if c = '\n' then ⟨['\\'], .cutInEscape, c :: rest⟩
    else (scanBody rest).push ['\\', c]
  | c :: rest =>
    if c = '\n' then ⟨[], .cut, c :: rest⟩
    else if c = '"' then ⟨[], .closed, c :: rest⟩
    else (scanBody rest).push [c]

theorem scanBody_append (chars : List Char) : (scanBody chars).text ++ (scanBody chars).rest = chars := by
  fun_induction scanBody chars <;> simp_all [Body.push]

/-- The part of a body that is decoded. -/
def Body.decoded (body : Body) : List Char :=
  if body.ending = .cutInEscape then body.text.dropLast else body.text

def Body.closer (body : Body) : List Char :=
  if body.ending = .closed then ['"'] else []

theorem scanBody_closer (chars : List Char) :
    (scanBody chars).closer ++ (scanBody chars).rest.drop (scanBody chars).closer.length =
      (scanBody chars).rest := by
  fun_induction scanBody chars with
  | case4 c rest _ ih => exact ih
  | case7 c rest _ _ _ _ ih => exact ih
  | _ => rfl

/-- The literal whose opening quote stands in front of a text. -/
def scan (chars : List Char) : Lexeme × List Char :=
  let body := scanBody chars
  let text := '"' :: body.text ++ body.closer
  let unescaped := unescape body.decoded
  let unterminated : List LocatedFault :=
    if body.ending = .closed then [] else [⟨0, byteLength text, .unterminatedString⟩]
  (⟨.string (String.ofList unescaped.value), text,
      unterminated ++ unescaped.faults.map (·.shift 1)⟩,
    body.rest.drop body.closer.length)

theorem scan_append (chars : List Char) : (scan chars).1.text ++ (scan chars).2 = '"' :: chars := by
  simp only [scan, List.cons_append, List.append_assoc, scanBody_closer, scanBody_append]

end BehaviorTree.StringLiteral
