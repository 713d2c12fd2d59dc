import BehaviorTree.Text.Formless

/-!
Dumps of values for people who look into the program: names of constructors with their fields, on
one line or indented by four blanks a level with one entry a line.
-/

namespace BehaviorTree

/-- A character between quotes. A character without a form is written by its number. -/
def dumpChar (c : Char) : List Char :=
  if c = '"' then ['\\', '"']
  else if c = '\\' then ['\\', '\\']
  else if c = '\n' then ['\\', 'n']
  else if c = '\r' then ['\\', 'r']
  else if c = '\t' then ['\\', 't']
  else if c = '\x00' then ['\\', '0']
  else if isFormless c then ['\\', 'u', '\x7b'] ++ Nat.toDigits 16 c.toNat ++ ['\x7d']
  else [c]

inductive Dump
  | atom (text : String)
  | list (items : List Dump)
  /-- A name with entries in parentheses; a tuple has the empty name. -/
  | call (name : String) (items : List Dump)
  | record (name : String) (fields : List (String × Dump))

namespace Dump

def text (text : String) : Dump :=
  .atom ("\"" ++ String.ofList (text.toList.flatMap dumpChar) ++ "\"")

def option : Option Dump → Dump
  | none => .atom "None"
  | some value => .call "Some" [value]

mutual

def oneLine : Dump → String
  | atom text => text
  | list items => "[" ++ ", ".intercalate (oneLineAll items) ++ "]"
  | call name items => name ++ "(" ++ ", ".intercalate (oneLineAll items) ++ ")"
  | record name fields => name ++ " \x7b " ++ ", ".intercalate (oneLineFields fields) ++ " \x7d"

def oneLineAll : List Dump → List String
  | [] => []
  | value :: rest => value.oneLine :: oneLineAll rest

def oneLineFields : List (String × Dump) → List String
  | [] => []
  | (name, value) :: rest => (name ++ ": " ++ value.oneLine) :: oneLineFields rest

end

def indent (level : Nat) : String := String.ofList (List.replicate (4 * level) ' ')

/-- Entries between brackets, each on a line of its own and with a comma behind it. -/
def encloseLines (level : Nat) (left right : String) (entries : List String) : String :=
  match entries with
  | [] => left ++ right
  | _ =>
    left ++ "\n" ++ String.join (entries.map fun entry => indent (level + 1) ++ entry ++ ",\n") ++
      indent level ++ right

mutual

def write (level : Nat) : Dump → String
  | atom text => text
  | list items => encloseLines level "[" "]" (writeAll (level + 1) items)
  | call name items => encloseLines level (name ++ "(") ")" (writeAll (level + 1) items)
  | record name fields =>
    encloseLines level (name ++ " \x7b") "\x7d" (writeFields (level + 1) fields)

def writeAll (level : Nat) : List Dump → List String
  | [] => []
  | value :: rest => value.write level :: writeAll level rest

def writeFields (level : Nat) : List (String × Dump) → List String
  | [] => []
  | (name, value) :: rest => (name ++ ": " ++ value.write level) :: writeFields level rest

end

/-- The text with one entry a line. -/
def indented (value : Dump) : String := value.write 0

example : (list [.text "a\n", .call "" [.atom "1"]]).oneLine = "[\"a\\n\", (1)]" := by
  decide +kernel

end Dump

end BehaviorTree
