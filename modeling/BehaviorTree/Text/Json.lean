/-!
JSON values and their indented text: two blanks a level, one entry a line, keys in the given order,
nothing between the brackets of what is empty.
-/

namespace BehaviorTree

inductive JsonValue
  | string (text : String)
  | number (value : Nat)
  | object (fields : List (String × JsonValue))
  | array (items : List JsonValue)

namespace JsonValue

def hexDigit (value : Nat) : Char :=
  if value < 10 then Char.ofNat ('0'.toNat + value) else Char.ofNat ('a'.toNat + value - 10)

/-- A character inside quotes. -/
def escape (c : Char) : List Char :=
  if c = '"' then ['\\', '"']
  else if c = '\\' then ['\\', '\\']
  else if c = '\n' then ['\\', 'n']
  else if c = '\r' then ['\\', 'r']
  else if c = '\t' then ['\\', 't']
  else if c = '\x08' then ['\\', 'b']
  else if c = '\x0c' then ['\\', 'f']
  else if c.toNat < 0x20 then ['\\', 'u', '0', '0', hexDigit (c.toNat / 16), hexDigit (c.toNat % 16)]
  else [c]

def quote (text : String) : String :=
  "\"" ++ String.ofList (text.toList.flatMap escape) ++ "\""

def newline (level : Nat) : String := "\n" ++ String.ofList (List.replicate (2 * level) ' ')

/-- Entries between brackets at a level. -/
def enclose (level : Nat) (left right : String) (entries : List String) : String :=
  match entries with
  | [] => left ++ right
  | _ =>
    left ++ newline (level + 1) ++ ("," ++ newline (level + 1)).intercalate entries ++ newline level ++
      right

mutual

def write (level : Nat) : JsonValue → String
  | string text => quote text
  | number value => toString value
  | object fields => enclose level "\x7b" "\x7d" (writeFields (level + 1) fields)
  | array items => enclose level "[" "]" (writeItems (level + 1) items)

def writeFields (level : Nat) : List (String × JsonValue) → List String
  | [] => []
  | (key, value) :: rest => (quote key ++ ": " ++ value.write level) :: writeFields level rest

def writeItems (level : Nat) : List JsonValue → List String
  | [] => []
  | value :: rest => value.write level :: writeItems level rest

end

/-- The text of a value. -/
def pretty (value : JsonValue) : String := value.write 0

end JsonValue

end BehaviorTree
