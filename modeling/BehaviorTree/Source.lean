import BehaviorTree.Path

/-!
Source texts and positions in them. Offsets count bytes of the UTF-8 form; an offset inside a
character means the start of that character, and one past the end means the end. Lines and
columns are computed from the text when they are shown.
-/

namespace BehaviorTree

/-- The sum of a measure over a list. -/
def total {α : Type} (measure : α → Nat) (list : List α) : Nat :=
  list.foldr (fun x sum => measure x + sum) 0

@[simp]
theorem total_nil {α : Type} (measure : α → Nat) : total measure [] = 0 := rfl

@[simp]
theorem total_cons {α : Type} (measure : α → Nat) (x : α) (list : List α) :
    total measure (x :: list) = measure x + total measure list := rfl

@[simp]
theorem total_append {α : Type} (measure : α → Nat) (left right : List α) :
    total measure (left ++ right) = total measure left + total measure right := by
  induction left with
  | nil => simp
  | cons x rest ih => simp [ih, Nat.add_assoc]

/-- The number of bytes that characters take. -/
def byteLength (chars : List Char) : Nat := total Char.utf8Size chars

@[simp]
theorem byteLength_nil : byteLength [] = 0 := rfl

@[simp]
theorem byteLength_cons (c : Char) (chars : List Char) :
    byteLength (c :: chars) = c.utf8Size + byteLength chars := rfl

@[simp]
theorem byteLength_append (left right : List Char) :
    byteLength (left ++ right) = byteLength left + byteLength right :=
  total_append Char.utf8Size left right

/-- The characters that end at or before a byte offset. -/
def takeBytes : Nat → List Char → List Char
  | _, [] => []
  | offset, c :: rest =>
    if c.utf8Size ≤ offset then c :: takeBytes (offset - c.utf8Size) rest else []

/-- The characters that end behind a byte offset. -/
def dropBytes : Nat → List Char → List Char
  | _, [] => []
  | offset, c :: rest =>
    if c.utf8Size ≤ offset then dropBytes (offset - c.utf8Size) rest else c :: rest

theorem takeBytes_append_dropBytes (offset : Nat) (chars : List Char) :
    takeBytes offset chars ++ dropBytes offset chars = chars := by
  induction chars generalizing offset with
  | nil => rfl
  | cons c rest ih =>
    unfold takeBytes dropBytes
    split
    · simp [ih]
    · rfl

theorem byteLength_takeBytes_le (offset : Nat) (chars : List Char) :
    byteLength (takeBytes offset chars) ≤ offset := by
  induction chars generalizing offset with
  | nil => simp [takeBytes]
  | cons c rest ih =>
    unfold takeBytes
    split
    · have := ih (offset - c.utf8Size)
      simp only [byteLength_cons]
      omega
    · simp

/-- Splits at line feeds, which belong to no line. -/
def splitLines : List Char → List (List Char)
  | [] => [[]]
  | c :: rest =>
    if c = '\n' then [] :: splitLines rest
    else match splitLines rest with
      | [] => [[c]]
      | line :: others => (c :: line) :: others

/-- The text from a line on, counted from 0, if there is such a line. -/
def fromLine? : Nat → List Char → Option (List Char)
  | 0, chars => some chars
  | _ + 1, [] => none
  | line + 1, c :: rest => if c = '\n' then fromLine? line rest else fromLine? (line + 1) rest

/-- The characters behind the last line feed. -/
def lastLine (chars : List Char) : List Char :=
  (chars.reverse.takeWhile (· != '\n')).reverse

/-- Takes the carriage return off the end of a line. -/
def dropCarriageReturn (line : List Char) : List Char :=
  if line.getLast? = some '\r' then line.dropLast else line

/-- The number of 16-bit units that a character takes in UTF-16. -/
def utf16Size (c : Char) : Nat :=
  if c.toNat < 0x10000 then 1 else 2

/-- A file known to the session, by the order of registration, or no file at all. -/
inductive FileId
  | registered (index : Nat)
  | detached
  deriving DecidableEq

namespace FileId

def isDetached : FileId → Bool
  | detached => true
  | registered _ => false

def describe : FileId → String
  | detached => "detached"
  | registered index => "file#" ++ toString index

/-- Files sort by registration; the detached one comes last. -/
def before : FileId → FileId → Bool
  | registered left, registered right => left < right
  | registered _, detached => true
  | detached, _ => false

end FileId

/-- A half-open range of byte offsets in one file. -/
structure SourceRange where
  file : FileId
  start : Nat
  stop : Nat
  deriving DecidableEq

namespace SourceRange

/-- No location at all. -/
def none : SourceRange := ⟨.detached, 0, 0⟩

def emptyAt (file : FileId) (offset : Nat) : SourceRange := ⟨file, offset, offset⟩

def isLocated (range : SourceRange) : Bool := !range.file.isDetached

def isEmpty (range : SourceRange) : Bool := range.start == range.stop

def length (range : SourceRange) : Nat := range.stop - range.start

/-- The smallest range around both; a range without a file gives way to the other. -/
def merge (left right : SourceRange) : SourceRange :=
  if !left.isLocated then right
  else if !right.isLocated then left
  else ⟨left.file, min left.start right.start, max left.stop right.stop⟩

def contains (range : SourceRange) (offset : Nat) : Bool :=
  range.start ≤ offset && offset < range.stop

def covers (outer inner : SourceRange) : Bool :=
  outer.file == inner.file && outer.start ≤ inner.start && inner.stop ≤ outer.stop

def describe (range : SourceRange) : String :=
  toString range.start ++ ".." ++ toString range.stop ++ "@" ++ range.file.describe

def shift (range : SourceRange) (distance : Nat) : SourceRange :=
  { range with start := range.start + distance, stop := range.stop + distance }

end SourceRange

/-- A file by its path and the characters of its text. -/
structure SourceFile where
  path : Path
  chars : List Char
  deriving DecidableEq

namespace SourceFile

def text (file : SourceFile) : String := String.ofList file.chars

def size (file : SourceFile) : Nat := byteLength file.chars

/-- The characters in front of an offset. -/
def before (file : SourceFile) (offset : Nat) : List Char :=
  takeBytes offset file.chars

/-- The start of the character that an offset falls into. -/
def floor (file : SourceFile) (offset : Nat) : Nat :=
  byteLength (file.before offset)

def lines (file : SourceFile) : List (List Char) := splitLines file.chars

def lineCount (file : SourceFile) : Nat := file.lines.length

/-- Line and column, both from 1; columns count characters. -/
def lineCol (file : SourceFile) (offset : Nat) : Nat × Nat :=
  let before := file.before offset
  (before.count '\n' + 1, (lastLine before).length + 1)

/-- Line and column, both from 0; columns count UTF-16 units. -/
def editorPosition (file : SourceFile) (offset : Nat) : Nat × Nat :=
  let before := file.before offset
  (before.count '\n', total utf16Size (lastLine before))

/-- The characters of a line, counted from 1, without the line end. -/
def lineText? (file : SourceFile) : Nat → Option (List Char)
  | 0 => none
  | line + 1 =>
    (fromLine? line file.chars).map fun chars =>
      dropCarriageReturn (chars.takeWhile (· != '\n'))

/-- The offset where a line, counted from 1, starts. -/
def lineStart? (file : SourceFile) : Nat → Option Nat
  | 0 => none
  | line + 1 => (fromLine? line file.chars).map fun chars => file.size - byteLength chars

/-- The text of a range whose ends lie on character boundaries of the file. -/
def slice? (file : SourceFile) (start stop : Nat) : Option String :=
  if start ≤ stop && file.floor start == start && file.floor stop == stop then
    some (String.ofList (takeBytes (stop - start) (dropBytes start file.chars)))
  else none

end SourceFile

/-- All source texts of a session and the directory it runs in. -/
structure Sources where
  directory : Path
  files : List SourceFile

namespace Sources

def inDirectory (directory : Path) : Sources := ⟨directory, []⟩

/-- The id that the next file will get. -/
def nextId (sources : Sources) : FileId := .registered sources.files.length

def add (sources : Sources) (path : Path) (text : String) : Sources :=
  { sources with files := sources.files ++ [⟨path, text.toList⟩] }

def file? (sources : Sources) : FileId → Option SourceFile
  | .detached => none
  | .registered index => sources.files[index]?

def path? (sources : Sources) (id : FileId) : Option Path :=
  (sources.file? id).map SourceFile.path

def chars (sources : Sources) (id : FileId) : List Char :=
  ((sources.file? id).map SourceFile.chars).getD []

def text (sources : Sources) (id : FileId) : String := String.ofList (sources.chars id)

def slice? (sources : Sources) (range : SourceRange) : Option String :=
  (sources.file? range.file).bind fun file => file.slice? range.start range.stop

def lineCount (sources : Sources) (id : FileId) : Nat :=
  ((sources.file? id).map SourceFile.lineCount).getD 0

def lineCol (sources : Sources) (id : FileId) (offset : Nat) : Nat × Nat :=
  ((sources.file? id).map (·.lineCol offset)).getD (1, 1)

def editorPosition (sources : Sources) (id : FileId) (offset : Nat) : Nat × Nat :=
  ((sources.file? id).map (·.editorPosition offset)).getD (0, 0)

def lineText? (sources : Sources) (id : FileId) (line : Nat) : Option (List Char) :=
  (sources.file? id).bind (·.lineText? line)

def lineStart? (sources : Sources) (id : FileId) (line : Nat) : Option Nat :=
  (sources.file? id).bind (·.lineStart? line)

def displayPath (sources : Sources) (id : FileId) : String :=
  ((sources.path? id).map (·.shownFrom sources.directory)).getD "<unknown>"

/-- The first registered file at a path. -/
def find? (sources : Sources) (path : Path) : Option FileId :=
  (sources.files.findIdx? fun file => file.path.same path).map FileId.registered

end Sources

end BehaviorTree
