/-!
File paths as text. A path is compared by its components: repeated slashes, a slash at the end and
a `.` that is not the first component carry no meaning, while `..` is kept as written.
-/

namespace BehaviorTree

structure Path where
  text : String
  deriving DecidableEq

namespace Path

/-- The text between slashes, empty segments included. -/
def splitSlashes : List Char → List (List Char)
  | [] => [[]]
  | c :: rest =>
    if c = '/' then [] :: splitSlashes rest
    else match splitSlashes rest with
      | [] => [[c]]
      | segment :: others => (c :: segment) :: others

theorem splitSlashes_ne_nil (chars : List Char) : splitSlashes chars ≠ [] := by
  cases chars with
  | nil => simp [splitSlashes]
  | cons c rest =>
    unfold splitSlashes
    split
    · simp
    · split <;> simp

def joinSlashes (segments : List (List Char)) : List Char :=
  ['/'].intercalate segments

def segments (path : Path) : List (List Char) :=
  splitSlashes path.text.toList

def isAbsolute (path : Path) : Bool :=
  path.text.toList.head? == some '/'

inductive Component
  | root
  | current
  | parent
  | normal (name : List Char)
  deriving DecidableEq

/-- A segment that names nothing: empty, or a `.`. -/
def isBlankSegment (segment : List Char) : Bool :=
  segment.isEmpty || segment == ['.']

def Component.ofSegment (segment : List Char) : Component :=
  if segment == ['.', '.'] then .parent else .normal segment

/-- The components of the segments behind the first one. -/
def innerComponents (segments : List (List Char)) : List Component :=
  (segments.filter fun segment => !isBlankSegment segment).map Component.ofSegment

/-- The segments that name something. -/
def names (path : Path) : List (List Char) :=
  path.segments.filter fun segment => !isBlankSegment segment

/-- The components; a `.` counts only where it comes first. -/
def components (path : Path) : List Component :=
  if path.isAbsolute then .root :: innerComponents path.segments
  else match path.segments with
    | ['.'] :: rest => .current :: innerComponents rest
    | segments => innerComponents segments

/-- Equality of paths up to their spelling. -/
def same (left right : Path) : Bool :=
  left.components == right.components

theorem same_iff {left right : Path} : left.same right = true ↔ left.components = right.components := by
  simp [same]

/-- The last component, unless it is `.`, `..` or the root. -/
def fileName? (path : Path) : Option (List Char) :=
  match path.components.getLast? with
  | some (.normal name) => some name
  | _ => none

/-- The text behind the last dot of a name, unless that dot comes first. -/
def extensionOfName? (name : List Char) : Option (List Char) :=
  let tail := name.reverse.takeWhile (· != '.')
  if tail.length + 1 < name.length then some tail.reverse else none

def extension? (path : Path) : Option String :=
  (path.fileName?.bind extensionOfName?).map String.ofList

/-- Puts `tail` behind `base` as written; an absolute `tail` replaces `base`. -/
def join (base tail : Path) : Path :=
  if tail.isAbsolute || base.text.toList.isEmpty then tail
  else if base.text.toList.getLast? == some '/' then ⟨base.text ++ tail.text⟩
  else ⟨base.text ++ "/" ++ tail.text⟩

/-- Cuts off segments that name nothing, at both ends. -/
def trimSegments (segments : List (List Char)) : List (List Char) :=
  ((segments.dropWhile isBlankSegment).reverse.dropWhile isBlankSegment).reverse

/-- Drops `count` named segments from the front. -/
def dropNamed : Nat → List (List Char) → List (List Char)
  | 0, segments => segments
  | _, [] => []
  | count + 1, segment :: rest =>
    if isBlankSegment segment then dropNamed (count + 1) rest else dropNamed count rest

def ofSegments (segments : List (List Char)) : Path :=
  ⟨String.ofList (joinSlashes segments)⟩

/-- What is left of a relative path behind its first named component. -/
def afterFirst (path : Path) : Path :=
  ofSegments (trimSegments (dropNamed 1 path.segments))

/-- The part of an absolute path below the absolute path `base`, if it lies there. -/
def relativeTo? (path base : Path) : Option Path :=
  if base.isAbsolute && base.components.isPrefixOf path.components then
    some (ofSegments (trimSegments (dropNamed (base.components.length - 1) path.segments)))
  else none

/-- The path as shown to a user who works in `directory`. -/
def shownFrom (path directory : Path) : String :=
  let absolute := directory.join path
  ((absolute.relativeTo? directory).getD absolute).text

/-- The absolute path of the directory or file reached from the root through `names`. -/
def ofNames (names : List (List Char)) : Path :=
  ⟨String.ofList ('/' :: joinSlashes names)⟩

/-- The directory that a path lies in. -/
def parent (path : Path) : Path :=
  let segments := (path.segments.reverse.dropWhile isBlankSegment).drop 1
  let kept := (segments.dropWhile isBlankSegment).reverse
  if path.isAbsolute then ofNames (kept.drop 1) else ofSegments kept

end Path

end BehaviorTree
