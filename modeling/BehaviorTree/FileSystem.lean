import BehaviorTree.Source

/-!
The files that a session can read. A path leads to a canonical path or to a fault, and what stands
at a canonical path is known beforehand. A source file is read whole: it must not be larger than the
limit and must be UTF-8.
-/

namespace BehaviorTree

/-- Why a path leads nowhere or cannot be read. -/
inductive FileFault
  | notFound
  | notDirectory
  | isDirectory
  | nameTooLong
  | embeddedNul
  | other (text : String)
  deriving DecidableEq

def FileFault.message : FileFault → String
  | notFound => "No such file or directory (os error 2)"
  | notDirectory => "Not a directory (os error 20)"
  | isDirectory => "Is a directory (os error 21)"
  | nameTooLong => "File name too long (os error 36)"
  | embeddedNul => "file name contained an unexpected NUL byte"
  | other text => text

inductive FileEntry
  /-- A file of `size` bytes; it has no text if the bytes are not UTF-8. -/
  | file (size : Nat) (text : Option String)
  | directory
  deriving DecidableEq

namespace FileEntry

def ofText (text : String) : FileEntry := .file text.utf8ByteSize (some text)

def ofBytes (bytes : ByteArray) : FileEntry := .file bytes.size (String.fromUTF8? bytes)

end FileEntry

structure FileSystem where
  /-- The path without detours that names the same file. -/
  canonical : Path → Except FileFault Path
  /-- What stands at canonical paths. -/
  entries : List (Path × FileEntry)

/-- The largest source file that is read, in bytes. -/
def maximumSourceSize : Nat := 100 * 1024 * 1024

/-- The most bytes that the path of an opened file may have, with the one that ends it. -/
def maximumPathLength : Nat := 4096

/-- Why a source text is not there. -/
inductive SourceFault
  | unreadable (fault : FileFault)
  | tooLarge (size : Nat)
  | notUtf8
  deriving DecidableEq

structure SourceError where
  path : Path
  fault : SourceFault
  deriving DecidableEq

def SourceError.message (error : SourceError) : String :=
  match error.fault with
  | .unreadable fault => "failed to read `" ++ error.path.text ++ "`: " ++ fault.message
  | .tooLarge size =>
    "`" ++ error.path.text ++ "` is too large (" ++ toString size ++ " bytes, the limit is " ++
      toString maximumSourceSize ++ " bytes)"
  | .notUtf8 => "`" ++ error.path.text ++ "` is not valid UTF-8"

namespace FileSystem

def entry? (system : FileSystem) (canonical : Path) : Option FileEntry :=
  (system.entries.find? fun entry => entry.1.same canonical).map Prod.snd

/-- The source text at a canonical path. -/
def contents (system : FileSystem) (canonical : Path) : Except SourceFault String :=
  match system.entry? canonical with
  | none => .error (.unreadable .notFound)
  | some .directory => .error (.unreadable .isDirectory)
  | some (.file size text) =>
    if maximumSourceSize < size then .error (.tooLarge size)
    else match text with
      | some text => .ok text
      | none => .error .notUtf8

/-- Where a path leads that is opened as it is written: one that is too long leads nowhere, however
short the canonical path would be. -/
def opened (system : FileSystem) (path : Path) : Except FileFault Path :=
  if path.text.toList.contains '\x00' then .error .embeddedNul
  else if maximumPathLength ≤ path.text.utf8ByteSize then .error .nameTooLong
  else system.canonical path

/-- The source text that a path leads to. -/
def readSource (system : FileSystem) (path : Path) : Except SourceError String :=
  let result : Except SourceFault String :=
    match system.opened path with
    | .error fault => .error (.unreadable fault)
    | .ok canonical => system.contents canonical
  match result with
  | .ok text => .ok text
  | .error fault => .error ⟨path, fault⟩

def isDirectory (system : FileSystem) (path : Path) : Bool :=
  match system.opened path with
  | .error _ => false
  | .ok canonical => system.entry? canonical == some .directory

end FileSystem

end BehaviorTree
