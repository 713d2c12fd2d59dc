import BehaviorTree.FileSystem

/-!
Trees of files in memory. A path is walked name by name from the root or from the working
directory: each step needs a directory to stand in, `..` leads to the directory around it, and the
root lies in itself.
-/

namespace BehaviorTree

/-- The entries of a tree, each under the names that lead to it from the root. -/
structure FileTree where
  entries : List (List (List Char) × FileEntry)

namespace FileTree

/-- Only the root. -/
def empty : FileTree := ⟨[([], .directory)]⟩

def entry? (tree : FileTree) (names : List (List Char)) : Option FileEntry :=
  (tree.entries.find? fun entry => entry.1 == names).map Prod.snd

/-- Puts a directory where nothing stands yet. -/
def addDirectory (tree : FileTree) (names : List (List Char)) : FileTree :=
  if (tree.entry? names).isSome then tree else ⟨tree.entries ++ [(names, .directory)]⟩

/-- Puts directories at a place and around it. -/
def addDirectories (tree : FileTree) (names : List (List Char)) : FileTree :=
  (List.range (names.length + 1)).foldl (fun tree count => tree.addDirectory (names.take count)) tree

/-- Puts a file at a place, in place of what stands there. -/
def addFile (tree : FileTree) (names : List (List Char)) (file : FileEntry) : FileTree :=
  ⟨(names, file) :: (tree.addDirectories names.dropLast).entries⟩

/-- The most bytes that a name may have. -/
def maximumNameLength : Nat := 255

/-- Walks from the place `here` along the segments of a path. -/
def walk (tree : FileTree) (here : List (List Char)) : List (List Char) →
    Except FileFault (List (List Char))
  | [] => if (tree.entry? here).isSome then .ok here else .error .notFound
  | segment :: rest =>
    match tree.entry? here with
    | none => .error .notFound
    | some (.file ..) => .error .notDirectory
    | some .directory =>
      if Path.isBlankSegment segment then walk tree here rest
      else if segment == ['.', '.'] then walk tree here.dropLast rest
      else if maximumNameLength < byteLength segment then .error .nameTooLong
      else walk tree (here ++ [segment]) rest

/-- The canonical path of what a path leads to. It is found name by name, so that only the length of
each name is bounded. -/
def canonical (tree : FileTree) (workingDirectory : List (List Char)) (path : Path) :
    Except FileFault Path :=
  if path.text.toList.contains '\x00' then .error .embeddedNul
  else if path.text.isEmpty then .error .notFound
  else
    let start := if path.isAbsolute then [] else workingDirectory
    (tree.walk start path.segments).map Path.ofNames

/-- The tree as it is seen from a working directory. -/
def toFileSystem (tree : FileTree) (workingDirectory : List (List Char)) : FileSystem where
  canonical := tree.canonical workingDirectory
  entries := tree.entries.map fun entry => (Path.ofNames entry.1, entry.2)

end FileTree

end BehaviorTree
