import BehaviorTree.CommandLine.Command

/-!
The program: it reads its arguments, looks at the files that the command will ask for, runs the
command on what it found and writes what the command leaves. It has no display that draws.
-/

namespace BehaviorTree.CommandLine

/-- What was found at the paths that were looked at. -/
structure Snapshot where
  canonical : List (Path × Except FileFault Path)
  entries : List (Path × FileEntry)

namespace Snapshot

def empty : Snapshot := ⟨[], []⟩

def contains (snapshot : Snapshot) (path : Path) : Bool :=
  snapshot.canonical.any fun known => known.1 == path

def toFileSystem (snapshot : Snapshot) : FileSystem where
  canonical path := (snapshot.canonical.lookup path).getD (.error .notFound)
  entries := snapshot.entries

end Snapshot

/-- The files that the imports of a file lead to. -/
def importCandidates (packages : Packages) (file : Path) : FileEntry → List Path
  | .file _ (some text) =>
    (Parsed.ofText soleFile text .empty).program.importRequests.filterMap fun request =>
      (resolveImportPath packages file.parent request.path).toOption
  | _ => []

/-- The paths that a command asks for itself. -/
def Request.paths : Request → List Path
  | check file packages stdlib => file :: packages.map Prod.snd ++ stdlib.toList
  | lex file | parse file => [file]

/-- The packages that the imports of a checked program can name. -/
def Request.packages : Request → Packages
  | check _ packages stdlib => (checkOptions packages stdlib).registered
  | lex _ | parse _ => .empty

def faultOf : IO.Error → FileFault
  | .noFileOrDirectory .. => .notFound
  | .inappropriateType .. => .notDirectory
  | error => .other (toString error)

/-- What stands at a path. A file that is too large is not read. -/
def lookAt (path : Path) : IO (Path × FileEntry) := do
  let real ← IO.FS.realPath path.text
  let canonical : Path := ⟨real.toString⟩
  if ← real.isDir then return (canonical, .directory)
  let size := (← real.metadata).byteSize.toNat
  if maximumSourceSize < size then return (canonical, .file size none)
  return (canonical, .ofBytes (← IO.FS.readBinFile real))

/-- Looks at paths and at what the imports found there lead to. -/
partial def gather (packages : Packages) (snapshot : Snapshot) : List Path → IO Snapshot
  | [] => pure snapshot
  | path :: rest => do
    if snapshot.contains path then gather packages snapshot rest
    else
      match ← (lookAt path).toBaseIO with
      | .ok (canonical, entry) =>
        let found : Snapshot :=
          ⟨(path, .ok canonical) :: (canonical, .ok canonical) :: snapshot.canonical,
            (canonical, entry) :: snapshot.entries⟩
        gather packages found (importCandidates packages canonical entry ++ rest)
      | .error error =>
        let missed : Snapshot :=
          { snapshot with canonical := (path, .error (faultOf error)) :: snapshot.canonical }
        gather packages missed rest

def Outcome.write (outcome : Outcome) : IO UInt32 := do
  IO.print outcome.output
  IO.eprint outcome.errors
  return outcome.exitCode.toUInt32

end BehaviorTree.CommandLine

open BehaviorTree BehaviorTree.CommandLine in
def main (words : List String) : IO UInt32 := do
  match Invocation.ofArguments words with
  | .error stop => stop.outcome.write
  | .ok invocation =>
    let directory : Path := ⟨(← IO.currentDir).toString⟩
    let request := invocation.request
    let snapshot ← gather request.packages .empty request.paths
    let colorByDefault := (← (← IO.getStderr).isTty) && (← IO.getEnv "NO_COLOR").isNone
    (invocation.run .plain snapshot.toFileSystem directory colorByDefault).write
