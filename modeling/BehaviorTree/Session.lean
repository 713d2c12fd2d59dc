import BehaviorTree.Parsing.Declaration

/-!
A session: the source texts that were read, the nodes built from them and all that was reported, in
the order of reporting.
-/

namespace BehaviorTree

structure Session where
  sources : Sources
  arena : Arena
  diagnostics : List Diagnostic

namespace Session

/-- A session in which nothing has been read. -/
def inDirectory (directory : Path) : Session := ⟨.inDirectory directory, .empty, []⟩

def report (session : Session) (diagnostic : Diagnostic) : Session :=
  { session with diagnostics := session.diagnostics ++ [diagnostic] }

def reportAll (session : Session) (diagnostics : List Diagnostic) : Session :=
  { session with diagnostics := session.diagnostics ++ diagnostics }

def errorCount (session : Session) : Nat := Diagnostics.errorCount session.diagnostics

/-- Registers a source text and reads the program in it. -/
def parse (session : Session) (path : Path) (text : String) : Program × Session :=
  let parsed := Parsed.ofText session.sources.nextId text session.arena
  (parsed.program,
    { sources := session.sources.add path text
      arena := parsed.arena
      diagnostics := session.diagnostics ++ parsed.diagnostics })

end Session

end BehaviorTree
