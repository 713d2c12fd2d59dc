import BehaviorTree.Diagnostic
import BehaviorTree.Diagnostic.Code
import BehaviorTree.FileSystem
import BehaviorTree.Module.ImportPath

/-!
What is reported while the modules of a program are loaded.
-/

namespace BehaviorTree.ImportReport

def unreadableEntry (error : SourceError) : Diagnostic :=
  (Diagnostic.error .none ("cannot open entry file: " ++ error.message)).withCode
    Code.unreadableSource

def brokenRule (request : ImportRequest) (error : ImportPathError) : Diagnostic :=
  let diagnostic :=
    (Diagnostic.error request.pathRange error.message).withCode Code.invalidImportPath
    |>.withLabel "invalid import path"
    |>.withHelp error.help
  match error.replacement? with
  | some replacement => diagnostic.withFixIt request.pathRange replacement
  | none => diagnostic

theorem code_brokenRule (request : ImportRequest) (error : ImportPathError) :
    (brokenRule request error).code = some Code.invalidImportPath := by
  unfold brokenRule
  dsimp only
  split <;> rfl

def notFound (request : ImportRequest) (candidate : Path) : Diagnostic :=
  (Diagnostic.error request.pathRange ("cannot find module " ++ quoted request.path)).withCode
    Code.moduleNotFound
  |>.withLabel "no such file"
  |>.withNote ("looked for " ++ quoted candidate.text)

/-- An import that leads back to a module on the way to it; `chain` names the modules of the circle. -/
def cycle (request : ImportRequest) (chain : List String) : Diagnostic :=
  (Diagnostic.error request.pathRange
      ("import of " ++ quoted request.path ++ " creates a cycle")).withCode Code.importCycle
  |>.withLabel "this import closes the cycle"
  |>.withNote ("import chain: " ++ " -> ".intercalate (chain.map quoted))
  |>.withHelp "move the shared declarations into a module that both files can import"

def unreadable (request : ImportRequest) (error : SourceError) : Diagnostic :=
  (Diagnostic.error request.pathRange ("cannot read module " ++ quoted request.path)).withCode
    Code.unreadableSource
  |>.withLabel "imported here"
  |>.withNote error.message

def duplicateImport (request : ImportRequest) (first : SourceRange) : Diagnostic :=
  (Diagnostic.warning request.pathRange (quoted request.path ++ " is imported more than once")).withCode
    Code.duplicateImport
  |>.withLabel "duplicate import"
  |>.withSecondary first "first imported here"
  |>.withFixIt request.decl.range ""

end BehaviorTree.ImportReport
