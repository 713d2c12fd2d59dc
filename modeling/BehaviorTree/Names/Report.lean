import BehaviorTree.Diagnostic
import BehaviorTree.Diagnostic.Code
import BehaviorTree.Module.Graph

/-!
What is reported about names: second definitions, names that are not declared, that several imports
declare or that an import keeps to itself, and imports that no name comes from.
-/

namespace BehaviorTree.NameReport

def redeclaredBuiltin (name : Name) : Diagnostic :=
  (Diagnostic.error name.range
      (quoted name.text ++ " is a builtin type and cannot be redeclared")).withCode
    Code.duplicateDefinition
  |>.withLabel "builtin type name"
  |>.withHelp "pick a different name for this type"

def duplicate (what : String) (name : Name) (earlier : SourceRange) : Diagnostic :=
  (Diagnostic.error name.range
      ("duplicate definition of " ++ what ++ " " ++ quoted name.text)).withCode
    Code.duplicateDefinition
  |>.withLabel (quoted name.text ++ " redefined here")
  |>.withSecondary earlier "previous definition here"

def unusedImport (edge : ImportEdge) : Diagnostic :=
  (Diagnostic.warning edge.pathRange ("unused import " ++ quoted edge.path)).withCode
    Code.unusedImport
  |>.withLabel "nothing from this module is used"
  |>.withFixIt edge.decl.range ""

def privateName (name : Name) (edge : ImportEdge) : Diagnostic :=
  (Diagnostic.error name.range
      (quoted name.text ++ " is private to " ++ quoted edge.path)).withCode Code.privateName
  |>.withLabel "private name"
  |>.withSecondary edge.pathRange "imported here"
  |>.withHelp "names starting with `_` are only visible inside the module that declares them"

/-- Words joined by commas, the last two by `and`. -/
def enumerate : List String → String
  | [] => ""
  | [only] => only
  | [first, last] => first ++ " and " ++ last
  | first :: rest => first ++ ", " ++ enumerate rest

def ambiguousName (name : Name) (edges : List ImportEdge) : Diagnostic :=
  let declaredIn := enumerate (edges.map fun edge => quoted edge.path)
  let diagnostic :=
    (Diagnostic.error name.range
        (quoted name.text ++ " is ambiguous: it is declared in " ++ declaredIn)).withCode
      Code.ambiguousName
    |>.withLabel "ambiguous name"
    |>.withHelp "rename one of the declarations or drop one of the imports"
  edges.foldl
    (fun diagnostic edge =>
      diagnostic.withSecondary edge.pathRange (quoted name.text ++ " imported from here"))
    diagnostic

def undeclaredMessage (namesOf : Namespace) (name : String) : String :=
  match namesOf with
  | .type => "undeclared type " ++ quoted name
  | _ => "undeclared identifier " ++ quoted name

def undeclaredLabel : Namespace → String
  | .node => "no node with this name is declared or imported"
  | _ => "not found in this scope"

/-- A name that is declared nowhere in sight; `owner` is a module that would have it. -/
def undeclaredName (namesOf : Namespace) (name : Name) (owner : Option Module) : Diagnostic :=
  let diagnostic :=
    (Diagnostic.error name.range (undeclaredMessage namesOf name.text)).withCode Code.undeclaredName
    |>.withLabel (undeclaredLabel namesOf)
  match owner with
  | some owner =>
    diagnostic.withHelp (quoted name.text ++ " is declared in " ++ quoted owner.displayName ++
      ", which is not imported directly here")
  | none => diagnostic

end BehaviorTree.NameReport
