import BehaviorTree.Names.Table
import BehaviorTree.Path
import BehaviorTree.Program

/-!
The rules for the path of an import. It starts with `./` or `../` and then leads on from the
directory of the importing file, or it starts with the name of a package and then leads on from the
directory of the package; and its last component has an extension.
-/

namespace BehaviorTree

/-- Directories known by name, in the order in which the names were first registered. -/
abbrev Packages := Table Path

/-- Registers a package; a name that is known gets another directory and keeps its place. -/
def Packages.register (packages : Packages) (name : String) (directory : Path) : Packages :=
  if packages.contains name then
    ⟨packages.entries.map fun entry => if entry.1 == name then (name, directory) else entry⟩
  else packages.add name directory

/-- An import as its declaration gives it. -/
structure ImportRequest where
  path : String
  pathRange : SourceRange
  decl : Origin
  deriving DecidableEq

def Decl.importRequest? : Decl → Option ImportRequest
  | .importFile head path pathRange => some ⟨path, pathRange, head.origin⟩
  | _ => none

/-- The imports of a program, in the order of the source. -/
def Program.importRequests (program : Program) : List ImportRequest :=
  program.decls.filterMap Decl.importRequest?

def sourceExtension : String := "bt"

/-- The rule that the path of an import breaks. -/
inductive ImportPathError
  | empty
  | absolute (path : String)
  | missingExtension (path : String)
  | notRelative (path firstComponent : String)
  deriving DecidableEq

namespace ImportPathError

def name : ImportPathError → String
  | empty => "Empty"
  | absolute _ => "Absolute"
  | missingExtension _ => "MissingExtension"
  | notRelative .. => "NotRelative"

def message : ImportPathError → String
  | empty => "import path is empty"
  | absolute path => "import path `" ++ path ++ "` is absolute"
  | missingExtension path => "import path `" ++ path ++ "` has no file extension"
  | notRelative path _ => "import path `" ++ path ++ "` must start with `./` or `../`"

def help : ImportPathError → String
  | empty => "write the path of a `.bt` file, like `import \"./nodes.bt\";`"
  | absolute _ =>
    "imports are relative to the importing file; use a path starting with `./` or `../`"
  | missingExtension path =>
    "write the extension explicitly: `" ++ path ++ "." ++ sourceExtension ++ "`"
  | notRelative path first =>
    "use `./" ++ path ++ "` for a file next to this one, or register a package named `" ++ first ++ "`"

/-- The path literal to write instead, if there is an obvious one. -/
def replacement? : ImportPathError → Option String
  | missingExtension path => some ("\"" ++ path ++ "." ++ sourceExtension ++ "\"")
  | _ => none

end ImportPathError

/-- The file that an import leads to from a file in `directory`. -/
def resolveImportPath (packages : Packages) (directory : Path) (raw : String) :
    Except ImportPathError Path :=
  let path : Path := ⟨raw⟩
  if raw.isEmpty then .error .empty
  else if path.isAbsolute then .error (.absolute raw)
  else if path.extension?.isNone then .error (.missingExtension raw)
  else match path.components with
    | .current :: _ | .parent :: _ => .ok (directory.join path)
    | .normal first :: _ =>
      match packages.find? (String.ofList first) with
      | some base => .ok (base.join path.afterFirst)
      | none => .error (.notRelative raw (String.ofList first))
    | _ => .error (.absolute raw)

end BehaviorTree
