import BehaviorTree.Names.Declared
import BehaviorTree.Names.Scope
import BehaviorTree.Path
import BehaviorTree.Vocabulary.BuiltinType

/-!
Modules: a program with the names that it declares, the modules that it imports and what its names
mean. Modules of one session are known by number.
-/

namespace BehaviorTree

inductive ModuleState
  | unvisited
  | resolving
  | resolved
  | failed
  deriving DecidableEq

def ModuleState.name : ModuleState → String
  | unvisited => "Unvisited"
  | resolving => "Resolving"
  | resolved => "Resolved"
  | failed => "Failed"

/-- An import declaration and the module that it leads to. -/
structure ImportEdge where
  target : Nat
  /-- The path as the declaration gives it. -/
  path : String
  pathRange : SourceRange
  decl : Origin
  deriving DecidableEq

/-- An entry of a module's table: the number of the module and the index in the table. -/
structure Target where
  module : Nat
  index : Nat
  deriving DecidableEq

inductive TypeTarget
  | builtin (type : BuiltinType)
  | declared (target : Target)
  deriving DecidableEq

/-- What the names of a module mean, each under the node that uses it. -/
structure Resolutions where
  values : List (Origin × Target)
  assignments : List (Origin × Target)
  nodes : List (Origin × Target)
  types : List (Origin × TypeTarget)
  deriving DecidableEq

def Resolutions.empty : Resolutions := ⟨[], [], [], []⟩

/-- Values, nodes and types are named independently of each other. -/
inductive Namespace
  | value
  | node
  | type
  deriving DecidableEq

structure Module where
  path : Path
  program : Program
  symbols : SymbolTable
  types : Table DeclaredType
  nodes : Table DeclaredNode
  imports : List ImportEdge
  state : ModuleState
  resolutions : Resolutions

namespace Module

/-- A module whose imports and names are still to be looked at. -/
def ofProgram (path : Path) (program : Program) : Module where
  path := path
  program := program
  symbols := .empty
  types := .empty
  nodes := .empty
  imports := []
  state := .unvisited
  resolutions := .empty

def file (module : Module) : FileId := module.program.file

/-- The name of a module in messages. -/
def displayName (module : Module) : String :=
  (module.path.fileName?.map String.ofList).getD module.path.text

def importsModule (module : Module) (target : Nat) : Bool :=
  module.imports.any fun edge => edge.target == target

/-- The index of a name among those that a module declares at its top. -/
def declared? (module : Module) (namesOf : Namespace) (name : String) : Option Nat :=
  match namesOf with
  | .value => module.symbols.lookupGlobal name
  | .node => module.nodes.indexOf? name
  | .type => module.types.indexOf? name

end Module

end BehaviorTree
