import BehaviorTree.Names.Table
import BehaviorTree.Program

/-!
The values that a module names: globals in the scope of the module, parameters and declarations of
a tree in a scope of the tree, declarations among the children of a node in a block. Scopes are
numbered in the order of opening, symbols in the order of definition, and both stay after a scope
is closed.
-/

namespace BehaviorTree

/-- Whether a name can be seen only in the module that declares it. -/
def isPrivate (name : String) : Bool := name.toList.head? == some '_'

/-- What declares a value. -/
inductive SymbolKind
  | globalVar (decl : Origin)
  | globalConst (decl : Origin)
  | param (tree : Origin) (index : Nat) (direction : Option Direction)
  | localVar (stmt : Origin)
  | localConst (stmt : Origin)
  deriving DecidableEq

def SymbolKind.describe : SymbolKind → String
  | globalVar _ => "global variable"
  | globalConst _ => "global constant"
  | param .. => "parameter"
  | localVar _ => "variable"
  | localConst _ => "constant"

structure Symbol where
  name : String
  kind : SymbolKind
  range : SourceRange
  scope : Nat
  deriving DecidableEq

inductive ScopeKind
  | module
  | tree
  | block
  deriving DecidableEq

def ScopeKind.name : ScopeKind → String
  | module => "Module"
  | tree => "Tree"
  | block => "Block"

/-- The symbols defined in one scope, each under its number. -/
structure Scope where
  parent : Option Nat
  kind : ScopeKind
  symbols : Table Nat

/-- All symbols and scopes of a module, and the scope that definitions go to. -/
structure SymbolTable where
  symbols : List Symbol
  scopes : List Scope
  current : Nat
  /-- The open scopes around the current one, innermost first. -/
  enclosing : List Nat

namespace SymbolTable

def moduleScope : Nat := 0

def empty : SymbolTable := ⟨[], [⟨none, .module, .empty⟩], moduleScope, []⟩

def size (table : SymbolTable) : Nat := table.symbols.length

def get? (table : SymbolTable) (id : Nat) : Option Symbol := table.symbols[id]?

def scope? (table : SymbolTable) (id : Nat) : Option Scope := table.scopes[id]?

/-- Opens a scope in the current one. -/
def enter (table : SymbolTable) (kind : ScopeKind) : SymbolTable :=
  { table with
    scopes := table.scopes ++ [⟨some table.current, kind, .empty⟩]
    current := table.scopes.length
    enclosing := table.current :: table.enclosing }

/-- Closes the current scope; that of the module stays open. -/
def exit (table : SymbolTable) : SymbolTable :=
  match table.enclosing with
  | [] => table
  | outer :: rest => { table with current := outer, enclosing := rest }

/-- The symbol that a name has in one scope. -/
def lookupIn (table : SymbolTable) (name : String) (scope : Nat) : Option Nat :=
  (table.scope? scope).bind fun scope => scope.symbols.find? name

def lookupLocal (table : SymbolTable) (name : String) : Option Nat :=
  table.lookupIn name table.current

def lookupGlobal (table : SymbolTable) (name : String) : Option Nat :=
  table.lookupIn name moduleScope

/-- The symbol of a name in the innermost open scope that has it. -/
def lookup (table : SymbolTable) (name : String) : Option Nat :=
  (table.current :: table.enclosing).findSome? (table.lookupIn name)

/-- Where a symbol is declared. -/
def rangeOf (table : SymbolTable) (id : Nat) : SourceRange :=
  ((table.get? id).map Symbol.range).getD .none

/-- The numbers and names of the symbols in the scope of the module. -/
def globals (table : SymbolTable) : List (Nat × String) :=
  ((table.scope? moduleScope).map fun scope =>
    scope.symbols.entries.map fun entry => (entry.2, entry.1)).getD []

/-- Defines a symbol in the current scope, or fails with the one that has the name there. -/
def define (table : SymbolTable) (name : String) (kind : SymbolKind) (range : SourceRange) :
    Except Nat SymbolTable :=
  match table.lookupLocal name with
  | some earlier => .error earlier
  | none => .ok { table with
      symbols := table.symbols ++ [⟨name, kind, range, table.current⟩]
      scopes := table.scopes.modify table.current fun scope =>
        { scope with symbols := scope.symbols.add name table.symbols.length } }

end SymbolTable

end BehaviorTree
