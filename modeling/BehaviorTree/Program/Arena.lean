import BehaviorTree.Program

/-!
The arena of a session: every node that was ever built, in the order of building, those included
that no program contains, and every name and text that was met, each once. A node's number is its
place here.
-/

namespace BehaviorTree

structure Arena where
  exprs : Array Expr
  types : Array TypeExpr
  stmts : Array Stmt
  decls : Array Decl
  names : Array String

namespace Arena

def empty : Arena := ⟨#[], #[], #[], #[], #[]⟩

/-- Enters a text into the table of names, unless it is there. -/
def intern (arena : Arena) (text : String) : Arena :=
  if arena.names.contains text then arena else { arena with names := arena.names.push text }

/-- The number of a name, counted from 1. -/
def nameNumber? (arena : Arena) (text : String) : Option Nat :=
  (arena.names.findIdx? (· == text)).map (· + 1)

/-- Adds the expression that `build` makes from its origin. -/
def addExpr (arena : Arena) (range : SourceRange) (build : Origin → Expr) : Expr × Arena :=
  let expr := build ⟨arena.exprs.size, range⟩
  (expr, { arena with exprs := arena.exprs.push expr })

def addType (arena : Arena) (range : SourceRange) (build : Origin → TypeExpr) : TypeExpr × Arena :=
  let type := build ⟨arena.types.size, range⟩
  (type, { arena with types := arena.types.push type })

def addStmt (arena : Arena) (range : SourceRange) (build : Origin → Stmt) : Stmt × Arena :=
  let stmt := build ⟨arena.stmts.size, range⟩
  (stmt, { arena with stmts := arena.stmts.push stmt })

def addDecl (arena : Arena) (range : SourceRange) (build : Origin → Decl) : Decl × Arena :=
  let decl := build ⟨arena.decls.size, range⟩
  (decl, { arena with decls := arena.decls.push decl })

/-- Gives an expression another range, here too. -/
def widenExpr (arena : Arena) (expr : Expr) (range : SourceRange) : Expr × Arena :=
  let wider := expr.withRange range
  (wider, { arena with exprs := arena.exprs.setIfInBounds expr.id wider })

end Arena

/-- The handle of an interned text, as dumps show it. -/
def nameHandle (number : Nat) : String := "Spur(" ++ toString number ++ ")"

/-- The kinds of nodes that an arena numbers. -/
inductive NodeKind
  | expr
  | stmt
  | decl
  | type
  deriving DecidableEq

def NodeKind.name : NodeKind → String
  | expr => "Expr"
  | stmt => "Stmt"
  | decl => "Decl"
  | type => "TypeNode"

/-- A node's number, as dumps show it. -/
def NodeKind.handle (kind : NodeKind) (id : Nat) : String := kind.name ++ "#" ++ toString id

end BehaviorTree
