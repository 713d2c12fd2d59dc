import BehaviorTree.Program.Arena

/-!
The order in which a program is walked: each node before its parts, parts in the order of the
source, types before the expressions that follow them.
-/

namespace BehaviorTree

/-- A node met on a walk and how deep it lies. -/
structure Visit where
  depth : Nat
  kind : NodeKind
  origin : Origin
  deriving DecidableEq

mutual

def Expr.visits (depth : Nat) : Expr → List Visit
  | .int o _ | .float o _ | .string o _ | .bool o _ | .null o | .ref o _ | .missing o =>
    [⟨depth, .expr, o⟩]
  | .binary o _ left right =>
    ⟨depth, .expr, o⟩ :: (left.visits (depth + 1) ++ right.visits (depth + 1))
  | .unary o _ operand => ⟨depth, .expr, o⟩ :: operand.visits (depth + 1)
  | .index o base position =>
    ⟨depth, .expr, o⟩ :: (base.visits (depth + 1) ++ position.visits (depth + 1))
  | .cast o operand type =>
    ⟨depth, .expr, o⟩ :: (operand.visits (depth + 1) ++ type.visits (depth + 1))
  | .array o elements => ⟨depth, .expr, o⟩ :: Expr.visitsAll (depth + 1) elements
  | .repeated o value count =>
    ⟨depth, .expr, o⟩ :: (value.visits (depth + 1) ++ count.visits (depth + 1))
  | .vec o inner => ⟨depth, .expr, o⟩ :: inner.visits (depth + 1)

def Expr.visitsAll (depth : Nat) : List Expr → List Visit
  | [] => []
  | expr :: rest => expr.visits depth ++ Expr.visitsAll depth rest

def TypeExpr.visits (depth : Nat) : TypeExpr → List Visit
  | .named o _ | .infer o | .string o _ | .missing o => [⟨depth, .type, o⟩]
  | .staticArray o element length =>
    ⟨depth, .type, o⟩ :: (element.visits (depth + 1) ++ length.visits (depth + 1))
  | .boundedArray o element bound =>
    ⟨depth, .type, o⟩ :: (element.visits (depth + 1) ++ bound.visits (depth + 1))
  | .vec o element => ⟨depth, .type, o⟩ :: element.visits (depth + 1)
  | .nullable o inner => ⟨depth, .type, o⟩ :: inner.visits (depth + 1)

end

def visitsOfType (depth : Nat) (type : Option TypeExpr) : List Visit :=
  type.toList.flatMap (·.visits depth)

def visitsOfExpr (depth : Nat) (expr : Option Expr) : List Visit :=
  expr.toList.flatMap (·.visits depth)

def visitsOfParams (depth : Nat) (params : List Param) : List Visit :=
  params.flatMap fun param => param.type.visits depth ++ visitsOfExpr depth param.default

def visitsOfArguments (depth : Nat) (arguments : List Argument) : List Visit :=
  arguments.flatMap fun argument => argument.value.visits depth

def StmtHead.visits (depth : Nat) (head : StmtHead) : List Visit :=
  ⟨depth, .stmt, head.origin⟩ ::
    head.preconditions.flatMap fun precondition => precondition.condition.visits (depth + 1)

mutual

def Stmt.visits (depth : Nat) : Stmt → List Visit
  | .varDecl head _ type init =>
    head.visits depth ++ visitsOfType (depth + 1) type ++ visitsOfExpr (depth + 1) init
  | .constDecl head _ type value =>
    head.visits depth ++ visitsOfType (depth + 1) type ++ value.visits (depth + 1)
  | .assignment head _ indices _ value =>
    head.visits depth ++ Expr.visitsAll (depth + 1) indices ++ value.visits (depth + 1)
  | .leaf head _ arguments => head.visits depth ++ visitsOfArguments (depth + 1) arguments
  | .compound head _ arguments children =>
    head.visits depth ++ visitsOfArguments (depth + 1) (arguments.getD []) ++
      Stmt.visitsAll (depth + 1) children

def Stmt.visitsAll (depth : Nat) : List Stmt → List Visit
  | [] => []
  | stmt :: rest => stmt.visits depth ++ Stmt.visitsAll depth rest

end

/-- The parts of a declaration. -/
def Decl.innerVisits (depth : Nat) : Decl → List Visit
  | .importFile .. | .opaqueType .. => []
  | .node _ _ _ ports _ => visitsOfParams depth ports
  | .typeAlias _ _ type => type.visits depth
  | .varDecl _ _ type init => visitsOfType depth type ++ visitsOfExpr depth init
  | .constDecl _ _ type value => visitsOfType depth type ++ value.visits depth
  | .tree _ _ params body => visitsOfParams depth params ++ Stmt.visitsAll depth body

def Decl.visits (depth : Nat) (decl : Decl) : List Visit :=
  ⟨depth, .decl, decl.head.origin⟩ :: decl.innerVisits (depth + 1)

/-- All nodes of a program. -/
def Program.visits (program : Program) : List Visit :=
  program.decls.flatMap (·.visits 0)

end BehaviorTree
