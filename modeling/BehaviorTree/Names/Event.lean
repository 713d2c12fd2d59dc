import BehaviorTree.Names.Scope
import BehaviorTree.Program

/-!
A program as the list of what it does with names, in the order in which they are looked at: names
are used, declared, and scopes open and close. A declaration comes behind the type and the value
that it has, so these do not see it. The preconditions of a statement come first, and what a node
is given stands outside the block of its children.
-/

namespace BehaviorTree

/-- What a name is used for. -/
inductive NameUse
  | value
  | assignment
  | node
  | type
  deriving DecidableEq

inductive NameEvent
  | use (purpose : NameUse) (origin : Origin) (name : Name)
  /-- The type of texts, which is written as a word of the language. -/
  | textType (origin : Origin)
  | declare (kind : SymbolKind) (name : Name)
  | enter (kind : ScopeKind)
  | leave
  deriving DecidableEq

mutual

def Expr.nameEvents : Expr → List NameEvent
  | .int .. | .float .. | .string .. | .bool .. | .null _ | .missing _ => []
  | .ref origin name => [.use .value origin name]
  | .binary _ _ left right => left.nameEvents ++ right.nameEvents
  | .unary _ _ operand => operand.nameEvents
  | .index _ base position => base.nameEvents ++ position.nameEvents
  | .cast _ operand type => operand.nameEvents ++ type.nameEvents
  | .array _ elements => Expr.nameEventsAll elements
  | .repeated _ value count => value.nameEvents ++ count.nameEvents
  | .vec _ inner => inner.nameEvents

def Expr.nameEventsAll : List Expr → List NameEvent
  | [] => []
  | expr :: rest => expr.nameEvents ++ Expr.nameEventsAll rest

def TypeExpr.nameEvents : TypeExpr → List NameEvent
  | .named origin name => [.use .type origin name]
  | .string origin _ => [.textType origin]
  | .infer _ | .missing _ => []
  | .staticArray _ element length => element.nameEvents ++ length.nameEvents
  | .boundedArray _ element bound => element.nameEvents ++ bound.nameEvents
  | .vec _ element => element.nameEvents
  | .nullable _ inner => inner.nameEvents

end

def nameEventsOfType (type : Option TypeExpr) : List NameEvent :=
  type.toList.flatMap TypeExpr.nameEvents

def nameEventsOfExpr (expr : Option Expr) : List NameEvent :=
  expr.toList.flatMap Expr.nameEvents

def Param.nameEvents (param : Param) : List NameEvent :=
  param.type.nameEvents ++ nameEventsOfExpr param.default

def nameEventsOfArguments (arguments : List Argument) : List NameEvent :=
  arguments.flatMap fun argument => argument.value.nameEvents

def StmtHead.nameEvents (head : StmtHead) : List NameEvent :=
  head.preconditions.flatMap fun precondition => precondition.condition.nameEvents

mutual

def Stmt.nameEvents : Stmt → List NameEvent
  | .varDecl head name type init =>
    head.nameEvents ++ nameEventsOfType type ++ nameEventsOfExpr init ++
      [.declare (.localVar head.origin) name]
  | .constDecl head name type value =>
    head.nameEvents ++ nameEventsOfType type ++ value.nameEvents ++
      [.declare (.localConst head.origin) name]
  | .assignment head target indices _ value =>
    head.nameEvents ++ .use .assignment head.origin target ::
      (Expr.nameEventsAll indices ++ value.nameEvents)
  | .leaf head callee arguments =>
    head.nameEvents ++ .use .node head.origin callee :: nameEventsOfArguments arguments
  | .compound head callee arguments children =>
    head.nameEvents ++ .use .node head.origin callee ::
      (nameEventsOfArguments (arguments.getD []) ++
        .enter .block :: (Stmt.nameEventsAll children ++ [.leave]))

def Stmt.nameEventsAll : List Stmt → List NameEvent
  | [] => []
  | stmt :: rest => stmt.nameEvents ++ Stmt.nameEventsAll rest

end

/-- The parameters of a tree, each declared behind its own type and default. -/
def nameEventsOfParams (tree : Origin) (params : List Param) : List NameEvent :=
  params.zipIdx.flatMap fun (param, index) =>
    param.nameEvents ++ [.declare (.param tree index param.direction) param.name]

def Decl.nameEvents : Decl → List NameEvent
  | .importFile .. | .opaqueType .. => []
  | .node _ _ _ ports _ => ports.flatMap Param.nameEvents
  | .typeAlias _ _ type => type.nameEvents
  | .varDecl _ _ type init => nameEventsOfType type ++ nameEventsOfExpr init
  | .constDecl _ _ type value => nameEventsOfType type ++ value.nameEvents
  | .tree head _ params body =>
    .enter .tree ::
      (nameEventsOfParams head.origin params ++ Stmt.nameEventsAll body ++ [.leave])

def Program.nameEvents (program : Program) : List NameEvent :=
  program.decls.flatMap Decl.nameEvents

end BehaviorTree
