import BehaviorTree.Binary64
import BehaviorTree.Source
import BehaviorTree.Vocabulary.Keyword
import BehaviorTree.Vocabulary.Operator
import BehaviorTree.Vocabulary.Policy

/-!
Programs of the language as trees. An expression, type, statement or declaration carries its origin:
the number it was allocated under and its range. A missing part is a node of its own, so a tree has
no holes.
-/

namespace BehaviorTree

/-- The identity and the place of a syntax node. Numbers count per kind of node. -/
structure Origin where
  id : Nat
  range : SourceRange
  deriving DecidableEq

structure Name where
  text : String
  range : SourceRange
  deriving DecidableEq

inductive BinaryOp
  | or
  | and
  | bitOr
  | bitXor
  | bitAnd
  | equal
  | notEqual
  | less
  | lessEqual
  | greater
  | greaterEqual
  | add
  | sub
  | mul
  | div
  | rem
  deriving DecidableEq

namespace BinaryOp

def operator : BinaryOp → Operator
  | or => .orOr
  | and => .andAnd
  | bitOr => .pipe
  | bitXor => .caret
  | bitAnd => .amp
  | equal => .eqEq
  | notEqual => .notEq
  | less => .lt
  | lessEqual => .ltEq
  | greater => .gt
  | greaterEqual => .gtEq
  | add => .plus
  | sub => .minus
  | mul => .star
  | div => .slash
  | rem => .percent

def ofOperator? : Operator → Option BinaryOp
  | .orOr => some or
  | .andAnd => some and
  | .pipe => some bitOr
  | .caret => some bitXor
  | .amp => some bitAnd
  | .eqEq => some equal
  | .notEq => some notEqual
  | .lt => some less
  | .ltEq => some lessEqual
  | .gt => some greater
  | .gtEq => some greaterEqual
  | .plus => some add
  | .minus => some sub
  | .star => some mul
  | .slash => some div
  | .percent => some rem
  | _ => none

theorem ofOperator?_operator (op : BinaryOp) : ofOperator? op.operator = some op := by
  cases op <;> rfl

theorem ofOperator?_isSome_iff {op : Operator} :
    (ofOperator? op).isSome = true ↔ op.fixity = .between := by
  cases op <;> simp [ofOperator?, Operator.fixity]

end BinaryOp

inductive UnaryOp
  | not
  | neg
  deriving DecidableEq

namespace UnaryOp

def operator : UnaryOp → Operator
  | not => .bang
  | neg => .minus

def ofOperator? : Operator → Option UnaryOp
  | .bang => some not
  | .minus => some neg
  | _ => none

theorem ofOperator?_operator (op : UnaryOp) : ofOperator? op.operator = some op := by
  cases op <;> rfl

end UnaryOp

inductive AssignOp
  | assign
  | add
  | sub
  | mul
  | div
  | rem
  deriving DecidableEq

namespace AssignOp

def operator : AssignOp → Operator
  | assign => .eq
  | add => .plusEq
  | sub => .minusEq
  | mul => .starEq
  | div => .slashEq
  | rem => .percentEq

def ofOperator? : Operator → Option AssignOp
  | .eq => some assign
  | .plusEq => some add
  | .minusEq => some sub
  | .starEq => some mul
  | .slashEq => some div
  | .percentEq => some rem
  | _ => none

theorem ofOperator?_operator (op : AssignOp) : ofOperator? op.operator = some op := by
  cases op <;> rfl

theorem ofOperator?_isSome (op : Operator) : (ofOperator? op).isSome = op.isAssignment := by
  cases op <;> rfl

end AssignOp

mutual

inductive Expr
  | int (origin : Origin) (value : Nat)
  | float (origin : Origin) (value : Binary64)
  | string (origin : Origin) (value : String)
  | bool (origin : Origin) (value : Bool)
  | null (origin : Origin)
  | ref (origin : Origin) (name : Name)
  | binary (origin : Origin) (op : BinaryOp) (left right : Expr)
  | unary (origin : Origin) (op : UnaryOp) (operand : Expr)
  | index (origin : Origin) (base position : Expr)
  | cast (origin : Origin) (operand : Expr) (type : TypeExpr)
  | array (origin : Origin) (elements : List Expr)
  | repeated (origin : Origin) (value count : Expr)
  | vec (origin : Origin) (inner : Expr)
  | missing (origin : Origin)

inductive TypeExpr
  | named (origin : Origin) (name : Name)
  | infer (origin : Origin)
  | string (origin : Origin) (bound : Option Nat)
  | staticArray (origin : Origin) (element : TypeExpr) (length : Expr)
  | boundedArray (origin : Origin) (element : TypeExpr) (bound : Expr)
  | vec (origin : Origin) (element : TypeExpr)
  | nullable (origin : Origin) (inner : TypeExpr)
  | missing (origin : Origin)

end

namespace Expr

def origin : Expr → Origin
  | int o _ | float o _ | string o _ | bool o _ | null o | ref o _ | binary o .. | unary o ..
  | index o .. | cast o .. | array o _ | repeated o .. | vec o _ | missing o => o

def range (expr : Expr) : SourceRange := expr.origin.range

def id (expr : Expr) : Nat := expr.origin.id

/-- The same expression with another range of its own. -/
def withRange (expr : Expr) (range : SourceRange) : Expr :=
  match expr with
  | int o value => int { o with range } value
  | float o value => float { o with range } value
  | string o value => string { o with range } value
  | bool o value => bool { o with range } value
  | null o => null { o with range }
  | ref o name => ref { o with range } name
  | binary o op left right => binary { o with range } op left right
  | unary o op operand => unary { o with range } op operand
  | index o base position => index { o with range } base position
  | cast o operand type => cast { o with range } operand type
  | array o elements => array { o with range } elements
  | repeated o value count => repeated { o with range } value count
  | vec o inner => vec { o with range } inner
  | missing o => missing { o with range }

@[simp]
theorem range_withRange (expr : Expr) (range : SourceRange) :
    (expr.withRange range).range = range := by
  cases expr <;> rfl

@[simp]
theorem id_withRange (expr : Expr) (range : SourceRange) : (expr.withRange range).id = expr.id := by
  cases expr <;> rfl

end Expr

namespace TypeExpr

def origin : TypeExpr → Origin
  | named o _ | infer o | string o _ | staticArray o .. | boundedArray o .. | vec o _ | nullable o _
  | missing o => o

def range (type : TypeExpr) : SourceRange := type.origin.range

def id (type : TypeExpr) : Nat := type.origin.id

end TypeExpr

/-- How the value of a parameter or an argument is passed. -/
inductive Direction
  | input
  | output
  | reference
  | mutable
  deriving DecidableEq

namespace Direction

def ofKeyword? : Keyword → Option Direction
  | .inWord => some input
  | .outWord => some output
  | .refWord => some reference
  | .mutWord => some mutable
  | _ => none

def keyword : Direction → Keyword
  | input => .inWord
  | output => .outWord
  | reference => .refWord
  | mutable => .mutWord

def name (direction : Direction) : String := direction.keyword.name

def spelling (direction : Direction) : String := direction.keyword.spelling

theorem ofKeyword?_keyword (direction : Direction) :
    ofKeyword? direction.keyword = some direction := by
  cases direction <;> rfl

end Direction

/-- What a node declared outside the language does in a behavior tree. -/
inductive NodeCategory
  | action
  | condition
  | control
  | decorator
  | subtree
  deriving DecidableEq

namespace NodeCategory

def ofKeyword? : Keyword → Option NodeCategory
  | .action => some action
  | .condition => some condition
  | .control => some control
  | .decorator => some decorator
  | .subtree => some subtree
  | _ => none

def keyword : NodeCategory → Keyword
  | action => .action
  | condition => .condition
  | control => .control
  | decorator => .decorator
  | subtree => .subtree

def name (category : NodeCategory) : String := category.keyword.name

def spelling (category : NodeCategory) : String := category.keyword.spelling

theorem ofKeyword?_keyword (category : NodeCategory) :
    ofKeyword? category.keyword = some category := by
  cases category <;> rfl

end NodeCategory

/-- An input or output of a declared node, or a parameter of a tree. -/
structure Param where
  docs : List String
  direction : Option Direction
  name : Name
  type : TypeExpr
  default : Option Expr
  range : SourceRange

/-- A clause such as `@guard(condition)` in front of a statement. -/
structure Precondition where
  kind : PreconditionKind
  condition : Expr
  range : SourceRange

structure Argument where
  name : Option Name
  direction : Option Direction
  value : Expr
  range : SourceRange

/-- What every statement has. -/
structure StmtHead where
  origin : Origin
  docs : List String
  preconditions : List Precondition

inductive Stmt
  | varDecl (head : StmtHead) (name : Name) (type : Option TypeExpr) (init : Option Expr)
  | constDecl (head : StmtHead) (name : Name) (type : Option TypeExpr) (value : Expr)
  | assignment (head : StmtHead) (target : Name) (indices : List Expr) (op : AssignOp) (value : Expr)
  /-- A node without children. -/
  | leaf (head : StmtHead) (callee : Name) (arguments : List Argument)
  /-- A node with a block of children. -/
  | compound (head : StmtHead) (callee : Name) (arguments : Option (List Argument))
      (children : List Stmt)

namespace Stmt

def head : Stmt → StmtHead
  | varDecl head .. | constDecl head .. | assignment head .. | leaf head .. | compound head .. => head

def range (stmt : Stmt) : SourceRange := stmt.head.origin.range

def id (stmt : Stmt) : Nat := stmt.head.origin.id

end Stmt

/-- The attribute `#[behavior(data, flow)]` of a declared node. -/
structure Behavior where
  data : DataPolicy
  flow : FlowPolicy
  range : SourceRange
  deriving DecidableEq

/-- What every declaration has. -/
structure DeclHead where
  origin : Origin
  docs : List String

inductive Decl
  | importFile (head : DeclHead) (path : String) (pathRange : SourceRange)
  | node (head : DeclHead) (category : NodeCategory) (name : Name) (ports : List Param)
      (behavior : Option Behavior)
  | opaqueType (head : DeclHead) (name : Name)
  | typeAlias (head : DeclHead) (name : Name) (type : TypeExpr)
  | varDecl (head : DeclHead) (name : Name) (type : Option TypeExpr) (init : Option Expr)
  | constDecl (head : DeclHead) (name : Name) (type : Option TypeExpr) (value : Expr)
  | tree (head : DeclHead) (name : Name) (params : List Param) (body : List Stmt)

namespace Decl

def head : Decl → DeclHead
  | importFile head .. | node head .. | opaqueType head _ | typeAlias head .. | varDecl head ..
  | constDecl head .. | tree head .. => head

def range (decl : Decl) : SourceRange := decl.head.origin.range

def id (decl : Decl) : Nat := decl.head.origin.id

end Decl

structure Program where
  file : FileId
  docs : List String
  decls : List Decl
  range : SourceRange

end BehaviorTree
