import BehaviorTree.Program
import BehaviorTree.Program.Arena

/-!
# Shapes and stamps of syntax trees

Two trees have the same shape if they differ only in where their nodes stand in a file and in the
numbers under which the nodes were allocated. The shape of a tree is the tree itself with every
range and every number blanked out, so that shapes are compared by equality.

The stamps of a tree are what tells its parts from every other part: a node has the number it was
allocated under, and a name has the place where it is written. They are listed with repetition, so
that a tree in which nothing occurs twice is one whose stamps have no duplicates.
-/

namespace BehaviorTree

/-! ## Shapes -/

/-- The origin of every node of a shape. -/
def Origin.blank : Origin := ⟨0, .none⟩

@[simp]
def Name.shape (name : Name) : Name := ⟨name.text, .none⟩

mutual

@[simp]
def Expr.shape : Expr → Expr
  | .int _ value => .int .blank value
  | .float _ value => .float .blank value
  | .string _ value => .string .blank value
  | .bool _ value => .bool .blank value
  | .null _ => .null .blank
  | .ref _ name => .ref .blank name.shape
  | .binary _ op left right => .binary .blank op left.shape right.shape
  | .unary _ op operand => .unary .blank op operand.shape
  | .index _ base position => .index .blank base.shape position.shape
  | .cast _ operand type => .cast .blank operand.shape type.shape
  | .array _ elements => .array .blank (Expr.shapes elements)
  | .repeated _ value count => .repeated .blank value.shape count.shape
  | .vec _ inner => .vec .blank inner.shape
  | .missing _ => .missing .blank

@[simp]
def Expr.shapes : List Expr → List Expr
  | [] => []
  | expr :: rest => expr.shape :: Expr.shapes rest

@[simp]
def TypeExpr.shape : TypeExpr → TypeExpr
  | .named _ name => .named .blank name.shape
  | .infer _ => .infer .blank
  | .string _ bound => .string .blank bound
  | .staticArray _ element length => .staticArray .blank element.shape length.shape
  | .boundedArray _ element bound => .boundedArray .blank element.shape bound.shape
  | .vec _ element => .vec .blank element.shape
  | .nullable _ inner => .nullable .blank inner.shape
  | .missing _ => .missing .blank

end

theorem Expr.shapes_eq_map (exprs : List Expr) : Expr.shapes exprs = exprs.map Expr.shape := by
  induction exprs with
  | nil => rfl
  | cons expr rest ih => rw [Expr.shapes, ih, List.map_cons]

/-- Where an expression stands is not part of its shape. -/
@[simp]
theorem Expr.shape_withRange (expr : Expr) (range : SourceRange) :
    (expr.withRange range).shape = expr.shape := by
  cases expr <;> rfl

def Param.shape (param : Param) : Param where
  docs := param.docs
  direction := param.direction
  name := param.name.shape
  type := param.type.shape
  default := param.default.map Expr.shape
  range := .none

def Precondition.shape (precondition : Precondition) : Precondition :=
  ⟨precondition.kind, precondition.condition.shape, .none⟩

def Argument.shape (argument : Argument) : Argument :=
  ⟨argument.name.map Name.shape, argument.direction, argument.value.shape, .none⟩

def StmtHead.shape (head : StmtHead) : StmtHead :=
  ⟨.blank, head.docs, head.preconditions.map Precondition.shape⟩

mutual

@[simp]
def Stmt.shape : Stmt → Stmt
  | .varDecl head name type init =>
    .varDecl head.shape name.shape (type.map TypeExpr.shape) (init.map Expr.shape)
  | .constDecl head name type value =>
    .constDecl head.shape name.shape (type.map TypeExpr.shape) value.shape
  | .assignment head target indices op value =>
    .assignment head.shape target.shape (indices.map Expr.shape) op value.shape
  | .leaf head callee arguments =>
    .leaf head.shape callee.shape (arguments.map Argument.shape)
  | .compound head callee arguments children =>
    .compound head.shape callee.shape (arguments.map fun list => list.map Argument.shape)
      (Stmt.shapes children)

@[simp]
def Stmt.shapes : List Stmt → List Stmt
  | [] => []
  | stmt :: rest => stmt.shape :: Stmt.shapes rest

end

theorem Stmt.shapes_eq_map (stmts : List Stmt) : Stmt.shapes stmts = stmts.map Stmt.shape := by
  induction stmts with
  | nil => rfl
  | cons stmt rest ih => rw [Stmt.shapes, ih, List.map_cons]

@[simp]
theorem Stmt.head_shape (stmt : Stmt) : stmt.shape.head = stmt.head.shape := by
  cases stmt <;> rfl

def Behavior.shape (behavior : Behavior) : Behavior := ⟨behavior.data, behavior.flow, .none⟩

def DeclHead.shape (head : DeclHead) : DeclHead := ⟨.blank, head.docs⟩

def Decl.shape : Decl → Decl
  | .importFile head path _ => .importFile head.shape path .none
  | .node head category name ports behavior =>
    .node head.shape category name.shape (ports.map Param.shape) (behavior.map Behavior.shape)
  | .opaqueType head name => .opaqueType head.shape name.shape
  | .typeAlias head name type => .typeAlias head.shape name.shape type.shape
  | .varDecl head name type init =>
    .varDecl head.shape name.shape (type.map TypeExpr.shape) (init.map Expr.shape)
  | .constDecl head name type value =>
    .constDecl head.shape name.shape (type.map TypeExpr.shape) value.shape
  | .tree head name params body =>
    .tree head.shape name.shape (params.map Param.shape) (body.map Stmt.shape)

@[simp]
theorem Decl.head_shape (decl : Decl) : decl.shape.head = decl.head.shape := by
  cases decl <;> rfl

/-- What a program says, whatever file it stands in. -/
def Program.shape (program : Program) : Program :=
  ⟨.detached, program.docs, program.decls.map Decl.shape, .none⟩

/-! ## Stamps -/

/-- The number that the next node of a kind gets. -/
def Arena.size (arena : Arena) : NodeKind → Nat
  | .expr => arena.exprs.size
  | .stmt => arena.stmts.size
  | .decl => arena.decls.size
  | .type => arena.types.size

inductive Stamp
  | node (kind : NodeKind) (id : Nat)
  | name (name : Name)
  deriving DecidableEq

mutual

@[simp]
def Expr.stamps : Expr → List Stamp
  | .int o _ | .float o _ | .string o _ | .bool o _ | .null o | .missing o => [.node .expr o.id]
  | .ref o name => [.node .expr o.id, .name name]
  | .binary o _ left right => .node .expr o.id :: (left.stamps ++ right.stamps)
  | .unary o _ operand => .node .expr o.id :: operand.stamps
  | .index o base position => .node .expr o.id :: (base.stamps ++ position.stamps)
  | .cast o operand type => .node .expr o.id :: (operand.stamps ++ type.stamps)
  | .array o elements => .node .expr o.id :: Expr.stampsAll elements
  | .repeated o value count => .node .expr o.id :: (value.stamps ++ count.stamps)
  | .vec o inner => .node .expr o.id :: inner.stamps

@[simp]
def Expr.stampsAll : List Expr → List Stamp
  | [] => []
  | expr :: rest => expr.stamps ++ Expr.stampsAll rest

@[simp]
def TypeExpr.stamps : TypeExpr → List Stamp
  | .named o name => [.node .type o.id, .name name]
  | .infer o | .string o _ | .missing o => [.node .type o.id]
  | .staticArray o element length => .node .type o.id :: (element.stamps ++ length.stamps)
  | .boundedArray o element bound => .node .type o.id :: (element.stamps ++ bound.stamps)
  | .vec o element => .node .type o.id :: element.stamps
  | .nullable o inner => .node .type o.id :: inner.stamps

end

theorem Expr.stampsAll_eq_flatMap (exprs : List Expr) :
    Expr.stampsAll exprs = exprs.flatMap Expr.stamps := by
  induction exprs with
  | nil => rfl
  | cons expr rest ih => rw [Expr.stampsAll, ih, List.flatMap_cons]

/-- Where an expression stands is not part of its stamps. -/
@[simp]
theorem Expr.stamps_withRange (expr : Expr) (range : SourceRange) :
    (expr.withRange range).stamps = expr.stamps := by
  cases expr <;> rfl

@[simp]
def stampsOfType (type : Option TypeExpr) : List Stamp := type.toList.flatMap TypeExpr.stamps

@[simp]
def stampsOfExpr (expr : Option Expr) : List Stamp := expr.toList.flatMap Expr.stamps

@[simp]
def Param.stamps (param : Param) : List Stamp :=
  .name param.name :: (param.type.stamps ++ stampsOfExpr param.default)

@[simp]
def Argument.stamps (argument : Argument) : List Stamp :=
  argument.name.toList.map .name ++ argument.value.stamps

@[simp]
def Precondition.stamps (precondition : Precondition) : List Stamp :=
  precondition.condition.stamps

@[simp]
def StmtHead.stamps (head : StmtHead) : List Stamp :=
  .node .stmt head.origin.id :: head.preconditions.flatMap Precondition.stamps

mutual

@[simp]
def Stmt.stamps : Stmt → List Stamp
  | .varDecl head name type init =>
    head.stamps ++ .name name :: (stampsOfType type ++ stampsOfExpr init)
  | .constDecl head name type value =>
    head.stamps ++ .name name :: (stampsOfType type ++ value.stamps)
  | .assignment head target indices _ value =>
    head.stamps ++ .name target :: (indices.flatMap Expr.stamps ++ value.stamps)
  | .leaf head callee arguments =>
    head.stamps ++ .name callee :: arguments.flatMap Argument.stamps
  | .compound head callee arguments children =>
    head.stamps ++ .name callee ::
      ((arguments.getD []).flatMap Argument.stamps ++ Stmt.stampsAll children)

@[simp]
def Stmt.stampsAll : List Stmt → List Stamp
  | [] => []
  | stmt :: rest => stmt.stamps ++ Stmt.stampsAll rest

end

theorem Stmt.stampsAll_eq_flatMap (stmts : List Stmt) :
    Stmt.stampsAll stmts = stmts.flatMap Stmt.stamps := by
  induction stmts with
  | nil => rfl
  | cons stmt rest ih => rw [Stmt.stampsAll, ih, List.flatMap_cons]

@[simp]
def Decl.stamps : Decl → List Stamp
  | .importFile head _ _ => [.node .decl head.origin.id]
  | .node head _ name ports _ =>
    .node .decl head.origin.id :: .name name :: ports.flatMap Param.stamps
  | .opaqueType head name => [.node .decl head.origin.id, .name name]
  | .typeAlias head name type => .node .decl head.origin.id :: .name name :: type.stamps
  | .varDecl head name type init =>
    .node .decl head.origin.id :: .name name :: (stampsOfType type ++ stampsOfExpr init)
  | .constDecl head name type value =>
    .node .decl head.origin.id :: .name name :: (stampsOfType type ++ value.stamps)
  | .tree head name params body =>
    .node .decl head.origin.id :: .name name ::
      (params.flatMap Param.stamps ++ body.flatMap Stmt.stamps)

def Program.stamps (program : Program) : List Stamp := program.decls.flatMap Decl.stamps

end BehaviorTree
