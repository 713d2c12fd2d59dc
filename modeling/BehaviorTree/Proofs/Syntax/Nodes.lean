import BehaviorTree.Program

/-!
# Nodes of a program

The nodes that can be reached in a program, from each node to its parts, and what it means for a
tree to be whole: no node that stands for a missing part can be reached in it.
-/

namespace BehaviorTree

inductive SyntaxNode
  | expr (expr : Expr)
  | type (type : TypeExpr)
  | stmt (stmt : Stmt)
  | decl (decl : Decl)

/-! ### Parts -/

def Expr.parts : Expr → List SyntaxNode
  | .int .. | .float .. | .string .. | .bool .. | .null _ | .ref .. | .missing _ => []
  | .binary _ _ left right => [.expr left, .expr right]
  | .unary _ _ operand => [.expr operand]
  | .index _ base position => [.expr base, .expr position]
  | .cast _ operand type => [.expr operand, .type type]
  | .array _ elements => elements.map .expr
  | .repeated _ value count => [.expr value, .expr count]
  | .vec _ inner => [.expr inner]

def TypeExpr.parts : TypeExpr → List SyntaxNode
  | .named .. | .infer _ | .string .. | .missing _ => []
  | .staticArray _ element length => [.type element, .expr length]
  | .boundedArray _ element bound => [.type element, .expr bound]
  | .vec _ element => [.type element]
  | .nullable _ inner => [.type inner]

def Param.parts (param : Param) : List SyntaxNode :=
  .type param.type :: param.default.toList.map .expr

def StmtHead.parts (head : StmtHead) : List SyntaxNode :=
  head.preconditions.map fun precondition => .expr precondition.condition

def Argument.part (argument : Argument) : SyntaxNode := .expr argument.value

def Stmt.parts : Stmt → List SyntaxNode
  | .varDecl head _ type init => head.parts ++ type.toList.map .type ++ init.toList.map .expr
  | .constDecl head _ type value => head.parts ++ type.toList.map .type ++ [.expr value]
  | .assignment head _ indices _ value => head.parts ++ indices.map .expr ++ [.expr value]
  | .leaf head _ arguments => head.parts ++ arguments.map Argument.part
  | .compound head _ arguments children =>
    head.parts ++ (arguments.getD []).map Argument.part ++ children.map .stmt

def Decl.parts : Decl → List SyntaxNode
  | .importFile .. | .opaqueType .. => []
  | .node _ _ _ ports _ => ports.flatMap Param.parts
  | .typeAlias _ _ type => [.type type]
  | .varDecl _ _ type init => type.toList.map .type ++ init.toList.map .expr
  | .constDecl _ _ type value => type.toList.map .type ++ [.expr value]
  | .tree _ _ params body => params.flatMap Param.parts ++ body.map .stmt

def SyntaxNode.parts : SyntaxNode → List SyntaxNode
  | .expr e => e.parts
  | .type t => t.parts
  | .stmt s => s.parts
  | .decl d => d.parts

/-- The nodes of a program. -/
inductive Program.Reaches (program : Program) : SyntaxNode → Prop
  | decl {decl : Decl} : decl ∈ program.decls → Reaches program (.decl decl)
  | part {node part : SyntaxNode} :
    Reaches program node → part ∈ node.parts → Reaches program part

/-- A node in the place of a part that is not there. -/
inductive SyntaxNode.IsMissing : SyntaxNode → Prop
  | expr (origin : Origin) : IsMissing (.expr (.missing origin))
  | type (origin : Origin) : IsMissing (.type (.missing origin))

/-! ### Whole trees -/

mutual

/-- No part of an expression is missing. -/
@[simp]
def Expr.whole : Expr → Bool
  | .int .. | .float .. | .string .. | .bool .. | .null _ | .ref .. => true
  | .binary _ _ left right => left.whole && right.whole
  | .unary _ _ operand => operand.whole
  | .index _ base position => base.whole && position.whole
  | .cast _ operand type => operand.whole && type.whole
  | .array _ elements => Expr.allWhole elements
  | .repeated _ value count => value.whole && count.whole
  | .vec _ inner => inner.whole
  | .missing _ => false

@[simp]
def Expr.allWhole : List Expr → Bool
  | [] => true
  | expr :: rest => expr.whole && Expr.allWhole rest

@[simp]
def TypeExpr.whole : TypeExpr → Bool
  | .named .. | .infer _ | .string .. => true
  | .staticArray _ element length => element.whole && length.whole
  | .boundedArray _ element bound => element.whole && bound.whole
  | .vec _ element => element.whole
  | .nullable _ inner => inner.whole
  | .missing _ => false

end

theorem Expr.allWhole_eq_all (exprs : List Expr) : Expr.allWhole exprs = exprs.all Expr.whole := by
  induction exprs with
  | nil => rfl
  | cons expr rest ih => rw [Expr.allWhole, ih, List.all_cons]

def Param.whole (param : Param) : Bool := param.type.whole && param.default.all Expr.whole

def StmtHead.whole (head : StmtHead) : Bool :=
  head.preconditions.all fun precondition => precondition.condition.whole

def Argument.whole (argument : Argument) : Bool := argument.value.whole

mutual

@[simp]
def Stmt.whole : Stmt → Bool
  | .varDecl head _ type init => head.whole && type.all TypeExpr.whole && init.all Expr.whole
  | .constDecl head _ type value => head.whole && type.all TypeExpr.whole && value.whole
  | .assignment head _ indices _ value => head.whole && indices.all Expr.whole && value.whole
  | .leaf head _ arguments => head.whole && arguments.all Argument.whole
  | .compound head _ arguments children =>
    head.whole && (arguments.getD []).all Argument.whole && Stmt.allWhole children

@[simp]
def Stmt.allWhole : List Stmt → Bool
  | [] => true
  | stmt :: rest => stmt.whole && Stmt.allWhole rest

end

theorem Stmt.allWhole_eq_all (stmts : List Stmt) : Stmt.allWhole stmts = stmts.all Stmt.whole := by
  induction stmts with
  | nil => rfl
  | cons stmt rest ih => rw [Stmt.allWhole, ih, List.all_cons]

def Decl.whole : Decl → Bool
  | .importFile .. | .opaqueType .. => true
  | .node _ _ _ ports _ => ports.all Param.whole
  | .typeAlias _ _ type => type.whole
  | .varDecl _ _ type init => type.all TypeExpr.whole && init.all Expr.whole
  | .constDecl _ _ type value => type.all TypeExpr.whole && value.whole
  | .tree _ _ params body => params.all Param.whole && body.all Stmt.whole

def Program.whole (program : Program) : Bool := program.decls.all Decl.whole

@[simp]
def SyntaxNode.whole : SyntaxNode → Bool
  | .expr e => e.whole
  | .type t => t.whole
  | .stmt s => s.whole
  | .decl d => d.whole

theorem Expr.all_parts_whole {expr : Expr} (h : expr.whole = true) :
    expr.parts.all SyntaxNode.whole = true := by
  cases expr with
  | array _ elements => simpa [Expr.parts, Function.comp_def, Expr.allWhole_eq_all] using h
  | _ => simp_all [Expr.parts]

theorem TypeExpr.all_parts_whole {type : TypeExpr} (h : type.whole = true) :
    type.parts.all SyntaxNode.whole = true := by
  cases type <;> simp_all [TypeExpr.parts]

theorem Param.all_parts_whole {param : Param} (h : param.whole = true) :
    param.parts.all SyntaxNode.whole = true := by
  cases hdefault : param.default <;> simpa [Param.parts, Param.whole, hdefault] using h

theorem Param.all_flatMap_parts_whole {params : List Param} (h : params.all Param.whole = true) :
    (params.flatMap Param.parts).all SyntaxNode.whole = true := by
  rw [List.all_eq_true] at h ⊢
  intro node hnode
  obtain ⟨param, hparam, hnode⟩ := List.mem_flatMap.mp hnode
  exact List.all_eq_true.mp (Param.all_parts_whole (h param hparam)) node hnode

theorem Stmt.all_parts_whole {stmt : Stmt} (h : stmt.whole = true) :
    stmt.parts.all SyntaxNode.whole = true := by
  cases stmt with
  | varDecl head name type init =>
      cases type <;> cases init <;>
        simp_all [Stmt.parts, StmtHead.parts, StmtHead.whole, Function.comp_def]
  | constDecl head name type value =>
      cases type <;> simp_all [Stmt.parts, StmtHead.parts, StmtHead.whole, Function.comp_def]
  | assignment head target indices op value =>
      simpa [Stmt.parts, StmtHead.parts, StmtHead.whole, Function.comp_def, and_assoc] using h
  | leaf head callee arguments =>
      simpa [Stmt.parts, StmtHead.parts, StmtHead.whole, Argument.part, Argument.whole,
        Function.comp_def] using h
  | compound head callee arguments children =>
      simpa [Stmt.parts, StmtHead.parts, StmtHead.whole, Argument.part, Argument.whole,
        Function.comp_def, Stmt.allWhole_eq_all, and_assoc] using h

theorem Decl.all_parts_whole {decl : Decl} (h : decl.whole = true) :
    decl.parts.all SyntaxNode.whole = true := by
  cases decl with
  | importFile | opaqueType => rfl
  | node head category name ports behavior => exact Param.all_flatMap_parts_whole h
  | typeAlias head name type => simpa [Decl.parts, Decl.whole] using h
  | varDecl head name type init => cases type <;> cases init <;> simp_all [Decl.parts, Decl.whole]
  | constDecl head name type value => cases type <;> simp_all [Decl.parts, Decl.whole]
  | tree head name params body =>
      obtain ⟨hparams, hbody⟩ := Bool.and_eq_true_iff.mp h
      rw [Decl.parts, List.all_append, Param.all_flatMap_parts_whole hparams]
      simpa [Function.comp_def] using hbody

theorem SyntaxNode.whole_of_mem_parts {node part : SyntaxNode} (hwhole : node.whole = true)
    (hpart : part ∈ node.parts) : part.whole = true := by
  have hparts : node.parts.all SyntaxNode.whole = true := by
    cases node with
    | expr e => exact Expr.all_parts_whole hwhole
    | type t => exact TypeExpr.all_parts_whole hwhole
    | stmt s => exact Stmt.all_parts_whole hwhole
    | decl d => exact Decl.all_parts_whole hwhole
  exact List.all_eq_true.mp hparts part hpart

/-- In a whole program no missing part can be reached. -/
theorem Program.not_isMissing_of_reaches {program : Program} (hwhole : program.whole = true)
    {node : SyntaxNode} (hnode : program.Reaches node) : ¬node.IsMissing := by
  have hwholeNode : node.whole = true := by
    induction hnode with
    | @decl decl hmem => exact List.all_eq_true.mp hwhole decl hmem
    | part _ hpart ih => exact SyntaxNode.whole_of_mem_parts ih hpart
  rintro (_ | _)
  · cases hwholeNode
  · cases hwholeNode

end BehaviorTree
