import BehaviorTree.Diagnostic
import BehaviorTree.Parsing.Declaration
import BehaviorTree.Proofs.Syntax.Forest

/-!
# Marks

A syntax tree refers to its source by the ranges of its parts and by the names in it. That all of
them have some property is told here for every kind of value that a parser hands on, and for what
waits for such values: a function meets it if it makes values that meet it from values that do.
-/

namespace BehaviorTree

/-- A reference to the source. -/
inductive Mark
  | range (range : SourceRange)
  | name (name : Name)

/-- Values of which it can be said that all marks in them are good. -/
class Marked (α : Type) where
  meets : (Mark → Prop) → α → Prop

/-- All marks in the value are good. -/
def Meets {α : Type} [Marked α] (good : Mark → Prop) (value : α) : Prop := Marked.meets good value

variable {α β : Type} [Marked α] [Marked β] {good : Mark → Prop}

/-! ### Values without marks -/

instance : Marked Unit := ⟨fun _ _ => True⟩
instance : Marked Bool := ⟨fun _ _ => True⟩
instance : Marked Nat := ⟨fun _ _ => True⟩
instance : Marked String := ⟨fun _ _ => True⟩
instance : Marked Direction := ⟨fun _ _ => True⟩
instance : Marked DataPolicy := ⟨fun _ _ => True⟩
instance : Marked FlowPolicy := ⟨fun _ _ => True⟩
instance : Marked Parser.Recovery := ⟨fun _ _ => True⟩

/-! ### Collections and functions -/

instance : Marked (Option α) := ⟨fun good value => ∀ inner ∈ value, Meets good inner⟩
instance : Marked (List α) := ⟨fun good values => ∀ value ∈ values, Meets good value⟩
instance : Marked (α × β) := ⟨fun good pair => Meets good pair.1 ∧ Meets good pair.2⟩
instance : Marked (α → β) := ⟨fun good f => ∀ value, Meets good value → Meets good (f value)⟩

theorem Meets.none : Meets good (none : Option α) := fun _ h => nomatch h

theorem Meets.some {value : α} (h : Meets good value) : Meets good (some value) := by
  rintro _ ⟨⟩
  exact h

theorem Meets.of_some {value : α} (h : Meets good (Option.some value)) : Meets good value :=
  h value rfl

theorem Meets.nil : Meets good ([] : List α) := List.forall_mem_nil _

theorem Meets.singleton {value : α} (h : Meets good value) : Meets good [value] :=
  List.forall_mem_singleton.mpr h

theorem Meets.append {left right : List α} (hleft : Meets good left) (hright : Meets good right) :
    Meets good (left ++ right) :=
  List.forall_mem_append.mpr ⟨hleft, hright⟩

theorem Meets.toList {value : Option α} (h : Meets good value) : Meets good value.toList :=
  fun inner hinner => h inner (Option.mem_toList.mp hinner)

theorem Meets.map {value : Option α} {f : α → β} (h : Meets good value)
    (hf : ∀ inner, Meets good inner → Meets good (f inner)) : Meets good (value.map f) := by
  cases value with
  | none => exact .none
  | some inner => exact .some (hf inner h.of_some)

/-! ### Marks themselves -/

instance : Marked SourceRange := ⟨fun good range => good (.range range)⟩
instance : Marked Name := ⟨fun good name => good (.range name.range) ∧ good (.name name)⟩
instance : Marked Origin := ⟨fun good origin => good (.range origin.range)⟩

/-- The name that the token would be is good. -/
instance : Marked Token := ⟨fun good token => Meets good (Name.mk token.text token.range)⟩

/-! ### Terms -/

mutual

def Expr.Meets (good : Mark → Prop) : Expr → Prop
  | .int o _ | .float o _ | .string o _ | .bool o _ | .null o | .missing o => good (.range o.range)
  | .ref o name => good (.range o.range) ∧ BehaviorTree.Meets good name
  | .binary o _ left right => good (.range o.range) ∧ left.Meets good ∧ right.Meets good
  | .unary o _ operand => good (.range o.range) ∧ operand.Meets good
  | .index o base position => good (.range o.range) ∧ base.Meets good ∧ position.Meets good
  | .cast o operand type => good (.range o.range) ∧ operand.Meets good ∧ type.Meets good
  | .array o elements => good (.range o.range) ∧ Expr.AllMeet good elements
  | .repeated o value count => good (.range o.range) ∧ value.Meets good ∧ count.Meets good
  | .vec o inner => good (.range o.range) ∧ inner.Meets good

def Expr.AllMeet (good : Mark → Prop) : List Expr → Prop
  | [] => True
  | expr :: rest => expr.Meets good ∧ Expr.AllMeet good rest

def TypeExpr.Meets (good : Mark → Prop) : TypeExpr → Prop
  | .named o name => good (.range o.range) ∧ BehaviorTree.Meets good name
  | .infer o | .string o _ | .missing o => good (.range o.range)
  | .staticArray o element length => good (.range o.range) ∧ element.Meets good ∧ length.Meets good
  | .boundedArray o element bound => good (.range o.range) ∧ element.Meets good ∧ bound.Meets good
  | .vec o element => good (.range o.range) ∧ element.Meets good
  | .nullable o inner => good (.range o.range) ∧ inner.Meets good

end

instance : Marked Expr := ⟨Expr.Meets⟩
instance : Marked TypeExpr := ⟨TypeExpr.Meets⟩

theorem Expr.allMeet_iff {exprs : List Expr} : Expr.AllMeet good exprs ↔ BehaviorTree.Meets good exprs := by
  induction exprs with
  | nil => exact ⟨fun _ => .nil, fun _ => trivial⟩
  | cons expr rest ih => exact (and_congr_right' ih).trans List.forall_mem_cons.symm

theorem Expr.meets_range {expr : Expr} (h : BehaviorTree.Meets good expr) :
    BehaviorTree.Meets good expr.range := by
  cases expr with
  | int | float | string | bool | null | missing => exact h
  | _ => exact h.1

theorem Expr.meets_withRange {expr : Expr} {range : SourceRange}
    (h : BehaviorTree.Meets good expr) (hrange : BehaviorTree.Meets good range) :
    BehaviorTree.Meets good (expr.withRange range) := by
  cases expr with
  | int | float | string | bool | null | missing => exact hrange
  | _ => exact ⟨hrange, h.2⟩

instance : Marked Chain := ⟨fun good chain => Meets good chain.left⟩

/-! ### Items -/

instance : Marked Docs := ⟨fun good docs => Meets good docs.range⟩
instance : Marked Behavior := ⟨fun good behavior => Meets good behavior.range⟩

instance : Marked Attribute :=
  ⟨fun good attr => Meets good attr.behavior ∧ Meets good attr.range⟩

instance : Marked VarParts :=
  ⟨fun good parts => Meets good parts.name ∧ Meets good parts.type ∧ Meets good parts.init⟩

instance : Marked ConstParts :=
  ⟨fun good parts => Meets good parts.name ∧ Meets good parts.type ∧ Meets good parts.value⟩

instance : Marked Param :=
  ⟨fun good param => Meets good param.name ∧ Meets good param.type ∧ Meets good param.default ∧
    Meets good param.range⟩

instance : Marked Precondition :=
  ⟨fun good precondition => Meets good precondition.condition ∧ Meets good precondition.range⟩

instance : Marked Argument :=
  ⟨fun good argument => Meets good argument.name ∧ Meets good argument.value ∧
    Meets good argument.range⟩

instance : Marked StmtHead :=
  ⟨fun good head => Meets good head.origin ∧ Meets good head.preconditions⟩

instance : Marked DeclHead := ⟨fun good head => Meets good head.origin⟩

/-! ### Statements and declarations -/

mutual

def Stmt.Meets (good : Mark → Prop) : Stmt → Prop
  | .varDecl head name type init => BehaviorTree.Meets good head ∧ BehaviorTree.Meets good name ∧
    BehaviorTree.Meets good type ∧ BehaviorTree.Meets good init
  | .constDecl head name type value => BehaviorTree.Meets good head ∧ BehaviorTree.Meets good name ∧
    BehaviorTree.Meets good type ∧ BehaviorTree.Meets good value
  | .assignment head target indices _ value => BehaviorTree.Meets good head ∧
    BehaviorTree.Meets good target ∧ BehaviorTree.Meets good indices ∧ BehaviorTree.Meets good value
  | .leaf head callee arguments => BehaviorTree.Meets good head ∧ BehaviorTree.Meets good callee ∧
    BehaviorTree.Meets good arguments
  | .compound head callee arguments children => BehaviorTree.Meets good head ∧
    BehaviorTree.Meets good callee ∧ BehaviorTree.Meets good arguments ∧ Stmt.AllMeet good children

def Stmt.AllMeet (good : Mark → Prop) : List Stmt → Prop
  | [] => True
  | stmt :: rest => stmt.Meets good ∧ Stmt.AllMeet good rest

end

instance : Marked Stmt := ⟨Stmt.Meets⟩

theorem Stmt.allMeet_iff {stmts : List Stmt} : Stmt.AllMeet good stmts ↔ BehaviorTree.Meets good stmts := by
  induction stmts with
  | nil => exact ⟨fun _ => .nil, fun _ => trivial⟩
  | cons stmt rest ih => exact (and_congr_right' ih).trans List.forall_mem_cons.symm

def Decl.Meets (good : Mark → Prop) : Decl → Prop
  | .importFile head _ pathRange => BehaviorTree.Meets good head ∧ BehaviorTree.Meets good pathRange
  | .node head _ name ports behavior => BehaviorTree.Meets good head ∧
    BehaviorTree.Meets good name ∧ BehaviorTree.Meets good ports ∧ BehaviorTree.Meets good behavior
  | .opaqueType head name => BehaviorTree.Meets good head ∧ BehaviorTree.Meets good name
  | .typeAlias head name type => BehaviorTree.Meets good head ∧ BehaviorTree.Meets good name ∧
    BehaviorTree.Meets good type
  | .varDecl head name type init => BehaviorTree.Meets good head ∧ BehaviorTree.Meets good name ∧
    BehaviorTree.Meets good type ∧ BehaviorTree.Meets good init
  | .constDecl head name type value => BehaviorTree.Meets good head ∧ BehaviorTree.Meets good name ∧
    BehaviorTree.Meets good type ∧ BehaviorTree.Meets good value
  | .tree head name params body => BehaviorTree.Meets good head ∧ BehaviorTree.Meets good name ∧
    BehaviorTree.Meets good params ∧ BehaviorTree.Meets good body

instance : Marked Decl := ⟨Decl.Meets⟩

instance : Marked Program :=
  ⟨fun good program => Meets good program.range ∧ Meets good program.decls⟩

/-- All marks in a node and below it are good. -/
instance : Marked SyntaxNode where
  meets good node :=
    match node with
    | .expr expr => Meets good expr
    | .type type => Meets good type
    | .stmt stmt => Meets good stmt
    | .decl decl => Meets good decl

/-! ### Turns of loops -/

instance : Marked (Parser.Turn α) where
  meets good turn :=
    match turn with
    | .again value => Meets good value
    | .done value => Meets good value

/-! ### Reports -/

/-- The ranges that a report shows or offers to edit. -/
def Diagnostic.ranges (diagnostic : Diagnostic) : List SourceRange :=
  diagnostic.labels.map Label.range ++ diagnostic.fixIts.map FixIt.range

instance : Marked Diagnostic := ⟨fun good diagnostic => Meets good diagnostic.ranges⟩

namespace Diagnostic

variable {diagnostic : Diagnostic} {range : SourceRange}

theorem meets_new (severity : Severity) (message : String) (h : Meets good range) :
    Meets good (new severity range message) := by
  have hranges : (new severity range message).ranges =
      if range.isLocated then [range] else [] := by
    unfold ranges new
    split <;> rfl
  show Meets good (new severity range message).ranges
  rw [hranges]
  split
  · exact .singleton h
  · exact .nil

theorem ranges_setPrimaryMessage (message : String) (labels : List Label) :
    (setPrimaryMessage message labels).map Label.range = labels.map Label.range := by
  induction labels with
  | nil => rfl
  | cons label rest ih =>
      unfold setPrimaryMessage
      split
      · rfl
      · exact congrArg (label.range :: ·) ih

theorem meets_withLabel (message : String) (h : Meets good diagnostic) :
    Meets good (diagnostic.withLabel message) := by
  have hranges : (diagnostic.withLabel message).ranges = diagnostic.ranges :=
    congrArg (· ++ _) (ranges_setPrimaryMessage message diagnostic.labels)
  show Meets good (diagnostic.withLabel message).ranges
  rw [hranges]
  exact h

theorem meets_withSecondary (message : String) (h : Meets good diagnostic)
    (hrange : Meets good range) : Meets good (diagnostic.withSecondary range message) := by
  unfold withSecondary
  split
  · obtain ⟨hlabels, hfixIts⟩ := List.forall_mem_append.mp h
    refine Meets.append ?_ hfixIts
    rw [List.map_append]
    exact Meets.append hlabels (.singleton hrange)
  · exact h

theorem meets_withFixIt (replacement : String) (h : Meets good diagnostic)
    (hrange : Meets good range) : Meets good (diagnostic.withFixIt range replacement) := by
  obtain ⟨hlabels, hfixIts⟩ := List.forall_mem_append.mp h
  refine Meets.append hlabels ?_
  show Meets good (List.map FixIt.range (diagnostic.fixIts ++ _))
  rw [List.map_append]
  exact Meets.append hfixIts (.singleton hrange)

end Diagnostic

end BehaviorTree
