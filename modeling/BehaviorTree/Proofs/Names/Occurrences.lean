import Mathlib.Data.List.Nodup
import BehaviorTree.Names.Event
import BehaviorTree.Proofs.Syntax.Nodes
import BehaviorTree.Proofs.Syntax.Shape

/-!
# Occurrences of names

Where a program uses names, told by its tree, and how these places are found again in the list of
its events: each node that uses a name contributes one event, between the events of what stands
before and behind it, and no two events are about the same node or the same place.
-/

namespace BehaviorTree

/-- The name that a node of the tree uses itself, and what for. -/
inductive SyntaxNode.Uses : SyntaxNode → NameUse → Origin → Name → Prop
  | value (origin : Origin) (name : Name) : Uses (.expr (.ref origin name)) .value origin name
  | type (origin : Origin) (name : Name) : Uses (.type (.named origin name)) .type origin name
  | assignment (head : StmtHead) (target : Name) (indices : List Expr) (op : AssignOp)
      (value : Expr) :
    Uses (.stmt (.assignment head target indices op value)) .assignment head.origin target
  | leaf (head : StmtHead) (callee : Name) (arguments : List Argument) :
    Uses (.stmt (.leaf head callee arguments)) .node head.origin callee
  | compound (head : StmtHead) (callee : Name) (arguments : Option (List Argument))
      (children : List Stmt) :
    Uses (.stmt (.compound head callee arguments children)) .node head.origin callee

/-- A name is used in a program by one of its nodes. -/
def Program.Mentions (program : Program) (purpose : NameUse) (origin : Origin) (name : Name) :
    Prop :=
  ∃ node, program.Reaches node ∧ node.Uses purpose origin name

def SyntaxNode.nameEvents : SyntaxNode → List NameEvent
  | .expr e => e.nameEvents
  | .type t => t.nameEvents
  | .stmt s => s.nameEvents
  | .decl d => d.nameEvents

variable {node part : SyntaxNode} {purpose : NameUse} {origin : Origin} {name : Name}
  {events before after : List NameEvent} {stamp : Stamp}

/-! ### Events that only use names -/

/-- The name is looked up; what is declared does not change. -/
def NameEvent.IsUse : NameEvent → Prop
  | .use .. | .textType _ => True
  | .declare .. | .enter _ | .leave => False

/-- All events are uses. -/
def OnlyUses (events : List NameEvent) : Prop := ∀ event ∈ events, event.IsUse

@[simp]
theorem onlyUses_nil : OnlyUses [] := List.forall_mem_nil _

@[simp]
theorem onlyUses_cons {event : NameEvent} :
    OnlyUses (event :: events) ↔ event.IsUse ∧ OnlyUses events := List.forall_mem_cons

@[simp]
theorem onlyUses_append : OnlyUses (before ++ after) ↔ OnlyUses before ∧ OnlyUses after :=
  List.forall_mem_append

theorem onlyUses_flatMap {α : Type} {list : List α} {eventsOf : α → List NameEvent}
    (huses : ∀ x ∈ list, OnlyUses (eventsOf x)) : OnlyUses (list.flatMap eventsOf) := by
  intro event hevent
  obtain ⟨x, hx, hmem⟩ := List.mem_flatMap.mp hevent
  exact huses x hx event hmem

mutual

@[simp]
theorem Expr.onlyUses : (expr : Expr) → OnlyUses expr.nameEvents
  | .int .. | .float .. | .string .. | .bool .. | .null _ | .missing _ => onlyUses_nil
  | .ref .. => onlyUses_cons.mpr ⟨trivial, onlyUses_nil⟩
  | .binary _ _ left right => onlyUses_append.mpr ⟨left.onlyUses, right.onlyUses⟩
  | .unary _ _ operand => operand.onlyUses
  | .index _ base position => onlyUses_append.mpr ⟨base.onlyUses, position.onlyUses⟩
  | .cast _ operand type => onlyUses_append.mpr ⟨operand.onlyUses, type.onlyUses⟩
  | .array _ elements => Expr.onlyUsesAll elements
  | .repeated _ value count => onlyUses_append.mpr ⟨value.onlyUses, count.onlyUses⟩
  | .vec _ inner => inner.onlyUses

@[simp]
theorem Expr.onlyUsesAll : (exprs : List Expr) → OnlyUses (Expr.nameEventsAll exprs)
  | [] => onlyUses_nil
  | expr :: rest => onlyUses_append.mpr ⟨expr.onlyUses, Expr.onlyUsesAll rest⟩

@[simp]
theorem TypeExpr.onlyUses : (type : TypeExpr) → OnlyUses type.nameEvents
  | .named .. | .string .. => onlyUses_cons.mpr ⟨trivial, onlyUses_nil⟩
  | .infer _ | .missing _ => onlyUses_nil
  | .staticArray _ element length => onlyUses_append.mpr ⟨element.onlyUses, length.onlyUses⟩
  | .boundedArray _ element bound => onlyUses_append.mpr ⟨element.onlyUses, bound.onlyUses⟩
  | .vec _ element => element.onlyUses
  | .nullable _ inner => inner.onlyUses

end

theorem onlyUses_nameEventsOfType (type : Option TypeExpr) : OnlyUses (nameEventsOfType type) :=
  onlyUses_flatMap fun type _ => type.onlyUses

theorem onlyUses_nameEventsOfExpr (expr : Option Expr) : OnlyUses (nameEventsOfExpr expr) :=
  onlyUses_flatMap fun expr _ => expr.onlyUses

theorem Param.onlyUses (param : Param) : OnlyUses param.nameEvents :=
  onlyUses_append.mpr ⟨param.type.onlyUses, onlyUses_nameEventsOfExpr param.default⟩

theorem onlyUses_nameEventsOfArguments (arguments : List Argument) :
    OnlyUses (nameEventsOfArguments arguments) :=
  onlyUses_flatMap fun argument _ => argument.value.onlyUses

theorem StmtHead.onlyUses (head : StmtHead) : OnlyUses head.nameEvents :=
  onlyUses_flatMap fun precondition _ => precondition.condition.onlyUses

/-- A node uses its name behind what stands before the name. -/
theorem SyntaxNode.Uses.split (huses : node.Uses purpose origin name) :
    ∃ before after, node.nameEvents = before ++ .use purpose origin name :: after ∧
      OnlyUses before := by
  cases huses with
  | value => exact ⟨[], [], rfl, onlyUses_nil⟩
  | type => exact ⟨[], [], rfl, onlyUses_nil⟩
  | assignment head => exact ⟨head.nameEvents, _, rfl, head.onlyUses⟩
  | leaf head => exact ⟨head.nameEvents, _, rfl, head.onlyUses⟩
  | compound head => exact ⟨head.nameEvents, _, rfl, head.onlyUses⟩

/-! ### Finding the events of a part -/

/-- The part's events stand among others, with nothing but uses before them. -/
def SyntaxNode.Occurs (part : SyntaxNode) (events : List NameEvent) : Prop :=
  ∃ before after, events = before ++ part.nameEvents ++ after ∧ OnlyUses before

namespace SyntaxNode.Occurs

theorem self (part : SyntaxNode) : part.Occurs part.nameEvents :=
  ⟨[], [], by simp, onlyUses_nil⟩

theorem left (hoccurs : part.Occurs before) (after : List NameEvent) :
    part.Occurs (before ++ after) := by
  obtain ⟨front, back, rfl, hfront⟩ := hoccurs
  exact ⟨front, back ++ after, by simp, hfront⟩

theorem right (hoccurs : part.Occurs after) (huses : OnlyUses before) :
    part.Occurs (before ++ after) := by
  obtain ⟨front, back, rfl, hfront⟩ := hoccurs
  exact ⟨before ++ front, back, by simp, onlyUses_append.mpr ⟨huses, hfront⟩⟩

/-- Behind a use. -/
theorem use (hoccurs : part.Occurs events) (purpose : NameUse) (origin : Origin) (name : Name) :
    part.Occurs (.use purpose origin name :: events) := by
  have huse : OnlyUses [.use purpose origin name] := onlyUses_cons.mpr ⟨trivial, onlyUses_nil⟩
  exact hoccurs.right huse

theorem flatMap {α : Type} {list : List α} {eventsOf : α → List NameEvent} {x : α}
    (hx : x ∈ list) (huses : ∀ y ∈ list, OnlyUses (eventsOf y)) (hoccurs : part.Occurs (eventsOf x)) :
    part.Occurs (list.flatMap eventsOf) := by
  obtain ⟨front, back, rfl⟩ := List.append_of_mem hx
  rw [List.flatMap_append, List.flatMap_cons]
  refine right (hoccurs.left _) (onlyUses_flatMap fun y hy => ?_)
  exact huses y (List.mem_append_left _ hy)

end SyntaxNode.Occurs

theorem Expr.nameEventsAll_eq_flatMap (exprs : List Expr) :
    Expr.nameEventsAll exprs = exprs.flatMap Expr.nameEvents := by
  induction exprs with
  | nil => rfl
  | cons expr rest ih => rw [Expr.nameEventsAll, ih, List.flatMap_cons]

theorem Stmt.nameEventsAll_eq_flatMap (stmts : List Stmt) :
    Stmt.nameEventsAll stmts = stmts.flatMap Stmt.nameEvents := by
  induction stmts with
  | nil => rfl
  | cons stmt rest ih => rw [Stmt.nameEventsAll, ih, List.flatMap_cons]

open SyntaxNode.Occurs

theorem occurs_of_mem_exprs {exprs : List Expr} (hpart : part ∈ exprs.map .expr) :
    part.Occurs (Expr.nameEventsAll exprs) := by
  obtain ⟨expr, hexpr, rfl⟩ := List.mem_map.mp hpart
  rw [Expr.nameEventsAll_eq_flatMap]
  exact .flatMap hexpr (fun other _ => other.onlyUses) (.self (.expr expr))

theorem occurs_of_mem_expr {expr : Option Expr} (hpart : part ∈ expr.toList.map .expr) :
    part.Occurs (nameEventsOfExpr expr) := by
  rw [nameEventsOfExpr, ← Expr.nameEventsAll_eq_flatMap]
  exact occurs_of_mem_exprs hpart

theorem occurs_of_mem_type {type : Option TypeExpr} (hpart : part ∈ type.toList.map .type) :
    part.Occurs (nameEventsOfType type) := by
  obtain ⟨type, htype, rfl⟩ := List.mem_map.mp hpart
  exact .flatMap htype (fun other _ => other.onlyUses) (.self (.type type))

theorem occurs_of_mem_arguments {arguments : List Argument}
    (hpart : part ∈ arguments.map Argument.part) : part.Occurs (nameEventsOfArguments arguments) := by
  obtain ⟨argument, hargument, rfl⟩ := List.mem_map.mp hpart
  exact .flatMap hargument (fun other _ => other.value.onlyUses) (.self argument.part)

theorem StmtHead.occurs {head : StmtHead} (hpart : part ∈ head.parts) :
    part.Occurs head.nameEvents := by
  obtain ⟨precondition, hmem, rfl⟩ := List.mem_map.mp hpart
  exact .flatMap hmem (fun other _ => other.condition.onlyUses) (.self (.expr precondition.condition))

theorem Param.occurs {param : Param} (hpart : part ∈ param.parts) :
    part.Occurs param.nameEvents := by
  rcases List.mem_cons.mp hpart with rfl | hpart
  · exact (SyntaxNode.Occurs.self _).left _
  · exact (occurs_of_mem_expr hpart).right param.type.onlyUses

theorem Expr.occurs {expr : Expr} (hpart : part ∈ expr.parts) : part.Occurs expr.nameEvents := by
  cases expr with
  | int | float | string | bool | null | ref | missing => cases hpart
  | unary origin op operand =>
      rw [List.mem_singleton.mp hpart]
      exact self _
  | vec origin inner =>
      rw [List.mem_singleton.mp hpart]
      exact self _
  | array origin elements => exact occurs_of_mem_exprs hpart
  | binary origin op left right =>
      rcases List.mem_pair.mp hpart with rfl | rfl
      · exact (self _).left _
      · exact (self _).right left.onlyUses
  | index origin base position =>
      rcases List.mem_pair.mp hpart with rfl | rfl
      · exact (self _).left _
      · exact (self _).right base.onlyUses
  | cast origin operand type =>
      rcases List.mem_pair.mp hpart with rfl | rfl
      · exact (self _).left _
      · exact (self _).right operand.onlyUses
  | repeated origin value count =>
      rcases List.mem_pair.mp hpart with rfl | rfl
      · exact (self _).left _
      · exact (self _).right value.onlyUses

theorem TypeExpr.occurs {type : TypeExpr} (hpart : part ∈ type.parts) :
    part.Occurs type.nameEvents := by
  cases type with
  | named | infer | string | missing => cases hpart
  | vec origin element =>
      rw [List.mem_singleton.mp hpart]
      exact self _
  | nullable origin inner =>
      rw [List.mem_singleton.mp hpart]
      exact self _
  | staticArray origin element length =>
      rcases List.mem_pair.mp hpart with rfl | rfl
      · exact (self _).left _
      · exact (self _).right element.onlyUses
  | boundedArray origin element bound =>
      rcases List.mem_pair.mp hpart with rfl | rfl
      · exact (self _).left _
      · exact (self _).right element.onlyUses

/-- The parts of a statement that stand outside the block of its children. -/
def Stmt.outerParts : Stmt → List SyntaxNode
  | .compound head _ arguments _ => head.parts ++ (arguments.getD []).map Argument.part
  | stmt => stmt.parts

theorem Stmt.occurs {stmt : Stmt} (hpart : part ∈ stmt.outerParts) :
    part.Occurs stmt.nameEvents := by
  cases stmt with
  | varDecl head name type init =>
      have huses := onlyUses_append.mpr ⟨head.onlyUses, onlyUses_nameEventsOfType type⟩
      rcases List.mem_append.mp hpart with hpart | hinit
      · rcases List.mem_append.mp hpart with hhead | htype
        · exact ((head.occurs hhead).left _).left _ |>.left _
        · exact ((occurs_of_mem_type htype).right head.onlyUses).left _ |>.left _
      · exact ((occurs_of_mem_expr hinit).right huses).left _
  | constDecl head name type value =>
      have huses := onlyUses_append.mpr ⟨head.onlyUses, onlyUses_nameEventsOfType type⟩
      rcases List.mem_append.mp hpart with hpart | hvalue
      · rcases List.mem_append.mp hpart with hhead | htype
        · exact ((head.occurs hhead).left _).left _ |>.left _
        · exact ((occurs_of_mem_type htype).right head.onlyUses).left _ |>.left _
      · rw [List.mem_singleton.mp hvalue]
        exact ((self (.expr value)).right huses).left _
  | assignment head target indices op value =>
      have hnode : part.Occurs (Expr.nameEventsAll indices ++ value.nameEvents) →
          part.Occurs (Stmt.assignment head target indices op value).nameEvents :=
        fun hoccurs => (hoccurs.use .assignment head.origin target).right head.onlyUses
      rcases List.mem_append.mp hpart with hpart | hvalue
      · rcases List.mem_append.mp hpart with hhead | hindex
        · exact (head.occurs hhead).left _
        · exact hnode ((occurs_of_mem_exprs hindex).left _)
      · obtain rfl := List.mem_singleton.mp hvalue
        exact hnode ((self (.expr value)).right (Expr.onlyUsesAll indices))
  | leaf head callee arguments =>
      rcases List.mem_append.mp hpart with hhead | hargument
      · exact (head.occurs hhead).left _
      · have hoccurs := occurs_of_mem_arguments hargument
        exact (hoccurs.use .node head.origin callee).right head.onlyUses
  | compound head callee arguments children =>
      rcases List.mem_append.mp hpart with hhead | hargument
      · exact (head.occurs hhead).left _
      · have hoccurs := (occurs_of_mem_arguments hargument).left
          (.enter .block :: (Stmt.nameEventsAll children ++ [.leave]))
        exact (hoccurs.use .node head.origin callee).right head.onlyUses

/-- The parts of a node that stand in the same scope. -/
def SyntaxNode.outerParts : SyntaxNode → List SyntaxNode
  | .expr e => e.parts
  | .type t => t.parts
  | .stmt s => s.outerParts
  | .decl _ => []

theorem SyntaxNode.occurs (hpart : part ∈ node.outerParts) : part.Occurs node.nameEvents := by
  cases node with
  | expr e => exact e.occurs hpart
  | type t => exact t.occurs hpart
  | stmt s => exact s.occurs hpart
  | decl d => cases hpart

def Decl.isTree : Decl → Bool
  | .tree .. => true
  | _ => false

/-- What is not in a tree stands among the events of its declaration. -/
theorem Decl.occurs {decl : Decl} (htree : decl.isTree = false) (hpart : part ∈ decl.parts) :
    part.Occurs decl.nameEvents := by
  cases decl with
  | importFile | opaqueType => cases hpart
  | node head category name ports behavior =>
      obtain ⟨port, hport, hmem⟩ := List.mem_flatMap.mp hpart
      exact (port.occurs hmem).flatMap hport fun other _ => other.onlyUses
  | typeAlias head name type =>
      obtain rfl := List.mem_singleton.mp hpart
      exact self _
  | varDecl head name type init =>
      rcases List.mem_append.mp hpart with htype | hinit
      · exact (occurs_of_mem_type htype).left _
      · exact (occurs_of_mem_expr hinit).right (onlyUses_nameEventsOfType type)
  | constDecl head name type value =>
      rcases List.mem_append.mp hpart with htype | hvalue
      · exact (occurs_of_mem_type htype).left _
      · obtain rfl := List.mem_singleton.mp hvalue
        exact (self (.expr value)).right (onlyUses_nameEventsOfType type)
  | tree => cases htree

/-! ### The stamps of events -/

/-- The nodes that uses of a kind are recorded under. -/
def NameUse.nodeKind : NameUse → NodeKind
  | .value => .expr
  | .assignment | .node => .stmt
  | .type => .type

/-- What an event is about: the node that it is recorded under and the name that is used. -/
def NameEvent.stamps : NameEvent → List Stamp
  | .use purpose origin name => [.node purpose.nodeKind origin.id, .name name]
  | .textType origin => [.node .type origin.id]
  | .declare .. | .enter _ | .leave => []

/-- The events are about nothing that has no stamp, and not more often than it has stamps. -/
def CoveredBy (events : List NameEvent) (stamps : List Stamp) : Prop :=
  ∀ stamp, (events.flatMap NameEvent.stamps).count stamp ≤ stamps.count stamp

namespace CoveredBy

variable {stamps more : List Stamp}

theorem nil (stamps : List Stamp) : CoveredBy [] stamps := fun _ => Nat.zero_le _

theorem append (hbefore : CoveredBy before stamps) (hafter : CoveredBy after more) :
    CoveredBy (before ++ after) (stamps ++ more) := by
  intro stamp
  rw [List.flatMap_append, List.count_append, List.count_append]
  exact Nat.add_le_add (hbefore stamp) (hafter stamp)

/-- A stamp that no event is about. -/
theorem skip (hcovered : CoveredBy events stamps) (other : Stamp) :
    CoveredBy events (other :: stamps) :=
  fun stamp => Nat.le_trans (hcovered stamp) List.count_le_count_cons

/-- An event that is about nothing. -/
theorem silent (hcovered : CoveredBy events stamps) {event : NameEvent} (hsilent : event.stamps = []) :
    CoveredBy (event :: events) stamps := by
  intro stamp
  rw [List.flatMap_cons, hsilent]
  exact hcovered stamp

theorem use (hcovered : CoveredBy events stamps) (purpose : NameUse) (origin : Origin) (name : Name) :
    CoveredBy (.use purpose origin name :: events)
      (.node purpose.nodeKind origin.id :: .name name :: stamps) := by
  intro stamp
  have hrest := hcovered stamp
  simp only [List.flatMap_cons, NameEvent.stamps, List.cons_append, List.nil_append, List.count_cons]
  omega

theorem of_perm (hcovered : CoveredBy events stamps) (hperm : stamps.Perm more) :
    CoveredBy events more :=
  fun stamp => hperm.count_eq stamp ▸ hcovered stamp

/-- A use behind other events of its node. -/
theorem useBehind (hbefore : CoveredBy before stamps) (hafter : CoveredBy after more)
    (purpose : NameUse) (origin : Origin) (name : Name) :
    CoveredBy (before ++ .use purpose origin name :: after)
      (.node purpose.nodeKind origin.id :: (stamps ++ .name name :: more)) :=
  (hbefore.append (hafter.use purpose origin name)).of_perm List.perm_middle

theorem flatMap {α : Type} {list : List α} {eventsOf : α → List NameEvent}
    {stampsOf : α → List Stamp} (hcovered : ∀ x ∈ list, CoveredBy (eventsOf x) (stampsOf x)) :
    CoveredBy (list.flatMap eventsOf) (list.flatMap stampsOf) := by
  induction list with
  | nil => exact nil _
  | cons x rest ih =>
      rw [List.flatMap_cons, List.flatMap_cons]
      have hrest := ih fun y hy => hcovered y (List.mem_cons_of_mem x hy)
      exact (hcovered x List.mem_cons_self).append hrest

end CoveredBy

mutual

theorem Expr.covered : (expr : Expr) → CoveredBy expr.nameEvents expr.stamps
  | .int .. | .float .. | .string .. | .bool .. | .null _ | .missing _ => .nil _
  | .ref origin name => (CoveredBy.nil []).use .value origin name
  | .binary _ _ left right => (left.covered.append right.covered).skip _
  | .unary _ _ operand => operand.covered.skip _
  | .index _ base position => (base.covered.append position.covered).skip _
  | .cast _ operand type => (operand.covered.append type.covered).skip _
  | .array _ elements => (Expr.coveredAll elements).skip _
  | .repeated _ value count => (value.covered.append count.covered).skip _
  | .vec _ inner => inner.covered.skip _

theorem Expr.coveredAll : (exprs : List Expr) →
    CoveredBy (Expr.nameEventsAll exprs) (Expr.stampsAll exprs)
  | [] => .nil _
  | expr :: rest => expr.covered.append (Expr.coveredAll rest)

theorem TypeExpr.covered : (type : TypeExpr) → CoveredBy type.nameEvents type.stamps
  | .named origin name => (CoveredBy.nil []).use .type origin name
  | .string _ _ => fun _ => Nat.le_refl _
  | .infer _ | .missing _ => .nil _
  | .staticArray _ element length => (element.covered.append length.covered).skip _
  | .boundedArray _ element bound => (element.covered.append bound.covered).skip _
  | .vec _ element => element.covered.skip _
  | .nullable _ inner => inner.covered.skip _

end

theorem covered_nameEventsOfType (type : Option TypeExpr) :
    CoveredBy (nameEventsOfType type) (stampsOfType type) :=
  .flatMap fun type _ => type.covered

theorem covered_nameEventsOfExpr (expr : Option Expr) :
    CoveredBy (nameEventsOfExpr expr) (stampsOfExpr expr) :=
  .flatMap fun expr _ => expr.covered

theorem Param.covered (param : Param) : CoveredBy param.nameEvents param.stamps :=
  (param.type.covered.append (covered_nameEventsOfExpr param.default)).skip _

theorem covered_nameEventsOfArguments (arguments : List Argument) :
    CoveredBy (nameEventsOfArguments arguments) (arguments.flatMap Argument.stamps) := by
  refine .flatMap fun argument _ => ?_
  exact (CoveredBy.nil (argument.name.toList.map .name)).append argument.value.covered

theorem covered_leave : CoveredBy [.leave] [] := (CoveredBy.nil []).silent rfl

theorem StmtHead.covered (head : StmtHead) :
    CoveredBy head.nameEvents (head.preconditions.flatMap Precondition.stamps) :=
  .flatMap fun precondition _ => precondition.condition.covered

/-- A declaration behind the other events of its statement. -/
theorem CoveredBy.declareBehind {stamps more : List Stamp} (hbefore : CoveredBy before stamps)
    (hafter : CoveredBy after more) (kind : SymbolKind) (name : Name) (id : Nat) :
    CoveredBy (before ++ after ++ [.declare kind name])
      (.node .stmt id :: (stamps ++ .name name :: more)) := by
  have hdeclare : CoveredBy [.declare kind name] [.name name] := (nil _).silent rfl
  refine (((hbefore.append hafter).append hdeclare).skip _).of_perm (.cons _ ?_)
  rw [List.append_assoc]
  exact List.Perm.append_left _ (List.perm_append_singleton _ _)

mutual

theorem Stmt.covered : (stmt : Stmt) → CoveredBy stmt.nameEvents stmt.stamps
  | .varDecl head name type init => by
      have hparts := (covered_nameEventsOfType type).append (covered_nameEventsOfExpr init)
      have hall := head.covered.declareBehind hparts (.localVar head.origin) name head.origin.id
      rw [← List.append_assoc head.nameEvents] at hall
      exact hall
  | .constDecl head name type value => by
      have hparts := (covered_nameEventsOfType type).append value.covered
      have hall := head.covered.declareBehind hparts (.localConst head.origin) name head.origin.id
      rw [← List.append_assoc head.nameEvents] at hall
      exact hall
  | .assignment head target indices op value => by
      have hindices := Expr.coveredAll indices
      rw [Expr.stampsAll_eq_flatMap] at hindices
      exact head.covered.useBehind (hindices.append value.covered) .assignment head.origin target
  | .leaf head callee arguments =>
      head.covered.useBehind (covered_nameEventsOfArguments arguments) .node head.origin callee
  | .compound head callee arguments children => by
      have hblock : CoveredBy (.enter .block :: (Stmt.nameEventsAll children ++ [.leave]))
          (Stmt.stampsAll children ++ []) :=
        ((Stmt.coveredAll children).append covered_leave).silent rfl
      rw [List.append_nil] at hblock
      have harguments := covered_nameEventsOfArguments (arguments.getD [])
      exact head.covered.useBehind (harguments.append hblock) .node head.origin callee

theorem Stmt.coveredAll : (stmts : List Stmt) →
    CoveredBy (Stmt.nameEventsAll stmts) (Stmt.stampsAll stmts)
  | [] => .nil _
  | stmt :: rest => stmt.covered.append (Stmt.coveredAll rest)

end

theorem covered_nameEventsOfParams (tree : Origin) (params : List Param) :
    CoveredBy (nameEventsOfParams tree params) (params.flatMap Param.stamps) := by
  have hparams : params.flatMap Param.stamps =
      params.zipIdx.flatMap fun entry => Param.stamps entry.1 ++ [] := by
    conv_lhs => rw [← List.zipIdx_map_fst 0 params, List.flatMap_map]
    simp
  rw [hparams]
  refine .flatMap fun entry _ => ?_
  exact entry.1.covered.append ((CoveredBy.nil []).silent rfl)

theorem Decl.covered (decl : Decl) : CoveredBy decl.nameEvents decl.stamps := by
  cases decl with
  | importFile | opaqueType => exact .nil _
  | node head category name ports behavior =>
      exact ((CoveredBy.flatMap fun port _ => port.covered).skip _).skip _
  | typeAlias head name type => exact (type.covered.skip _).skip _
  | varDecl head name type init =>
      have hparts := (covered_nameEventsOfType type).append (covered_nameEventsOfExpr init)
      exact (hparts.skip _).skip _
  | constDecl head name type value =>
      exact (((covered_nameEventsOfType type).append value.covered).skip _).skip _
  | tree head name params body =>
      have hbody := Stmt.coveredAll body
      rw [Stmt.stampsAll_eq_flatMap] at hbody
      have hparts := (covered_nameEventsOfParams head.origin params).append
        (hbody.append covered_leave)
      rw [List.append_nil, ← List.append_assoc] at hparts
      exact ((hparts.silent rfl).skip _).skip _

theorem Program.covered (program : Program) : CoveredBy program.nameEvents program.stamps :=
  .flatMap fun decl _ => decl.covered

/-- If nothing occurs twice in a program, no other event is about the same node or the same name. -/
theorem Program.stamps_apart {program : Program} (hnodup : program.stamps.Nodup)
    (hevents : program.nameEvents = before ++ .use purpose origin name :: after)
    {event : NameEvent} (hevent : event ∈ before ++ after) :
    .node purpose.nodeKind origin.id ∉ event.stamps ∧ .name name ∉ event.stamps := by
  have honce : ∀ stamp ∈ (NameEvent.use purpose origin name).stamps, stamp ∉ event.stamps := by
    intro stamp huse hother
    have htwice : 0 < ((before ++ after).flatMap NameEvent.stamps).count stamp :=
      List.count_pos_iff.mpr (List.mem_flatMap.mpr ⟨event, hevent, hother⟩)
    have hhere : 0 < (NameEvent.use purpose origin name).stamps.count stamp :=
      List.count_pos_iff.mpr huse
    have hle := program.covered stamp
    have hone := List.nodup_iff_count_le_one.mp hnodup stamp
    rw [hevents] at hle
    simp only [List.flatMap_append, List.flatMap_cons, List.count_append] at hle htwice
    omega
  exact ⟨honce _ List.mem_cons_self, honce _ (List.mem_cons_of_mem _ List.mem_cons_self)⟩

end BehaviorTree
