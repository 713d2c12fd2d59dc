import Mathlib.Data.List.Nodup
import BehaviorTree.Program.Traversal
import BehaviorTree.Proofs.Syntax.Nodes
import BehaviorTree.Proofs.Syntax.Shape

/-!
# Programs as forests

The nodes of a program, each as often as it is referred to. If their stamps have no duplicates, no
node has two parents, and a walk meets every node just once.
-/

namespace BehaviorTree

theorem Expr.visitsAll_eq_flatMap (depth : Nat) (exprs : List Expr) :
    Expr.visitsAll depth exprs = exprs.flatMap (Expr.visits depth) := by
  induction exprs with
  | nil => rfl
  | cons expr rest ih => rw [Expr.visitsAll, ih, List.flatMap_cons]

theorem Stmt.visitsAll_eq_flatMap (depth : Nat) (stmts : List Stmt) :
    Stmt.visitsAll depth stmts = stmts.flatMap (Stmt.visits depth) := by
  induction stmts with
  | nil => rfl
  | cons stmt rest ih => rw [Stmt.visitsAll, ih, List.flatMap_cons]

/-! ### Numbers of nodes -/

namespace SyntaxNode

def kind : SyntaxNode → NodeKind
  | .expr _ => .expr
  | .type _ => .type
  | .stmt _ => .stmt
  | .decl _ => .decl

def origin : SyntaxNode → Origin
  | .expr e => e.origin
  | .type t => t.origin
  | .stmt s => s.head.origin
  | .decl d => d.head.origin

def id (node : SyntaxNode) : Nat := node.origin.id

/-- What tells a node from all others. -/
def stamp (node : SyntaxNode) : Stamp := .node node.kind node.id

/-- All stamps of the tree below a node. -/
def allStamps : SyntaxNode → List Stamp
  | .expr e => e.stamps
  | .type t => t.stamps
  | .stmt s => s.stamps
  | .decl d => d.stamps

/-- The walk over the tree below a node. -/
def visits (depth : Nat) : SyntaxNode → List Visit
  | .expr e => e.visits depth
  | .type t => t.visits depth
  | .stmt s => s.visits depth
  | .decl d => d.visits depth

end SyntaxNode

/-- The stamps of nodes among others. -/
def Stamp.nodesOf (stamps : List Stamp) : List Stamp :=
  stamps.filter fun
    | .node .. => true
    | .name _ => false

namespace Stamp

@[simp]
theorem nodesOf_nil : nodesOf [] = [] := rfl

@[simp]
theorem nodesOf_node (kind : NodeKind) (id : Nat) (rest : List Stamp) :
    nodesOf (.node kind id :: rest) = .node kind id :: nodesOf rest := rfl

@[simp]
theorem nodesOf_name (name : Name) (rest : List Stamp) :
    nodesOf (.name name :: rest) = nodesOf rest := rfl

@[simp]
theorem nodesOf_append (left right : List Stamp) :
    nodesOf (left ++ right) = nodesOf left ++ nodesOf right :=
  List.filter_append left right

@[simp]
theorem nodesOf_flatMap {α : Type} (items : List α) (stamps : α → List Stamp) :
    nodesOf (items.flatMap stamps) = items.flatMap fun item => nodesOf (stamps item) :=
  List.filter_flatMap

@[simp]
theorem nodesOf_map_name (names : List Name) : nodesOf (names.map .name) = [] := by
  induction names with
  | nil => rfl
  | cons name names ih => exact ih

end Stamp

/-! ### Trees are made of nodes -/

namespace SyntaxNode

def nodeStamps (node : SyntaxNode) : List Stamp := Stamp.nodesOf node.allStamps

theorem nodeStamps_eq (node : SyntaxNode) :
    node.nodeStamps = node.stamp :: node.parts.flatMap nodeStamps := by
  cases node with
  | expr e =>
      cases e <;> simp [nodeStamps, allStamps, stamp, kind, id, origin, Expr.origin, parts,
        Expr.parts, Expr.stampsAll_eq_flatMap, List.flatMap_map]
  | type t =>
      cases t <;> simp [nodeStamps, allStamps, stamp, kind, id, origin, TypeExpr.origin, parts,
        TypeExpr.parts]
  | stmt s =>
      cases s <;> simp [nodeStamps, allStamps, stamp, kind, id, origin, Stmt.head, parts, Stmt.parts,
        StmtHead.parts, Argument.part, Stmt.stampsAll_eq_flatMap, List.flatMap_map]
  | decl d =>
      cases d <;> simp [nodeStamps, allStamps, stamp, kind, id, origin, Decl.head, parts, Decl.parts,
        Param.parts, List.flatMap_map, List.flatMap_assoc]

theorem visits_eq (node : SyntaxNode) (depth : Nat) :
    node.visits depth = ⟨depth, node.kind, node.origin⟩ :: node.parts.flatMap (visits (depth + 1)) := by
  cases node with
  | expr e =>
      cases e <;> simp [visits, Expr.visits, kind, origin, Expr.origin, parts, Expr.parts,
        Expr.visitsAll_eq_flatMap, List.flatMap_map]
  | type t =>
      cases t <;> simp [visits, TypeExpr.visits, kind, origin, TypeExpr.origin, parts, TypeExpr.parts]
  | stmt s =>
      cases s <;> simp [visits, Stmt.visits, StmtHead.visits, visitsOfType, visitsOfExpr,
        visitsOfArguments, kind, origin, Stmt.head, parts, Stmt.parts, StmtHead.parts, Argument.part,
        Expr.visitsAll_eq_flatMap, Stmt.visitsAll_eq_flatMap, List.flatMap_map]
  | decl d =>
      cases d <;> simp [visits, Decl.visits, Decl.innerVisits, visitsOfType, visitsOfExpr,
        visitsOfParams, kind, origin, Decl.head, parts, Decl.parts, Param.parts,
        Stmt.visitsAll_eq_flatMap, List.flatMap_map, List.flatMap_assoc]

theorem length_nodeStamps_lt {node part : SyntaxNode} (hpart : part ∈ node.parts) :
    part.nodeStamps.length < node.nodeStamps.length := by
  have hsublist := (List.sublist_flatten_of_mem (List.mem_map_of_mem (f := nodeStamps) hpart)).length_le
  rw [nodeStamps_eq node, List.length_cons]
  exact Nat.lt_succ_of_le hsublist

/-- What holds of a node if it holds of its parts holds of all nodes. -/
@[elab_as_elim]
theorem partsInduction {motive : SyntaxNode → Prop}
    (step : ∀ node, (∀ part ∈ node.parts, motive part) → motive node) (node : SyntaxNode) :
    motive node :=
  step node fun part _ => partsInduction step part
termination_by node.nodeStamps.length
decreasing_by exact length_nodeStamps_lt (by assumption)

/-- The nodes of a tree, each as often as it is referred to. -/
def nodes (node : SyntaxNode) : List SyntaxNode :=
  node :: node.parts.attach.flatMap fun part => part.1.nodes
termination_by node.nodeStamps.length
decreasing_by exact length_nodeStamps_lt part.2

theorem nodes_eq (node : SyntaxNode) : node.nodes = node :: node.parts.flatMap nodes := by
  rw [nodes]
  simp [List.flatMap_subtype]

/-- One node is a proper part of another. -/
inductive Inside : SyntaxNode → SyntaxNode → Prop
  | part {node part : SyntaxNode} : part ∈ node.parts → Inside part node
  | deeper {node part inner : SyntaxNode} : part ∈ node.parts → Inside inner part → Inside inner node

theorem mem_nodes_self (node : SyntaxNode) : node ∈ node.nodes := by
  rw [nodes_eq]
  exact List.mem_cons_self

theorem mem_nodes_of_mem_parts {node part inner : SyntaxNode} (hpart : part ∈ node.parts)
    (hinner : inner ∈ part.nodes) : inner ∈ node.nodes := by
  rw [nodes_eq]
  exact List.mem_cons_of_mem _ (List.mem_flatMap.mpr ⟨part, hpart, hinner⟩)

theorem part_mem_nodes {node inner part : SyntaxNode} (hinner : inner ∈ node.nodes)
    (hpart : part ∈ inner.parts) : part ∈ node.nodes := by
  induction node using partsInduction with
  | step node ih =>
      rw [nodes_eq] at hinner
      rcases List.mem_cons.mp hinner with rfl | hdeeper
      · exact mem_nodes_of_mem_parts hpart part.mem_nodes_self
      · obtain ⟨other, hother, hmem⟩ := List.mem_flatMap.mp hdeeper
        exact mem_nodes_of_mem_parts hother (ih other hother hmem)

theorem map_stamp_nodes (node : SyntaxNode) : node.nodes.map stamp = node.nodeStamps := by
  induction node using partsInduction with
  | step node ih =>
      rw [nodes_eq, nodeStamps_eq, List.map_cons, List.map_flatMap]
      exact congrArg _ (List.flatMap_congr ih)

/-- A walk meets the nodes of a tree, one by one. -/
theorem map_visits (node : SyntaxNode) (depth : Nat) :
    (node.visits depth).map (fun visit => (visit.kind, visit.origin)) =
      node.nodes.map fun inner => (inner.kind, inner.origin) := by
  induction node using partsInduction generalizing depth with
  | step node ih =>
      rw [nodes_eq, visits_eq, List.map_cons, List.map_cons, List.map_flatMap, List.map_flatMap]
      exact congrArg _ (List.flatMap_congr fun part hpart => ih part hpart (depth + 1))

end SyntaxNode

namespace Program

variable {program : Program}

/-- The nodes of a program, each as often as it is referred to. -/
def nodes (program : Program) : List SyntaxNode :=
  program.decls.flatMap fun decl => (SyntaxNode.decl decl).nodes

theorem Reaches.of_mem_nodes {node inner : SyntaxNode} (hnode : program.Reaches node)
    (hinner : inner ∈ node.nodes) : program.Reaches inner := by
  induction node using SyntaxNode.partsInduction with
  | step node ih =>
      rw [SyntaxNode.nodes_eq] at hinner
      rcases List.mem_cons.mp hinner with rfl | hdeeper
      · exact hnode
      · obtain ⟨part, hpart, hmem⟩ := List.mem_flatMap.mp hdeeper
        exact ih part hpart (hnode.part hpart) hmem

theorem mem_nodes_iff {node : SyntaxNode} : node ∈ program.nodes ↔ program.Reaches node := by
  constructor
  · intro hnode
    obtain ⟨decl, hdecl, hmem⟩ := List.mem_flatMap.mp hnode
    exact (Reaches.decl hdecl).of_mem_nodes hmem
  · intro hnode
    induction hnode with
    | @decl decl hdecl => exact List.mem_flatMap.mpr ⟨decl, hdecl, SyntaxNode.mem_nodes_self _⟩
    | part _ hpart ih =>
        obtain ⟨decl, hdecl, hmem⟩ := List.mem_flatMap.mp ih
        exact List.mem_flatMap.mpr ⟨decl, hdecl, SyntaxNode.part_mem_nodes hmem hpart⟩

theorem map_stamp_nodes (program : Program) :
    program.nodes.map SyntaxNode.stamp = Stamp.nodesOf program.stamps := by
  simp [nodes, Program.stamps, List.map_flatMap, SyntaxNode.map_stamp_nodes, SyntaxNode.nodeStamps,
    SyntaxNode.allStamps]

theorem map_visits (program : Program) :
    program.visits.map (fun visit => (visit.kind, visit.origin)) =
      program.nodes.map fun node => (node.kind, node.origin) := by
  rw [Program.visits, nodes, List.map_flatMap, List.map_flatMap]
  exact List.flatMap_congr fun decl _ => SyntaxNode.map_visits (.decl decl) 0

end Program

/-! ### Nodes of an arena -/

/-- What an arena has under a number. -/
def Arena.node? (arena : Arena) : NodeKind → Nat → Option SyntaxNode
  | .expr, id => arena.exprs[id]?.map .expr
  | .type, id => arena.types[id]?.map .type
  | .stmt, id => arena.stmts[id]?.map .stmt
  | .decl, id => arena.decls[id]?.map .decl

/-- The arena has the node under the node's number. -/
def Arena.Holds (arena : Arena) (node : SyntaxNode) : Prop :=
  arena.node? node.kind node.id = some node

theorem Arena.Holds.lt_size {arena : Arena} {node : SyntaxNode} (h : arena.Holds node) :
    node.id < arena.size node.kind := by
  cases node
  all_goals
    obtain ⟨found, hfound, -⟩ := Option.map_eq_some_iff.mp h
    exact (Array.getElem?_eq_some_iff.mp hfound).1

namespace Stmt

/-- The name of the node that a statement calls. -/
def callee? : Stmt → Option Name
  | .leaf _ callee _ | .compound _ callee _ _ => some callee
  | _ => none

/-- The arguments of a node, where there is a list of them. -/
def arguments? : Stmt → Option (List Argument)
  | .leaf _ _ arguments => some arguments
  | .compound _ _ arguments _ => arguments
  | _ => none

/-- The children of a node, where there is a block of them. -/
def children? : Stmt → Option (List Stmt)
  | .compound _ _ _ children => some children
  | _ => none

end Stmt

def Expr.IsArray : Expr → Prop
  | .array .. | .repeated .. => True
  | _ => False

def TypeExpr.IsNullable : TypeExpr → Prop
  | .nullable .. => True
  | _ => False

namespace SyntaxNode

/-- What kinds of parts a node has. -/
def Shaped : SyntaxNode → Prop
  | .expr (.vec _ inner) => inner.IsArray
  | .type (.nullable _ inner) => ¬inner.IsNullable
  | .stmt s => s.callee?.isSome → s.arguments?.isSome ∨ s.children?.isSome
  | _ => True

theorem shaped_of_plain {type : TypeExpr} (h : ¬type.IsNullable) : Shaped (.type type) := by
  cases type with
  | nullable _ inner => exact (h trivial).elim
  | _ => trivial

/-- A node comes behind all nodes of its kind that are in it. -/
def Ordered (node : SyntaxNode) : Prop :=
  ∀ inner, Inside inner node → inner.kind = node.kind → inner.id < node.id

end SyntaxNode

/-! ### Forests -/

/-- The arena is a forest, programs or not. It has a node for each of its numbers. What a node
refers to is there, is referred to by no other node and but once by this one, and stands in front of
the node. -/
structure Arena.IsForest (arena : Arena) : Prop where
  numbered : ∀ kind id, id < arena.size kind → ∃ node, arena.Holds node ∧ node.kind = kind ∧ node.id = id
  closed : ∀ node, arena.Holds node → ∀ part ∈ node.parts, arena.Holds part
  parts : ∀ node, arena.Holds node → (node.parts.map SyntaxNode.stamp).Nodup
  parent : ∀ node other part part', arena.Holds node → arena.Holds other → part ∈ node.parts →
    part' ∈ other.parts → part.stamp = part'.stamp → node = other
  ordered : ∀ node, arena.Holds node → node.Ordered
  shaped : ∀ node, arena.Holds node → node.Shaped

/-- Nothing in the arena refers to the node. -/
def Arena.Frees (arena : Arena) (node : SyntaxNode) : Prop :=
  ∀ other, arena.Holds other → node.stamp ∉ other.parts.map SyntaxNode.stamp

/-- The program is made of trees of the arena. Each of its nodes is the one that the arena has under
its number, nothing but the program refers to its declarations, and a walk meets just the nodes that
can be reached, none of them twice. -/
structure Program.IsForest (program : Program) (arena : Arena) : Prop where
  held : ∀ node, program.Reaches node → arena.Holds node
  bounded : ∀ node, program.Reaches node → node.id < arena.size node.kind
  roots : (program.decls.map Decl.id).Nodup
  free : ∀ decl ∈ program.decls, arena.Frees (.decl decl)
  once : (program.visits.map fun visit => (visit.kind, visit.origin.id)).Nodup
  met : ∀ kind origin, (∃ depth, ⟨depth, kind, origin⟩ ∈ program.visits) ↔
    ∃ node, program.Reaches node ∧ node.kind = kind ∧ node.origin = origin

theorem Arena.IsForest.empty : Arena.empty.IsForest := by
  have hnothing : ∀ node, ¬Arena.empty.Holds node := by
    intro node hnode
    have hlt := hnode.lt_size
    cases node <;> exact absurd hlt (Nat.not_lt_zero _)
  constructor
  case numbered =>
    intro kind id hid
    cases kind <;> exact absurd hid (Nat.not_lt_zero _)
  all_goals
    intro node
    intros
    exact (hnothing node (by assumption)).elim

/-- Whatever is in a node that refers to nodes of a forest is one of its nodes. -/
theorem Arena.IsForest.holds_inside {arena : Arena} (hforest : arena.IsForest)
    {node inner : SyntaxNode} (hparts : ∀ part ∈ node.parts, arena.Holds part)
    (hinside : SyntaxNode.Inside inner node) : arena.Holds inner := by
  induction hinside with
  | part hpart => exact hparts _ hpart
  | deeper hpart _ ih => exact ih (hforest.closed _ (hparts _ hpart))

namespace Program

variable {program : Program} {arena : Arena}

theorem Reaches.held {node : SyntaxNode} (h : program.Reaches node) (hforest : arena.IsForest)
    (hdecls : ∀ decl ∈ program.decls, arena.Holds (.decl decl)) : arena.Holds node := by
  induction h with
  | decl hdecl => exact hdecls _ hdecl
  | part _ hpart ih => exact hforest.closed _ ih _ hpart

theorem map_stamp_visits (program : Program) :
    program.visits.map (fun visit => Stamp.node visit.kind visit.origin.id) =
      Stamp.nodesOf program.stamps := by
  have hmet := congrArg (List.map fun met : NodeKind × Origin => Stamp.node met.1 met.2.id)
    program.map_visits
  rw [List.map_map, List.map_map] at hmet
  exact hmet.trans program.map_stamp_nodes

theorem nodup_visits (hnodup : (Stamp.nodesOf program.stamps).Nodup) :
    (program.visits.map fun visit => (visit.kind, visit.origin.id)).Nodup := by
  rw [← map_stamp_visits] at hnodup
  refine List.Nodup.of_map (fun met : NodeKind × Nat => Stamp.node met.1 met.2) ?_
  rw [List.map_map]
  exact hnodup

theorem met_iff (kind : NodeKind) (origin : Origin) :
    (∃ depth, ⟨depth, kind, origin⟩ ∈ program.visits) ↔
      ∃ node, program.Reaches node ∧ node.kind = kind ∧ node.origin = origin := by
  have hmem : (kind, origin) ∈ program.visits.map (fun visit => (visit.kind, visit.origin)) ↔
      (kind, origin) ∈ program.nodes.map fun node => (node.kind, node.origin) := by
    rw [map_visits]
  constructor
  · rintro ⟨depth, hvisit⟩
    obtain ⟨node, hnode, heq⟩ := List.mem_map.mp (hmem.mp (List.mem_map.mpr ⟨_, hvisit, rfl⟩))
    obtain ⟨rfl, rfl⟩ := Prod.mk.inj heq
    exact ⟨node, mem_nodes_iff.mp hnode, rfl, rfl⟩
  · rintro ⟨node, hnode, rfl, rfl⟩
    obtain ⟨⟨depth, kind, origin⟩, hvisit, heq⟩ :=
      List.mem_map.mp (hmem.mpr (List.mem_map.mpr ⟨node, mem_nodes_iff.mpr hnode, rfl⟩))
    obtain ⟨rfl, rfl⟩ := Prod.mk.inj heq
    exact ⟨depth, hvisit⟩

end Program

end BehaviorTree
