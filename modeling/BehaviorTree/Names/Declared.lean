import BehaviorTree.Names.Table
import BehaviorTree.Program

/-!
The types and nodes that a module declares. Both are flat tables; nodes declared outside the
language and trees share one.
-/

namespace BehaviorTree

/-- What a type is declared as. The type that an alias stands for is not kept here: it stands in the
declaration, and no name is looked up through an alias. -/
inductive TypeKind
  | foreign
  | alias
  deriving DecidableEq

structure DeclaredType where
  kind : TypeKind
  decl : Origin
  range : SourceRange
  deriving DecidableEq

inductive DeclaredNodeKind
  | foreign (category : NodeCategory) (behavior : Option Behavior)
  | tree
  deriving DecidableEq

def DeclaredNodeKind.describe : DeclaredNodeKind → String
  | foreign .. => "extern node"
  | tree => "tree"

structure DeclaredNode where
  kind : DeclaredNodeKind
  decl : Origin
  range : SourceRange
  deriving DecidableEq

/-- The trees of a table of nodes, in the order of declaration. -/
def treeNames (nodes : Table DeclaredNode) : List String :=
  (nodes.entries.filter fun entry => entry.2.kind == .tree).map Prod.fst

end BehaviorTree
