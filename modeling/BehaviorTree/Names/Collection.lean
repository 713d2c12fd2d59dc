import BehaviorTree.Names.Report

/-!
Entering what a module declares at its top into its tables. The first declaration of a name stands,
every other one is reported, and a type cannot have the name of a builtin type.
-/

namespace BehaviorTree

/-- A module whose declarations are being entered, and what was reported on the way. -/
structure Collected where
  module : Module
  diagnostics : List Diagnostic

namespace Collected

def report (state : Collected) (diagnostic : Diagnostic) : Collected :=
  { state with diagnostics := state.diagnostics ++ [diagnostic] }

def addNode (state : Collected) (name : Name) (entry : DeclaredNode) : Collected :=
  match state.module.nodes.define name.text entry with
  | .ok nodes => { state with module := { state.module with nodes } }
  | .error earlier => state.report (NameReport.duplicate earlier.kind.describe name earlier.range)

def addType (state : Collected) (name : Name) (entry : DeclaredType) : Collected :=
  if (BuiltinType.ofName? name.text).isSome then state.report (NameReport.redeclaredBuiltin name)
  else match state.module.types.define name.text entry with
    | .ok types => { state with module := { state.module with types } }
    | .error earlier => state.report (NameReport.duplicate "type" name earlier.range)

def addGlobal (state : Collected) (name : Name) (kind : SymbolKind) : Collected :=
  match state.module.symbols.define name.text kind name.range with
  | .ok symbols => { state with module := { state.module with symbols } }
  | .error earlier =>
    state.report (NameReport.duplicate kind.describe name (state.module.symbols.rangeOf earlier))

def addDecl (state : Collected) : Decl → Collected
  | .importFile .. => state
  | .node head category name _ behavior =>
    state.addNode name ⟨.foreign category behavior, head.origin, name.range⟩
  | .tree head name .. => state.addNode name ⟨.tree, head.origin, name.range⟩
  | .opaqueType head name => state.addType name ⟨.foreign, head.origin, name.range⟩
  | .typeAlias head name _ => state.addType name ⟨.alias, head.origin, name.range⟩
  | .varDecl head name .. => state.addGlobal name (.globalVar head.origin)
  | .constDecl head name .. => state.addGlobal name (.globalConst head.origin)

end Collected

/-- Enters the declarations of a module in the order of the source. -/
def Module.collected (module : Module) : Collected :=
  module.program.decls.foldl Collected.addDecl ⟨module, []⟩

/-- Enters the declarations of all modules. -/
def ModuleGraph.collectNames (graph : ModuleGraph) : ModuleGraph × List Diagnostic :=
  let results := graph.modules.map Module.collected
  (⟨results.map Collected.module⟩, results.flatMap Collected.diagnostics)

end BehaviorTree
