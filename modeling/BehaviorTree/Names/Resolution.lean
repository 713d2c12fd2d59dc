import BehaviorTree.Names.Collection
import BehaviorTree.Names.Event

/-!
What each name of a module means. A value is looked up in the open scopes, a node in the table of
the module, a type among the builtin ones and then in the table of the module. What is not found
there is looked up in the modules that are imported directly. A name that several of them declare
is never settled by their order, and one that starts with `_` does not leave its module.
-/

namespace BehaviorTree

def NameUse.names : NameUse → Namespace
  | value | assignment => .value
  | node => .node
  | type => .type

/-- A declaration that an import makes visible. -/
structure ImportedName where
  /-- The position of the import among those of the module. -/
  position : Nat
  edge : ImportEdge
  index : Nat

namespace ImportedName

def target (imported : ImportedName) : Target := ⟨imported.edge.target, imported.index⟩

end ImportedName

/-- The declarations of a name in the modules that a module imports directly. -/
def ModuleGraph.importedNames (graph : ModuleGraph) (imports : List ImportEdge)
    (namesOf : Namespace) (name : String) : List ImportedName :=
  imports.zipIdx.filterMap fun (edge, position) =>
    ((graph.get? edge.target).bind (·.declared? namesOf name)).map fun index =>
      ⟨position, edge, index⟩

/-- The first module that declares a name openly and is neither `id` itself nor imported by it. -/
def ModuleGraph.ownerElsewhere? (graph : ModuleGraph) (id : Nat) (module : Module)
    (namesOf : Namespace) (name : String) : Option Module :=
  if isPrivate name then none
  else
    (graph.modules.zipIdx.find? fun (other, otherId) =>
      otherId != id && !module.importsModule otherId && (other.declared? namesOf name).isSome).map
    Prod.fst

/-- The state in which the names of a module are looked at one after another. -/
structure Naming where
  symbols : SymbolTable
  resolutions : Resolutions
  /-- The positions of the imports that a name was found in. -/
  used : List Nat
  diagnostics : List Diagnostic

namespace Naming

def initial (module : Module) : Naming := ⟨module.symbols, .empty, [], []⟩

def report (state : Naming) (diagnostic : Diagnostic) : Naming :=
  { state with diagnostics := state.diagnostics ++ [diagnostic] }

def record (state : Naming) (purpose : NameUse) (origin : Origin) (target : Target) : Naming :=
  let known := state.resolutions
  match purpose with
  | .value => { state with resolutions := { known with values := known.values ++ [(origin, target)] } }
  | .assignment =>
    { state with resolutions := { known with assignments := known.assignments ++ [(origin, target)] } }
  | .node => { state with resolutions := { known with nodes := known.nodes ++ [(origin, target)] } }
  | .type =>
    { state with resolutions := { known with types := known.types ++ [(origin, .declared target)] } }

def recordBuiltin (state : Naming) (origin : Origin) (type : BuiltinType) : Naming :=
  let known := state.resolutions
  { state with resolutions := { known with types := known.types ++ [(origin, .builtin type)] } }

/-- Looks a name up in the modules that are imported directly. -/
def useImported (graph : ModuleGraph) (id : Nat) (module : Module) (state : Naming)
    (purpose : NameUse) (origin : Origin) (name : Name) : Naming :=
  let found := graph.importedNames module.imports purpose.names name.text
  let state := { state with used := state.used ++ found.map ImportedName.position }
  match found with
  | [] =>
    state.report (NameReport.undeclaredName purpose.names name
      (graph.ownerElsewhere? id module purpose.names name.text))
  | first :: others =>
    if isPrivate name.text then state.report (NameReport.privateName name first.edge)
    else if others.isEmpty then state.record purpose origin first.target
    else state.report (NameReport.ambiguousName name (found.map ImportedName.edge))

/-- The index that a name has in the module itself. -/
def own? (module : Module) (state : Naming) (purpose : NameUse) (name : String) : Option Nat :=
  match purpose with
  | .value | .assignment => state.symbols.lookup name
  | .node => module.nodes.indexOf? name
  | .type => module.types.indexOf? name

/-- The builtin type that a name means. -/
def builtin? (purpose : NameUse) (name : String) : Option BuiltinType :=
  match purpose with
  | .type => BuiltinType.ofName? name
  | _ => none

def use (graph : ModuleGraph) (id : Nat) (module : Module) (state : Naming) (purpose : NameUse)
    (origin : Origin) (name : Name) : Naming :=
  match builtin? purpose name.text with
  | some type => state.recordBuiltin origin type
  | none =>
    match own? module state purpose name.text with
    | some index => state.record purpose origin ⟨id, index⟩
    | none => useImported graph id module state purpose origin name

def declare (state : Naming) (kind : SymbolKind) (name : Name) : Naming :=
  match state.symbols.define name.text kind name.range with
  | .ok symbols => { state with symbols }
  | .error earlier =>
    state.report (NameReport.duplicate kind.describe name (state.symbols.rangeOf earlier))

def step (graph : ModuleGraph) (id : Nat) (module : Module) (state : Naming) : NameEvent → Naming
  | .use purpose origin name => use graph id module state purpose origin name
  | .textType origin => state.recordBuiltin origin .string
  | .declare kind name => state.declare kind name
  | .enter kind => { state with symbols := state.symbols.enter kind }
  | .leave => { state with symbols := state.symbols.exit }

/-- The imports of a module that no name was found in. -/
def unusedImports (module : Module) (state : Naming) : List ImportEdge :=
  (module.imports.zipIdx.filter fun (_, position) => !state.used.contains position).map Prod.fst

end Naming

/-- Looks at all names of a module. -/
def Module.naming (graph : ModuleGraph) (id : Nat) (module : Module) : Naming :=
  module.program.nameEvents.foldl (Naming.step graph id module) (.initial module)

/-- The module with the meaning of its names, and what is reported about them. -/
def Module.withNames (graph : ModuleGraph) (id : Nat) (module : Module) :
    Module × List Diagnostic :=
  let state := module.naming graph id
  ({ module with symbols := state.symbols, resolutions := state.resolutions },
    state.diagnostics ++ (state.unusedImports module).map NameReport.unusedImport)

/-- Enters the declarations of all modules, then looks at the names of each. -/
def ModuleGraph.resolveNames (graph : ModuleGraph) : ModuleGraph × List Diagnostic :=
  let (collected, duplicates) := graph.collectNames
  let results := collected.modules.mapIdx fun id module => module.withNames collected id
  (⟨results.map Prod.fst⟩, duplicates ++ results.flatMap Prod.snd)

end BehaviorTree
