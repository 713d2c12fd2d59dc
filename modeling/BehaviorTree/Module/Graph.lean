import BehaviorTree.Module

/-!
The modules of a session in the order of loading, and the order in which each module comes behind
what it imports.
-/

namespace BehaviorTree

structure ModuleGraph where
  modules : List Module

namespace ModuleGraph

def empty : ModuleGraph := ⟨[]⟩

def size (graph : ModuleGraph) : Nat := graph.modules.length

def ids (graph : ModuleGraph) : List Nat := List.range graph.size

def get? (graph : ModuleGraph) (id : Nat) : Option Module := graph.modules[id]?

/-- The number of the module at a path. -/
def find? (graph : ModuleGraph) (path : Path) : Option Nat :=
  graph.modules.findIdx? fun module => module.path.same path

/-- Adds a module, unless there is one at its path. -/
def insert (graph : ModuleGraph) (module : Module) : ModuleGraph :=
  if (graph.find? module.path).isSome then graph else ⟨graph.modules ++ [module]⟩

def modify (graph : ModuleGraph) (id : Nat) (change : Module → Module) : ModuleGraph :=
  ⟨graph.modules.modify id change⟩

/-- The state of a module; one that is not there counts as unvisited. -/
def state (graph : ModuleGraph) (id : Nat) : ModuleState :=
  ((graph.get? id).map Module.state).getD .unvisited

def setState (graph : ModuleGraph) (id : Nat) (state : ModuleState) : ModuleGraph :=
  graph.modify id fun module => { module with state }

def addImport (graph : ModuleGraph) (id : Nat) (edge : ImportEdge) : ModuleGraph :=
  graph.modify id fun module => { module with imports := module.imports ++ [edge] }

/-- The modules that a module imports itself. -/
def directImports (graph : ModuleGraph) (id : Nat) : List Nat :=
  ((graph.get? id).map fun module => module.imports.map ImportEdge.target).getD []

@[simp]
theorem size_modify (graph : ModuleGraph) (id : Nat) (change : Module → Module) :
    (graph.modify id change).size = graph.size := by
  simp [size, modify]

/-- The modules met so far, and those among them whose imports have all been met. -/
structure Tour where
  met : List Nat
  order : List Nat

/-- Visits the imports of a module, then the module itself, along paths of at most `depth` imports. -/
def tourFrom (graph : ModuleGraph) : (depth : Nat) → Nat → Tour → Tour
  | 0, _, tour => tour
  | depth + 1, id, tour =>
    if graph.size ≤ id || tour.met.contains id then tour
    else
      let inner := (graph.directImports id).foldl (fun tour target => tourFrom graph depth target tour)
        { tour with met := id :: tour.met }
      { inner with order := inner.order ++ [id] }

/-- All modules, each behind those that it imports, as far as there is no cycle. -/
def topologicalOrder (graph : ModuleGraph) : List Nat :=
  (graph.ids.foldl (fun tour id => graph.tourFrom (graph.size + 1) id tour) ⟨[], []⟩).order

/-- The modules in that order. -/
def inDependencyOrder (graph : ModuleGraph) : List Module :=
  graph.topologicalOrder.filterMap graph.get?

end ModuleGraph

end BehaviorTree
