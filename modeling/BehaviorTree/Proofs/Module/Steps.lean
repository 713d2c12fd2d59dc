import BehaviorTree.Module.Loading

/-!
# The steps of loading

The import declarations in the order in which their turns come, each with the state of loading at
that moment, and what can become of one of them.
-/

namespace BehaviorTree

open ModuleGraph

namespace ImportContext

/-- The canonical path that an import in a file of a directory leads to. -/
def locate? (context : ImportContext) (directory : Path) (raw : String) : Option Path :=
  match resolveImportPath context.packages directory raw with
  | .error _ => none
  | .ok candidate => (context.system.canonical candidate).toOption

end ImportContext

/-- An import declaration whose turn has come: the module that has it and the state of loading. -/
structure ImportStep where
  importer : Nat
  request : ImportRequest
  state : Loading

namespace ImportStep

/-- The module at the path that the import leads to, if there is one by now. -/
def target? (context : ImportContext) (step : ImportStep) : Option Nat := do
  let importer ← step.state.graph.get? step.importer
  let path ← context.locate? importer.path.parent step.request.path
  step.state.graph.find? path

/-- The module that the import leads back to, if that one is being loaded still. -/
def circular? (context : ImportContext) (step : ImportStep) : Option Nat :=
  (step.target? context).filter fun target => step.state.graph.state target = .resolving

/-- The report on an import that leads back to a module that is being loaded. -/
def cycle? (context : ImportContext) (step : ImportStep) : Option Diagnostic :=
  (step.circular? context).map fun target =>
    ImportReport.cycle step.request (step.state.cycleFrom target)

end ImportStep

namespace Loading

/-- The steps while the imports of the module `id` are followed; `inner` are those of loading a
file. -/
def stepsAlong (context : ImportContext) (load : Loader) (inner : Path → Loading → List ImportStep)
    (id : Nat) (directory : Path) : List ImportRequest → Loading → List ImportStep
  | [], _ => []
  | request :: requests, state =>
    ⟨id, request, state⟩ ::
      ((context.locate? directory request.path).elim [] (inner · state) ++
        stepsAlong context load inner id directory requests
          (followAll context load id directory [request] state))

/-- The steps of loading the file at a canonical path and what it imports. -/
def steps (context : ImportContext) : (depth : Nat) → Path → Loading → List ImportStep
  | 0, _, _ => []
  | depth + 1, path, state =>
    match state.graph.find? path, context.system.contents path with
    | none, .ok text =>
      let (program, entered) := state.enter path text
      stepsAlong context (loadUpTo context depth) (steps context depth) state.graph.size path.parent
        program.importRequests entered
    | _, _ => []

variable {context : ImportContext} {state later : Loading} {load : Loader} {directory path : Path}
  {request : ImportRequest} {id target : Nat} {module : Module}

/-- Nothing is loaded where there is a module already. -/
theorem steps_of_find? (depth : Nat) (hfind : state.graph.find? path = some target) :
    steps context depth path state = [] := by
  cases depth with
  | zero => rfl
  | succ depth => rw [steps, hfind]

theorem steps_of_unreadable (depth : Nat)
    (hunreadable : ¬∃ text, context.system.contents path = .ok text) :
    steps context depth path state = [] := by
  cases depth with
  | zero => rfl
  | succ depth =>
      unfold steps
      split
      · rename_i text _ hcontents
        exact absurd ⟨text, hcontents⟩ hunreadable
      · rfl

/-- What becomes of an import declaration of the module `id`. -/
inductive Outcome (context : ImportContext) (load : Loader) (id : Nat) (directory : Path)
    (request : ImportRequest) (state : Loading) : Loading → Prop
  | lost {diagnostic : Diagnostic} : context.locate? directory request.path = none →
    diagnostic.code ≠ some Code.importCycle →
    Outcome context load id directory request state (state.report diagnostic)
  | circular {path : Path} {target : Nat} :
    context.locate? directory request.path = some path →
    state.graph.find? path = some target → state.graph.state target = .resolving →
    Outcome context load id directory request state
      (state.report (ImportReport.cycle request (state.cycleFrom target)))
  | known {path : Path} {target : Nat} : context.locate? directory request.path = some path →
    state.graph.find? path = some target → state.graph.state target ≠ .resolving →
    Outcome context load id directory request state (state.link id request target)
  | loaded {path : Path} {target : Nat} {later : Loading} :
    context.locate? directory request.path = some path → state.graph.find? path = none →
    load path state = (.ok target, later) →
    Outcome context load id directory request state (later.link id request target)
  | unreadable {path : Path} {error : SourceError} {later : Loading} :
    context.locate? directory request.path = some path → state.graph.find? path = none →
    load path state = (.error error, later) →
    Outcome context load id directory request state
      (later.report (ImportReport.unreadable request error))

theorem outcome (context : ImportContext) (load : Loader) (id : Nat) (directory : Path)
    (request : ImportRequest) (state : Loading) :
    Outcome context load id directory request state
      (followAll context load id directory [request] state) := by
  simp only [followAll, List.foldl_cons, List.foldl_nil]
  unfold follow
  cases hrule : resolveImportPath context.packages directory request.path with
  | error error =>
      refine .lost ?_ (by rw [ImportReport.code_brokenRule]; simp [Code.invalidImportPath, Code.importCycle])
      rw [ImportContext.locate?, hrule]
  | ok candidate =>
      dsimp only
      cases hcanonical : context.system.canonical candidate with
      | error fault =>
          refine .lost ?_ (by
            simp [ImportReport.notFound, Diagnostic.withNote, Diagnostic.withLabel,
              Diagnostic.withCode, Code.moduleNotFound, Code.importCycle])
          rw [ImportContext.locate?, hrule]
          dsimp only
          rw [hcanonical]
          rfl
      | ok path =>
          have hlocated : context.locate? directory request.path = some path := by
            rw [ImportContext.locate?, hrule]
            dsimp only
            rw [hcanonical]
            rfl
          dsimp only
          unfold followTo
          cases hfind : state.graph.find? path with
          | some target =>
              dsimp only
              by_cases hresolving : state.graph.state target = .resolving
              · rw [if_pos hresolving]
                exact .circular hlocated hfind hresolving
              · rw [if_neg hresolving]
                exact .known hlocated hfind hresolving
          | none =>
              dsimp only
              cases hload : load path state with
              | mk result later =>
                  cases result with
                  | ok target => exact .loaded hlocated hfind hload
                  | error error => exact .unreadable hlocated hfind hload

end Loading

end BehaviorTree
