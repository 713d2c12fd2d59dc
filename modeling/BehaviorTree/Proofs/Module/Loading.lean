import BehaviorTree.Proofs.FileSystem.Canonical
import BehaviorTree.Proofs.Module.LoadingRun
import BehaviorTree.Proofs.Parsing.Accounting

/-!
# Loading a program

Main statements: loading an entry file builds one module for each readable file that the entry leads
to, with an edge for each import that was followed and no cycle among the edges; and which of the
modules have failed.
-/

namespace BehaviorTree

open ModuleGraph

/-- The graph holds all that an entry leads to, each file read once, and its edges have no cycle. -/
structure ImportContext.Complete (context : ImportContext) (entry : Path)
    (files : List SourceFile) (graph : ModuleGraph) : Prop where
  /-- No file is read twice, and there is a module for each reading. -/
  readOnce : (files.map fun file => file.path.components).Nodup
  numbered : files.length = graph.size
  read : ∀ i module, graph.get? i = some module →
    context.ReadsAs files i module ∧ module.file = .registered i
  first : ∃ module, graph.get? 0 = some module ∧ context.system.canonical entry = .ok module.path
  modules : ∀ path, (∃ module ∈ graph.modules, module.path = path) ↔ context.Reachable entry path
  recorded : ∀ module ∈ graph.modules, ∀ edge ∈ module.imports,
    ∃ target, context.Records graph module edge target
  single : ∀ module ∈ graph.modules, (module.imports.map ImportEdge.target).Nodup
  noLoop : ∀ i, ¬ graph.Imports i i
  acyclic : ∀ i, ¬ Relation.TransGen graph.Imports i i
  finished : ∀ module ∈ graph.modules, module.Finished

namespace Loading

variable {context : ImportContext} {entry path : Path} {state later loaded : Loading}
  {directory : Path} {i id : Nat} {module : Module}

theorem sound_initial : Sound context entry (.initial directory) where
  invariant := LoadingInvariant.empty
  spans := by
    rintro i ⟨module, hmodule, -⟩
    cases hmodule

/-- What an entry file makes of a fresh session: a module number 0 and all that it leads to. -/
theorem entered_of_loadEntry (hspells : context.system.SpellsOnce)
    (hloaded : loadEntry context entry (.initial directory) = (some id, loaded)) :
    ∃ path, context.system.canonical entry = .ok path ∧ id = 0 ∧
      Entered context entry path (.initial directory) loaded := by
  unfold loadEntry at hloaded
  cases hcanonical : context.system.canonical entry with
  | error fault =>
      rw [hcanonical] at hloaded
      cases hloaded
  | ok path =>
      rw [hcanonical] at hloaded
      dsimp only at hloaded
      have hresult : Loaded context entry path (.initial directory)
          (load context path (.initial directory)) := by
        apply loads_loadUpTo hspells _ _ _ sound_initial rfl (.entry hcanonical)
        omega
      generalize load context path (.initial directory) = result at hresult hloaded
      cases hresult with
      | entered hentered =>
          cases hloaded
          exact ⟨path, rfl, rfl, hentered⟩
      | unreadable _ => cases hloaded

/-- Every module that the entry leads to is there. -/
theorem Sound.complete (hsound : loaded.Sound context entry)
    (hfirst : ∃ module ∈ loaded.graph.modules, context.system.canonical entry = .ok module.path)
    (hfinished : ∀ module ∈ loaded.graph.modules, module.Finished)
    (hreachable : context.Reachable entry path) :
    ∃ module ∈ loaded.graph.modules, module.path = path := by
  induction hreachable with
  | entry hcanonical _ =>
      obtain ⟨module, hmodule, hpath⟩ := hfirst
      rw [hcanonical] at hpath
      exact ⟨module, hmodule, (Except.ok.inj hpath).symm⟩
  | @imported importer path text raw _ hcontents hraw hleads hreadable ih =>
      obtain ⟨module, hmodule, rfl⟩ := ih
      obtain ⟨i, hi⟩ := exists_get?_of_mem hmodule
      have hinvariant := hsound.invariant.modules i module hi
      obtain ⟨other, arena, hother, hprogram, -⟩ := hinvariant.read
      rw [hother] at hcontents
      cases hcontents
      rw [← importPaths_ofText (.registered i) text arena, ← hprogram] at hraw
      obtain ⟨request, hrequest, rfl⟩ := List.mem_map.mp hraw
      exact hinvariant.complete (hfinished module hmodule) request hrequest path hleads hreadable

theorem Entered.finished (hentered : Entered context entry path (.initial directory) loaded) :
    ∀ module ∈ loaded.graph.modules, module.Finished := by
  intro module hmodule
  obtain ⟨i, hi⟩ := exists_get?_of_mem hmodule
  exact hentered.grown.finished i module hi (Nat.zero_le i)

/-- The files are those of the modules. -/
theorem Sound.files_eq (hsound : loaded.Sound context entry) :
    loaded.session.sources.files.map SourceFile.path = loaded.graph.modules.map Module.path := by
  apply List.ext_getElem?
  intro i
  rw [List.getElem?_map, List.getElem?_map]
  by_cases hi : i < loaded.graph.size
  · obtain ⟨module, hmodule⟩ := exists_get?_of_lt hi
    obtain ⟨text, arena, -, -, hfile⟩ := (hsound.invariant.modules i module hmodule).read
    rw [hfile, show loaded.graph.modules[i]? = some module from hmodule]
    rfl
  · have hfiles := hsound.invariant.numbered
    rw [List.getElem?_eq_none (by omega), List.getElem?_eq_none (Nat.le_of_not_lt hi)]
    rfl

/-- **Loading is complete.** If the entry can be loaded it becomes module number 0, the modules are
the readable files that it leads to, and the imports that were recorded have no cycle. -/
theorem loadEntry_complete (hspells : context.system.SpellsOnce)
    (hloaded : loadEntry context entry (.initial directory) = (some id, loaded)) :
    id = 0 ∧ context.Complete entry loaded.session.sources.files loaded.graph := by
  obtain ⟨path, hcanonical, rfl, hentered⟩ := entered_of_loadEntry hspells hloaded
  have hsound := hentered.sound
  obtain ⟨first, hfirst, rfl⟩ := hentered.here
  have hacyclic : ∀ i, ¬ Relation.TransGen loaded.graph.Imports i i := by
    intro i hcycle
    obtain ⟨j, himports, -⟩ := Relation.TransGen.head'_iff.mp hcycle
    obtain ⟨module, hmodule, -⟩ := himports
    have hdone : loaded.graph.FinishedAt i :=
      ⟨module, hmodule, hentered.finished module (mem_of_get? hmodule)⟩
    exact (hsound.invariant.grounded i hdone).acyclic hcycle
  refine ⟨rfl, ?_⟩
  constructor
  case readOnce =>
    have hpaths := congrArg (List.map Path.components) hsound.files_eq
    rw [List.map_map, List.map_map] at hpaths
    exact hpaths ▸ hsound.invariant.distinct
  case numbered => exact hsound.invariant.numbered
  case read =>
    intro i module hmodule
    have hread := (hsound.invariant.modules i module hmodule).read
    refine ⟨hread, ?_⟩
    obtain ⟨text, arena, -, hprogram, -⟩ := hread
    unfold Module.file
    rw [hprogram, Parsed.ofText_file]
  case first => exact ⟨first, hfirst, hcanonical⟩
  case modules =>
    intro path
    constructor
    · rintro ⟨module, hmodule, rfl⟩
      obtain ⟨i, hi⟩ := exists_get?_of_mem hmodule
      exact hsound.reachable hi
    · exact hsound.complete ⟨first, mem_of_get? hfirst, hcanonical⟩ hentered.finished
  case recorded =>
    intro module hmodule edge hedge
    obtain ⟨i, hi⟩ := exists_get?_of_mem hmodule
    obtain ⟨target, -, hrecords⟩ := (hsound.invariant.modules i module hi).recorded edge hedge
    exact ⟨target, hrecords⟩
  case single =>
    intro module hmodule
    obtain ⟨i, hi⟩ := exists_get?_of_mem hmodule
    exact (hsound.invariant.modules i module hi).single
  case noLoop => exact fun i himports => hacyclic i (.single himports)
  case acyclic => exact hacyclic
  case finished => exact hentered.finished

/-- Files in the root directory. -/
def rootFiles (files : List (String × String)) : FileSystem :=
  let tree := files.foldl (fun (tree : FileTree) file =>
    tree.addFile [file.1.toList] (.ofText file.2)) FileTree.empty
  tree.toFileSystem []

theorem rootFiles_spellsOnce (files : List (String × String)) : (rootFiles files).SpellsOnce :=
  FileTree.spellsOnce (List.forall_mem_nil _)

theorem eq_of_fst_eq {run : Option Nat × Loading} (hrun : run.1 = some id) :
    run = (some id, run.2) :=
  Prod.ext hrun rfl

/-- Two imports of one file, a cycle and a missing file. -/
def circle : ImportContext := ⟨rootFiles [
  ("main.bt", "import \"./a.bt\"; import \"./b.bt\"; import \"./lost.bt\";"),
  ("a.bt", "import \"./b.bt\"; import \"./../b.bt\"; import \"./a.bt\";"),
  ("b.bt", "import \"./main.bt\";")], .empty⟩

theorem loadEntry_complete_of_circle : ∃ loaded,
    loadEntry circle ⟨"main.bt"⟩ (.initial ⟨"/"⟩) = (some 0, loaded) ∧
      circle.Complete ⟨"main.bt"⟩ loaded.session.sources.files loaded.graph := by
  have hfirst : (loadEntry circle ⟨"main.bt"⟩ (.initial ⟨"/"⟩)).1 = some 0 := by decide +kernel
  have hloaded := eq_of_fst_eq hfirst
  exact ⟨_, hloaded, (loadEntry_complete (rootFiles_spellsOnce _) hloaded).2⟩

/-- Whether there is a module is decided by the entry file alone. -/
theorem loadEntry_isSome_iff (hspells : context.system.SpellsOnce) :
    (loadEntry context entry (.initial directory)).1.isSome = true ↔
      ∃ path, context.system.canonical entry = .ok path ∧ context.system.Readable path := by
  constructor
  · intro hsome
    obtain ⟨id, hid⟩ := Option.isSome_iff_exists.mp hsome
    obtain ⟨path, hcanonical, -, hentered⟩ :=
      entered_of_loadEntry hspells (Prod.ext hid rfl)
    obtain ⟨module, hmodule, rfl⟩ := hentered.here
    exact ⟨_, hcanonical, (hentered.sound.reachable hmodule).readable⟩
  · rintro ⟨path, hcanonical, hreadable⟩
    have hresult : Loaded context entry path (.initial directory)
        (load context path (.initial directory)) := by
      apply loads_loadUpTo hspells _ _ _ sound_initial rfl (.entry hcanonical)
      omega
    unfold loadEntry
    rw [hcanonical]
    dsimp only
    generalize load context path (.initial directory) = result at hresult
    cases hresult with
    | entered _ => rfl
    | unreadable hunreadable => exact absurd hreadable hunreadable

/-! ### Failed modules -/

/-- **Failed modules.** A module has failed if it, or a module that was loaded for its sake, directly
or through others, has an error of its own; every other module is resolved. -/
theorem loadEntry_failed_iff (hspells : context.system.SpellsOnce)
    (hloaded : loadEntry context entry (.initial directory) = (some id, loaded))
    (hmodule : loaded.graph.get? i = some module) :
    (module.state = .failed ↔ ∃ j, Relation.ReflTransGen loaded.graph.Introduces i j ∧
      context.ReportsErrorAt loaded.graph j) ∧
    (module.state ≠ .failed → module.state = .resolved) ∧
    (module.state = .failed → ∃ j, Relation.ReflTransGen loaded.graph.Imports i j ∧
      context.ReportsErrorAt loaded.graph j) := by
  obtain ⟨path, -, -, hentered⟩ := entered_of_loadEntry hspells hloaded
  have hfinished := hentered.finished module (mem_of_get? hmodule)
  obtain ⟨stop, hspans⟩ := hentered.sound.spans i ⟨module, hmodule, hfinished⟩
  have hiff : module.state = .failed ↔ ∃ j, Relation.ReflTransGen loaded.graph.Introduces i j ∧
      context.ReportsErrorAt loaded.graph j := by
    rw [hspans.outcome module hmodule]
    refine exists_congr fun j => ?_
    rw [hspans.introduced_iff, and_assoc]
  refine ⟨hiff, hfinished.resolve_right, ?_⟩
  intro hfailed
  obtain ⟨j, hpath, herror⟩ := hiff.mp hfailed
  have himports : loaded.graph.Introduces ≤ loaded.graph.Imports := fun _ _ hstep => hstep.imports
  exact ⟨j, Relation.ReflTransGen.mono himports i j hpath, herror⟩

/-- Two modules import one with an error: the one that it was loaded for has failed, the other one
has not. -/
def sharedError : ImportContext := ⟨rootFiles [
  ("main.bt", "import \"./first.bt\"; import \"./second.bt\";"),
  ("first.bt", "import \"./wrong.bt\";"),
  ("wrong.bt", "?"),
  ("second.bt", "import \"./wrong.bt\";")], .empty⟩

theorem loadEntry_failed_iff_of_sharedError : ∃ loaded module,
    loadEntry sharedError ⟨"main.bt"⟩ (.initial ⟨"/"⟩) = (some 0, loaded) ∧
      loaded.graph.get? 1 = some module ∧
      (module.state = .failed ↔ ∃ j, Relation.ReflTransGen loaded.graph.Introduces 1 j ∧
        sharedError.ReportsErrorAt loaded.graph j) ∧
      (module.state ≠ .failed → module.state = .resolved) ∧
      (module.state = .failed → ∃ j, Relation.ReflTransGen loaded.graph.Imports 1 j ∧
        sharedError.ReportsErrorAt loaded.graph j) := by
  have hfirst : (loadEntry sharedError ⟨"main.bt"⟩ (.initial ⟨"/"⟩)).1 = some 0 := by
    decide +kernel
  have hsize : 1 < (loadEntry sharedError ⟨"main.bt"⟩ (.initial ⟨"/"⟩)).2.graph.size := by
    decide +kernel
  have hloaded := eq_of_fst_eq hfirst
  obtain ⟨module, hmodule⟩ := exists_get?_of_lt hsize
  exact ⟨_, module, hloaded, hmodule,
    loadEntry_failed_iff (rootFiles_spellsOnce _) hloaded hmodule⟩

/-- The module that imports a failed one with an error of its own, but was not the first to do so,
is resolved. -/
theorem resolved_of_sharedError :
    let graph := (loadEntry sharedError ⟨"main.bt"⟩ (.initial ⟨"/"⟩)).2.graph
    graph.Imports 3 2 ∧ sharedError.ReportsErrorAt graph 2 ∧
      graph.state 2 = .failed ∧ graph.state 3 = .resolved := by
  intro graph
  have himports : 2 ∈ graph.directImports 3 := by decide +kernel
  have hpath : (graph.get? 2).map Module.path = some ⟨"/wrong.bt"⟩ := by decide +kernel
  have hcontents : sharedError.system.contents ⟨"/wrong.bt"⟩ = .ok "?" := by decide +kernel
  have herror : Diagnostics.hasErrors (Parsed.ofText .detached "?" .empty).diagnostics = true := by
    decide +kernel
  have hstates : graph.state 2 = .failed ∧ graph.state 3 = .resolved := by decide +kernel
  obtain ⟨module, hmodule, hmodulePath⟩ := Option.map_eq_some_iff.mp hpath
  refine ⟨imports_iff.mpr himports, ⟨module, hmodule, .inl ⟨"?", ?_, herror⟩⟩, hstates⟩
  rw [hmodulePath, hcontents]

end Loading

end BehaviorTree
