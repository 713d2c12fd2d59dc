import BehaviorTree.Proofs.Module.Graph
import BehaviorTree.Proofs.Module.Reachability

/-!
# The invariant of loading

What holds of the source texts and the module graph between any two steps of loading, however many
modules are still waiting for their imports. The modules whose imports have all been followed lead
only to each other, so an edge that is added later cannot close a cycle among them.

Part of it is which modules report errors of their own, and which modules are introduced by which.
The modules that a module introduces, directly or through others, have the numbers that follow its
own: they are the ones that were loaded while its imports were followed.
-/

namespace BehaviorTree

namespace ImportContext

/-- An import of the module is recorded that leads to the same file as the request. -/
def Recorded (context : ImportContext) (importer : Module) (request : ImportRequest) : Prop :=
  ∃ edge ∈ importer.imports, ∃ file,
    context.Leads importer.path request.path file ∧ context.Leads importer.path edge.path file

/-- An error is reported on the text of the file when that is read for itself. -/
def TextHasError (context : ImportContext) (path : Path) : Prop :=
  ∃ text, context.system.contents path = .ok text ∧
    Diagnostics.hasErrors (Parsed.ofText .detached text .empty).diagnostics = true

/-- The module has an error of its own: in its text, or because one of its import declarations did
not lead to an import. -/
def ReportsError (context : ImportContext) (module : Module) : Prop :=
  context.TextHasError module.path ∨
    ∃ request ∈ module.program.importRequests, ¬ context.Recorded module request

/-- The module number `i` has an error of its own. -/
def ReportsErrorAt (context : ImportContext) (graph : ModuleGraph) (i : Nat) : Prop :=
  ∃ module, graph.get? i = some module ∧ context.ReportsError module

end ImportContext

namespace ModuleGraph

variable {context : ImportContext} {graph later : ModuleGraph} {i j k stop : Nat}

/-- The module `i` was the last to import `j` among those loaded before `j`, so that `j` was loaded
for its sake. -/
structure Introduces (graph : ModuleGraph) (i j : Nat) : Prop where
  imports : graph.Imports i j
  lt : i < j
  last : ∀ k, graph.Imports k j → k < j → k ≤ i

/-- The modules with the numbers from `i` to `stop` are those loaded while the imports of the module
`i` were followed, and that one failed if one of them has an error of its own. -/
structure Spans (context : ImportContext) (graph : ModuleGraph) (i stop : Nat) : Prop where
  lt : i < stop
  finished : ∀ k, i ≤ k → k < stop → graph.FinishedAt k
  /-- Nothing that was loaded later is imported. -/
  closed : ∀ k j, i ≤ k → k < stop → graph.Imports k j → j < stop
  /-- All but the first are imported by an earlier one. -/
  led : ∀ j, i < j → j < stop → ∃ k, i ≤ k ∧ k < j ∧ graph.Imports k j
  outcome : ∀ module, graph.get? i = some module →
    (module.state = .failed ↔ ∃ j, i ≤ j ∧ j < stop ∧ context.ReportsErrorAt graph j)

/-- Among the importers of `j` in a range below it there is a last one. -/
theorem exists_introduces (hk : i ≤ k) (hlt : k < j) (himports : graph.Imports k j) :
    ∃ first, i ≤ first ∧ graph.Introduces first j := by
  induction hdistance : j - k using Nat.strongRecOn generalizing k with
  | ind distance ih =>
      by_cases hlast : ∀ other, graph.Imports other j → other < j → other ≤ k
      · exact ⟨k, hk, himports, hlt, hlast⟩
      · push Not at hlast
        obtain ⟨other, hother, hbelow, habove⟩ := hlast
        exact ih (j - other) (by omega) (by omega) hbelow hother rfl

namespace Spans

/-- What is introduced by way of a module lies in its range. -/
theorem lt_of_introduced (hspans : Spans context graph i stop)
    (hpath : Relation.ReflTransGen graph.Introduces i j) : i ≤ j ∧ j < stop := by
  induction hpath with
  | refl => exact ⟨Nat.le_refl i, hspans.lt⟩
  | tail _ hstep ih =>
      have hlt := hstep.lt
      have hstop := hspans.closed _ _ ih.1 ih.2 hstep.imports
      exact ⟨by omega, hstop⟩

/-- All in the range of a module is introduced by way of it. -/
theorem introduced (hspans : Spans context graph i stop) (hij : i ≤ j) (hj : j < stop) :
    Relation.ReflTransGen graph.Introduces i j := by
  induction j using Nat.strongRecOn with
  | ind j ih =>
      by_cases heq : i = j
      · rw [heq]
      · obtain ⟨k, hk, hlt, himports⟩ := hspans.led j (by omega) hj
        obtain ⟨first, hfirst, hintroduces⟩ := exists_introduces hk hlt himports
        have hbelow := hintroduces.lt
        exact (ih first hbelow hfirst (by omega)).tail hintroduces

theorem introduced_iff (hspans : Spans context graph i stop) :
    Relation.ReflTransGen graph.Introduces i j ↔ i ≤ j ∧ j < stop :=
  ⟨hspans.lt_of_introduced, fun hj => hspans.introduced hj.1 hj.2⟩

/-- Finished modules keep their ranges while they are kept. -/
theorem mono (hspans : Spans context graph i stop)
    (hkept : ∀ k module, graph.get? k = some module → module.Finished →
      later.get? k = some module) : Spans context later i stop := by
  have hget : ∀ k, i ≤ k → k < stop → later.get? k = graph.get? k := by
    intro k hik hk
    obtain ⟨module, hmodule, hfinished⟩ := hspans.finished k hik hk
    rw [hkept k module hmodule hfinished, hmodule]
  have himports : ∀ k j, i ≤ k → k < stop → (later.Imports k j ↔ graph.Imports k j) := by
    intro k j hik hk
    unfold Imports
    rw [hget k hik hk]
  refine ⟨hspans.lt, ?_, ?_, ?_, ?_⟩
  · intro k hik hk
    obtain ⟨module, hmodule, hfinished⟩ := hspans.finished k hik hk
    exact ⟨module, by rw [hget k hik hk, hmodule], hfinished⟩
  · intro k j hik hk hedge
    exact hspans.closed k j hik hk ((himports k j hik hk).mp hedge)
  · intro j hij hj
    obtain ⟨k, hik, hkj, hedge⟩ := hspans.led j hij hj
    exact ⟨k, hik, hkj, (himports k j hik (by omega)).mpr hedge⟩
  · intro module hmodule
    rw [hget i (Nat.le_refl i) hspans.lt] at hmodule
    rw [hspans.outcome module hmodule]
    refine exists_congr fun j => and_congr_right fun hij => and_congr_right fun hj => ?_
    unfold ImportContext.ReportsErrorAt
    rw [hget j hij hj]

end Spans

end ModuleGraph

end BehaviorTree

namespace BehaviorTree

open ModuleGraph

/-- The module is what parsing the readable file at its path gives, as the file number `i`. -/
def ImportContext.ReadsAs (context : ImportContext) (files : List SourceFile) (i : Nat)
    (module : Module) : Prop :=
  ∃ text arena, context.system.contents module.path = .ok text ∧
    module.program = (Parsed.ofText (.registered i) text arena).program ∧
    files[i]? = some ⟨module.path, text.toList⟩

/-- The edge comes from an import declaration of the module, and its target is the module of the
file that the import leads to. -/
structure ImportContext.Records (context : ImportContext) (graph : ModuleGraph)
    (importer : Module) (edge : ImportEdge) (target : Module) : Prop where
  request : (⟨edge.path, edge.pathRange, edge.decl⟩ : ImportRequest) ∈
    importer.program.importRequests
  leads : context.Leads importer.path edge.path target.path
  found : graph.get? edge.target = some target

/-- If the import leads to a readable file, the file has a module. -/
def ImportContext.Followed (context : ImportContext) (graph : ModuleGraph) (importer : Module)
    (request : ImportRequest) : Prop :=
  ∀ path, context.Leads importer.path request.path path → context.system.Readable path →
    ∃ target ∈ graph.modules, target.path = path

structure ModuleInvariant (context : ImportContext) (entry : Path) (files : List SourceFile)
    (graph : ModuleGraph) (i : Nat) (module : Module) : Prop where
  read : context.ReadsAs files i module
  reachable : context.Reachable entry module.path
  visited : module.state = .resolving ∨ module.Finished
  recorded : ∀ edge ∈ module.imports,
    ∃ target, target.Finished ∧ context.Records graph module edge target
  single : (module.imports.map ImportEdge.target).Nodup
  complete : module.Finished →
    ∀ request ∈ module.program.importRequests, context.Followed graph module request

/-- What holds throughout the loading of an entry file. -/
structure LoadingInvariant (context : ImportContext) (entry : Path) (files : List SourceFile)
    (graph : ModuleGraph) : Prop where
  numbered : files.length = graph.size
  distinct : (graph.modules.map fun module => module.path.components).Nodup
  modules : ∀ i module, graph.get? i = some module →
    ModuleInvariant context entry files graph i module
  grounded : ∀ i, graph.FinishedAt i → graph.Grounded i

variable {context : ImportContext} {entry path : Path} {files laterFiles : List SourceFile}
  {graph later : ModuleGraph} {importer module changed target : Module} {request : ImportRequest}
  {i j id : Nat}

theorem Module.Finished.ne_resolving (hfinished : module.Finished) : module.state ≠ .resolving := by
  intro hstate
  rcases hfinished with h | h <;> rw [hstate] at h <;> cases h

theorem not_finishedAt_of_resolving (hmodule : graph.get? id = some module)
    (hstate : module.state = .resolving) : ¬ graph.FinishedAt id := by
  rintro ⟨finished, hfound, hfinished⟩
  rw [hmodule] at hfound
  cases hfound
  exact hfinished.ne_resolving hstate

theorem ImportContext.Followed.mono (hfollowed : context.Followed graph importer request)
    (hpaths : ∀ module ∈ graph.modules, ∃ kept ∈ later.modules, kept.path = module.path) :
    context.Followed later importer request := by
  intro path hleads hreadable
  obtain ⟨target, htarget, hpath⟩ := hfollowed path hleads hreadable
  obtain ⟨kept, hkept, hsame⟩ := hpaths target htarget
  exact ⟨kept, hkept, hsame.trans hpath⟩

theorem ModuleInvariant.mono (hmodule : ModuleInvariant context entry files graph i module)
    (hfiles : files <+: laterFiles)
    (hfinished : ∀ i target, graph.get? i = some target → target.Finished →
      later.get? i = some target)
    (hpaths : ∀ module ∈ graph.modules, ∃ kept ∈ later.modules, kept.path = module.path) :
    ModuleInvariant context entry laterFiles later i module where
  read := by
    obtain ⟨text, arena, hcontents, hprogram, hfile⟩ := hmodule.read
    have hlt : i < files.length := (List.getElem?_eq_some_iff.mp hfile).1
    obtain ⟨added, rfl⟩ := hfiles
    exact ⟨text, arena, hcontents, hprogram, by rw [List.getElem?_append_left hlt, hfile]⟩
  reachable := hmodule.reachable
  visited := hmodule.visited
  recorded edge hedge := by
    obtain ⟨target, htarget, hrecords⟩ := hmodule.recorded edge hedge
    exact ⟨target, htarget, { hrecords with found := hfinished _ _ hrecords.found htarget }⟩
  single := hmodule.single
  complete hopen request hrequest := (hmodule.complete hopen request hrequest).mono hpaths

namespace LoadingInvariant

theorem empty : LoadingInvariant context entry [] .empty where
  numbered := rfl
  distinct := List.nodup_nil
  modules i module hmodule := by simp [ModuleGraph.empty, get?] at hmodule
  grounded i hi := by
    obtain ⟨module, hmodule, -⟩ := hi
    simp [ModuleGraph.empty, get?] at hmodule

/-- There are no more modules than entries in the system. -/
theorem size_le (hinvariant : LoadingInvariant context entry files graph) :
    graph.size ≤ context.system.entries.length := by
  have hlength : (graph.modules.map Module.path).length ≤ context.system.entries.length := by
    apply FileSystem.length_le_of_readable
    · rw [List.map_map]
      exact hinvariant.distinct
    · intro path hpath
      obtain ⟨module, hmodule, rfl⟩ := List.mem_map.mp hpath
      obtain ⟨i, hi⟩ := exists_get?_of_mem hmodule
      exact (hinvariant.modules i module hi).reachable.readable
  simpa [size] using hlength

/-- Imports lead to finished modules. -/
theorem finishedAt_of_imports (hinvariant : LoadingInvariant context entry files graph)
    (himports : graph.Imports i j) : graph.FinishedAt j := by
  obtain ⟨module, hmodule, edge, hedge, rfl⟩ := himports
  obtain ⟨target, hfinished, hrecords⟩ := (hinvariant.modules i module hmodule).recorded edge hedge
  exact ⟨target, hrecords.found, hfinished⟩

/-- A step changes or adds one module, which was not finished before it. -/
theorem update (hinvariant : LoadingInvariant context entry files graph)
    (hopen : ¬ graph.FinishedAt id) (hchanged : later.get? id = some changed)
    (hothers : ∀ i, i ≠ id → later.get? i = graph.get? i)
    (hpath : ∀ module, graph.get? id = some module → changed.path = module.path)
    (hfiles : files <+: laterFiles) (hnumbered : laterFiles.length = later.size)
    (hdistinct : (later.modules.map fun module => module.path.components).Nodup)
    (hmodule : ModuleInvariant context entry laterFiles graph id changed) :
    LoadingInvariant context entry laterFiles later := by
  have hne : ∀ i, graph.FinishedAt i → i ≠ id := by
    rintro i hfinished rfl
    exact hopen hfinished
  have hkept : ∀ i target, graph.get? i = some target → target.Finished →
      later.get? i = some target := by
    intro i target htarget hfinished
    rw [hothers i (hne i ⟨target, htarget, hfinished⟩), htarget]
  have hpaths : ∀ module ∈ graph.modules, ∃ kept ∈ later.modules, kept.path = module.path := by
    intro module hmember
    obtain ⟨i, hi⟩ := exists_get?_of_mem hmember
    by_cases hid : i = id
    · subst hid
      exact ⟨changed, mem_of_get? hchanged, hpath module hi⟩
    · exact ⟨module, mem_of_get? (by rw [hothers i hid, hi]), rfl⟩
  have hgrounded : ∀ i, graph.FinishedAt i → later.Grounded i := by
    intro i hi
    apply (hinvariant.grounded i hi).of_finished hi
    rintro i hfinished j ⟨importer, himporter, hedge⟩
    rw [hothers i (hne i hfinished)] at himporter
    have himports : graph.Imports i j := ⟨importer, himporter, hedge⟩
    exact ⟨himports, hinvariant.finishedAt_of_imports himports⟩
  refine ⟨hnumbered, hdistinct, ?_, ?_⟩
  · intro i module hi
    by_cases hid : i = id
    · subst hid
      rw [hchanged] at hi
      cases hi
      exact hmodule.mono List.prefix_rfl hkept hpaths
    · rw [hothers i hid] at hi
      exact (hinvariant.modules i module hi).mono hfiles hkept hpaths
  · intro i hi
    by_cases hid : i = id
    · -- all that the changed module imports was finished before
      subst hid
      constructor
      rintro j ⟨importer, himporter, edge, hedge, rfl⟩
      rw [hchanged] at himporter
      cases himporter
      obtain ⟨target, htarget, hrecords⟩ := hmodule.recorded edge hedge
      exact hgrounded _ ⟨target, hrecords.found, htarget⟩
    · obtain ⟨module, hmodule, hfinished⟩ := hi
      rw [hothers i hid] at hmodule
      exact hgrounded i ⟨module, hmodule, hfinished⟩

/-! ### The steps -/

/-- Entering a module whose text has been read. -/
theorem push (hinvariant : LoadingInvariant context entry files graph) {text : String}
    (hfind : graph.find? module.path = none)
    (hreachable : context.Reachable entry module.path)
    (hread : context.ReadsAs (files ++ [⟨module.path, text.toList⟩]) graph.size module)
    (hstate : module.state = .resolving) (himports : module.imports = []) :
    LoadingInvariant context entry (files ++ [⟨module.path, text.toList⟩])
      ⟨graph.modules ++ [module]⟩ := by
  have hnew : graph.get? graph.size = none := List.getElem?_eq_none (Nat.le_refl _)
  have hopen : ¬ graph.FinishedAt graph.size := by
    rintro ⟨module, hmodule, -⟩
    rw [hnew] at hmodule
    cases hmodule
  have hchanged : (⟨graph.modules ++ [module]⟩ : ModuleGraph).get? graph.size = some module := by
    rw [get?_push, if_pos rfl]
  apply hinvariant.update hopen hchanged
  case hothers =>
    intro i hi
    rw [get?_push, if_neg hi]
  case hpath =>
    intro module hmodule
    rw [hnew] at hmodule
    cases hmodule
  case hfiles => exact List.prefix_append _ _
  case hnumbered => simp [size, hinvariant.numbered]
  case hdistinct =>
    rw [List.map_append, List.nodup_append]
    refine ⟨hinvariant.distinct, by simp, ?_⟩
    intro components hcomponents other hother hsame
    obtain ⟨old, hmember, rfl⟩ := List.mem_map.mp hcomponents
    simp only [List.map_cons, List.map_nil, List.mem_singleton] at hother
    have hdiffers := not_same_of_find? hfind hmember
    rw [Path.same_iff.mpr (hsame.trans hother)] at hdiffers
    cases hdiffers
  case hmodule =>
    refine ⟨hread, hreachable, .inl hstate, ?_, ?_, ?_⟩
    · simp [himports]
    · simp [himports]
    · intro hfinished
      exact absurd hstate hfinished.ne_resolving

/-- Changing a module whose imports are being followed, but neither its path nor its program. -/
theorem modify (hinvariant : LoadingInvariant context entry files graph)
    (change : Module → Module) (hmodule : graph.get? id = some module)
    (hstate : module.state = .resolving) (hpath : (change module).path = module.path)
    (hchanged : ModuleInvariant context entry files graph id (change module)) :
    LoadingInvariant context entry files (graph.modify id change) := by
  apply hinvariant.update (not_finishedAt_of_resolving hmodule hstate)
    (get?_modify_self change hmodule)
  case hothers => exact fun i hi => get?_modify_of_ne change hi
  case hpath =>
    intro known hknown
    rw [hmodule] at hknown
    cases hknown
    exact hpath
  case hfiles => exact List.prefix_rfl
  case hnumbered => rw [hinvariant.numbered, size_modify]
  case hdistinct =>
    rw [map_modules_modify]
    · exact hinvariant.distinct
    · intro known hknown
      rw [hmodule] at hknown
      cases hknown
      rw [hpath]
  case hmodule => exact hchanged

/-- Recording an import of a finished module. -/
theorem addImport (hinvariant : LoadingInvariant context entry files graph) {edge : ImportEdge}
    (hmodule : graph.get? id = some module) (hstate : module.state = .resolving)
    (hfinished : target.Finished) (hrecords : context.Records graph module edge target)
    (hfresh : ∀ known ∈ module.imports, known.target ≠ edge.target) :
    LoadingInvariant context entry files (graph.addImport id edge) := by
  have hknown := hinvariant.modules id module hmodule
  apply hinvariant.modify _ hmodule hstate
  case hpath => rfl
  case hchanged =>
    refine ⟨hknown.read, hknown.reachable, hknown.visited, ?_, ?_, ?_⟩
    · intro recorded hrecorded
      rcases List.mem_append.mp hrecorded with hold | hnew
      · obtain ⟨target, htarget, hrecords⟩ := hknown.recorded recorded hold
        exact ⟨target, htarget, hrecords.request, hrecords.leads, hrecords.found⟩
      · rw [List.mem_singleton.mp hnew]
        exact ⟨target, hfinished, hrecords.request, hrecords.leads, hrecords.found⟩
    · rw [List.map_append, List.nodup_append]
      refine ⟨hknown.single, by simp, ?_⟩
      intro known hold new hnew
      obtain ⟨first, hfirst, rfl⟩ := List.mem_map.mp hold
      simp only [List.map_cons, List.map_nil, List.mem_singleton] at hnew
      rw [hnew]
      exact hfresh first hfirst
    · intro hclosed
      exact absurd hstate hclosed.ne_resolving

/-- Finishing a module whose imports have all been followed. -/
theorem setState (hinvariant : LoadingInvariant context entry files graph)
    {outcome : ModuleState} (hmodule : graph.get? id = some module)
    (hstate : module.state = .resolving) (houtcome : outcome = .resolved ∨ outcome = .failed)
    (hfollowed : ∀ request ∈ module.program.importRequests,
      context.Followed graph module request) :
    LoadingInvariant context entry files (graph.setState id outcome) := by
  have hknown := hinvariant.modules id module hmodule
  apply hinvariant.modify _ hmodule hstate
  case hpath => rfl
  case hchanged =>
    refine ⟨hknown.read, hknown.reachable, .inr houtcome, ?_, hknown.single, fun _ => hfollowed⟩
    intro edge hedge
    obtain ⟨target, htarget, hrecords⟩ := hknown.recorded edge hedge
    exact ⟨target, htarget, hrecords.request, hrecords.leads, hrecords.found⟩

end LoadingInvariant

end BehaviorTree
