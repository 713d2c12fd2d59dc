import Mathlib.Data.List.Chain
import BehaviorTree.Proofs.Module.Loading
import BehaviorTree.Proofs.Module.Steps

/-!
# Cycles of imports

The modules whose imports are being followed are a chain, each of them importing the next. So when
an import leads back to one of them, it closes a cycle, and while no import does so, all that is
imported is recorded, without a cycle.
-/

namespace BehaviorTree

open ModuleGraph

namespace ImportContext

variable {context : ImportContext} {entry importer path : Path} {raw : String}

theorem leads_iff : context.Leads importer raw path ↔
    context.locate? importer.parent raw = some path := by
  unfold Leads locate?
  cases resolveImportPath context.packages importer.parent raw with
  | error error => simp
  | ok candidate =>
      dsimp only
      cases hcanonical : context.system.canonical candidate <;> simp [hcanonical, Except.toOption]

/-- One of the import declarations of the file `importer` leads to the readable file `target`. -/
def ImportsFile (context : ImportContext) (importer target : Path) : Prop :=
  ∃ text raw, context.system.contents importer = .ok text ∧ raw ∈ importPaths text ∧
    context.Leads importer raw target ∧ context.system.Readable target

theorem Reachable.imports (hreachable : context.Reachable entry importer)
    (himports : context.ImportsFile importer path) : context.Reachable entry path := by
  obtain ⟨text, raw, hcontents, hraw, hleads, hreadable⟩ := himports
  exact .imported hreachable hcontents hraw hleads hreadable

end ImportContext

namespace ModuleGraph

/-- The file of the module `i` imports the file of the module `j`. -/
def LeadsTo (context : ImportContext) (graph : ModuleGraph) (i j : Nat) : Prop :=
  ∃ importer target, graph.get? i = some importer ∧ graph.get? j = some target ∧
    context.ImportsFile importer.path target.path

/-- The names of modules in messages. -/
def names (graph : ModuleGraph) (ids : List Nat) : List String :=
  ids.filterMap fun id => (graph.get? id).map Module.displayName

end ModuleGraph

namespace Loading

variable {context : ImportContext} {entry path : Path} {start before state middle after later : Loading}
  {request : ImportRequest} {module : Module} {id target depth room : Nat} {load : Loader}
  {done : List ImportRequest} {imports : List ImportEdge} {trail inner more : List ImportStep}
  {step : ImportStep}

/-! ### What is kept -/

/-- Neither a module nor an import of one nor a report is lost. -/
structure Onward (before after : Loading) : Prop where
  modules : ∀ i module, before.graph.get? i = some module → ∃ kept, after.graph.get? i = some kept ∧
    kept.path = module.path ∧ kept.program = module.program ∧ module.imports ⊆ kept.imports
  reports : before.session.diagnostics <+: after.session.diagnostics

/-- Imports of the module `id` may have been recorded, and modules added. -/
structure Advanced (id : Nat) (before after : Loading) : Prop where
  path : after.path = before.path
  keeps : ∀ i module, i ≠ id → before.graph.get? i = some module →
    after.graph.get? i = some module
  around : ∀ module, before.graph.get? id = some module →
    ∃ added, after.graph.get? id = some { module with imports := module.imports ++ added }
  reports : before.session.diagnostics <+: after.session.diagnostics

theorem Onward.trans (hfirst : Onward before middle) (hsecond : Onward middle after) :
    Onward before after where
  modules i module hmodule := by
    obtain ⟨kept, hkept, hpath, hprogram, himports⟩ := hfirst.modules i module hmodule
    obtain ⟨last, hlast, hpath', hprogram', himports'⟩ := hsecond.modules i kept hkept
    exact ⟨last, hlast, hpath'.trans hpath, hprogram'.trans hprogram,
      List.Subset.trans himports himports'⟩
  reports := hfirst.reports.trans hsecond.reports

theorem Onward.size_le (honward : Onward before after) : before.graph.size ≤ after.graph.size := by
  apply Nat.le_of_not_lt
  intro hsize
  obtain ⟨module, hmodule⟩ := exists_get?_of_lt hsize
  obtain ⟨kept, hkept, -⟩ := honward.modules _ module hmodule
  exact Nat.lt_irrefl _ (lt_size_of_get? hkept)

theorem Advanced.onward (hadvanced : Advanced id before after) : Onward before after where
  modules i module hmodule := by
    by_cases hi : i = id
    · subst hi
      obtain ⟨added, hkept⟩ := hadvanced.around module hmodule
      exact ⟨_, hkept, rfl, rfl, List.subset_append_left _ _⟩
    · exact ⟨module, hadvanced.keeps i module hi hmodule, rfl, rfl, List.Subset.refl _⟩
  reports := hadvanced.reports

theorem Advanced.report (diagnostic : Diagnostic) : Advanced id state (state.report diagnostic) where
  path := rfl
  keeps _ _ _ hmodule := hmodule
  around module hmodule := ⟨[], by rw [List.append_nil]; exact hmodule⟩
  reports := List.prefix_append _ _

theorem Advanced.link (request : ImportRequest) (target : Nat)
    (hmodule : state.graph.get? id = some module) :
    Advanced id state (state.link id request target) := by
  by_cases hfresh : ∀ edge ∈ module.imports, edge.target ≠ target
  · rw [link_of_fresh hmodule hfresh]
    refine ⟨rfl, fun i known hi hknown => ?_, fun known hknown => ?_, List.prefix_rfl⟩
    · exact (get?_modify_of_ne _ hi).trans hknown
    · exact ⟨[⟨target, request.path, request.pathRange, request.decl⟩], get?_modify_self _ hknown⟩
  · push Not at hfresh
    obtain ⟨first, -, -, hfirst⟩ := link_of_known request hmodule hfresh
    rw [hfirst]
    exact .report _

theorem Advanced.trans (hfirst : Advanced id before middle) (hsecond : Advanced id middle after) :
    Advanced id before after where
  path := hsecond.path.trans hfirst.path
  keeps i module hi hmodule := hsecond.keeps i module hi (hfirst.keeps i module hi hmodule)
  around module hmodule := by
    obtain ⟨added, hmiddle⟩ := hfirst.around module hmodule
    obtain ⟨others, hafter⟩ := hsecond.around _ hmiddle
    exact ⟨added ++ others, by rw [hafter, List.append_assoc]⟩
  reports := hfirst.reports.trans hsecond.reports

theorem Entered.advanced (hentered : Entered context entry path before after)
    (hpath : after.path = before.path)
    (hreports : before.session.diagnostics <+: after.session.diagnostics) :
    Advanced id before after where
  path := hpath
  keeps i module _ hmodule := hentered.grown.keeps i module hmodule
  around module hmodule :=
    ⟨[], by rw [List.append_nil]; exact hentered.grown.keeps id module hmodule⟩
  reports := hreports

/-! ### The reports of cycles -/

/-- The reports of imports that close a cycle. -/
def cycleReports (state : Loading) : List Diagnostic :=
  state.session.diagnostics.filter fun diagnostic => diagnostic.code = some Code.importCycle

theorem cycleReports_report_other {diagnostic : Diagnostic}
    (hcode : diagnostic.code ≠ some Code.importCycle) :
    (state.report diagnostic).cycleReports = state.cycleReports := by
  show List.filter _ (state.session.diagnostics ++ [diagnostic]) = _
  rw [List.filter_append, List.filter_cons_of_neg (by simpa using hcode), List.filter_nil,
    List.append_nil]
  rfl

theorem cycleReports_report_cycle (chain : List String) :
    (state.report (ImportReport.cycle request chain)).cycleReports =
      state.cycleReports ++ [ImportReport.cycle request chain] := by
  have hcode : (decide ((ImportReport.cycle request chain).code = some Code.importCycle)) = true :=
    decide_eq_true rfl
  show List.filter _ (state.session.diagnostics ++ [_]) = _
  rw [List.filter_append, List.filter_cons, if_pos hcode, List.filter_nil]
  rfl

theorem cycleReports_link (request : ImportRequest) (target : Nat)
    (hmodule : state.graph.get? id = some module) :
    (state.link id request target).cycleReports = state.cycleReports := by
  by_cases hfresh : ∀ edge ∈ module.imports, edge.target ≠ target
  · rw [link_of_fresh hmodule hfresh]
    rfl
  · push Not at hfresh
    obtain ⟨first, -, -, hfirst⟩ := link_of_known request hmodule hfresh
    rw [hfirst]
    apply cycleReports_report_other
    rw [show (ImportReport.duplicateImport request _).code = some Code.duplicateImport from
      Diagnostic.code_withSecondary _ _ _]
    simp [Code.duplicateImport, Code.importCycle]

/-- Reading a text reports no cycle. -/
theorem code_ne_of_ofText {file : FileId} {text : String} {arena : Arena} {diagnostic : Diagnostic}
    (hmember : diagnostic ∈ (Parsed.ofText file text arena).diagnostics) :
    diagnostic.code ≠ some Code.importCycle := by
  obtain ⟨code, hcode, hsome⟩ := Parsed.ofText_codes file text arena diagnostic hmember
  intro hcycle
  rw [hsome] at hcycle
  cases hcycle
  revert hcode
  decide

theorem cycleReports_enter (path : Path) (text : String) :
    (state.enter path text).2.cycleReports = state.cycleReports := by
  have hnone : (Parsed.ofText state.session.sources.nextId text state.session.arena).diagnostics.filter
      (fun diagnostic => diagnostic.code = some Code.importCycle) = [] := by
    rw [List.filter_eq_nil_iff]
    intro diagnostic hdiagnostic
    simpa using code_ne_of_ofText hdiagnostic
  show List.filter _ (state.session.diagnostics ++ (Parsed.ofText _ text _).diagnostics) = _
  rw [List.filter_append, hnone, List.append_nil]
  rfl

/-! ### The modules that are being loaded -/

/-- The modules that are being loaded are a chain of imports. -/
structure OnPath (context : ImportContext) (state : Loading) : Prop where
  open_iff : ∀ i, state.graph.state i = .resolving ↔ i ∈ state.path
  linked : state.path.IsChain (state.graph.LeadsTo context)

theorem exists_get?_of_resolving {graph : ModuleGraph} {i : Nat}
    (hstate : graph.state i = .resolving) : ∃ module, graph.get? i = some module := by
  unfold ModuleGraph.state at hstate
  cases hmodule : graph.get? i with
  | none =>
      rw [hmodule] at hstate
      cases hstate
  | some module => exact ⟨module, rfl⟩

theorem LeadsTo.mono (honward : Onward before after) {i j : Nat}
    (hleads : before.graph.LeadsTo context i j) : after.graph.LeadsTo context i j := by
  obtain ⟨importer, target, himporter, htarget, himports⟩ := hleads
  obtain ⟨importer', himporter', hpath, -⟩ := honward.modules i importer himporter
  obtain ⟨target', htarget', hpath', -⟩ := honward.modules j target htarget
  exact ⟨importer', target', himporter', htarget', by rw [hpath, hpath']; exact himports⟩

/-- While the imports of a module are followed it is the last on the path. -/
theorem Following.onPath (hfollowing : Following context entry start module done imports state)
    (hstate : module.state = .resolving) (honPath : OnPath context start)
    (hpath : state.path = start.path ++ [start.graph.size]) (honward : Onward start state)
    (hled : ∀ last ∈ start.path.getLast?, ∃ importer, start.graph.get? last = some importer ∧
      context.ImportsFile importer.path module.path) : OnPath context state where
  open_iff i := by
    rw [hpath, List.mem_append, List.mem_singleton, ← honPath.open_iff]
    by_cases hi : i < start.graph.size
    · obtain ⟨known, hknown⟩ := exists_get?_of_lt hi
      rw [state_of_get? hknown, state_of_get? (hfollowing.keeps i known hknown)]
      exact (or_iff_left (Nat.ne_of_lt hi)).symm
    · have hnew : start.graph.state i ≠ .resolving := by
        intro hresolving
        obtain ⟨known, hknown⟩ := exists_get?_of_resolving hresolving
        exact hi (lt_size_of_get? hknown)
      rw [or_iff_right hnew]
      constructor
      · intro hresolving
        obtain ⟨known, hknown⟩ := exists_get?_of_resolving hresolving
        by_contra hne
        obtain ⟨finished, hfinished, hdone⟩ :=
          hfollowing.finished i (by omega) (lt_size_of_get? hknown)
        rw [state_of_get? hfinished] at hresolving
        exact hdone.ne_resolving hresolving
      · rintro rfl
        rw [state_of_get? hfollowing.here]
        exact hstate
  linked := by
    rw [hpath, List.isChain_append]
    refine ⟨honPath.linked.imp fun _ _ => LeadsTo.mono honward, List.IsChain.singleton _, ?_⟩
    intro last hlast next hnext
    cases hnext
    obtain ⟨importer, himporter, himports⟩ := hled last hlast
    exact ⟨importer, _, hfollowing.keeps last importer himporter, hfollowing.here, himports⟩

/-! ### What a step comes to -/

end Loading

namespace ImportStep

/-- The step closes a circle of imports: from the module that it leads back to over the modules
`between` to the one whose turn it is, which imports the first again. -/
structure Closes (context : ImportContext) (graph : ModuleGraph) (step : ImportStep) (target : Nat)
    (between : List Nat) : Prop where
  last : (target :: between).getLast? = some step.importer
  linked : (target :: between ++ [target]).IsChain (graph.LeadsTo context)
  named : step.state.cycleFrom target = graph.names (target :: between ++ [target])

/-- If the import leads to a readable file, it is recorded, or it is reported as another import of
a module for which one is recorded. -/
def Linked (context : ImportContext) (later : Loading) (step : ImportStep) : Prop :=
  ∃ importer, later.graph.get? step.importer = some importer ∧
    ∀ path, context.Leads importer.path step.request.path path → context.system.Readable path →
      ∃ i target, later.graph.get? i = some target ∧ target.path = path ∧
        (⟨i, step.request.path, step.request.pathRange, step.request.decl⟩ ∈ importer.imports ∨
          ∃ first ∈ importer.imports, first.target = i ∧
            ImportReport.duplicateImport step.request first.pathRange ∈ later.session.diagnostics)

/-- No import of the module that the step leads back to is recorded. -/
def Unrecorded (context : ImportContext) (graph : ModuleGraph) (step : ImportStep) : Prop :=
  ∀ target, step.circular? context = some target →
    ∀ importer, graph.get? step.importer = some importer →
      ∀ edge ∈ importer.imports, edge.target ≠ target

end ImportStep

namespace Loading

variable {context : ImportContext} {entry path : Path} {start before state middle after later : Loading}
  {request : ImportRequest} {module : Module} {id target depth room : Nat} {load : Loader}
  {done : List ImportRequest} {imports : List ImportEdge} {trail inner more : List ImportStep}
  {step : ImportStep} {between : List Nat}

/-- In a chain that ends elsewhere, each member has a next one. -/
theorem exists_next {R : Nat → Nat → Prop} {first last : Nat} {between : List Nat}
    (hchain : (first :: between ++ [last]).IsChain R) : ∀ id ∈ first :: between, ∃ next, R id next := by
  induction between generalizing first with
  | nil =>
      intro id hid
      rw [List.mem_singleton.mp hid]
      exact ⟨last, (List.isChain_cons_cons.mp hchain).1⟩
  | cons second between ih =>
      obtain ⟨hfirst, hrest⟩ := List.isChain_cons_cons.mp hchain
      intro id hid
      obtain rfl | hid := List.mem_cons.mp hid
      · exact ⟨second, hfirst⟩
      · exact ih hrest id hid

theorem Closes.mono (hcloses : step.Closes context before.graph target between)
    (honward : Onward before after) : step.Closes context after.graph target between where
  last := hcloses.last
  linked := hcloses.linked.imp fun _ _ => LeadsTo.mono honward
  named := by
    rw [hcloses.named]
    apply List.filterMap_congr
    intro id hid
    have hmember : id ∈ target :: between := by
      obtain hid | hid := List.mem_append.mp hid
      · exact hid
      · rw [List.mem_singleton.mp hid]
        exact List.mem_cons_self
    obtain ⟨_, module, -, hmodule, -⟩ := exists_next hcloses.linked id hmember
    obtain ⟨kept, hkept, hpath, -⟩ := honward.modules id module hmodule
    rw [hmodule, hkept, Option.map_some, Option.map_some, Module.displayName, Module.displayName,
      hpath]

theorem Linked.mono (hlinked : step.Linked context before) (honward : Onward before after) :
    step.Linked context after := by
  obtain ⟨importer, himporter, hleads⟩ := hlinked
  obtain ⟨kept, hkept, hpath, -, himports⟩ := honward.modules _ importer himporter
  refine ⟨kept, hkept, fun path hpath' hreadable => ?_⟩
  rw [hpath] at hpath'
  obtain ⟨i, target, htarget, hsame, hrecorded⟩ := hleads path hpath' hreadable
  obtain ⟨target', htarget', hpath'', -⟩ := honward.modules i target htarget
  refine ⟨i, target', htarget', hpath''.trans hsame, ?_⟩
  obtain hedge | ⟨first, hfirst, hi, hreport⟩ := hrecorded
  · exact .inl (himports hedge)
  · exact .inr ⟨first, himports hfirst, hi, honward.reports.subset hreport⟩

/-- What the steps between two states of loading come to. -/
structure Trace (context : ImportContext) (before after : Loading) (trail : List ImportStep) :
    Prop where
  onward : Onward before after
  reports : after.cycleReports = before.cycleReports ++ trail.filterMap (ImportStep.cycle? context)
  below : ∀ step ∈ trail, step.importer < after.graph.size
  closes : ∀ step ∈ trail, ∀ target, step.circular? context = some target →
    ∃ between, step.Closes context after.graph target between
  linked : ∀ step ∈ trail, step.circular? context = none → step.Linked context after

/-- What the steps come to while a file and all that it leads to are loaded. -/
structure Traced (context : ImportContext) (before after : Loading) (trail : List ImportStep) :
    Prop where
  trace : Trace context before after trail
  path : after.path = before.path
  above : ∀ step ∈ trail, before.graph.size ≤ step.importer
  declared : ∀ i module, before.graph.size ≤ i → after.graph.get? i = some module →
    (trail.filter (·.importer = i)).map ImportStep.request = module.program.importRequests
  unrecorded : ∀ step ∈ trail, step.Unrecorded context after.graph

/-- What the turn of one import declaration of the module `id` comes to; the steps `inner` are those
of loading the file that it leads to. -/
structure Took (context : ImportContext) (id : Nat) (request : ImportRequest) (before after : Loading)
    (inner : List ImportStep) : Prop where
  trace : Trace context before after (⟨id, request, before⟩ :: inner)
  advanced : Advanced id before after
  above : ∀ step ∈ inner, before.graph.size ≤ step.importer
  declared : ∀ i module, before.graph.size ≤ i → after.graph.get? i = some module →
    (inner.filter (·.importer = i)).map ImportStep.request = module.program.importRequests
  unrecorded : ∀ step ∈ inner, step.Unrecorded context after.graph
  onPath : ∀ target, ImportStep.circular? context ⟨id, request, before⟩ = some target →
    target ∈ before.path

/-- What the steps have come to while the imports of a module are followed. -/
structure Tracing (context : ImportContext) (start : Loading) (done : List ImportRequest)
    (state : Loading) (trail : List ImportStep) : Prop where
  trace : Trace context start state trail
  path : state.path = start.path ++ [start.graph.size]
  above : ∀ step ∈ trail, start.graph.size ≤ step.importer
  here : (trail.filter (·.importer = start.graph.size)).map ImportStep.request = done
  declared : ∀ i module, start.graph.size < i → state.graph.get? i = some module →
    (trail.filter (·.importer = i)).map ImportStep.request = module.program.importRequests
  unrecorded : ∀ step ∈ trail, step.importer ≠ start.graph.size → step.Unrecorded context state.graph
  onPath : ∀ step ∈ trail, step.importer = start.graph.size → ∀ target,
    step.circular? context = some target → target ∈ state.path

theorem Trace.append (hfirst : Trace context before middle trail)
    (hsecond : Trace context middle after more) : Trace context before after (trail ++ more) where
  onward := hfirst.onward.trans hsecond.onward
  reports := by
    rw [hsecond.reports, hfirst.reports, List.filterMap_append, List.append_assoc]
  below step hstep := by
    obtain hstep | hstep := List.mem_append.mp hstep
    · exact Nat.lt_of_lt_of_le (hfirst.below step hstep) hsecond.onward.size_le
    · exact hsecond.below step hstep
  closes step hstep target htarget := by
    obtain hstep | hstep := List.mem_append.mp hstep
    · obtain ⟨between, hcloses⟩ := hfirst.closes step hstep target htarget
      exact ⟨between, Closes.mono hcloses hsecond.onward⟩
    · exact hsecond.closes step hstep target htarget
  linked step hstep hnone := by
    obtain hstep | hstep := List.mem_append.mp hstep
    · exact Linked.mono (hfirst.linked step hstep hnone) hsecond.onward
    · exact hsecond.linked step hstep hnone

/-- Steps of other modules are not among those of a module. -/
theorem filter_importer_eq_nil {i : Nat} (hother : ∀ step ∈ trail, step.importer ≠ i) :
    trail.filter (·.importer = i) = [] := by
  rw [List.filter_eq_nil_iff]
  intro step hstep
  simpa using hother step hstep

/-- One more import has been followed. -/
theorem Tracing.extend (htracing : Tracing context start done before trail)
    (htook : Took context start.graph.size request before after inner)
    (hhere : start.graph.size < before.graph.size) :
    Tracing context start (done ++ [request]) after
      (trail ++ ⟨start.graph.size, request, before⟩ :: inner) where
  trace := htracing.trace.append htook.trace
  path := htook.advanced.path.trans htracing.path
  above step hstep := by
    obtain hstep | hstep := List.mem_append.mp hstep
    · exact htracing.above step hstep
    · obtain rfl | hstep := List.mem_cons.mp hstep
      · exact Nat.le_refl _
      · have := htook.above step hstep
        omega
  here := by
    have hinner : inner.filter (·.importer = start.graph.size) = [] :=
      filter_importer_eq_nil fun step hstep => by
        have := htook.above step hstep
        omega
    rw [List.filter_append, List.map_append, htracing.here,
      List.filter_cons_of_pos (by simp), hinner]
    rfl
  declared i module hi hmodule := by
    rw [List.filter_append, List.filter_cons_of_neg (by simp; omega)]
    by_cases hnew : before.graph.size ≤ i
    · have hold : trail.filter (·.importer = i) = [] :=
        filter_importer_eq_nil fun step hstep => by
          have := htracing.trace.below step hstep
          omega
      rw [hold, List.nil_append]
      exact htook.declared i module hnew hmodule
    · have hinner : inner.filter (·.importer = i) = [] :=
        filter_importer_eq_nil fun step hstep => by
          have := htook.above step hstep
          omega
      obtain ⟨known, hknown⟩ := exists_get?_of_lt (Nat.lt_of_not_le hnew)
      have hkept := htook.advanced.keeps i known (by omega) hknown
      rw [hmodule] at hkept
      cases hkept
      rw [hinner, List.append_nil]
      exact htracing.declared i module hi hknown
  unrecorded step hstep hother := by
    obtain hstep | hstep := List.mem_append.mp hstep
    · intro target htarget importer himporter
      have hlt := htracing.trace.below step hstep
      obtain ⟨known, hknown⟩ := exists_get?_of_lt hlt
      have hkept := htook.advanced.keeps _ known hother hknown
      rw [himporter] at hkept
      cases hkept
      exact htracing.unrecorded step hstep hother target htarget importer hknown
    · obtain rfl | hstep := List.mem_cons.mp hstep
      · exact absurd rfl hother
      · exact htook.unrecorded step hstep
  onPath step hstep hown target htarget := by
    rw [htook.advanced.path]
    obtain hstep | hstep := List.mem_append.mp hstep
    · exact htracing.onPath step hstep hown target htarget
    · obtain rfl | hstep := List.mem_cons.mp hstep
      · exact htook.onPath target htarget
      · have := htook.above step hstep
        omega

/-! ### The turn of one import -/

/-- A step that leads nowhere else than before reports no cycle. -/
theorem Trace.single (hadvanced : Advanced id before after)
    (hreports : after.cycleReports = before.cycleReports)
    (hmodule : before.graph.get? id = some module)
    (hnone : ImportStep.circular? context ⟨id, request, before⟩ = none)
    (hlinked : ImportStep.Linked context after ⟨id, request, before⟩) :
    Trace context before after [⟨id, request, before⟩] where
  onward := hadvanced.onward
  reports := by
    rw [hreports, List.filterMap_cons_none (by rw [ImportStep.cycle?, hnone]; rfl),
      List.filterMap_nil, List.append_nil]
  below step hstep := by
    rw [List.mem_singleton.mp hstep]
    exact Nat.lt_of_lt_of_le (lt_size_of_get? hmodule) hadvanced.onward.size_le
  closes step hstep target htarget := by
    rw [List.mem_singleton.mp hstep, hnone] at htarget
    cases htarget
  linked step hstep _ := by
    rw [List.mem_singleton.mp hstep]
    exact hlinked

theorem Took.single (htrace : Trace context before after [⟨id, request, before⟩])
    (hadvanced : Advanced id before after) (hsize : after.graph.size = before.graph.size)
    (honPath : ∀ target, ImportStep.circular? context ⟨id, request, before⟩ = some target →
      target ∈ before.path) : Took context id request before after [] where
  trace := htrace
  advanced := hadvanced
  above := List.forall_mem_nil _
  declared i module hi hmodule := by
    have hlt := lt_size_of_get? hmodule
    omega
  unrecorded := List.forall_mem_nil _
  onPath := honPath

/-- An import that leads back to a module on the path is reported as the end of a circle. -/
theorem Took.circular (hmodule : state.graph.get? id = some module)
    (hsome : ImportStep.circular? context ⟨id, request, state⟩ = some target)
    (htarget : target ∈ state.path)
    (hcloses : ∃ between,
      ImportStep.Closes context state.graph ⟨id, request, state⟩ target between) :
    Took context id request state
      (state.report (ImportReport.cycle request (state.cycleFrom target))) [] := by
  have hadvanced : Advanced id state _ :=
    .report (ImportReport.cycle request (state.cycleFrom target))
  refine Took.single ⟨hadvanced.onward, ?_, ?_, ?_, ?_⟩ hadvanced rfl ?_
  · rw [cycleReports_report_cycle, List.filterMap_cons_some (by
      rw [ImportStep.cycle?, hsome]; rfl)]
    rfl
  · intro step hstep
    rw [List.mem_singleton.mp hstep]
    exact lt_size_of_get? hmodule
  · intro step hstep other hother
    rw [List.mem_singleton.mp hstep, hsome] at hother
    cases hother
    rw [List.mem_singleton.mp hstep]
    exact hcloses
  · intro step hstep hnone
    rw [List.mem_singleton.mp hstep, hsome] at hnone
    cases hnone
  · intro other hother
    rw [hsome] at hother
    cases hother
    exact htarget

theorem circular?_eq (hmodule : state.graph.get? id = some module)
    (hlocated : context.locate? module.path.parent request.path = some path)
    (hfind : state.graph.find? path = some target) :
    ImportStep.circular? context ⟨id, request, state⟩ =
      if state.graph.state target = .resolving then some target else none := by
  simp [ImportStep.circular?, ImportStep.target?, hmodule, hlocated, hfind, Option.filter]

theorem circular?_eq_none (hmodule : state.graph.get? id = some module)
    (hnone : ∀ path, context.locate? module.path.parent request.path = some path →
      state.graph.find? path = none) :
    ImportStep.circular? context ⟨id, request, state⟩ = none := by
  cases hlocated : context.locate? module.path.parent request.path with
  | none => simp [ImportStep.circular?, ImportStep.target?, hmodule, hlocated]
  | some path =>
      simp [ImportStep.circular?, ImportStep.target?, hmodule, hlocated, hnone path hlocated]

/-- A link to a module is recorded, or there is one already. -/
theorem linked_link (hlater : later.graph.get? id = some module) {found : Module}
    (hfound : later.graph.get? target = some found)
    (hleads : context.Leads module.path request.path found.path) :
    ImportStep.Linked context (later.link id request target) ⟨id, request, before⟩ := by
  have honward := (Advanced.link request target hlater).onward
  obtain ⟨kept, hkept, hpath, -⟩ := honward.modules target found hfound
  by_cases hfresh : ∀ edge ∈ module.imports, edge.target ≠ target
  · rw [link_of_fresh hlater hfresh] at hkept ⊢
    have hadded : (later.graph.addImport id
        ⟨target, request.path, request.pathRange, request.decl⟩).get? id =
          some { module with imports := module.imports ++
            [⟨target, request.path, request.pathRange, request.decl⟩] } := get?_modify_self _ hlater
    refine ⟨_, hadded, fun path hpath' _ => ⟨target, kept, hkept, ?_, .inl (by simp)⟩⟩
    exact hpath.trans (hleads.unique hpath')
  · push Not at hfresh
    obtain ⟨first, hmember, hsame, hlink⟩ := link_of_known request hlater hfresh
    rw [hlink] at hkept ⊢
    refine ⟨module, hlater, fun path hpath' _ => ⟨target, kept, hkept, ?_, .inr ⟨first, hmember,
      hsame, List.mem_append_right _ (List.mem_singleton.mpr rfl)⟩⟩⟩
    exact hpath.trans (hleads.unique hpath')

/-- The imports of a module on the path that lead back to one on the path close a circle. -/
theorem OnPath.closes (honPath : OnPath context state) (hlast : state.path.getLast? = some id)
    (htarget : target ∈ state.path) (hleads : state.graph.LeadsTo context id target) :
    ∃ between, ImportStep.Closes context state.graph ⟨id, request, state⟩ target between := by
  obtain ⟨outside, between, hpath, hfresh⟩ := List.eq_append_cons_of_mem htarget
  have hdrop : state.path.dropWhile (· != target) = target :: between := by
    rw [hpath, List.dropWhile_append_of_pos (by
      intro other hother
      rw [bne_iff_ne]
      rintro rfl
      exact hfresh hother), List.dropWhile_cons_of_neg (by simp)]
  have hend : (target :: between).getLast? = some id := by
    rw [← hlast, hpath, List.getLast?_append, List.getLast?_cons, Option.some_or]
  refine ⟨between, hend, ?_, ?_⟩
  · rw [List.isChain_append]
    have hsuffix : target :: between <:+ state.path := ⟨outside, hpath.symm⟩
    refine ⟨honPath.linked.suffix hsuffix, List.IsChain.singleton _, ?_⟩
    intro last hlast next hnext
    rw [hend] at hlast
    cases hlast
    cases hnext
    exact hleads
  · show state.graph.names (state.path.dropWhile (· != target) ++ [target]) = _
    rw [hdrop]

/-- What a loader promises about the steps of loading a file. -/
def Traces (context : ImportContext) (entry : Path) (load : Loader)
    (inner : Path → Loading → List ImportStep) (room : Nat) : Prop :=
  ∀ path state target later, Sound context entry state → OnPath context state →
    state.graph.find? path = none → context.Reachable entry path →
    (∀ last ∈ state.path.getLast?, ∃ importer, state.graph.get? last = some importer ∧
      context.ImportsFile importer.path path) →
    context.system.entries.length < room + state.graph.size →
    load path state = (.ok target, later) → Traced context state later (inner path state)

theorem size_link (hmodule : state.graph.get? id = some module) :
    (state.link id request target).graph.size = state.graph.size := by
  by_cases hfresh : ∀ edge ∈ module.imports, edge.target ≠ target
  · rw [link_of_fresh hmodule hfresh]
    exact size_modify _ _ _
  · push Not at hfresh
    obtain ⟨first, -, -, hfirst⟩ := link_of_known request hmodule hfresh
    rw [hfirst]
    rfl

/-- A file is loaded and the module `id` linked to it. -/
theorem Traced.took (htraced : Traced context before middle inner)
    (hentered : Entered context entry path before middle)
    (hmodule : before.graph.get? id = some module)
    (hleads : context.Leads module.path request.path path)
    (hnone : ImportStep.circular? context ⟨id, request, before⟩ = none) :
    Took context id request before (middle.link id request before.graph.size) inner := by
  have hid : id < before.graph.size := lt_size_of_get? hmodule
  have hkept : middle.graph.get? id = some module := hentered.grown.keeps id module hmodule
  obtain ⟨found, hfound, rfl⟩ := hentered.here
  have hlink := Advanced.link request before.graph.size hkept
  have hsize : (middle.link id request before.graph.size).graph.size = middle.graph.size :=
    size_link hkept
  have hadvanced : Advanced id before (middle.link id request before.graph.size) :=
    (hentered.advanced htraced.path htraced.trace.onward.reports).trans hlink
  have hget : ∀ i, before.graph.size ≤ i →
      (middle.link id request before.graph.size).graph.get? i = middle.graph.get? i := by
    intro i hi
    by_cases hlt : i < middle.graph.size
    · obtain ⟨known, hknown⟩ := exists_get?_of_lt hlt
      rw [hknown, hlink.keeps i known (by omega) hknown]
    · have hbeyond : ∀ graph : ModuleGraph, graph.size ≤ i → graph.get? i = none :=
        fun _ hsize => List.getElem?_eq_none hsize
      rw [hbeyond _ (by omega), hbeyond _ (by omega)]
  refine ⟨⟨hadvanced.onward, ?_, ?_, ?_, ?_⟩, hadvanced, htraced.above, ?_, ?_, by simp [hnone]⟩
  · rw [cycleReports_link request _ hkept, htraced.trace.reports,
      List.filterMap_cons_none (by rw [ImportStep.cycle?, hnone]; rfl)]
  · intro step hstep
    rw [hsize]
    obtain rfl | hstep := List.mem_cons.mp hstep
    · exact lt_size_of_get? hkept
    · exact htraced.trace.below step hstep
  · intro step hstep target htarget
    obtain rfl | hstep := List.mem_cons.mp hstep
    · rw [hnone] at htarget
      cases htarget
    · obtain ⟨between, hcloses⟩ := htraced.trace.closes step hstep target htarget
      exact ⟨between, Closes.mono hcloses hlink.onward⟩
  · intro step hstep hlinked
    obtain rfl | hstep := List.mem_cons.mp hstep
    · exact linked_link hkept hfound hleads
    · exact Linked.mono (htraced.trace.linked step hstep hlinked) hlink.onward
  · intro i known hi hknown
    rw [hget i hi] at hknown
    exact htraced.declared i known hi hknown
  · intro step hstep target htarget importer himporter
    rw [hget _ (htraced.above step hstep)] at himporter
    exact htraced.unrecorded step hstep target htarget importer himporter

/-- **One import declaration.** -/
theorem Following.took (hload : Loads context entry load room)
    {innerOf : Path → Loading → List ImportStep} (htraces : Traces context entry load innerOf room)
    (hknown : ∀ path state target, state.graph.find? path = some target → innerOf path state = [])
    (hunreadable : ∀ path state, ¬context.system.Readable path → innerOf path state = [])
    (hspells : context.system.SpellsOnce)
    (hroom : context.system.entries.length < room + (start.graph.size + 1))
    (hfollowing : Following context entry start module done imports state)
    (honPath : OnPath context state) (hpath : state.path = start.path ++ [start.graph.size])
    (hrequest : request ∈ module.program.importRequests) :
    Took context start.graph.size request state
      (Loading.followAll context load start.graph.size module.path.parent [request] state)
      ((context.locate? module.path.parent request.path).elim [] (innerOf · state)) := by
  have hhere := hfollowing.here
  have hid : start.graph.size < state.graph.size := lt_size_of_get? hhere
  have hleads : ∀ {path}, context.locate? module.path.parent request.path = some path →
      context.Leads module.path request.path path := ImportContext.leads_iff.mpr
  have himports : ∀ {path}, context.locate? module.path.parent request.path = some path →
      context.system.Readable path → context.ImportsFile module.path path := by
    intro path hlocated hreadable
    obtain ⟨text, arena, hcontents, hprogram, -⟩ :=
      (hfollowing.sound.invariant.modules _ _ hhere).read
    refine ⟨text, request.path, hcontents, ?_, hleads hlocated, hreadable⟩
    rw [← importPaths_ofText (.registered start.graph.size) text arena, ← hprogram]
    exact List.mem_map_of_mem hrequest
  have hfile : ∀ {path target}, context.locate? module.path.parent request.path = some path →
      state.graph.find? path = some target →
        ∃ found, state.graph.get? target = some found ∧ found.path = path := by
    intro path target hlocated hfind
    obtain ⟨candidate, -, hcanonical⟩ := hleads hlocated
    exact hfollowing.sound.path_eq_of_find? hspells hcanonical hfind
  have houtcome := outcome context load start.graph.size module.path.parent request state
  generalize Loading.followAll context load start.graph.size module.path.parent [request] state =
    after at houtcome
  cases houtcome with
  | lost hlocated hcode =>
      have hnone : ImportStep.circular? context ⟨start.graph.size, request, state⟩ = none :=
        circular?_eq_none hhere (by simp [hlocated])
      rw [hlocated]
      refine Took.single (Trace.single (.report _) (cycleReports_report_other hcode) hhere hnone
        ⟨_, hhere, fun path hpath' _ => ?_⟩) (.report _) rfl (by simp [hnone])
      rw [ImportContext.leads_iff, hlocated] at hpath'
      cases hpath'
  | @circular path target hlocated hfind hresolving =>
      have hsome : ImportStep.circular? context ⟨start.graph.size, request, state⟩ = some target :=
        (circular?_eq hhere hlocated hfind).trans (if_pos hresolving)
      obtain ⟨found, hfound, rfl⟩ := hfile hlocated hfind
      have htarget : target ∈ state.path := (honPath.open_iff target).mp hresolving
      have hlast : state.path.getLast? = some start.graph.size := by
        rw [hpath, List.getLast?_append]
        rfl
      have hreadable := (hfollowing.sound.reachable hfound).readable
      have hcloses : ∃ between, ImportStep.Closes context state.graph
          ⟨start.graph.size, request, state⟩ target between :=
        honPath.closes hlast htarget ⟨_, found, hhere, hfound, himports hlocated hreadable⟩
      rw [hlocated, Option.elim_some, hknown _ _ target hfind]
      exact Took.circular hhere hsome htarget hcloses
  | @known path target hlocated hfind hresolving =>
      have hnone : ImportStep.circular? context ⟨start.graph.size, request, state⟩ = none :=
        (circular?_eq hhere hlocated hfind).trans (if_neg hresolving)
      obtain ⟨found, hfound, rfl⟩ := hfile hlocated hfind
      rw [hlocated, Option.elim_some, hknown _ _ target hfind]
      exact Took.single (Trace.single (.link request target hhere)
        (cycleReports_link request target hhere) hhere hnone
        (linked_link hhere hfound (hleads hlocated))) (.link request target hhere)
        (size_link hhere) (by simp [hnone])
  | @loaded path target later hlocated hfind hloaded =>
      have hnone : ImportStep.circular? context ⟨start.graph.size, request, state⟩ = none :=
        circular?_eq_none hhere (by simp [hlocated, hfind])
      have hresult := hload path state hfollowing.sound hfind
        (hfollowing.sound.reachable_of_leads hhere hrequest (hleads hlocated)) (by omega)
      rw [hloaded] at hresult
      cases hresult with
      | entered hentered =>
          obtain ⟨found, hfound, hfoundPath⟩ := hentered.here
          have hreachable : context.Reachable entry path :=
            hfoundPath ▸ hentered.sound.reachable hfound
          have htraced := htraces path state _ later hfollowing.sound honPath hfind hreachable (by
            intro last hlast
            rw [hpath, List.getLast?_append] at hlast
            cases hlast
            exact ⟨_, hhere, himports hlocated hreachable.readable⟩) (by omega) hloaded
          rw [hlocated, Option.elim_some]
          exact htraced.took hentered hhere (hleads hlocated) hnone
  | @unreadable path error later hlocated hfind hloaded =>
      have hnone : ImportStep.circular? context ⟨start.graph.size, request, state⟩ = none :=
        circular?_eq_none hhere (by simp [hlocated, hfind])
      have hresult := hload path state hfollowing.sound hfind
        (hfollowing.sound.reachable_of_leads hhere hrequest (hleads hlocated)) (by omega)
      rw [hloaded] at hresult
      cases hresult with
      | unreadable hnot =>
          rw [hlocated, Option.elim_some, hunreadable _ _ hnot]
          refine Took.single (Trace.single (.report _) (cycleReports_report_other ?_) hhere hnone
            ⟨_, hhere, fun path' hpath' hreadable => ?_⟩) (.report _) rfl (by simp [hnone])
          · show some Code.unreadableSource ≠ some Code.importCycle
            simp [Code.unreadableSource, Code.importCycle]
          · rw [(hleads hlocated).unique hpath'] at hnot
            exact absurd hreadable hnot

/-! ### Loading a module -/

/-- **All imports of a module**, by induction on those that are still to be followed. -/
theorem Tracing.followAll (hload : Loads context entry load room)
    {innerOf : Path → Loading → List ImportStep} (htraces : Traces context entry load innerOf room)
    (hknown : ∀ path state target, state.graph.find? path = some target → innerOf path state = [])
    (hunreadable : ∀ path state, ¬context.system.Readable path → innerOf path state = [])
    (hspells : context.system.SpellsOnce)
    (hroom : context.system.entries.length < room + (start.graph.size + 1))
    (hstate : module.state = .resolving) (honPath : OnPath context start)
    (hled : ∀ last ∈ start.path.getLast?, ∃ importer, start.graph.get? last = some importer ∧
      context.ImportsFile importer.path module.path)
    (requests : List ImportRequest)
    (hrequests : ∀ request ∈ requests, request ∈ module.program.importRequests)
    (hfollowing : Following context entry start module done imports state)
    (htracing : Tracing context start done state trail) :
    Tracing context start (done ++ requests)
      (Loading.followAll context load start.graph.size module.path.parent requests state)
      (trail ++ stepsAlong context load innerOf start.graph.size module.path.parent requests
        state) := by
  induction requests generalizing done imports state trail with
  | nil =>
      rw [List.append_nil, stepsAlong, List.append_nil]
      exact htracing
  | cons request requests ih =>
      have hrequest : request ∈ module.program.importRequests :=
        hrequests request List.mem_cons_self
      have hopen := hfollowing.onPath hstate honPath htracing.path htracing.trace.onward hled
      have htook := hfollowing.took hload htraces hknown hunreadable hspells hroom hopen
        htracing.path hrequest
      obtain ⟨more, hstep⟩ := hfollowing.step hload hspells hroom hstate hrequest
      have hall := ih (fun other hother => hrequests other (List.mem_cons_of_mem _ hother)) hstep
        (htracing.extend htook (lt_size_of_get? hfollowing.here))
      rw [List.append_assoc, List.append_assoc] at hall
      exact hall

/-- All imports have been followed, and the module is finished. -/
theorem Tracing.leave
    (htracing : Tracing context start module.program.importRequests state trail)
    (hfollowing : Following context entry start module module.program.importRequests imports state)
    (hopen : OnPath context state) (errors : Nat) :
    Traced context start (state.leave start.graph.size errors) trail := by
  have hhere := hfollowing.here
  have hget : ∀ i, i ≠ start.graph.size →
      (state.leave start.graph.size errors).graph.get? i = state.graph.get? i :=
    fun i hi => get?_setState_of_ne _ _ hi
  have hleft : ∃ outcome, (state.leave start.graph.size errors).graph.get? start.graph.size =
      some { module with imports, state := outcome } := ⟨_, hfollowing.get?_setState⟩
  obtain ⟨outcome, hleft⟩ := hleft
  have honward : Onward state (state.leave start.graph.size errors) := by
    refine ⟨fun i known hknown => ?_, List.prefix_rfl⟩
    by_cases hi : i = start.graph.size
    · subst hi
      rw [hhere] at hknown
      cases hknown
      exact ⟨_, hleft, rfl, rfl, List.Subset.refl _⟩
    · exact ⟨known, (hget i hi).trans hknown, rfl, rfl, List.Subset.refl _⟩
  have hnothing : Trace context state (state.leave start.graph.size errors) [] :=
    ⟨honward, (List.append_nil _).symm, List.forall_mem_nil _, List.forall_mem_nil _,
      List.forall_mem_nil _⟩
  have htrace := htracing.trace.append hnothing
  rw [List.append_nil] at htrace
  refine ⟨htrace, ?_, htracing.above, ?_, ?_⟩
  · show state.path.dropLast = start.path
    rw [htracing.path, List.dropLast_concat]
  · intro i known hi hknown
    by_cases heq : i = start.graph.size
    · subst heq
      rw [hleft] at hknown
      cases hknown
      exact htracing.here
    · rw [hget i heq] at hknown
      exact htracing.declared i known (by omega) hknown
  · intro step hstep target htarget importer himporter edge hedge
    by_cases heq : step.importer = start.graph.size
    · -- an edge leads to a finished module, and the target is still on the path
      rw [heq, hleft] at himporter
      cases himporter
      obtain ⟨found, hfinished, hrecords⟩ :=
        (hfollowing.sound.invariant.modules _ _ hhere).recorded edge hedge
      rintro rfl
      have hresolving := (hopen.open_iff _).mpr (htracing.onPath step hstep heq _ htarget)
      rw [state_of_get? hrecords.found] at hresolving
      exact hfinished.ne_resolving hresolving
    · rw [hget _ heq] at himporter
      exact htracing.unrecorded step hstep heq target htarget importer himporter edge hedge

/-- A module that has just been entered. -/
theorem Tracing.enter {text : String} (hfind : start.graph.find? path = none) :
    Tracing context start [] (start.enter path text).2 [] := by
  let module : Module :=
    { Module.ofProgram path (start.enter path text).1 with state := .resolving }
  have hgraph : (start.enter path text).2.graph = ⟨start.graph.modules ++ [module]⟩ :=
    insert_of_find? hfind
  have hsize : (start.enter path text).2.graph.size = start.graph.size + 1 := by
    rw [hgraph]
    simp [ModuleGraph.size]
  refine ⟨⟨⟨fun i known hknown => ?_, List.prefix_append _ _⟩, ?_, List.forall_mem_nil _,
    List.forall_mem_nil _, List.forall_mem_nil _⟩, rfl, List.forall_mem_nil _, rfl, ?_,
    List.forall_mem_nil _, List.forall_mem_nil _⟩
  · have hlt := lt_size_of_get? hknown
    refine ⟨known, ?_, rfl, rfl, List.Subset.refl _⟩
    rw [hgraph, get?_push, if_neg (by omega), hknown]
  · rw [cycleReports_enter]
    exact (List.append_nil _).symm
  · intro i known hi hknown
    have hlt := lt_size_of_get? hknown
    omega

/-- **Loading a file**, by induction on the imports that may still lie ahead. -/
theorem traces_loadUpTo (hspells : context.system.SpellsOnce) (depth : Nat) :
    Traces context entry (loadUpTo context depth) (steps context depth) depth := by
  induction depth with
  | zero =>
      intro path state target later _ _ _ _ _ _ hloaded
      cases hloaded
  | succ depth ih =>
      intro path state target later hsound honPath hfind hreachable hled hroom hloaded
      obtain ⟨text, hcontents⟩ := hreachable.readable
      have hentered := hsound.enter hfind hreachable hcontents
      obtain ⟨imports, hfollowed⟩ := hentered.followAll (loads_loadUpTo hspells depth) hspells
        (by omega) rfl (state.enter path text).1.importRequests fun _ hrequest => hrequest
      have htracing := Tracing.followAll (loads_loadUpTo hspells depth) ih
        (fun _ _ _ hfound => steps_of_find? depth hfound)
        (fun _ _ hnot => steps_of_unreadable depth hnot) hspells (by omega) rfl honPath hled
        (state.enter path text).1.importRequests (fun _ hrequest => hrequest) hentered
        (Tracing.enter hfind)
      have hopen := hfollowed.onPath rfl honPath htracing.path htracing.trace.onward hled
      have hresult := htracing.leave hfollowed hopen state.session.errorCount
      have hlater : later = (Loading.followAll context (loadUpTo context depth) state.graph.size
          path.parent (state.enter path text).1.importRequests
          (state.enter path text).2).leave state.graph.size state.session.errorCount := by
        unfold loadUpTo at hloaded
        rw [hfind, hcontents] at hloaded
        exact (congrArg Prod.snd hloaded).symm
      have hsteps : steps context (depth + 1) path state = stepsAlong context
          (loadUpTo context depth) (steps context depth) state.graph.size path.parent
          (state.enter path text).1.importRequests (state.enter path text).2 := by
        rw [steps, hfind, hcontents]
      rw [hlater, hsteps]
      exact hresult

/-! ### Cycles -/

/-- A chain leads from its first member to its last. -/
theorem transGen_of_isChain {R : Nat → Nat → Prop} {first last : Nat} {between : List Nat}
    (hchain : (first :: between ++ [last]).IsChain R) : Relation.TransGen R first last := by
  induction between generalizing first with
  | nil => exact .single (List.isChain_cons_cons.mp hchain).1
  | cons second between ih =>
      obtain ⟨hfirst, hrest⟩ := List.isChain_cons_cons.mp hchain
      exact .head hfirst (ih hrest)

/-- A path from module to module is one from file to file. -/
theorem transGen_imports {graph : ModuleGraph} {i j : Nat}
    (hpath : Relation.TransGen (graph.LeadsTo context) i j) :
    ∃ importer target, graph.get? i = some importer ∧ graph.get? j = some target ∧
      Relation.TransGen context.ImportsFile importer.path target.path := by
  induction hpath with
  | single hstep =>
      obtain ⟨importer, target, himporter, htarget, himports⟩ := hstep
      exact ⟨importer, target, himporter, htarget, .single himports⟩
  | tail _ hstep ih =>
      obtain ⟨importer, middle, himporter, hmiddle, hbefore⟩ := ih
      obtain ⟨middle', target, hmiddle', htarget, himports⟩ := hstep
      rw [hmiddle] at hmiddle'
      cases hmiddle'
      exact ⟨importer, target, himporter, htarget, hbefore.tail himports⟩

/-- Modules at one path are one. -/
theorem Sound.id_eq_of_path_eq (hsound : state.Sound context entry) {i j : Nat} {found other : Module}
    (hi : state.graph.get? i = some found) (hj : state.graph.get? j = some other)
    (hpath : found.path = other.path) : i = j := by
  have hdistinct := hsound.invariant.distinct
  have hlt : i < (state.graph.modules.map fun module => module.path.components).length := by
    rw [List.length_map]
    exact lt_size_of_get? hi
  refine (List.getElem?_inj hlt hdistinct).mp ?_
  have hi' : state.graph.modules[i]? = some found := hi
  have hj' : state.graph.modules[j]? = some other := hj
  rw [List.getElem?_map, List.getElem?_map, hi', hj', Option.map_some, Option.map_some, hpath]

/-- If no import closes a circle, all paths from file to file are recorded. -/
theorem transGen_recorded (hcomplete : ∀ file, context.Reachable entry file →
      ∃ i module, state.graph.get? i = some module ∧ module.path = file)
    (hsound : state.Sound context entry)
    (hstep : ∀ i importer, state.graph.get? i = some importer →
      ∀ request ∈ importer.program.importRequests,
        ∃ step ∈ trail, step.importer = i ∧ step.request = request)
    (hlinked : ∀ step ∈ trail, step.Linked context state) {file file' : Path}
    (hreachable : context.Reachable entry file)
    (hpath : Relation.TransGen context.ImportsFile file file') :
    context.Reachable entry file' ∧ ∃ i j importer target, state.graph.get? i = some importer ∧
      state.graph.get? j = some target ∧ importer.path = file ∧ target.path = file' ∧
      Relation.TransGen state.graph.Imports i j := by
  have hedge : ∀ {file file'}, context.Reachable entry file → context.ImportsFile file file' →
      ∀ i importer, state.graph.get? i = some importer → importer.path = file →
        ∃ j target, state.graph.get? j = some target ∧ target.path = file' ∧
          state.graph.Imports i j := by
    rintro _ file' - ⟨text, raw, hcontents, hraw, hleads, hreadable⟩ i importer himporter rfl
    obtain ⟨other, arena, hother, hprogram, -⟩ := (hsound.invariant.modules i importer himporter).read
    rw [hother] at hcontents
    cases hcontents
    rw [← importPaths_ofText (.registered i) text arena, ← hprogram] at hraw
    obtain ⟨request, hrequest, rfl⟩ := List.mem_map.mp hraw
    obtain ⟨step, hmember, rfl, rfl⟩ := hstep i importer himporter request hrequest
    obtain ⟨importer', himporter', hrecorded⟩ := hlinked step hmember
    rw [himporter] at himporter'
    cases himporter'
    obtain ⟨j, target, htarget, hpath, hedge | ⟨first, hfirst, rfl, -⟩⟩ :=
      hrecorded file' hleads hreadable
    · exact ⟨j, target, htarget, hpath, importer, himporter, _, hedge, rfl⟩
    · exact ⟨_, target, htarget, hpath, importer, himporter, first, hfirst, rfl⟩
  induction hpath with
  | single himports =>
      obtain ⟨i, importer, himporter, hfile⟩ := hcomplete _ hreachable
      obtain ⟨j, target, htarget, hpath, hrecorded⟩ :=
        hedge hreachable himports i importer himporter hfile
      exact ⟨hreachable.imports himports, i, j, importer, target, himporter, htarget, hfile, hpath,
        .single hrecorded⟩
  | tail _ himports ih =>
      obtain ⟨hmiddle, i, j, importer, middle, himporter, hmiddle', hfile, hpath, hbefore⟩ := ih
      obtain ⟨k, target, htarget, hpath', hrecorded⟩ :=
        hedge hmiddle himports j middle hmiddle' hpath
      exact ⟨hmiddle.imports himports, i, k, importer, target, himporter, htarget, hfile, hpath',
        hbefore.tail hrecorded⟩

/-- **Cycles of imports are found, and nothing else is reported as one.** From a readable entry a
cycle is reported if and only if the readable files that the entry leads to import each other in a
cycle. The turn of each import declaration comes once, and the reports are those of the declarations
that lead back to a module that is being loaded when their turn comes: that import is not recorded,
and the modules named in the note are a circle of imports. Each other import that leads to a
readable file is recorded or reported as a duplicate. -/
theorem loadEntry_cycles {directory : Path} (hspells : context.system.SpellsOnce)
    (hcanonical : context.system.canonical entry = .ok path)
    (hreadable : context.system.Readable path) :
    let loaded := (loadEntry context entry (.initial directory)).2
    let trail := steps context (context.system.entries.length + 1) path (.initial directory)
    ((∃ report ∈ loaded.session.diagnostics, report.code = some Code.importCycle) ↔
      ∃ file, context.Reachable entry file ∧ Relation.TransGen context.ImportsFile file file) ∧
    loaded.cycleReports = trail.filterMap (ImportStep.cycle? context) ∧
    (∀ i module, loaded.graph.get? i = some module →
      (trail.filter (·.importer = i)).map ImportStep.request = module.program.importRequests) ∧
    (∀ step ∈ trail, ∀ target, step.circular? context = some target →
      step.Unrecorded context loaded.graph ∧
        ∃ between, step.Closes context loaded.graph target between) ∧
    ∀ step ∈ trail, step.circular? context = none → step.Linked context loaded := by
  intro loaded trail
  obtain ⟨id, hid⟩ := Option.isSome_iff_exists.mp
    ((loadEntry_isSome_iff hspells).mpr ⟨path, hcanonical, hreadable⟩)
  have hloaded : loadEntry context entry (.initial directory) = (some id, loaded) :=
    Prod.ext hid rfl
  obtain ⟨path', hcanonical', -, hentered⟩ := entered_of_loadEntry hspells hloaded
  obtain ⟨-, hcomplete⟩ := loadEntry_complete hspells hloaded
  have hsound := hentered.sound
  have htraced : Traced context (.initial directory) loaded trail := by
    have hload : load context path (.initial directory) = (.ok id, loaded) := by
      unfold loadEntry at hloaded
      rw [hcanonical] at hloaded
      dsimp only at hloaded
      cases hrun : load context path (.initial directory) with
      | mk result later =>
          rw [hrun] at hloaded
          cases result <;> cases hloaded
          rfl
    refine traces_loadUpTo hspells _ path _ id loaded sound_initial ⟨fun i => ?_, .nil⟩ rfl
      (.entry hcanonical hreadable) ?_ ?_ hload
    · exact iff_of_false nofun nofun
    · nofun
    · show _ < _ + 0
      omega
  have hdeclared : ∀ i module, loaded.graph.get? i = some module →
      (trail.filter (·.importer = i)).map ImportStep.request = module.program.importRequests :=
    fun i module hmodule => htraced.declared i module (Nat.zero_le i) hmodule
  have hreports : loaded.cycleReports = trail.filterMap (ImportStep.cycle? context) :=
    htraced.trace.reports
  refine ⟨?_, hreports, hdeclared, fun step hstep target htarget =>
    ⟨htraced.unrecorded step hstep, htraced.trace.closes step hstep target htarget⟩,
    htraced.trace.linked⟩
  constructor
  · rintro ⟨report, hreport, hcode⟩
    have hcycle : report ∈ loaded.cycleReports :=
      List.mem_filter.mpr ⟨hreport, decide_eq_true hcode⟩
    rw [hreports] at hcycle
    obtain ⟨step, hstep, hsome⟩ := List.mem_filterMap.mp hcycle
    obtain ⟨target, htarget, -⟩ := Option.map_eq_some_iff.mp hsome
    obtain ⟨between, hcloses⟩ := htraced.trace.closes step hstep target htarget
    obtain ⟨module, module', hmodule, hmodule', hfiles⟩ :=
      transGen_imports (transGen_of_isChain hcloses.linked)
    rw [hmodule] at hmodule'
    cases hmodule'
    exact ⟨module.path, hsound.reachable hmodule, hfiles⟩
  · rintro ⟨file, hfile, hcycle⟩
    by_contra hnone
    have hopen : ∀ step ∈ trail, step.circular? context = none := by
      intro step hstep
      cases htarget : step.circular? context with
      | none => rfl
      | some target =>
          have hreport : ImportReport.cycle step.request (step.state.cycleFrom target) ∈
              loaded.cycleReports := by
            rw [hreports]
            exact List.mem_filterMap.mpr ⟨step, hstep, by rw [ImportStep.cycle?, htarget]; rfl⟩
          exact absurd ⟨_, (List.mem_filter.mp hreport).1, rfl⟩ hnone
    obtain ⟨-, i, j, importer, target, hi, hj, hpath, hpath', hrecorded⟩ :=
      transGen_recorded (fun file hfile => by
          obtain ⟨module, hmember, hpath⟩ := (hcomplete.modules file).mpr hfile
          obtain ⟨i, hi⟩ := exists_get?_of_mem hmember
          exact ⟨i, module, hi, hpath⟩) hsound
        (fun i importer himporter request hrequest => by
          rw [← hdeclared i importer himporter] at hrequest
          obtain ⟨step, hstep, rfl⟩ := List.mem_map.mp hrequest
          obtain ⟨hmember, himporter⟩ := List.mem_filter.mp hstep
          exact ⟨step, hmember, of_decide_eq_true himporter, rfl⟩)
        (fun step hstep => htraced.trace.linked step hstep (hopen step hstep)) hfile hcycle
    rw [hsound.id_eq_of_path_eq hi hj (hpath.trans hpath'.symm)] at hrecorded
    exact hcomplete.acyclic j hrecorded

/-- Two files that import each other. -/
def pair : ImportContext := ⟨rootFiles [
  ("a.bt", "import \"./b.bt\";"), ("b.bt", "import \"./a.bt\";")], .empty⟩

theorem loadEntry_cycles_of_pair :
    (loadEntry pair ⟨"a.bt"⟩ (.initial ⟨"/"⟩)).2.cycleReports.length = 1 ∧
      ∃ file, pair.Reachable ⟨"a.bt"⟩ file ∧ Relation.TransGen pair.ImportsFile file file := by
  have hcanonical : pair.system.canonical ⟨"a.bt"⟩ = .ok ⟨"/a.bt"⟩ := by decide +kernel
  have hreadable : pair.system.Readable ⟨"/a.bt"⟩ :=
    ⟨"import \"./b.bt\";", by decide +kernel⟩
  have hlength : (loadEntry pair ⟨"a.bt"⟩ (.initial ⟨"/"⟩)).2.cycleReports.length = 1 := by
    decide +kernel
  obtain ⟨report, hreport⟩ := List.exists_mem_of_length_pos (by rw [hlength]; decide)
  obtain ⟨hmember, hcode⟩ := List.mem_filter.mp hreport
  exact ⟨hlength, (loadEntry_cycles (rootFiles_spellsOnce _) hcanonical hreadable).1.mp
    ⟨report, hmember, of_decide_eq_true hcode⟩⟩

end Loading

end BehaviorTree
