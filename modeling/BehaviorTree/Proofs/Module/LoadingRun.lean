import Mathlib.Data.List.Nodup
import BehaviorTree.Proofs.Module.LoadingInvariant
import BehaviorTree.Proofs.Parsing.ProgramsAgree

/-!
# Runs of the loader

What one followed import does to the state of loading, what following all imports of a module does,
and, by induction on the imports that may still lie ahead, what loading a module does. Each module
on the way takes an entry of the file system for itself, so the loader never gives up early.
-/

namespace BehaviorTree

open ModuleGraph

namespace Diagnostics

theorem errorCount_append (diagnostics later : List Diagnostic) :
    errorCount (diagnostics ++ later) = errorCount diagnostics + errorCount later :=
  List.countP_append

theorem errorCount_singleton (diagnostic : Diagnostic) :
    errorCount [diagnostic] = if diagnostic.severity = .error then 1 else 0 := by
  simp [errorCount, count]

theorem errorCount_pos_iff (diagnostics : List Diagnostic) :
    0 < errorCount diagnostics ↔ hasErrors diagnostics = true := by
  simp [errorCount, count, hasErrors, Diagnostic.isError, List.countP_pos_iff]

end Diagnostics

theorem SyntaxReport.hasErrors_ofText (file : FileId) (text : String) (arena : Arena) :
    Diagnostics.hasErrors (Parsed.ofText file text arena).diagnostics =
      Diagnostics.hasErrors (Parsed.ofText .detached text .empty).diagnostics := by
  rw [Diagnostics.hasErrors_eq, Diagnostics.hasErrors_eq, (Parsed.ofText_alike text).2]

/-- The imports of a program are told from its shape. -/
theorem Program.importPaths_shape (program : Program) :
    program.shape.importRequests.map ImportRequest.path =
      program.importRequests.map ImportRequest.path := by
  unfold Program.importRequests Program.shape
  rw [List.map_filterMap, List.map_filterMap, List.filterMap_map]
  apply List.filterMap_congr
  intro decl _
  cases decl <;> rfl

theorem importPaths_ofText (file : FileId) (text : String) (arena : Arena) :
    (Parsed.ofText file text arena).program.importRequests.map ImportRequest.path =
      importPaths text := by
  unfold importPaths
  rw [← Program.importPaths_shape, (Parsed.ofText_alike text).1, Program.importPaths_shape]

namespace Loading

/-- What holds of a state between the steps of loading. -/
structure Sound (context : ImportContext) (entry : Path) (state : Loading) : Prop where
  invariant : LoadingInvariant context entry state.session.sources.files state.graph
  spans : ∀ i, state.graph.FinishedAt i → ∃ stop, Spans context state.graph i stop

/-- If the import leads to a readable file, the module of that file still waits for its own imports,
so that the import would close a cycle. -/
def Blocked (context : ImportContext) (graph : ModuleGraph) (importer : Path)
    (request : ImportRequest) : Prop :=
  ∀ path, context.Leads importer request.path path → context.system.Readable path →
    ∃ i module, graph.get? i = some module ∧ module.path = path ∧ module.state = .resolving

/-- A new module at `path` and all that it leads to have been loaded. -/
structure Entered (context : ImportContext) (entry path : Path) (before after : Loading) : Prop where
  sound : after.Sound context entry
  grown : Grown before.graph after.graph
  here : ∃ module, after.graph.get? before.graph.size = some module ∧ module.path = path
  spans : Spans context after.graph before.graph.size after.graph.size
  errors : before.session.errorCount ≤ after.session.errorCount
  reported : before.session.errorCount < after.session.errorCount ↔
    ∃ j, before.graph.size ≤ j ∧ j < after.graph.size ∧ context.ReportsErrorAt after.graph j

/-- What becomes of a file that has no module yet. -/
inductive Loaded (context : ImportContext) (entry path : Path) (state : Loading) :
    Except SourceError Nat × Loading → Prop
  | entered {later : Loading} : Entered context entry path state later →
    Loaded context entry path state (.ok state.graph.size, later)
  | unreadable {error : SourceError} : ¬ context.system.Readable path →
    Loaded context entry path state (.error error, state)

/-- The loader loads reachable files as long as at most `room` modules are still to come. -/
def Loads (context : ImportContext) (entry : Path) (load : Loader) (room : Nat) : Prop :=
  ∀ path state, Sound context entry state → state.graph.find? path = none →
    (context.system.Readable path → context.Reachable entry path) →
    context.system.entries.length < room + state.graph.size →
    Loaded context entry path state (load path state)

/-- What becomes of an import. -/
inductive Follows (context : ImportContext) (entry importer : Path) (request : ImportRequest)
    (state : Loading) : Option Nat × Loading → Prop
  | known {target : Nat} {module : Module} : state.graph.get? target = some module →
    module.Finished → context.Leads importer request.path module.path →
    Follows context entry importer request state (some target, state)
  | loaded {path : Path} {later : Loading} : Entered context entry path state later →
    context.Leads importer request.path path →
    Follows context entry importer request state (some state.graph.size, later)
  | failed {diagnostic : Diagnostic} : diagnostic.severity = .error →
    Blocked context state.graph importer request →
    Follows context entry importer request state (none, state.report diagnostic)

variable {context : ImportContext} {entry path importer : Path} {request : ImportRequest}
  {state later before after : Loading} {graph : ModuleGraph} {module target : Module}
  {imports : List ImportEdge} {edge : ImportEdge} {i id room : Nat} {load : Loader}

/-! ### Reports -/

theorem errorCount_report_error {diagnostic : Diagnostic} (herror : diagnostic.severity = .error) :
    (state.report diagnostic).session.errorCount = state.session.errorCount + 1 := by
  show Diagnostics.errorCount (_ ++ _) = _
  rw [Diagnostics.errorCount_append, Diagnostics.errorCount_singleton, if_pos herror]
  rfl

theorem errorCount_report_other {diagnostic : Diagnostic} (herror : diagnostic.severity ≠ .error) :
    (state.report diagnostic).session.errorCount = state.session.errorCount := by
  show Diagnostics.errorCount (_ ++ _) = _
  rw [Diagnostics.errorCount_append, Diagnostics.errorCount_singleton, if_neg herror]
  rfl

theorem severity_brokenRule (error : ImportPathError) :
    (ImportReport.brokenRule request error).severity = .error := by
  unfold ImportReport.brokenRule
  dsimp only
  split <;> rfl

theorem severity_duplicateImport (first : SourceRange) :
    (ImportReport.duplicateImport request first).severity = .warning :=
  Diagnostic.severity_withSecondary _ _ _

theorem Sound.report {diagnostic : Diagnostic} (hsound : state.Sound context entry) :
    (state.report diagnostic).Sound context entry :=
  ⟨hsound.invariant, hsound.spans⟩

/-! ### Following an import -/

theorem Sound.reachable (hsound : state.Sound context entry)
    (hmodule : state.graph.get? i = some module) : context.Reachable entry module.path :=
  (hsound.invariant.modules i module hmodule).reachable

/-- What an import of a module leads to can be reached. -/
theorem Sound.reachable_of_leads (hsound : state.Sound context entry)
    (hmodule : state.graph.get? i = some module)
    (hrequest : request ∈ module.program.importRequests)
    (hleads : context.Leads module.path request.path path)
    (hreadable : context.system.Readable path) : context.Reachable entry path := by
  obtain ⟨text, arena, hcontents, hprogram, -⟩ := (hsound.invariant.modules i module hmodule).read
  have hraw : request.path ∈ importPaths text := by
    rw [← importPaths_ofText (.registered i) text arena, ← hprogram]
    exact List.mem_map_of_mem hrequest
  exact .imported (hsound.reachable hmodule) hcontents hraw hleads hreadable

/-- A module that is found at a canonical path has that very path. -/
theorem Sound.path_eq_of_find? (hspells : context.system.SpellsOnce)
    (hsound : state.Sound context entry) {candidate : Path}
    (hcanonical : context.system.canonical candidate = .ok path)
    (hfind : state.graph.find? path = some i) :
    ∃ module, state.graph.get? i = some module ∧ module.path = path := by
  obtain ⟨module, hmodule, hsame⟩ := get?_of_find? hfind
  obtain ⟨other, hother⟩ := (hsound.reachable hmodule).canonical
  exact ⟨module, hmodule, hspells other candidate _ _ hother hcanonical hsame⟩

/-- One of the imports of a module leads to a finished module, loads a new one or is reported. -/
theorem Loads.follow (hload : Loads context entry load room)
    (hspells : context.system.SpellsOnce) (hsound : state.Sound context entry)
    (hroom : context.system.entries.length < room + state.graph.size)
    (hmodule : state.graph.get? i = some module)
    (hrequest : request ∈ module.program.importRequests) :
    Follows context entry module.path request state
      (follow context load module.path.parent request state) := by
  unfold Loading.follow
  cases hrule : resolveImportPath context.packages module.path.parent request.path with
  | error error =>
      refine .failed (severity_brokenRule error) ?_
      rintro path ⟨candidate, hcandidate, -⟩
      rw [hrule] at hcandidate
      cases hcandidate
  | ok candidate =>
      dsimp only
      cases hcanonical : context.system.canonical candidate with
      | error fault =>
          refine .failed rfl ?_
          rintro path ⟨other, hother, hpath⟩
          rw [hrule] at hother
          cases hother
          rw [hcanonical] at hpath
          cases hpath
      | ok canonical =>
          have hleads : context.Leads module.path request.path canonical :=
            ⟨candidate, hrule, hcanonical⟩
          dsimp only
          unfold followTo
          cases hfind : state.graph.find? canonical with
          | some target =>
              obtain ⟨found, hfound, rfl⟩ := hsound.path_eq_of_find? hspells hcanonical hfind
              dsimp only
              rw [state_of_get? hfound]
              split
              case isTrue hresolving =>
                refine .failed rfl ?_
                intro path hpath _
                exact ⟨target, found, hfound, hleads.unique hpath, hresolving⟩
              case isFalse hresolving =>
                refine .known hfound ?_ hleads
                exact (hsound.invariant.modules target found hfound).visited.resolve_left hresolving
          | none =>
              have hloaded := hload canonical state hsound hfind
                (hsound.reachable_of_leads hmodule hrequest hleads) hroom
              dsimp only
              generalize load canonical state = result at hloaded ⊢
              cases hloaded with
              | entered hentered => exact .loaded hentered hleads
              | unreadable hunreadable =>
                  refine .failed rfl ?_
                  intro path hpath hreadable
                  rw [hleads.unique hpath] at hunreadable
                  exact absurd hreadable hunreadable

/-! ### Recorded and blocked imports -/

/-- An edge of a module leads to the file of its target, and to no other. -/
theorem Sound.target_of_leads (hsound : state.Sound context entry)
    (hmodule : state.graph.get? i = some module) (hedge : edge ∈ module.imports)
    (hleads : context.Leads module.path edge.path path) :
    ∃ target, state.graph.get? edge.target = some target ∧ target.Finished ∧ target.path = path := by
  obtain ⟨target, hfinished, hrecords⟩ :=
    (hsound.invariant.modules i module hmodule).recorded edge hedge
  exact ⟨target, hrecords.found, hfinished, hrecords.leads.unique hleads⟩

/-- Different modules have different paths. -/
theorem Sound.eq_of_path_eq (hsound : state.Sound context entry)
    (hmodule : module ∈ state.graph.modules) (htarget : target ∈ state.graph.modules)
    (hpath : module.path = target.path) : module = target :=
  List.inj_on_of_nodup_map hsound.invariant.distinct hmodule htarget
    (congrArg Path.components hpath)

theorem Sound.not_recorded_of_blocked (hsound : state.Sound context entry)
    (hmodule : state.graph.get? i = some module)
    (hblocked : Blocked context state.graph module.path request) :
    ¬ context.Recorded module request := by
  rintro ⟨edge, hedge, file, hleads, hedgeLeads⟩
  obtain ⟨target, htarget, hfinished, rfl⟩ := hsound.target_of_leads hmodule hedge hedgeLeads
  obtain ⟨j, waiting, hwaiting, hpath, hstate⟩ :=
    hblocked _ hleads (hsound.reachable htarget).readable
  have heq := hsound.eq_of_path_eq (mem_of_get? hwaiting) (mem_of_get? htarget) hpath
  exact hfinished.ne_resolving (heq ▸ hstate)

theorem Sound.followed (hsound : state.Sound context entry)
    (hmodule : state.graph.get? i = some module)
    (hsettled : context.Recorded module request ∨
      Blocked context state.graph module.path request) :
    context.Followed state.graph module request := by
  intro path hleads hreadable
  rcases hsettled with ⟨edge, hedge, file, hfile, hedgeLeads⟩ | hblocked
  · obtain ⟨target, htarget, -, rfl⟩ := hsound.target_of_leads hmodule hedge hedgeLeads
    exact ⟨target, mem_of_get? htarget, hfile.unique hleads⟩
  · obtain ⟨j, waiting, hwaiting, hpath, -⟩ := hblocked path hleads hreadable
    exact ⟨waiting, mem_of_get? hwaiting, hpath⟩

/-- Modules go on waiting while the imports of another one are followed. -/
theorem Blocked.mono (hblocked : Blocked context before.graph importer request)
    (hgrown : GrownAround id before.graph after.graph) :
    Blocked context after.graph importer request := by
  intro path hleads hreadable
  obtain ⟨i, waiting, hwaiting, hpath, hstate⟩ := hblocked path hleads hreadable
  by_cases hid : i = id
  · subst hid
    obtain ⟨imports, hkept⟩ := hgrown.around waiting hwaiting
    exact ⟨i, _, hkept, hpath, hstate⟩
  · exact ⟨i, waiting, hgrown.keeps i waiting hid hwaiting, hpath, hstate⟩

theorem Recorded.mono {more : List ImportEdge} (hsubset : imports ⊆ more)
    (hrecorded : context.Recorded { module with imports } request) :
    context.Recorded { module with imports := more } request := by
  obtain ⟨edge, hedge, hfile⟩ := hrecorded
  exact ⟨edge, hsubset hedge, hfile⟩

/-! ### Following the imports of a module -/

/-- The imports `done` of the module, which was the next one when it was entered, have been
followed. `start` is the state in front of it. -/
structure Following (context : ImportContext) (entry : Path) (start : Loading) (module : Module)
    (done : List ImportRequest) (imports : List ImportEdge) (state : Loading) : Prop where
  sound : state.Sound context entry
  here : state.graph.get? start.graph.size = some { module with imports }
  keeps : ∀ i known, start.graph.get? i = some known → state.graph.get? i = some known
  finished : ∀ j, start.graph.size < j → j < state.graph.size → state.graph.FinishedAt j
  led : ∀ j, start.graph.size < j → j < state.graph.size →
    ∃ k, start.graph.size ≤ k ∧ k < j ∧ state.graph.Imports k j
  settled : ∀ request ∈ done, context.Recorded { module with imports } request ∨
    Blocked context state.graph module.path request
  errors : start.session.errorCount ≤ state.session.errorCount
  reported : start.session.errorCount < state.session.errorCount ↔
    context.TextHasError module.path ∨
      (∃ request ∈ done, ¬ context.Recorded { module with imports } request) ∨
      ∃ j, start.graph.size < j ∧ j < state.graph.size ∧ context.ReportsErrorAt state.graph j

variable {start : Loading} {done : List ImportRequest} {more : List ImportEdge}

/-- One more import has been followed: what it did and whether it reported an error. -/
theorem Following.extend (hfollowing : Following context entry start module done imports before)
    (hsound : after.Sound context entry)
    (hhere : after.graph.get? start.graph.size = some { module with imports := more })
    (hgrown : GrownAround start.graph.size before.graph after.graph) (hsubset : imports ⊆ more)
    (hled : ∀ j, before.graph.size ≤ j → j < after.graph.size →
      ∃ k, start.graph.size ≤ k ∧ k < j ∧ after.graph.Imports k j)
    (hsettled : context.Recorded { module with imports := more } request ∨
      Blocked context after.graph module.path request)
    (herrors : before.session.errorCount ≤ after.session.errorCount)
    (hreported : before.session.errorCount < after.session.errorCount ↔
      ¬ context.Recorded { module with imports := more } request ∨
        ∃ j, before.graph.size ≤ j ∧ j < after.graph.size ∧
          context.ReportsErrorAt after.graph j) :
    Following context entry start module (done ++ [request]) more after := by
  have hid : start.graph.size < before.graph.size := lt_size_of_get? hfollowing.here
  have hsize := hgrown.size_le
  have hget : ∀ j, start.graph.size < j → j < before.graph.size →
      after.graph.get? j = before.graph.get? j := by
    intro j hj hlt
    obtain ⟨known, hknown⟩ := exists_get?_of_lt hlt
    rw [hknown, hgrown.keeps j known (by omega) hknown]
  have hold : ∀ other ∈ done, (¬ context.Recorded { module with imports := more } other ↔
      ¬ context.Recorded { module with imports } other) := by
    intro other hother
    refine ⟨mt (Recorded.mono hsubset), fun hnot => ?_⟩
    have hblocked := (hfollowing.settled other hother).resolve_left hnot
    exact hsound.not_recorded_of_blocked hhere (hblocked.mono hgrown)
  refine ⟨hsound, hhere, ?_, ?_, ?_, ?_, Nat.le_trans hfollowing.errors herrors, ?_⟩
  · intro i known hknown
    have hlt := lt_size_of_get? hknown
    exact hgrown.keeps i known (by omega) (hfollowing.keeps i known hknown)
  · intro j hj hlt
    by_cases hnew : before.graph.size ≤ j
    · obtain ⟨known, hknown⟩ := exists_get?_of_lt hlt
      exact ⟨known, hknown, hgrown.finished j known hknown hnew⟩
    · unfold FinishedAt
      rw [hget j hj (by omega)]
      exact hfollowing.finished j hj (by omega)
  · intro j hj hlt
    by_cases hnew : before.graph.size ≤ j
    · exact hled j hnew hlt
    · obtain ⟨k, hk, hkj, importer, himporter, edge, hedge, rfl⟩ :=
        hfollowing.led j hj (by omega)
      refine ⟨k, hk, hkj, ?_⟩
      by_cases heq : k = start.graph.size
      · subst heq
        rw [hfollowing.here] at himporter
        cases himporter
        exact ⟨_, hhere, edge, hsubset hedge, rfl⟩
      · exact ⟨importer, by rw [hget k (by omega) (by omega), himporter], edge, hedge, rfl⟩
  · intro other hother
    rcases List.mem_append.mp hother with hother | hother
    · rcases hfollowing.settled other hother with hrecorded | hblocked
      · exact .inl (Recorded.mono hsubset hrecorded)
      · exact .inr (hblocked.mono hgrown)
    · rw [List.mem_singleton.mp hother]
      exact hsettled
  · have hsplit : start.session.errorCount < after.session.errorCount ↔
        start.session.errorCount < before.session.errorCount ∨
          before.session.errorCount < after.session.errorCount := by
      have := hfollowing.errors
      omega
    rw [hsplit, hfollowing.reported, hreported]
    constructor
    · rintro ((htext | ⟨other, hother, hnot⟩ | ⟨j, hj, hlt, herror⟩) | hnot | ⟨j, hj, hlt, herror⟩)
      · exact .inl htext
      · exact .inr (.inl ⟨other, List.mem_append_left _ hother, (hold other hother).mpr hnot⟩)
      · refine .inr (.inr ⟨j, hj, by omega, ?_⟩)
        unfold ImportContext.ReportsErrorAt
        rw [hget j hj hlt]
        exact herror
      · exact .inr (.inl ⟨request, by simp, hnot⟩)
      · exact .inr (.inr ⟨j, by omega, hlt, herror⟩)
    · rintro (htext | ⟨other, hother, hnot⟩ | ⟨j, hj, hlt, herror⟩)
      · exact .inl (.inl htext)
      · rcases List.mem_append.mp hother with hother | hother
        · exact .inl (.inr (.inl ⟨other, hother, (hold other hother).mp hnot⟩))
        · rw [List.mem_singleton.mp hother] at hnot
          exact .inr (.inl hnot)
      · by_cases hnew : before.graph.size ≤ j
        · exact .inr (.inr ⟨j, hnew, hlt, herror⟩)
        · refine .inl (.inr (.inr ⟨j, hj, by omega, ?_⟩))
          unfold ImportContext.ReportsErrorAt at herror
          rw [hget j hj (by omega)] at herror
          exact herror

theorem grownAround_addImport (graph : ModuleGraph) (id : Nat) (edge : ImportEdge) :
    GrownAround id graph (graph.addImport id edge) where
  keeps i module hi hmodule := (get?_modify_of_ne _ hi).trans hmodule
  around module hmodule := ⟨module.imports ++ [edge], get?_modify_self _ hmodule⟩
  finished i module hmodule hi := by
    have hlt := lt_size_of_get? hmodule
    unfold ModuleGraph.addImport at hlt
    rw [size_modify] at hlt
    omega

/-- Finished modules are not touched when a module that waits for its imports changes. -/
theorem Sound.spans_modify (hsound : state.Sound context entry) (change : Module → Module)
    (hmodule : state.graph.get? id = some module) (hstate : module.state = .resolving)
    (hi : i ≠ id) (hfinished : (state.graph.modify id change).FinishedAt i) :
    ∃ stop, Spans context (state.graph.modify id change) i stop := by
  have hkept : state.graph.FinishedAt i := by
    obtain ⟨known, hknown, hdone⟩ := hfinished
    rw [get?_modify_of_ne change hi] at hknown
    exact ⟨known, hknown, hdone⟩
  obtain ⟨stop, hspans⟩ := hsound.spans i hkept
  refine ⟨stop, hspans.mono ?_⟩
  intro k known hknown hdone
  show (state.graph.modify id change).get? k = _
  rw [get?_modify_of_ne change, hknown]
  rintro rfl
  exact not_finishedAt_of_resolving hmodule hstate ⟨known, hknown, hdone⟩

theorem Sound.addImport {edge : ImportEdge} (hsound : state.Sound context entry)
    (hmodule : state.graph.get? id = some module) (hstate : module.state = .resolving)
    (hfinished : target.Finished) (hrecords : context.Records state.graph module edge target)
    (hfresh : ∀ known ∈ module.imports, known.target ≠ edge.target) :
    Sound context entry { state with graph := state.graph.addImport id edge } := by
  refine ⟨hsound.invariant.addImport hmodule hstate hfinished hrecords hfresh, fun j hj => ?_⟩
  refine hsound.spans_modify _ hmodule hstate ?_ hj
  rintro rfl
  exact not_finishedAt_of_resolving (get?_modify_self _ hmodule) hstate hj

/-- Recording an import adds an edge, unless there is one to the same module. -/
theorem link_of_fresh {target : Nat} (hmodule : state.graph.get? id = some module)
    (hfresh : ∀ edge ∈ module.imports, edge.target ≠ target) :
    state.link id request target =
      { state with graph :=
          state.graph.addImport id ⟨target, request.path, request.pathRange, request.decl⟩ } := by
  have hnone : module.imports.find? (fun edge => edge.target == target) = none := by
    simpa using hfresh
  unfold link
  simp only [hmodule, Option.map_some, Option.getD_some, hnone]

theorem link_of_known (request : ImportRequest) {target : Nat}
    (hmodule : state.graph.get? id = some module)
    (hknown : ∃ edge ∈ module.imports, edge.target = target) :
    ∃ first ∈ module.imports, first.target = target ∧ state.link id request target =
      state.report (ImportReport.duplicateImport request first.pathRange) := by
  have hsome : (module.imports.find? fun edge => edge.target == target).isSome := by
    simpa using hknown
  obtain ⟨first, hfind⟩ := Option.isSome_iff_exists.mp hsome
  refine ⟨first, List.mem_of_find?_eq_some hfind, by simpa using List.find?_some hfind, ?_⟩
  unfold link
  simp only [hmodule, Option.map_some, Option.getD_some, hfind]

/-- An import that leads to a finished module is recorded. The module was there, or it was loaded
just now with all that it leads to. -/
theorem Following.record (hfollowing : Following context entry start module done imports before)
    (hstate : module.state = .resolving) (hrequest : request ∈ module.program.importRequests)
    (hsound : later.Sound context entry) (hgrown : Grown before.graph later.graph)
    (htarget : later.graph.get? i = some target) (hfinished : target.Finished)
    (hleads : context.Leads module.path request.path target.path)
    (hfresh : ∀ edge ∈ imports, edge.target ≠ i)
    (hled : ∀ j, before.graph.size ≤ j → j < later.graph.size →
      j = i ∨ ∃ k, before.graph.size ≤ k ∧ k < j ∧ later.graph.Imports k j)
    (herrors : before.session.errorCount ≤ later.session.errorCount)
    (hreported : before.session.errorCount < later.session.errorCount ↔
      ∃ j, before.graph.size ≤ j ∧ j < later.graph.size ∧ context.ReportsErrorAt later.graph j) :
    Following context entry start module (done ++ [request])
      (imports ++ [⟨i, request.path, request.pathRange, request.decl⟩])
      (later.link start.graph.size request i) := by
  have hid : start.graph.size < before.graph.size := lt_size_of_get? hfollowing.here
  have hhere := hgrown.keeps _ _ hfollowing.here
  rw [link_of_fresh hhere hfresh]
  let edge : ImportEdge := ⟨i, request.path, request.pathRange, request.decl⟩
  have hadded : (later.graph.addImport start.graph.size edge).get? start.graph.size =
      some { module with imports := imports ++ [edge] } := get?_modify_self _ hhere
  have hget : ∀ j, before.graph.size ≤ j →
      (later.graph.addImport start.graph.size edge).get? j = later.graph.get? j :=
    fun j hj => get?_modify_of_ne _ (by omega)
  have hrecords : context.Records later.graph { module with imports } edge target :=
    ⟨hrequest, hleads, htarget⟩
  have hrecorded : context.Recorded { module with imports := imports ++ [edge] } request :=
    ⟨edge, List.mem_append_right _ (List.mem_singleton.mpr rfl), target.path, hleads, hleads⟩
  have hsize : (later.graph.addImport start.graph.size edge).size = later.graph.size :=
    size_modify _ _ _
  refine hfollowing.extend ?_ hadded ?_ (List.subset_append_left _ _) ?_ ?_
    herrors ?_
  · exact hsound.addImport hhere hstate hfinished hrecords hfresh
  · exact hgrown.around.trans (grownAround_addImport later.graph start.graph.size edge) hid
  · intro j hj hlt
    rw [hsize] at hlt
    rcases hled j hj hlt with rfl | ⟨k, hk, hkj, importer, himporter, hedge⟩
    · exact ⟨start.graph.size, Nat.le_refl _, by omega, _, hadded, edge, by simp, rfl⟩
    · exact ⟨k, by omega, hkj, importer, by rw [hget k hk, himporter], hedge⟩
  · exact .inl hrecorded
  · rw [hreported]
    constructor
    · rintro ⟨j, hj, hlt, herror⟩
      refine .inr ⟨j, hj, by rw [hsize]; exact hlt, ?_⟩
      unfold ImportContext.ReportsErrorAt
      rw [hget j hj]
      exact herror
    · rintro (hnot | ⟨j, hj, hlt, herror⟩)
      · exact absurd hrecorded hnot
      · rw [hsize] at hlt
        unfold ImportContext.ReportsErrorAt at herror
        rw [hget j hj] at herror
        exact ⟨j, hj, hlt, herror⟩

/-- A report does not change the graph. -/
theorem Following.report {diagnostic : Diagnostic}
    (hfollowing : Following context entry start module done imports before)
    (hsettled : context.Recorded { module with imports } request ∨
      Blocked context before.graph module.path request)
    (herror : diagnostic.severity = .error ↔
      ¬ context.Recorded { module with imports } request) :
    Following context entry start module (done ++ [request]) imports (before.report diagnostic) := by
  have hnone : ∀ j, before.graph.size ≤ j → ¬ j < before.graph.size := by
    intro j hj
    omega
  refine hfollowing.extend hfollowing.sound.report hfollowing.here Grown.refl.around
    (List.Subset.refl _) (fun j hj hlt => absurd hlt (hnone j hj)) hsettled ?_ ?_
  · by_cases hseverity : diagnostic.severity = .error
    · rw [errorCount_report_error hseverity]
      exact Nat.le_succ _
    · exact Nat.le_of_eq (errorCount_report_other hseverity).symm
  · constructor
    · intro hlt
      refine .inl (herror.mp ?_)
      by_contra hseverity
      rw [errorCount_report_other hseverity] at hlt
      omega
    · rintro (hnot | ⟨j, hj, hlt, -⟩)
      · rw [errorCount_report_error (herror.mpr hnot)]
        omega
      · exact absurd hlt (hnone j hj)

/-- **One import.** It is settled by what becomes of it and by the edge that is recorded for it. -/
theorem Following.step (hload : Loads context entry load room)
    (hspells : context.system.SpellsOnce)
    (hroom : context.system.entries.length < room + (start.graph.size + 1))
    (hfollowing : Following context entry start module done imports state)
    (hstate : module.state = .resolving) (hrequest : request ∈ module.program.importRequests) :
    ∃ more, Following context entry start module (done ++ [request]) more
      (match follow context load module.path.parent request state with
        | (some target, state) => state.link start.graph.size request target
        | (none, state) => state) := by
  have hid : start.graph.size < state.graph.size := lt_size_of_get? hfollowing.here
  have hinvariant := hfollowing.sound.invariant.modules _ _ hfollowing.here
  have hfollows := hload.follow hspells hfollowing.sound (by omega) hfollowing.here hrequest
  change Follows context entry module.path request state
    (follow context load module.path.parent request state) at hfollows
  generalize follow context load module.path.parent request state = result at hfollows
  cases hfollows with
  | @failed diagnostic herror hblocked =>
      refine ⟨imports, hfollowing.report (.inr hblocked) ?_⟩
      exact iff_of_true herror
        (hfollowing.sound.not_recorded_of_blocked hfollowing.here hblocked)
  | @known target found hfound hfinished hleads =>
      by_cases hfresh : ∀ edge ∈ imports, edge.target ≠ target
      · refine ⟨_, hfollowing.record hstate hrequest hfollowing.sound Grown.refl hfound hfinished
          hleads hfresh ?_ (Nat.le_refl _) ?_⟩
        · intro j hj hlt
          omega
        · constructor
          · intro hlt
            omega
          · rintro ⟨j, hj, hlt, -⟩
            omega
      · push Not at hfresh
        obtain ⟨first, -, -, hfirst⟩ := link_of_known request hfollowing.here hfresh
        obtain ⟨edge, hedge, rfl⟩ := hfresh
        obtain ⟨other, -, hrecords⟩ := hinvariant.recorded edge hedge
        have hsame := hrecords.found
        rw [hfound] at hsame
        cases hsame
        have hrecorded : context.Recorded { module with imports } request :=
          ⟨edge, hedge, found.path, hleads, hrecords.leads⟩
        refine ⟨imports, ?_⟩
        dsimp only
        rw [hfirst]
        refine hfollowing.report (.inl hrecorded) ?_
        rw [severity_duplicateImport]
        exact iff_of_false (by simp) (not_not_intro hrecorded)
  | @loaded path later hentered hleads =>
      obtain ⟨found, hfound, rfl⟩ := hentered.here
      have hlt := lt_size_of_get? hfound
      refine ⟨_, hfollowing.record hstate hrequest hentered.sound hentered.grown hfound
        (hentered.grown.finished _ _ hfound (Nat.le_refl _)) hleads ?_ ?_ hentered.errors
        hentered.reported⟩
      · intro edge hedge heq
        obtain ⟨other, -, hrecords⟩ := hinvariant.recorded edge hedge
        have hbelow := lt_size_of_get? hrecords.found
        omega
      · intro j hj hlt
        by_cases heq : j = state.graph.size
        · exact .inl heq
        · obtain ⟨k, hk, hkj, himports⟩ := hentered.spans.led j (by omega) hlt
          exact .inr ⟨k, hk, hkj, himports⟩

/-- **All imports of a module**, by induction on those that are still to be followed. -/
theorem Following.followAll (hload : Loads context entry load room)
    (hspells : context.system.SpellsOnce)
    (hroom : context.system.entries.length < room + (start.graph.size + 1))
    (hstate : module.state = .resolving) (requests : List ImportRequest)
    (hrequests : ∀ request ∈ requests, request ∈ module.program.importRequests)
    (hfollowing : Following context entry start module done imports state) :
    ∃ more, Following context entry start module (done ++ requests) more
      (followAll context load start.graph.size module.path.parent requests state) := by
  induction requests generalizing done imports state with
  | nil =>
      refine ⟨imports, ?_⟩
      rw [List.append_nil]
      exact hfollowing
  | cons request requests ih =>
      obtain ⟨more, hstep⟩ := hfollowing.step hload hspells hroom hstate
        (hrequests request (by simp))
      obtain ⟨all, hall⟩ := ih (fun other hother => hrequests other (by simp [hother])) hstep
      refine ⟨all, ?_⟩
      rw [List.append_assoc] at hall
      exact hall

/-! ### Loading a module -/

section Leave

variable {outcome : ModuleState}

theorem get?_setState_of_ne (graph : ModuleGraph) (outcome : ModuleState) (hi : i ≠ id) :
    (graph.setState id outcome).get? i = graph.get? i :=
  get?_modify_of_ne _ hi

theorem Following.get?_setState
    (hfollowing : Following context entry start module done imports state) :
    (state.graph.setState start.graph.size outcome).get? start.graph.size =
      some { module with imports, state := outcome } :=
  get?_modify_self _ hfollowing.here

theorem Following.finished_setState
    (hfollowing : Following context entry start module done imports state)
    (houtcome : outcome = .resolved ∨ outcome = .failed) :
    ∀ j, start.graph.size ≤ j → j < state.graph.size →
      (state.graph.setState start.graph.size outcome).FinishedAt j := by
  intro j hj hlt
  by_cases heq : j = start.graph.size
  · subst heq
    exact ⟨_, hfollowing.get?_setState, houtcome⟩
  · unfold FinishedAt
    rw [get?_setState_of_ne _ _ heq]
    exact hfollowing.finished j (by omega) hlt

/-- Errors were reported if one of the modules from this one on has errors of its own. -/
theorem Following.reported_setState
    (hfollowing :
      Following context entry start module module.program.importRequests imports state) :
    start.session.errorCount < state.session.errorCount ↔
      ∃ j, start.graph.size ≤ j ∧ j < state.graph.size ∧
        context.ReportsErrorAt (state.graph.setState start.graph.size outcome) j := by
  have hid : start.graph.size < state.graph.size := lt_size_of_get? hfollowing.here
  have hown : context.ReportsErrorAt (state.graph.setState start.graph.size outcome)
      start.graph.size ↔ context.TextHasError module.path ∨
        ∃ request ∈ module.program.importRequests,
          ¬ context.Recorded { module with imports } request := by
    unfold ImportContext.ReportsErrorAt
    rw [hfollowing.get?_setState]
    simp [ImportContext.ReportsError, ImportContext.Recorded]
  have hother : ∀ j, j ≠ start.graph.size →
      (context.ReportsErrorAt (state.graph.setState start.graph.size outcome) j ↔
        context.ReportsErrorAt state.graph j) := by
    intro j hj
    unfold ImportContext.ReportsErrorAt
    rw [get?_setState_of_ne _ _ hj]
  rw [hfollowing.reported]
  constructor
  · rintro (htext | hnot | ⟨j, hj, hlt, herror⟩)
    · exact ⟨_, Nat.le_refl _, hid, hown.mpr (.inl htext)⟩
    · exact ⟨_, Nat.le_refl _, hid, hown.mpr (.inr hnot)⟩
    · exact ⟨j, by omega, hlt, (hother j (by omega)).mpr herror⟩
  · rintro ⟨j, hj, hlt, herror⟩
    by_cases heq : j = start.graph.size
    · subst heq
      rcases hown.mp herror with htext | hnot
      · exact .inl htext
      · exact .inr (.inl hnot)
    · exact .inr (.inr ⟨j, by omega, hlt, (hother j heq).mp herror⟩)

theorem Following.invariant_setState
    (hfollowing :
      Following context entry start module module.program.importRequests imports state)
    (hstate : module.state = .resolving) (houtcome : outcome = .resolved ∨ outcome = .failed) :
    LoadingInvariant context entry state.session.sources.files
      (state.graph.setState start.graph.size outcome) := by
  apply hfollowing.sound.invariant.setState hfollowing.here hstate houtcome
  intro request hrequest
  exact hfollowing.sound.followed hfollowing.here (hfollowing.settled request hrequest)

/-- The module and all that was loaded since are a range of their own. -/
theorem Following.spans_setState
    (hfollowing :
      Following context entry start module module.program.importRequests imports state)
    (hstate : module.state = .resolving) (houtcome : outcome = .resolved ∨ outcome = .failed)
    (hfailed : outcome = .failed ↔ start.session.errorCount < state.session.errorCount) :
    Spans context (state.graph.setState start.graph.size outcome) start.graph.size
      state.graph.size := by
  have hid : start.graph.size < state.graph.size := lt_size_of_get? hfollowing.here
  refine ⟨hid, hfollowing.finished_setState houtcome, ?_, ?_, ?_⟩
  · intro k j _ _ himports
    obtain ⟨target, htarget, -⟩ :=
      (hfollowing.invariant_setState hstate houtcome).finishedAt_of_imports himports
    have hlt := lt_size_of_get? htarget
    unfold ModuleGraph.setState at hlt
    rw [size_modify] at hlt
    exact hlt
  · intro j hj hlt
    obtain ⟨k, hk, hkj, importer, himporter, edge, hedge, rfl⟩ := hfollowing.led j hj hlt
    refine ⟨k, hk, hkj, ?_⟩
    by_cases heq : k = start.graph.size
    · subst heq
      rw [hfollowing.here] at himporter
      cases himporter
      exact ⟨_, hfollowing.get?_setState, edge, hedge, rfl⟩
    · exact ⟨importer, by rw [get?_setState_of_ne _ _ heq, himporter], edge, hedge, rfl⟩
  · intro found hfound
    rw [hfollowing.get?_setState] at hfound
    cases hfound
    rw [← hfollowing.reported_setState]
    exact hfailed

theorem Following.sound_setState
    (hfollowing :
      Following context entry start module module.program.importRequests imports state)
    (hstate : module.state = .resolving) (houtcome : outcome = .resolved ∨ outcome = .failed)
    (hfailed : outcome = .failed ↔ start.session.errorCount < state.session.errorCount)
    (waiting : List Nat) :
    Sound context entry
      ⟨state.session, state.graph.setState start.graph.size outcome, waiting⟩ := by
  refine ⟨hfollowing.invariant_setState hstate houtcome, ?_⟩
  intro j hj
  by_cases heq : j = start.graph.size
  · subst heq
    exact ⟨_, hfollowing.spans_setState hstate houtcome hfailed⟩
  · exact hfollowing.sound.spans_modify _ hfollowing.here hstate heq hj

/-- **A module whose imports have all been followed is finished.** -/
theorem Following.leave
    (hfollowing :
      Following context entry start module module.program.importRequests imports state)
    (hstate : module.state = .resolving) :
    Entered context entry module.path start
      (state.leave start.graph.size start.session.errorCount) := by
  obtain ⟨outcome, houtcome, hfailed, hleave⟩ : ∃ outcome : ModuleState,
      (outcome = .resolved ∨ outcome = .failed) ∧
      (outcome = .failed ↔ start.session.errorCount < state.session.errorCount) ∧
      state.leave start.graph.size start.session.errorCount =
        ⟨state.session, state.graph.setState start.graph.size outcome, state.path.dropLast⟩ := by
    refine ⟨_, ?_, ?_, rfl⟩ <;> split <;> simp_all
  have hsize : (state.graph.setState start.graph.size outcome).size = state.graph.size :=
    size_modify _ _ _
  rw [hleave]
  refine ⟨hfollowing.sound_setState hstate houtcome hfailed _, ⟨?_, ?_⟩,
    ⟨_, hfollowing.get?_setState, rfl⟩, ?_, hfollowing.errors, ?_⟩
  · intro j known hknown
    have hlt := lt_size_of_get? hknown
    rw [get?_setState_of_ne _ _ (by omega)]
    exact hfollowing.keeps j known hknown
  · intro j known hknown hj
    have hlt := lt_size_of_get? hknown
    rw [hsize] at hlt
    obtain ⟨other, hother, hdone⟩ := hfollowing.finished_setState houtcome j hj hlt
    rw [hknown] at hother
    cases hother
    exact hdone
  · dsimp only
    rw [hsize]
    exact hfollowing.spans_setState hstate houtcome hfailed
  · dsimp only
    rw [hsize]
    exact hfollowing.reported_setState

end Leave

/-- A module that has just been entered, none of its imports followed. -/
theorem Sound.entered {text : String} {errors : Nat} (hsound : start.Sound context entry)
    (hfind : start.graph.find? module.path = none)
    (hreachable : context.Reachable entry module.path)
    (hcontents : context.system.contents module.path = .ok text)
    (hstate : module.state = .resolving) (himports : module.imports = [])
    (hread : context.ReadsAs (start.session.sources.files ++ [⟨module.path, text.toList⟩])
      start.graph.size module)
    (hgraph : state.graph = ⟨start.graph.modules ++ [module]⟩)
    (hfiles : state.session.sources.files =
      start.session.sources.files ++ [⟨module.path, text.toList⟩])
    (hcount : state.session.errorCount = start.session.errorCount + errors)
    (herrors : 0 < errors ↔ context.TextHasError module.path) :
    Following context entry start module [] [] state := by
  have hhere : state.graph.get? start.graph.size = some module := by
    rw [hgraph, get?_push, if_pos rfl]
  have hsize : state.graph.size = start.graph.size + 1 := by
    rw [hgraph]
    simp [ModuleGraph.size]
  have hkeeps : ∀ i known, start.graph.get? i = some known → state.graph.get? i = some known := by
    intro i known hknown
    have hlt := lt_size_of_get? hknown
    rw [hgraph, get?_push, if_neg (by omega), hknown]
  refine ⟨⟨?_, ?_⟩, ?_, hkeeps, ?_, ?_, ?_, ?_, ?_⟩
  · rw [hgraph, hfiles]
    exact hsound.invariant.push hfind hreachable hread hstate himports
  · rintro j ⟨known, hknown, hdone⟩
    have hne : j ≠ start.graph.size := by
      rintro rfl
      exact not_finishedAt_of_resolving hhere hstate ⟨known, hknown, hdone⟩
    rw [hgraph, get?_push, if_neg hne] at hknown
    obtain ⟨stop, hspans⟩ := hsound.spans j ⟨known, hknown, hdone⟩
    exact ⟨stop, hspans.mono fun k other hother _ => hkeeps k other hother⟩
  · rw [hhere]
    cases module
    cases himports
    rfl
  · intro j hj hlt
    omega
  · intro j hj hlt
    omega
  · intro request hrequest
    cases hrequest
  · omega
  · constructor
    · intro hlt
      exact .inl (herrors.mp (by omega))
    · rintro (htext | ⟨request, hrequest, -⟩ | ⟨j, hj, hlt, -⟩)
      · have := herrors.mpr htext
        omega
      · cases hrequest
      · omega

theorem Sound.enter {text : String} (hsound : start.Sound context entry)
    (hfind : start.graph.find? path = none) (hreachable : context.Reachable entry path)
    (hcontents : context.system.contents path = .ok text) :
    Following context entry start
      { Module.ofProgram path (start.enter path text).1 with state := .resolving } [] []
      (start.enter path text).2 := by
  refine Sound.entered hsound hfind hreachable hcontents rfl rfl ?_ ?_ rfl
    (Diagnostics.errorCount_append _ _) ?_
  · refine ⟨text, start.session.arena, hcontents, ?_, ?_⟩
    · rw [← hsound.invariant.numbered]
      rfl
    · rw [← hsound.invariant.numbered]
      exact List.getElem?_concat_length
  · exact insert_of_find? hfind
  · rw [Diagnostics.errorCount_pos_iff, SyntaxReport.hasErrors_ofText]
    constructor
    · exact fun hreported => ⟨text, hcontents, hreported⟩
    · rintro ⟨other, hother, hreported⟩
      have hsame : text = other := Except.ok.inj (hcontents.symm.trans hother)
      rw [hsame]
      exact hreported

/-- **Loading a module.** The induction is on the number of imports that may still lie ahead; it
never runs out, since a new module is entered for each of them. -/
theorem loads_loadUpTo (hspells : context.system.SpellsOnce) (depth : Nat) :
    Loads context entry (loadUpTo context depth) depth := by
  induction depth with
  | zero =>
      intro path state hsound _ _ hroom
      have := hsound.invariant.size_le
      omega
  | succ depth ih =>
      intro path state hsound hfind hreachable hroom
      unfold loadUpTo
      rw [hfind]
      dsimp only
      cases hcontents : context.system.contents path with
      | error fault =>
          refine .unreadable ?_
          rintro ⟨text, htext⟩
          rw [hcontents] at htext
          cases htext
      | ok text =>
          have hentered := hsound.enter hfind (hreachable ⟨text, hcontents⟩) hcontents
          obtain ⟨imports, hfollowed⟩ := hentered.followAll ih hspells (by omega) rfl
            (state.enter path text).1.importRequests fun _ hrequest => hrequest
          exact .entered (hfollowed.leave rfl)

end Loading

end BehaviorTree
