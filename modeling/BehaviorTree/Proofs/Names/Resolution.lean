import BehaviorTree.Proofs.Module.Loading
import BehaviorTree.Proofs.Names.Meaning

/-!
# Names are accounted for

Main statement: after the names of all loaded modules have been looked at, each use of a name in a
module either has one meaning, which is there and may be used, or there is one error at its place.

What a value is recorded as is what its environment says, an import is asked only where the
environment has nothing, and in the end the scopes of a module are those of its program.
-/

namespace BehaviorTree

/-! ### The tables of a graph -/

/-- The name that a module has under an index of one of its tables. -/
def Module.nameAt? (module : Module) (namesOf : Namespace) (index : Nat) : Option String :=
  match namesOf with
  | .value => (module.symbols.get? index).map Symbol.name
  | .node => (module.nodes.get? index).map Prod.fst
  | .type => (module.types.get? index).map Prod.fst

/-- The entry stands at the top of the module and not in one of its trees. -/
def Module.AtTop (module : Module) (namesOf : Namespace) (index : Nat) : Prop :=
  match namesOf with
  | .value => (module.symbols.get? index).map Symbol.scope = some SymbolTable.moduleScope
  | .node | .type => True

/-- A name in the module number `id` may have the meaning: it is a builtin type of that name, or an
entry of that name in the module or one that it imports itself, in the latter case one at the top
that is not private. -/
def ModuleGraph.Permits (graph : ModuleGraph) (id : Nat) (purpose : NameUse) (name : String) :
    TypeTarget → Prop
  | .builtin type => purpose = .type ∧ BuiltinType.ofName? name = some type
  | .declared target => ∃ owner, graph.get? target.module = some owner ∧
    owner.nameAt? purpose.names target.index = some name ∧
    (target.module = id ∨ graph.Imports id target.module) ∧
    (target.module ≠ id → owner.AtTop purpose.names target.index ∧ isPrivate name = false)

namespace Naming

variable {graph : ModuleGraph} {id i : Nat} {module : Module} {state : Naming}
  {purpose : NameUse} {origin : Origin} {name : Name} {range : SourceRange}
  {events before after : List NameEvent}

/-- No event is about a name at the range. -/
def Elsewhere (range : SourceRange) (event : NameEvent) : Prop :=
  ∀ purpose origin name, event = .use purpose origin name →
    name.range.isLocated = true ∧ name.range ≠ range

theorem Reports.not_blames {event : NameEvent} {diagnostic : Diagnostic}
    (hreports : Reports event diagnostic) (helsewhere : Elsewhere range event) :
    diagnostic.blames range = false := by
  rcases hreports with hcode | ⟨purpose, origin, name, heq, hrefuses⟩
  · exact Diagnostic.not_blames hcode (by decide) range
  · obtain ⟨hlocated, hne⟩ := helsewhere purpose origin name heq
    rw [hrefuses.blames hlocated]
    exact beq_false_of_ne hne

theorem blamed_step_elsewhere {event : NameEvent} (helsewhere : Elsewhere range event) :
    (step graph id module state event).diagnostics.filter (Diagnostic.blames range) =
      state.diagnostics.filter (Diagnostic.blames range) := by
  obtain ⟨errors, herrors, hreports⟩ := step_reports graph id module state event
  have hnone : errors.filter (Diagnostic.blames range) = [] := by
    rw [List.filter_eq_nil_iff]
    intro diagnostic hmem
    rw [(hreports diagnostic hmem).not_blames helsewhere]
    exact Bool.false_ne_true
  rw [herrors, List.filter_append, hnone, List.append_nil]

theorem meanings_run_apart (hapart : ∀ event ∈ events, .node purpose.nodeKind i ∉ event.stamps) :
    (run graph id module state events).resolutions.meanings purpose i =
      state.resolutions.meanings purpose i := by
  induction events generalizing state with
  | nil => rfl
  | cons event events ih =>
      obtain ⟨hevent, hrest⟩ := List.forall_mem_cons.mp hapart
      exact (ih hrest).trans (meanings_step_apart hevent)

theorem blamed_run_elsewhere (helsewhere : ∀ event ∈ events, Elsewhere range event) :
    (run graph id module state events).diagnostics.filter (Diagnostic.blames range) =
      state.diagnostics.filter (Diagnostic.blames range) := by
  induction events generalizing state with
  | nil => rfl
  | cons event events ih =>
      obtain ⟨hevent, hrest⟩ := List.forall_mem_cons.mp helsewhere
      exact (ih hrest).trans (blamed_step_elsewhere hevent)

/-- What a use comes to is there at the end, if no other event is about its node or its place. -/
theorem run_settles (graph : ModuleGraph) (id : Nat) (module : Module)
    (hlocated : name.range.isLocated = true)
    (hnode : ∀ event ∈ before ++ after, .node purpose.nodeKind origin.id ∉ event.stamps)
    (hplace : ∀ event ∈ before ++ after, Elsewhere name.range event) :
    ∃ meanings errors,
      Settled graph id module (run graph id module (initial module) before) purpose name
        meanings errors ∧
      (run graph id module (initial module)
        (before ++ .use purpose origin name :: after)).resolutions.meanings purpose origin.id =
          meanings ∧
      (run graph id module (initial module)
        (before ++ .use purpose origin name :: after)).diagnostics.filter
          (Diagnostic.blames name.range) = errors := by
  obtain ⟨hnodeBefore, hnodeAfter⟩ := List.forall_mem_append.mp hnode
  obtain ⟨hplaceBefore, hplaceAfter⟩ := List.forall_mem_append.mp hplace
  obtain ⟨meanings, errors, hsettled, hcomes⟩ := use_settles graph id module
    (run graph id module (initial module) before) purpose origin name
  have hrun : run graph id module (initial module) (before ++ .use purpose origin name :: after) =
      run graph id module (use graph id module (run graph id module (initial module) before)
        purpose origin name) after :=
    List.foldl_append
  refine ⟨meanings, errors, hsettled, ?_, ?_⟩
  · rw [hrun, meanings_run_apart hnodeAfter, hcomes.recorded, if_pos ⟨rfl, rfl⟩,
      meanings_run_apart hnodeBefore]
    cases purpose <;> rfl
  · have herrors : errors.filter (Diagnostic.blames name.range) = errors := by
      cases hsettled with
      | means => rfl
      | refused _ _ hrefuses =>
          have hblames := hrefuses.blames hlocated name.range
          rw [beq_self_eq_true] at hblames
          exact List.filter_cons_of_pos hblames
    rw [hrun, blamed_run_elsewhere hplaceAfter, hcomes.diagnostics, List.filter_append,
      blamed_run_elsewhere hplaceBefore, herrors]
    rfl

end Naming

/-! ### One module -/

/-- The name of a use is written in the program. -/
theorem Program.mem_stamps_of_use {program : Program} {purpose : NameUse} {origin : Origin}
    {name : Name} (huse : .use purpose origin name ∈ program.nameEvents) :
    .name name ∈ program.stamps := by
  have hstamp : Stamp.name name ∈ program.nameEvents.flatMap NameEvent.stamps :=
    List.mem_flatMap.mpr ⟨_, huse, List.mem_cons_of_mem _ List.mem_cons_self⟩
  have hcount := program.covered (.name name)
  have hpositive := List.count_pos_iff.mpr hstamp
  exact List.count_pos_iff.mp (by omega)

namespace Module.Unnamed

variable {graph : ModuleGraph} {id : Nat} {module : Module} {purpose : NameUse} {origin : Origin}
  {name other : Name} {before after : List NameEvent}

theorem name_file (hmodule : module.Unnamed) (hname : .name name ∈ module.program.stamps) :
    name.range.file = module.file ∧ name.range.isLocated = true := by
  obtain ⟨index, text, arena, hprogram⟩ := hmodule.read
  rw [hprogram] at hname
  have hfile := Parsed.ofText_name_file _ text arena hname
  constructor
  · rw [hfile, Module.file, hprogram, Parsed.ofText_file]
  · rw [SourceRange.isLocated, hfile]
    rfl

theorem name_eq (hmodule : module.Unnamed) (hname : .name name ∈ module.program.stamps)
    (hother : .name other ∈ module.program.stamps) (hrange : name.range = other.range) :
    name = other := by
  obtain ⟨index, text, arena, hprogram⟩ := hmodule.read
  rw [hprogram] at hname hother
  exact Parsed.ofText_name_eq _ text arena hname hother hrange

theorem stamps_nodup (hmodule : module.Unnamed) : module.program.stamps.Nodup := by
  obtain ⟨index, text, arena, hprogram⟩ := hmodule.read
  rw [hprogram]
  exact Parsed.ofText_stamps_nodup _ _ _

/-- What sees an environment is looked at when the table shows that environment. -/
theorem located (hmodule : module.Unnamed) {env : Environment} {node : SyntaxNode}
    (hsees : module.program.Sees env node) (huses : node.Uses purpose origin name) :
    ∃ before after, module.program.nameEvents = before ++ .use purpose origin name :: after ∧
      (before.foldl SymbolTable.follow module.collected.module.symbols).Shows env := by
  obtain ⟨before, after, hevents, hshows⟩ :=
    hsees.reads hmodule.collected.sound hmodule.collected.shows
  obtain ⟨front, back, hnode, honly⟩ := huses.split
  refine ⟨before ++ front, back ++ after, by simp [hevents, hnode], ?_⟩
  rwa [List.foldl_append, SymbolTable.foldl_onlyUses honly]

/-- What a use in the module comes to. -/
theorem settles (hmodule : module.Unnamed) (graph : ModuleGraph) (id : Nat)
    (hevents : module.program.nameEvents = before ++ .use purpose origin name :: after) :
    ∃ meanings errors,
      Naming.Settled graph id module.collected.module
        (Naming.run graph id module.collected.module (.initial module.collected.module) before)
        purpose name meanings errors ∧
      (module.collected.module.naming graph id).resolutions.meanings purpose origin.id = meanings ∧
      (module.collected.module.naming graph id).diagnostics.filter (Diagnostic.blames name.range) =
        errors := by
  have huse : .use purpose origin name ∈ module.program.nameEvents := by simp [hevents]
  have hname := Program.mem_stamps_of_use huse
  have hplace : ∀ event ∈ before ++ after, Naming.Elsewhere name.range event := by
    intro event hevent
    rintro used node other rfl
    have hother : .use used node other ∈ module.program.nameEvents := by
      rw [hevents]
      exact List.mem_append.mpr ((List.mem_append.mp hevent).imp_right (List.mem_cons_of_mem _))
    have hstamp := Program.mem_stamps_of_use hother
    refine ⟨(hmodule.name_file hstamp).2, ?_⟩
    intro hrange
    have hapart := (Program.stamps_apart hmodule.stamps_nodup hevents hevent).2
    rw [hmodule.name_eq hstamp hname hrange] at hapart
    exact hapart (List.mem_cons_of_mem _ List.mem_cons_self)
  have hrun := Naming.run_settles graph id module.collected.module
    (hmodule.name_file hname).2
    (fun event hevent => (Program.stamps_apart hmodule.stamps_nodup hevents hevent).1) hplace
  unfold Module.naming
  rw [hmodule.collected.program, hevents]
  exact hrun

theorem unusedImport_not_blames (edges : List ImportEdge) (range : SourceRange) :
    (edges.map NameReport.unusedImport).filter (Diagnostic.blames range) = [] := by
  rw [List.filter_eq_nil_iff]
  intro diagnostic hmem
  obtain ⟨edge, -, rfl⟩ := List.mem_map.mp hmem
  exact Bool.eq_false_iff.mp (Diagnostic.not_blames rfl (by decide) range)

/-- The symbols of a module stay while names are looked at. -/
theorem symbols_grow (graph : ModuleGraph) (id : Nat) (module : Module) :
    module.symbols.symbols <+: (module.naming graph id).symbols.symbols := by
  unfold Module.naming
  rw [show List.foldl (Naming.step graph id module) = Naming.run graph id module from rfl,
    Naming.symbols_run]
  exact SymbolTable.symbols_grow_foldl _ _

/-- What a collected module declares at its top stays there while names are looked at. -/
theorem declared_withNames (hmodule : module.Unnamed) {namesOf : Namespace} {name : String}
    {index : Nat} (hindex : module.collected.module.declared? namesOf name = some index) :
    (module.collected.module.withNames graph id).1.nameAt? namesOf index = some name ∧
      (module.collected.module.withNames graph id).1.AtTop namesOf index := by
  cases namesOf with
  | value =>
      obtain ⟨symbol, hsymbol, rfl, hscope⟩ := hmodule.collected.sound.symbol_of_lookupIn hindex
      have hkept := SymbolTable.get?_mono
        (symbols_grow graph id module.collected.module) hsymbol
      exact ⟨congrArg (Option.map Symbol.name) hkept,
        (congrArg (Option.map Symbol.scope) hkept).trans (congrArg some hscope)⟩
  | node =>
      obtain ⟨entry, hentry⟩ := Table.get?_of_indexOf? hindex
      exact ⟨congrArg (Option.map Prod.fst) hentry, trivial⟩
  | type =>
      obtain ⟨entry, hentry⟩ := Table.get?_of_indexOf? hindex
      exact ⟨congrArg (Option.map Prod.fst) hentry, trivial⟩

/-- The scopes of a module once its names have been looked at. -/
theorem symbols_withNames (hmodule : module.Unnamed) (graph : ModuleGraph) (id : Nat) :
    (module.collected.module.withNames graph id).1.symbols =
      module.program.nameEvents.foldl SymbolTable.follow module.collected.module.symbols := by
  show (module.collected.module.naming graph id).symbols = _
  unfold Module.naming
  rw [hmodule.collected.program]
  exact Naming.symbols_run _

/-- A symbol that is there when a name is looked at stays there. -/
theorem symbol_withNames (hmodule : module.Unnamed) (graph : ModuleGraph) (id : Nat) {index : Nat} {symbol : Symbol}
    (hevents : module.program.nameEvents = before ++ after)
    (hsymbol : (before.foldl SymbolTable.follow module.collected.module.symbols).get? index =
      some symbol) :
    (module.collected.module.withNames graph id).1.symbols.get? index = some symbol := by
  rw [hmodule.symbols_withNames graph id, hevents, List.foldl_append]
  exact SymbolTable.get?_mono (SymbolTable.symbols_grow_foldl _ after) hsymbol

/-- What a name is found as in its own module stays there. -/
theorem own_withNames (hmodule : module.Unnamed) {name : String} {index : Nat}
    (hevents : module.program.nameEvents = before ++ after)
    (hindex : Naming.own? module.collected.module (Naming.run graph id module.collected.module
      (.initial module.collected.module) before) purpose name = some index) :
    (module.collected.module.withNames graph id).1.nameAt? purpose.names index = some name := by
  have hvalue : (Naming.run graph id module.collected.module
      (.initial module.collected.module) before).symbols.lookup name = some index →
      (module.collected.module.withNames graph id).1.nameAt? .value index = some name := by
    intro hlookup
    rw [Naming.symbols_run] at hlookup
    obtain ⟨symbol, hsymbol, rfl⟩ := (hmodule.collected.sound.foldl before).symbol_of_lookup hlookup
    exact congrArg (Option.map Symbol.name) (hmodule.symbol_withNames graph id hevents hsymbol)
  cases purpose with
  | value => exact hvalue hindex
  | assignment => exact hvalue hindex
  | node =>
      obtain ⟨entry, hentry⟩ := Table.get?_of_indexOf? hindex
      exact congrArg (Option.map Prod.fst) hentry
  | type =>
      obtain ⟨entry, hentry⟩ := Table.get?_of_indexOf? hindex
      exact congrArg (Option.map Prod.fst) hentry

/-- What is reported about the names of a module blames no place in another file. -/
theorem withNames_not_blames (hmodule : module.Unnamed) (graph : ModuleGraph) (id : Nat)
    {range : SourceRange} (hfile : range.file ≠ module.file) :
    (module.collected.module.withNames graph id).2.filter (Diagnostic.blames range) = [] := by
  have helsewhere : ∀ event ∈ module.program.nameEvents, Naming.Elsewhere range event := by
    rintro event hevent purpose origin name rfl
    obtain ⟨hname, hlocated⟩ := hmodule.name_file (Program.mem_stamps_of_use hevent)
    refine ⟨hlocated, ?_⟩
    rintro rfl
    exact hfile hname
  have hnaming : (module.collected.module.naming graph id).diagnostics.filter
      (Diagnostic.blames range) = [] := by
    unfold Module.naming
    rw [hmodule.collected.program]
    exact Naming.blamed_run_elsewhere helsewhere
  rw [Module.withNames, List.filter_append, hnaming, unusedImport_not_blames, List.append_nil]

end Module.Unnamed

/-! ### All modules -/

namespace ModuleGraph

variable {graph : ModuleGraph} {id : Nat} {module : Module}

theorem get?_collectNames (graph : ModuleGraph) (id : Nat) :
    graph.collectNames.1.get? id = (graph.get? id).map fun module => module.collected.module := by
  simp [get?, collectNames, Function.comp_def]

theorem get?_resolveNames (graph : ModuleGraph) (id : Nat) :
    graph.resolveNames.1.get? id = (graph.get? id).map fun module =>
      (module.collected.module.withNames graph.collectNames.1 id).1 := by
  simp [get?, resolveNames, collectNames, Function.comp_def]

theorem imports_resolveNames (hmodule : graph.get? id = some module) (hunnamed : module.Unnamed)
    {edge : ImportEdge} (hedge : edge ∈ module.imports) :
    graph.resolveNames.1.Imports id edge.target := by
  refine ⟨_, (get?_resolveNames graph id).trans (congrArg _ hmodule), edge, ?_, rfl⟩
  show edge ∈ module.collected.module.imports
  rwa [hunnamed.collected.imports]

/-- If only the element at one index contributes, it contributes all. -/
theorem flatMap_mapIdx_eq {α β γ : Type} {list : List α} {i : Nat} {x : α} (place : Nat → α → β)
    (view : β → List γ) (hx : list[i]? = some x)
    (hothers : ∀ j y, list[j]? = some y → j ≠ i → view (place j y) = []) :
    (list.mapIdx place).flatMap view = view (place i x) := by
  induction list generalizing i place with
  | nil => cases hx
  | cons y rest ih =>
      rw [List.mapIdx_cons, List.flatMap_cons]
      cases i with
      | zero =>
          have hrest : (rest.mapIdx fun j => place (j + 1)).flatMap view = [] := by
            rw [List.flatMap_eq_nil_iff]
            intro z hz
            obtain ⟨j, hj, rfl⟩ := List.mem_mapIdx.mp hz
            exact hothers (j + 1) _ (List.getElem?_eq_getElem hj) (Nat.succ_ne_zero j)
          rw [hrest, List.append_nil]
          cases hx
          rfl
      | succ i =>
          rw [hothers 0 y rfl (Nat.succ_ne_zero i).symm, List.nil_append]
          exact ih _ hx fun j z hz hj => hothers (j + 1) z hz (by omega)

end ModuleGraph

namespace Loading

variable {state : Loading} {id : Nat} {module : Module} {range : SourceRange}

/-- All that was reported once names have been looked at. -/
def reported (state : Loading) : List Diagnostic :=
  (state.session.reportAll state.graph.resolveNames.2).diagnostics

theorem Unnamed.eq_of_file_eq (hstate : state.Unnamed) {other : Module} {j : Nat}
    (hother : state.graph.get? j = some other) (hmodule : state.graph.get? id = some module)
    (hfile : other.file = module.file) : j = id := by
  have hfiles : (state.graph.modules.map Module.file)[j]? =
      (state.graph.modules.map Module.file)[id]? := by
    rw [List.getElem?_map, List.getElem?_map, show state.graph.modules[j]? = _ from hother,
      show state.graph.modules[id]? = _ from hmodule, Option.map_some, Option.map_some, hfile]
  have hlt : j < (state.graph.modules.map Module.file).length := by
    rw [List.length_map]
    exact ModuleGraph.lt_size_of_get? hother
  exact (List.getElem?_inj hlt hstate.apart).mp hfiles

/-- Entering declarations reports second definitions alone. -/
theorem Unnamed.code_collectNames (hstate : state.Unnamed) {diagnostic : Diagnostic}
    (hmem : diagnostic ∈ state.graph.collectNames.2) :
    diagnostic.code = some Code.duplicateDefinition := by
  obtain ⟨collected, hcollected, hdiagnostic⟩ := List.mem_flatMap.mp hmem
  obtain ⟨other, hother, rfl⟩ := List.mem_map.mp hcollected
  exact (hstate.modules other hother).collected.codes diagnostic hdiagnostic

/-- Reports of a kind that only looking at the names of one module makes are among those of that
module. -/
theorem Unnamed.filter_reported_of (hstate : state.Unnamed) {test : Diagnostic → Bool}
    (hmodule : state.graph.get? id = some module)
    (hcodes : ∀ code ∈ Code.duplicateDefinition :: Loading.codes, ∀ diagnostic : Diagnostic,
      diagnostic.code = some code → test diagnostic = false)
    (hothers : ∀ j other, state.graph.get? j = some other → j ≠ id →
      (other.collected.module.withNames state.graph.collectNames.1 j).2.filter test = []) :
    state.reported.filter test =
      (module.collected.module.withNames state.graph.collectNames.1 id).2.filter test := by
  have hsession : state.session.diagnostics.filter test = [] := by
    rw [List.filter_eq_nil_iff]
    intro diagnostic hmem
    obtain ⟨code, hcode, heq⟩ := hstate.codes diagnostic hmem
    exact Bool.eq_false_iff.mp (hcodes code (List.mem_cons_of_mem _ hcode) diagnostic heq)
  have hduplicates : state.graph.collectNames.2.filter test = [] := by
    rw [List.filter_eq_nil_iff]
    intro diagnostic hmem
    have heq := hstate.code_collectNames hmem
    exact Bool.eq_false_iff.mp (hcodes _ List.mem_cons_self diagnostic heq)
  have hthere : state.graph.collectNames.1.modules[id]? = some module.collected.module := by
    have hget := ModuleGraph.get?_collectNames state.graph id
    rwa [hmodule] at hget
  have hcollected : ∀ j other, state.graph.collectNames.1.modules[j]? = some other → j ≠ id →
      (other.withNames state.graph.collectNames.1 j).2.filter test = [] := by
    intro j other hother hj
    have hget := ModuleGraph.get?_collectNames state.graph j
    obtain ⟨source, hsource, rfl⟩ := Option.map_eq_some_iff.mp (hget.symm.trans hother)
    exact hothers j source hsource hj
  have hreported : state.reported = state.session.diagnostics ++ (state.graph.collectNames.2 ++
      (state.graph.collectNames.1.modules.mapIdx fun id module =>
        module.withNames state.graph.collectNames.1 id).flatMap Prod.snd) := rfl
  have hnamed := ModuleGraph.flatMap_mapIdx_eq
    (fun id module => module.withNames state.graph.collectNames.1 id)
    (fun entry => entry.2.filter test) hthere hcollected
  rw [hreported, List.filter_append, hsession, List.filter_append, hduplicates, List.filter_flatMap,
    hnamed]
  rfl

/-- The errors about a place are among what was reported when the names of its module were looked
at. -/
theorem Unnamed.filter_reported (hstate : state.Unnamed)
    (hmodule : state.graph.get? id = some module) (hfile : range.file = module.file) :
    state.reported.filter (Diagnostic.blames range) =
      (module.collected.module.naming state.graph.collectNames.1 id).diagnostics.filter
        (Diagnostic.blames range) := by
  have hcodes : ∀ code ∈ Code.duplicateDefinition :: Loading.codes,
      code ∉ NameReport.useCodes := by decide
  have hothers : ∀ j other, state.graph.get? j = some other → j ≠ id →
      (other.collected.module.withNames state.graph.collectNames.1 j).2.filter
        (Diagnostic.blames range) = [] := by
    intro j other hother hj
    apply (hstate.modules other (ModuleGraph.mem_of_get? hother)).withNames_not_blames
    rw [hfile]
    exact fun hsame => hj (hstate.eq_of_file_eq hother hmodule hsame.symm)
  rw [hstate.filter_reported_of hmodule
      (fun code hcode _ heq => Diagnostic.not_blames heq (hcodes code hcode) range) hothers,
    Module.withNames, List.filter_append, Module.Unnamed.unusedImport_not_blames, List.append_nil]

/-- What an import has under a name is there in the end. -/
theorem Unnamed.imported_there (hstate : state.Unnamed) {edge : ImportEdge}
    {namesOf : Namespace} {name : String} {index : Nat}
    (hindex : (state.graph.collectNames.1.get? edge.target).bind (·.declared? namesOf name) =
      some index) :
    ∃ owner, state.graph.resolveNames.1.get? edge.target = some owner ∧
      owner.nameAt? namesOf index = some name ∧ owner.AtTop namesOf index := by
  obtain ⟨other, hother, hdeclared⟩ := Option.bind_eq_some_iff.mp hindex
  rw [ModuleGraph.get?_collectNames] at hother
  obtain ⟨target, htarget, rfl⟩ := Option.map_eq_some_iff.mp hother
  have hunnamed := hstate.modules target (ModuleGraph.mem_of_get? htarget)
  have hget := (ModuleGraph.get?_resolveNames state.graph edge.target).trans (congrArg _ htarget)
  exact ⟨_, hget, hunnamed.declared_withNames hdeclared⟩

/-- A recorded meaning is permitted. -/
theorem Unnamed.permits (hstate : state.Unnamed) (hmodule : state.graph.get? id = some module)
    {purpose : NameUse} {name : String} {before after : List NameEvent} {meaning : TypeTarget}
    (hevents : module.program.nameEvents = before ++ after)
    (hmeans : Naming.Means state.graph.collectNames.1 id module.collected.module
      (Naming.run state.graph.collectNames.1 id module.collected.module
        (.initial module.collected.module) before) purpose name meaning) :
    state.graph.resolveNames.1.Permits id purpose name meaning := by
  have hunnamed := hstate.modules module (ModuleGraph.mem_of_get? hmodule)
  have hget := ModuleGraph.get?_resolveNames state.graph
  cases hmeans with
  | builtin hbuiltin =>
      cases purpose with
      | type => exact ⟨rfl, hbuiltin⟩
      | value | assignment | node => cases hbuiltin
  | own _ hown =>
      refine ⟨_, (hget id).trans (congrArg _ hmodule), ?_, .inl rfl, fun hne => absurd rfl hne⟩
      exact hunnamed.own_withNames hevents hown
  | @imported edge index _ _ hedge hindex hopen =>
      obtain ⟨owner, howner, hname, htop⟩ := hstate.imported_there hindex
      rw [hunnamed.collected.imports] at hedge
      exact ⟨owner, howner, hname,
        .inr (ModuleGraph.imports_resolveNames hmodule hunnamed hedge), fun _ => ⟨htop, hopen⟩⟩

/-- What a name in a loaded module comes to in the end. -/
theorem Unnamed.settled (hstate : state.Unnamed) (hmodule : state.graph.get? id = some module)
    {purpose : NameUse} {origin : Origin} {name : Name} {before after : List NameEvent}
    (hevents : module.program.nameEvents = before ++ .use purpose origin name :: after) :
    Naming.Settled state.graph.collectNames.1 id module.collected.module
      (Naming.run state.graph.collectNames.1 id module.collected.module
        (.initial module.collected.module) before) purpose name
      ((module.collected.module.withNames state.graph.collectNames.1 id).1.resolutions.meanings
        purpose origin.id)
      (state.reported.filter (Diagnostic.blames name.range)) := by
  have hunnamed := hstate.modules module (ModuleGraph.mem_of_get? hmodule)
  have huse : .use purpose origin name ∈ module.program.nameEvents := by simp [hevents]
  have hname := Program.mem_stamps_of_use huse
  obtain ⟨meanings, errors, hsettled, rfl, rfl⟩ :=
    hunnamed.settles state.graph.collectNames.1 id hevents
  rw [hstate.filter_reported hmodule (hunnamed.name_file hname).1]
  exact hsettled

/-- **Every name is accounted for.** After the names of a session have been looked at, a name that a
module uses has one meaning, which is permitted, and no error blames it; or it has none, and one
error blames it. -/
theorem resolveNames_accounts (hbuilt : state.Built) {module : Module}
    (hmodule : state.graph.resolveNames.1.get? id = some module) {purpose : NameUse}
    {origin : Origin} {name : Name} (hmentions : module.program.Mentions purpose origin name) :
    (∃ meaning, module.resolutions.meanings purpose origin.id = [meaning] ∧
      state.reported.filter (Diagnostic.blames name.range) = [] ∧
      state.graph.resolveNames.1.Permits id purpose name.text meaning) ∨
    (module.resolutions.meanings purpose origin.id = [] ∧
      ∃ error, state.reported.filter (Diagnostic.blames name.range) = [error]) := by
  have hstate := hbuilt.unnamed
  rw [ModuleGraph.get?_resolveNames] at hmodule
  obtain ⟨source, hsource, rfl⟩ := Option.map_eq_some_iff.mp hmodule
  have hunnamed := hstate.modules source (ModuleGraph.mem_of_get? hsource)
  obtain ⟨node, hreaches, huses⟩ := hmentions
  have hprogram : source.collected.module.program = source.program := hunnamed.collected.program
  have hreached : source.program.Reaches node := hprogram ▸ hreaches
  obtain ⟨decl, -, rfl⟩ | ⟨env, hsees⟩ := hreached.sees
  · cases huses
  · obtain ⟨before, after, hevents, -⟩ := hunnamed.located hsees huses
    have hsettled := hstate.settled hsource hevents
    generalize List.filter (Diagnostic.blames name.range) state.reported = errors at hsettled ⊢
    generalize Resolutions.meanings _ purpose origin.id = meanings at hsettled ⊢
    cases hsettled with
    | means hmeans => exact .inl ⟨_, rfl, rfl, hstate.permits hsource hevents hmeans⟩
    | refused => exact .inr ⟨rfl, _, rfl⟩

/-- A variable that starts as what a name stands for. -/
def Decl.copies : Decl → Bool
  | .varDecl _ _ _ (some (.ref _ _)) => true
  | _ => false

/-- A name that comes from an import. -/
def sharedName : ImportContext := ⟨rootFiles [
  ("main.bt", "import \"./lib.bt\"; var copy = shared;"), ("lib.bt", "var shared = 1;")], .empty⟩

theorem resolveNames_accounts_of_sharedName :
    let state := (loadEntry sharedName ⟨"main.bt"⟩ (.initial ⟨"/"⟩)).2
    ∃ module origin name, state.Built ∧ state.graph.resolveNames.1.get? 0 = some module ∧
      module.program.Mentions .value origin name ∧
      ((∃ meaning, module.resolutions.meanings .value origin.id = [meaning] ∧
          state.reported.filter (Diagnostic.blames name.range) = [] ∧
          state.graph.resolveNames.1.Permits 0 .value name.text meaning) ∨
        (module.resolutions.meanings .value origin.id = [] ∧
          ∃ error, state.reported.filter (Diagnostic.blames name.range) = [error])) := by
  intro state
  have hbuilt : state.Built := .loaded sharedName ⟨"main.bt"⟩ (.initial ⟨"/"⟩)
  have hshape : ((state.graph.resolveNames.1.get? 0).map
      fun module => module.program.decls.any Decl.copies) = some true := by decide +kernel
  obtain ⟨module, hmodule, hdecls⟩ := Option.map_eq_some_iff.mp hshape
  obtain ⟨decl, hdecl, hcopies⟩ := List.any_eq_true.mp hdecls
  unfold Decl.copies at hcopies
  split at hcopies
  · rename_i head copy type origin name
    have hmentions : module.program.Mentions .value origin name :=
      ⟨_, .part (.decl hdecl) (List.mem_append_right _ List.mem_cons_self), .value origin name⟩
    exact ⟨module, origin, name, hbuilt, hmodule, hmentions,
      resolveNames_accounts hbuilt hmodule hmentions⟩
  · cases hcopies

end Loading

/-! ### Lexical scoping -/

/-- The meanings recorded for a value are those of its environment: the symbol of the declaration
that the environment gives, or, if it gives none, at most one that a direct import has at its top. -/
def ModuleGraph.MeansIn (graph : ModuleGraph) (id : Nat) (module : Module) (env : Environment)
    (name : String) (meanings : List TypeTarget) : Prop :=
  match env.find? name with
  | some kind => ∃ index symbol, meanings = [.declared ⟨id, index⟩] ∧
    module.symbols.get? index = some symbol ∧ symbol.name = name ∧ symbol.kind = kind
  | none => meanings = [] ∨ ∃ edge ∈ module.imports, ∃ index owner,
    meanings = [.declared ⟨edge.target, index⟩] ∧ graph.get? edge.target = some owner ∧
    owner.nameAt? .value index = some name ∧ owner.AtTop .value index

/-- A value is looked up in the open scopes. -/
theorem Naming.own?_value {purpose : NameUse} (hvalue : purpose.names = .value) (module : Module)
    (state : Naming) (name : String) :
    builtin? purpose name = none ∧ own? module state purpose name = state.symbols.lookup name := by
  cases purpose with
  | value | assignment => exact ⟨rfl, rfl⟩
  | node | type => cases hvalue

namespace Loading

variable {state : Loading} {id : Nat} {source : Module} {env : Environment} {node : SyntaxNode}
  {purpose : NameUse} {origin : Origin} {name : Name}

/-- What a value means is told by the environment that it is looked at in. -/
theorem Unnamed.meansIn (hstate : state.Unnamed) (hsource : state.graph.get? id = some source)
    (hsees : source.program.Sees env node) (huses : node.Uses purpose origin name)
    (hvalue : purpose.names = .value) :
    state.graph.resolveNames.1.MeansIn id
      (source.collected.module.withNames state.graph.collectNames.1 id).1 env name.text
      ((source.collected.module.withNames state.graph.collectNames.1 id).1.resolutions.meanings
        purpose origin.id) := by
  have hunnamed := hstate.modules source (ModuleGraph.mem_of_get? hsource)
  obtain ⟨before, after, hevents, hshows⟩ := hunnamed.located hsees huses
  have hsettled := hstate.settled hsource hevents
  have hkind := hshows.kind_lookup (hunnamed.collected.sound.foldl before) name.text
  obtain ⟨hbuiltin, hown⟩ := Naming.own?_value hvalue source.collected.module
    (Naming.run state.graph.collectNames.1 id source.collected.module
      (.initial source.collected.module) before) name.text
  rw [Naming.symbols_run] at hown
  unfold ModuleGraph.MeansIn
  rw [← hkind]
  generalize Resolutions.meanings _ purpose origin.id = meanings at hsettled ⊢
  generalize List.filter (Diagnostic.blames name.range) state.reported = errors at hsettled
  cases hlookup : (before.foldl SymbolTable.follow source.collected.module.symbols).lookup name.text with
  | none =>
      have hnone := hown.trans hlookup
      cases hsettled with
      | refused => exact .inl rfl
      | means hmeans =>
          cases hmeans with
          | builtin htype => cases hbuiltin.symm.trans htype
          | own _ hindex => cases hnone.symm.trans hindex
          | @imported edge index _ _ hedge hindex _ =>
              obtain ⟨owner, howner, hthere⟩ := hstate.imported_there hindex
              rw [hvalue] at hthere
              have hmember : edge ∈ source.collected.module.imports := hedge
              exact .inr ⟨edge, hmember, index, owner, rfl, howner, hthere⟩
  | some index =>
      have hsome := hown.trans hlookup
      obtain ⟨symbol, hsymbol, hname⟩ :=
        (hunnamed.collected.sound.foldl before).symbol_of_lookup hlookup
      have hthere := hunnamed.symbol_withNames state.graph.collectNames.1 id hevents hsymbol
      rw [Option.bind_some, hsymbol]
      cases hsettled with
      | refused _ hnone => cases hsome.symm.trans hnone
      | means hmeans =>
          cases hmeans with
          | builtin htype => cases hbuiltin.symm.trans htype
          | imported _ hnone => cases hsome.symm.trans hnone
          | own _ hindex =>
              cases hsome.symm.trans hindex
              exact ⟨index, symbol, rfl, hthere, hname, rfl⟩

/-- **Scoping is lexical.** Each value that a module uses is looked at in an environment, and is
recorded as what that environment says; in the end the scope of the module is the only open one, and
the scopes are those that the program opens. -/
theorem resolveNames_scopes (hbuilt : state.Built) {module : Module}
    (hmodule : state.graph.resolveNames.1.get? id = some module) :
    (∀ node purpose origin name, module.program.Reaches node → node.Uses purpose origin name →
      purpose.names = .value → ∃ env, module.program.Sees env node) ∧
    (∀ env node purpose origin name, module.program.Sees env node →
      node.Uses purpose origin name → purpose.names = .value →
      state.graph.resolveNames.1.MeansIn id module env name.text
        (module.resolutions.meanings purpose origin.id)) ∧
    module.symbols.opened = [SymbolTable.moduleScope] ∧
    module.symbols.outline = module.program.scopes := by
  have hstate := hbuilt.unnamed
  rw [ModuleGraph.get?_resolveNames] at hmodule
  obtain ⟨source, hsource, rfl⟩ := Option.map_eq_some_iff.mp hmodule
  have hunnamed := hstate.modules source (ModuleGraph.mem_of_get? hsource)
  have hprogram : (source.collected.module.withNames state.graph.collectNames.1 id).1.program =
      source.program := hunnamed.collected.program
  rw [hprogram, hunnamed.symbols_withNames]
  refine ⟨?_, ?_, source.program.opens hunnamed.collected.opened hunnamed.collected.outline⟩
  · intro node purpose origin name hreaches huses _
    obtain ⟨decl, -, rfl⟩ | hsees := hreaches.sees
    · cases huses
    · exact hsees
  · intro env node purpose origin name hsees huses hvalue
    exact hstate.meansIn hsource hsees huses hvalue

/-- A parameter and a variable in a block with the name of a global. -/
def shadowing : ImportContext := ⟨rootFiles [
  ("main.bt", "extern control Sequence(); extern action Run(in value: int32); var x = 1;" ++
    "tree Main(in x: int32 = x) { Sequence { var x = x; Run(value: x); } }")], .empty⟩

theorem resolveNames_scopes_of_shadowing :
    let state := (loadEntry shadowing ⟨"main.bt"⟩ (.initial ⟨"/"⟩)).2
    ∃ module, state.Built ∧ state.graph.resolveNames.1.get? 0 = some module ∧
      (∀ node purpose origin name, module.program.Reaches node → node.Uses purpose origin name →
        purpose.names = .value → ∃ env, module.program.Sees env node) ∧
      (∀ env node purpose origin name, module.program.Sees env node →
        node.Uses purpose origin name → purpose.names = .value →
        state.graph.resolveNames.1.MeansIn 0 module env name.text
          (module.resolutions.meanings purpose origin.id)) ∧
      module.symbols.opened = [SymbolTable.moduleScope] ∧
      module.symbols.outline = module.program.scopes := by
  intro state
  have hbuilt : state.Built := .loaded shadowing ⟨"main.bt"⟩ (.initial ⟨"/"⟩)
  have hsize : 0 < state.graph.resolveNames.1.size := by decide +kernel
  obtain ⟨module, hmodule⟩ := ModuleGraph.exists_get?_of_lt hsize
  exact ⟨module, hbuilt, hmodule, resolveNames_scopes hbuilt hmodule⟩

end Loading

end BehaviorTree
