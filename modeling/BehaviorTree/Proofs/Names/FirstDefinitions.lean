import BehaviorTree.Proofs.Names.Definitions
import BehaviorTree.Proofs.Names.Resolution

/-!
# First definitions

Main statement: entering the declarations of freshly loaded modules keeps the first definition of
each name in its namespace, in the order of the source, and reports every other one. Types that are
named like a builtin one are reported and left out.
-/

namespace BehaviorTree

/-- Enters a definition. -/
def Collected.enter (state : Collected) (definition : Definition) : Collected :=
  match definition.entry with
  | .value kind => state.addGlobal definition.name kind
  | .node kind decl => state.addNode definition.name ⟨kind, decl, definition.name.range⟩
  | .type kind decl => state.addType definition.name ⟨kind, decl, definition.name.range⟩

variable {before : List Definition} {definition : Definition} {module : Module}

/-! ### Entering a definition -/

section Entering

variable {kind : SymbolKind} {nodeKind : DeclaredNodeKind} {typeKind : TypeKind} {decl : Origin}

namespace Module

variable (module : Module) (definitions : List Definition)

theorem holding_concat_value (hentry : definition.entry = .value kind) :
    module.holding (definitions ++ [definition]) =
      { module.holding definitions with
        symbols := .ofGlobals (definitions.filterMap Definition.value? ++
          [(definition.name, kind)]) } := by
  simp [holding, Definition.value?, Definition.node?, Definition.type?, hentry]

theorem holding_concat_node (hentry : definition.entry = .node nodeKind decl) :
    module.holding (definitions ++ [definition]) =
      { module.holding definitions with
        nodes := (module.holding definitions).nodes.add definition.name.text
          ⟨nodeKind, decl, definition.name.range⟩ } := by
  simp [holding, Table.add, Definition.value?, Definition.node?, Definition.type?,
    hentry]

theorem holding_concat_type (hentry : definition.entry = .type typeKind decl) :
    module.holding (definitions ++ [definition]) =
      { module.holding definitions with
        types := (module.holding definitions).types.add definition.name.text
          ⟨typeKind, decl, definition.name.range⟩ } := by
  simp [holding, Table.add, Definition.value?, Definition.node?, Definition.type?,
    hentry]

end Module

namespace Collected

open Definition

/-- The module holds what is kept of some definitions, and the others have been reported. -/
def entered (module : Module) (definitions : List Definition) : Collected :=
  ⟨module.holding (kept definitions), (objections definitions).map Objection.report⟩

/-- A definition that nothing speaks against is added. -/
theorem entered_of_kept (hkept : definition.objection? before = none) :
    entered module (before ++ [definition]) =
      ⟨module.holding (kept before ++ [definition]), (entered module before).diagnostics⟩ := by
  rw [entered, kept_concat, objections_concat, hkept, if_pos rfl, Option.toList_none,
    List.append_nil]
  rfl

/-- Any other definition is reported. -/
theorem entered_of_objection {objection : Objection}
    (hobjection : definition.objection? before = some objection) :
    entered module (before ++ [definition]) = (entered module before).report objection.report := by
  rw [entered, kept_concat, objections_concat, hobjection, if_neg (Option.some_ne_none _),
    List.append_nil, Option.toList_some, List.map_append]
  rfl

theorem addGlobal_eq (state : Collected) (name : Name) (kind : SymbolKind) :
    state.addGlobal name kind = match state.module.symbols.lookupLocal name.text with
      | none => { state with module := { state.module with
          symbols := state.module.symbols.ensure name.text kind name.range } }
      | some earlier => state.report
          (NameReport.duplicate kind.describe name (state.module.symbols.rangeOf earlier)) := by
  unfold addGlobal
  rw [SymbolTable.define_eq]
  cases state.module.symbols.lookupLocal name.text <;> rfl

theorem enter_value (hentry : definition.entry = .value kind) :
    (entered module before).enter definition = entered module (before ++ [definition]) := by
  have henter : (entered module before).enter definition =
      (entered module before).addGlobal definition.name kind := by rw [enter, hentry]
  have hreserved : definition.isReserved = false := by rw [isReserved, hentry]; rfl
  have hkey : definition.key = (.value, definition.name.text) := by rw [key, hentry]; rfl
  have hobjection := objection?_of_open before hreserved
  have hrange : ((entered module before).module.symbols.lookupLocal definition.name.text).map
      (entered module before).module.symbols.rangeOf =
        ((before.find? fun earlier => earlier.key == definition.key).bind value?).map
          fun global => global.1.range := by
    rw [← find?_kept hreserved, hkey, ← find?_value?]
    exact SymbolTable.map_rangeOf_lookupLocal _ definition.name.text
  rw [henter, addGlobal_eq]
  cases hfirst : before.find? fun earlier => earlier.key == definition.key with
  | none =>
      rw [hfirst] at hobjection hrange
      have hfresh := Option.map_eq_none_iff.mp hrange
      rw [entered_of_kept hobjection, Module.holding_concat_value _ _ hentry, hfresh,
        ← SymbolTable.ensure_ofGlobals _ kind hfresh]
      rfl
  | some earlier =>
      rw [hfirst] at hobjection hrange
      have hsame := List.find?_some hfirst
      rw [hkey] at hsame
      rw [entered_of_objection hobjection]
      cases hearlier : earlier.entry with
      | value earlierKind =>
          simp only [Option.bind_some, value?, hearlier, Option.map_some] at hrange
          obtain ⟨index, hindex, hplace⟩ := Option.map_eq_some_iff.mp hrange
          simp only [hindex, hplace, Objection.report, Objection.word, hentry, Entry.describe]
      | node | type => simp [key, hearlier, Entry.namesOf] at hsame

theorem enter_node (hentry : definition.entry = .node nodeKind decl) :
    (entered module before).enter definition = entered module (before ++ [definition]) := by
  have hreserved : definition.isReserved = false := by rw [isReserved, hentry]; rfl
  have hkey : definition.key = (.node, definition.name.text) := by rw [key, hentry]; rfl
  have hobjection := objection?_of_open before hreserved
  have hfind : (entered module before).module.nodes.find? definition.name.text =
      (before.find? fun earlier => earlier.key == definition.key).bind
        fun earlier => earlier.node?.map Prod.snd := by
    rw [← find?_kept hreserved, hkey]
    exact Table.find?_definitions map_fst_node? (kept before) definition.name.text
  unfold enter addNode Table.define
  rw [hentry, hfind]
  cases hfirst : before.find? fun earlier => earlier.key == definition.key with
  | none =>
      rw [hfirst] at hobjection
      rw [entered_of_kept hobjection, Module.holding_concat_node _ _ hentry]
      rfl
  | some earlier =>
      rw [hfirst] at hobjection
      have hsame := List.find?_some hfirst
      rw [hkey] at hsame
      rw [entered_of_objection hobjection]
      cases hearlier : earlier.entry with
      | node earlierKind earlierDecl =>
          simp [node?, hearlier, Objection.report, Objection.word, hentry, Entry.describe]
      | value | type => simp [key, hearlier, Entry.namesOf] at hsame

theorem enter_type (hentry : definition.entry = .type typeKind decl) :
    (entered module before).enter definition = entered module (before ++ [definition]) := by
  have hreserved : definition.isReserved = (BuiltinType.ofName? definition.name.text).isSome := by
    rw [isReserved, hentry]
    rfl
  have hkey : definition.key = (.type, definition.name.text) := by rw [key, hentry]; rfl
  unfold enter addType Table.define
  rw [hentry]
  by_cases hbuiltin : (BuiltinType.ofName? definition.name.text).isSome = true
  · have hobjection : definition.objection? before = some (.reserved definition.name) :=
      if_pos (hreserved.trans hbuiltin)
    rw [entered_of_objection hobjection]
    exact if_pos hbuiltin
  · rw [Bool.eq_false_iff.mpr hbuiltin] at hreserved
    have hobjection := objection?_of_open before hreserved
    have hfind : (entered module before).module.types.find? definition.name.text =
        (before.find? fun earlier => earlier.key == definition.key).bind
          fun earlier => earlier.type?.map Prod.snd := by
      rw [← find?_kept hreserved, hkey]
      exact Table.find?_definitions map_fst_type? (kept before) definition.name.text
    refine (if_neg hbuiltin).trans ?_
    rw [hfind]
    cases hfirst : before.find? fun earlier => earlier.key == definition.key with
    | none =>
        rw [hfirst] at hobjection
        rw [entered_of_kept hobjection, Module.holding_concat_type _ _ hentry]
        rfl
    | some earlier =>
        rw [hfirst] at hobjection
        have hsame := List.find?_some hfirst
        rw [hkey] at hsame
        rw [entered_of_objection hobjection]
        cases hearlier : earlier.entry with
        | type earlierKind earlierDecl =>
            simp [type?, hearlier, Objection.report, Objection.word, hentry, Entry.describe]
        | value | node => simp [key, hearlier, Entry.namesOf] at hsame

/-- Entering one more definition. -/
theorem enter_entered (module : Module) (before : List Definition) (definition : Definition) :
    (entered module before).enter definition = entered module (before ++ [definition]) := by
  cases hentry : definition.entry with
  | value kind => exact enter_value hentry
  | node kind decl => exact enter_node hentry
  | type kind decl => exact enter_type hentry

theorem foldl_enter (module : Module) (definitions : List Definition) :
    definitions.foldl Collected.enter (entered module []) = entered module definitions := by
  induction definitions using List.reverseRecOn with
  | nil => rfl
  | append_singleton before definition ih =>
      rw [List.foldl_concat, ih, enter_entered]

theorem addDecl_eq (state : Collected) (decl : Decl) :
    state.addDecl decl = (decl.definition?.map state.enter).getD state := by
  cases decl <;> rfl

end Collected

end Entering

/-! ### Modules and graphs -/

/-- Entering the declarations of a module without tables. -/
theorem Module.Unnamed.collected_eq (hmodule : module.Unnamed) :
    module.collected = Collected.entered module module.program.definitions := by
  have hempty : Collected.entered module [] = ⟨module, []⟩ := by
    obtain ⟨path, program, symbols, types, nodes, imports, state, resolutions⟩ := module
    obtain ⟨-, rfl, rfl, rfl, -⟩ := hmodule
    rfl
  unfold Module.collected
  rw [← Collected.foldl_enter, hempty, Program.definitions, List.foldl_filterMap]
  congr 1
  funext state decl
  rw [Collected.addDecl_eq]
  cases decl.definition? <;> rfl

/-- The name of a definition is written in the program. -/
theorem Program.mem_stamps_of_definition {program : Program}
    (hdefinition : definition ∈ program.definitions) : .name definition.name ∈ program.stamps := by
  obtain ⟨decl, hdecl, hentered⟩ := List.mem_filterMap.mp hdefinition
  refine List.mem_flatMap.mpr ⟨decl, hdecl, ?_⟩
  cases decl with
  | importFile => cases hentered
  | node | opaqueType | typeAlias | varDecl | constDecl | tree =>
      obtain rfl := Option.some.inj hentered
      exact List.mem_cons_of_mem _ List.mem_cons_self

theorem Module.Unnamed.reported (hmodule : module.Unnamed) {objection : Objection}
    (hmem : objection ∈ Definition.objections module.program.definitions) :
    objection.Reported := by
  have hlocated : ∀ definition ∈ module.program.definitions,
      definition.name.range.isLocated = true := fun definition hdefinition =>
    (hmodule.name_file (Program.mem_stamps_of_definition hdefinition)).2
  obtain ⟨definition, hdefinition, rfl | ⟨first, hfirst, -, rfl⟩⟩ :=
    Definition.mem_objections hmem
  · exact Objection.reported_reserved (hlocated definition hdefinition)
  · exact Objection.reported_taken (hlocated definition hdefinition)
      (hlocated first ((Definition.kept_sublist _).subset hfirst))

namespace ModuleGraph

open Definition

/-- **The first definition stands.** Entering the declarations of freshly loaded modules puts into
the tables of each module the first definition of each name in its namespace, in the order of the
source and without types named like builtin ones, and changes nothing else. Each other definition
is reported by one error, which points at its name and at that of the definition that is kept, and
nothing else is reported. -/
theorem collectNames_keepsFirst {graph : ModuleGraph}
    (hfresh : ∀ module ∈ graph.modules, module.Unnamed) :
    graph.collectNames.1 =
      ⟨graph.modules.map fun module => module.holding (kept module.program.definitions)⟩ ∧
    graph.collectNames.2 = (graph.modules.flatMap fun module =>
      (objections module.program.definitions).map Objection.report) ∧
    ∀ module ∈ graph.modules, ∀ objection ∈ objections module.program.definitions,
      objection.Reported ∧ ∀ definition first, objection = .taken definition first →
        first ∈ kept module.program.definitions ∧ first.key = definition.key := by
  have hcollected : ∀ module ∈ graph.modules,
      module.collected = Collected.entered module module.program.definitions :=
    fun module hmodule => (hfresh module hmodule).collected_eq
  refine ⟨?_, ?_, ?_⟩
  · rw [collectNames, List.map_map]
    exact congrArg ModuleGraph.mk
      (List.map_congr_left fun module hmodule => congrArg Collected.module (hcollected module hmodule))
  · rw [collectNames, List.flatMap_map]
    exact List.flatMap_congr fun module hmodule =>
      congrArg Collected.diagnostics (hcollected module hmodule)
  · intro module hmodule objection hobjection
    refine ⟨(hfresh module hmodule).reported hobjection, ?_⟩
    rintro definition first rfl
    obtain ⟨other, -, hcase | ⟨_, hfirst, hkey, hcase⟩⟩ := mem_objections hobjection
    · cases hcase
    · cases hcase
      exact ⟨hfirst, hkey⟩

/-- Names that are defined again in their namespace and in another one, and a builtin one. -/
def definedAgain : ImportContext := ⟨Loading.rootFiles [
  ("main.bt", "var x = 1; extern type x; const x = 2; extern action Act(); type int = bool; " ++
    "tree Act() \x7b \x7d extern type T; var y = x; type T = T;")], .empty⟩

theorem collectNames_keepsFirst_of_definedAgain :
    let graph := (Loading.loadEntry definedAgain ⟨"main.bt"⟩ (.initial ⟨"/"⟩)).2.graph
    (∀ module ∈ graph.modules, module.Unnamed) ∧
    graph.modules.map (fun module => (objections module.program.definitions).length) = [4] ∧
    graph.collectNames.1 =
      ⟨graph.modules.map fun module => module.holding (kept module.program.definitions)⟩ ∧
    graph.collectNames.2 = (graph.modules.flatMap fun module =>
      (objections module.program.definitions).map Objection.report) ∧
    ∀ module ∈ graph.modules, ∀ objection ∈ objections module.program.definitions,
      objection.Reported ∧ ∀ definition first, objection = .taken definition first →
        first ∈ kept module.program.definitions ∧ first.key = definition.key := by
  intro graph
  have hbuilt := Loading.Built.loaded definedAgain ⟨"main.bt"⟩ (.initial ⟨"/"⟩)
  have hfresh : ∀ module ∈ graph.modules, module.Unnamed := hbuilt.unnamed.modules
  exact ⟨hfresh, by decide +kernel, collectNames_keepsFirst hfresh⟩

end ModuleGraph

end BehaviorTree
