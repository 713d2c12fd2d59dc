import BehaviorTree.Proofs.Names.Resolution
import BehaviorTree.Proofs.Syntax.Forest
import BehaviorTree.Proofs.Module.DrawnImports
import BehaviorTree.Proofs.Names.FirstDefinitions
import BehaviorTree.Proofs.Names.Locality

/-!
# Unused imports

Main statement: an import is reported as unused, once and at its place, if and only if the program
of its module uses no name that it does not have itself and that the imported module defines at its
top. A name that several imports have and a private one count as uses.
-/

namespace BehaviorTree

/-! ## Uses among the events of a program

The converse of finding the uses of a tree among its events: each use among the events is that of a
node of the program, and it stands there where the table shows the environment of the node.
-/

section Mentions

variable {node : SyntaxNode} {program : Program} {purpose : NameUse} {origin : Origin} {name : Name}

/-! ### The events of parts -/

theorem flatMap_exprs (exprs : List Expr) :
    (exprs.map .expr).flatMap SyntaxNode.nameEvents = Expr.nameEventsAll exprs := by
  rw [Expr.nameEventsAll_eq_flatMap, List.flatMap_map]
  rfl

theorem flatMap_stmts (stmts : List Stmt) :
    (stmts.map .stmt).flatMap SyntaxNode.nameEvents = Stmt.nameEventsAll stmts := by
  rw [Stmt.nameEventsAll_eq_flatMap, List.flatMap_map]
  rfl

theorem flatMap_expr (expr : Option Expr) :
    (expr.toList.map .expr).flatMap SyntaxNode.nameEvents = nameEventsOfExpr expr :=
  List.flatMap_map ..

theorem flatMap_type (type : Option TypeExpr) :
    (type.toList.map .type).flatMap SyntaxNode.nameEvents = nameEventsOfType type :=
  List.flatMap_map ..

theorem flatMap_arguments (arguments : List Argument) :
    (arguments.map Argument.part).flatMap SyntaxNode.nameEvents = nameEventsOfArguments arguments :=
  List.flatMap_map ..

theorem StmtHead.flatMap_parts (head : StmtHead) :
    head.parts.flatMap SyntaxNode.nameEvents = head.nameEvents :=
  List.flatMap_map ..

theorem Param.flatMap_parts (param : Param) :
    param.parts.flatMap SyntaxNode.nameEvents = param.nameEvents := by
  rw [Param.parts, List.flatMap_cons, flatMap_expr]
  rfl

theorem Param.flatMap_flatMap_parts (params : List Param) :
    (params.flatMap Param.parts).flatMap SyntaxNode.nameEvents = params.flatMap Param.nameEvents := by
  rw [List.flatMap_assoc]
  exact List.flatMap_congr fun param _ => param.flatMap_parts

/-! ### The use of a node or of a part -/

theorem Expr.use_mem {expr : Expr} (huse : .use purpose origin name ∈ expr.nameEvents) :
    (SyntaxNode.expr expr).Uses purpose origin name ∨
      .use purpose origin name ∈ expr.parts.flatMap SyntaxNode.nameEvents := by
  cases expr with
  | int | float | string | bool | null | missing => cases huse
  | ref =>
      cases List.mem_singleton.mp huse
      exact .inl (.value _ _)
  | array => exact .inr (by rwa [Expr.parts, flatMap_exprs])
  | unary | binary | index | cast | repeated | vec =>
      exact .inr (by simpa [Expr.parts, SyntaxNode.nameEvents, Expr.nameEvents] using huse)

theorem TypeExpr.use_mem {type : TypeExpr} (huse : .use purpose origin name ∈ type.nameEvents) :
    (SyntaxNode.type type).Uses purpose origin name ∨
      .use purpose origin name ∈ type.parts.flatMap SyntaxNode.nameEvents := by
  cases type with
  | infer | missing => cases huse
  | string => cases List.mem_singleton.mp huse
  | named =>
      cases List.mem_singleton.mp huse
      exact .inl (.type _ _)
  | staticArray | boundedArray | vec | nullable =>
      exact .inr (by simpa [TypeExpr.parts, SyntaxNode.nameEvents, TypeExpr.nameEvents] using huse)

theorem Stmt.use_mem {stmt : Stmt} (huse : .use purpose origin name ∈ stmt.nameEvents) :
    (SyntaxNode.stmt stmt).Uses purpose origin name ∨
      .use purpose origin name ∈ stmt.parts.flatMap SyntaxNode.nameEvents := by
  -- the name of a node stands between the preconditions and the other parts
  have hsplit : ∀ {front back : List NameEvent} {own : NameEvent},
      .use purpose origin name ∈ front ++ own :: back →
        own = .use purpose origin name ∨ .use purpose origin name ∈ front ++ back := by
    intro front back own hmem
    simpa [or_left_comm, eq_comm] using hmem
  cases stmt with
  | varDecl =>
      refine .inr ?_
      simpa [Stmt.parts, StmtHead.flatMap_parts, flatMap_type, flatMap_expr,
        Stmt.nameEvents] using huse
  | constDecl =>
      refine .inr ?_
      simpa [Stmt.parts, StmtHead.flatMap_parts, flatMap_type, Stmt.nameEvents,
        SyntaxNode.nameEvents] using huse
  | assignment =>
      rcases hsplit huse with hown | hparts
      · cases hown
        exact .inl (.assignment _ _ _ _ _)
      · refine .inr ?_
        simpa [Stmt.parts, StmtHead.flatMap_parts, flatMap_exprs, SyntaxNode.nameEvents] using hparts
  | leaf =>
      rcases hsplit huse with hown | hparts
      · cases hown
        exact .inl (.leaf _ _ _)
      · refine .inr ?_
        simpa [Stmt.parts, StmtHead.flatMap_parts, flatMap_arguments] using hparts
  | compound =>
      rcases hsplit huse with hown | hparts
      · cases hown
        exact .inl (.compound _ _ _ _)
      · refine .inr ?_
        simpa [Stmt.parts, StmtHead.flatMap_parts, flatMap_arguments, flatMap_stmts] using hparts

theorem use_mem_params {tree : Origin} {params : List Param}
    (huse : .use purpose origin name ∈ nameEventsOfParams tree params) :
    .use purpose origin name ∈ params.flatMap Param.nameEvents := by
  obtain ⟨⟨param, index⟩, hentry, hevent⟩ := List.mem_flatMap.mp huse
  refine List.mem_flatMap.mpr ⟨param, List.fst_mem_of_mem_zipIdx hentry, ?_⟩
  simpa using hevent

theorem Decl.use_mem {decl : Decl} (huse : .use purpose origin name ∈ decl.nameEvents) :
    .use purpose origin name ∈ decl.parts.flatMap SyntaxNode.nameEvents := by
  cases decl with
  | importFile | opaqueType => cases huse
  | node => rwa [Decl.parts, Param.flatMap_flatMap_parts]
  | typeAlias => simpa [Decl.parts, SyntaxNode.nameEvents, Decl.nameEvents] using huse
  | varDecl => rwa [Decl.parts, List.flatMap_append, flatMap_type, flatMap_expr]
  | constDecl =>
      simpa [Decl.parts, flatMap_type, SyntaxNode.nameEvents, Decl.nameEvents] using huse
  | tree head own params body =>
      have hinner : .use purpose origin name ∈ nameEventsOfParams head.origin params ∨
          .use purpose origin name ∈ Stmt.nameEventsAll body := by
        simpa [Decl.nameEvents] using huse
      rw [Decl.parts, List.flatMap_append, Param.flatMap_flatMap_parts, flatMap_stmts]
      exact List.mem_append.mpr (hinner.imp_left use_mem_params)

theorem SyntaxNode.use_mem (huse : .use purpose origin name ∈ node.nameEvents) :
    node.Uses purpose origin name ∨
      ∃ part ∈ node.parts, .use purpose origin name ∈ part.nameEvents := by
  have hcases : node.Uses purpose origin name ∨
      .use purpose origin name ∈ node.parts.flatMap SyntaxNode.nameEvents := by
    cases node with
    | expr e => exact e.use_mem huse
    | type t => exact t.use_mem huse
    | stmt s => exact s.use_mem huse
    | decl d => exact .inr (d.use_mem huse)
  exact hcases.imp_right List.mem_flatMap.mp

/-! ### Programs -/

/-- Each use among the events of a program is that of one of its nodes. -/
theorem Program.mentions_of_use (huse : .use purpose origin name ∈ program.nameEvents) :
    program.Mentions purpose origin name := by
  have hnode : ∀ node, program.Reaches node → .use purpose origin name ∈ node.nameEvents →
      program.Mentions purpose origin name := by
    intro node
    induction node using SyntaxNode.partsInduction with
    | step node ih =>
        intro hreaches hmem
        rcases SyntaxNode.use_mem hmem with huses | ⟨part, hpart, hinner⟩
        · exact ⟨node, hreaches, huses⟩
        · exact ih part hpart (hreaches.part hpart) hinner
  obtain ⟨decl, hdecl, hmem⟩ := List.mem_flatMap.mp huse
  exact hnode (.decl decl) (.decl hdecl) hmem

/-- A use among the events of a module is that of a node, and the table shows the environment of the
node there. -/
theorem Module.Unnamed.sees_of_use {module : Module} (hmodule : module.Unnamed)
    {before after : List NameEvent}
    (hevents : module.program.nameEvents = before ++ .use purpose origin name :: after) :
    ∃ env node, module.program.Sees env node ∧ node.Uses purpose origin name ∧
      (before.foldl SymbolTable.follow module.collected.module.symbols).Shows env := by
  have huse : .use purpose origin name ∈ module.program.nameEvents := by simp [hevents]
  obtain ⟨node, hreaches, huses⟩ := Program.mentions_of_use huse
  obtain ⟨decl, -, rfl⟩ | ⟨env, hsees⟩ := hreaches.sees
  · cases huses
  · obtain ⟨front, back, hsplit, hshows⟩ := hmodule.located hsees huses
    -- the name occurs once in the program, so both splits are the same
    have honce : ∀ event ∈ before ++ after, event ≠ .use purpose origin name := by
      rintro event hevent rfl
      have hapart := (Program.stamps_apart hmodule.stamps_nodup hevents hevent).2
      exact hapart (List.mem_cons_of_mem _ List.mem_cons_self)
    obtain ⟨hbefore, hafter⟩ := List.forall_mem_append.mp honce
    obtain ⟨rfl, -, -⟩ := (List.append_cons_inj_of_notMem (fun hmem => hbefore _ hmem rfl)
      (fun hmem => hafter _ hmem rfl)).mp (hevents.symm.trans hsplit)
    exact ⟨env, node, hsees, huses, hshows⟩

end Mentions

/-! ## Imports that nothing uses -/

/-! ### What a program needs from others -/

/-- The program defines the name at its top. A type with the name of a builtin one is no definition
of it. -/
def Program.Defines (program : Program) (namesOf : Namespace) (name : String) : Prop :=
  ∃ definition ∈ program.definitions,
    definition.key = (namesOf, name) ∧ definition.isReserved = false

/-- The program itself has nothing under a name that is looked at in the environment. -/
def Program.Lacks (program : Program) (env : Environment) (purpose : NameUse) (name : String) :
    Prop :=
  match purpose with
  | .value | .assignment => env.find? name = none
  | .node => ¬program.Defines .node name
  | .type => BuiltinType.ofName? name = none ∧ ¬program.Defines .type name

/-- The program uses a name that it has not itself and that the target defines. -/
def Program.Needs (program target : Program) : Prop :=
  ∃ env node purpose origin name, program.Sees env node ∧ node.Uses purpose origin name ∧
    program.Lacks env purpose name.text ∧ target.Defines purpose.names name.text

/-- The program of a module needs what an import leads to. -/
def ModuleGraph.Needs (graph : ModuleGraph) (module : Module) (edge : ImportEdge) : Prop :=
  ∃ target, graph.get? edge.target = some target ∧ module.program.Needs target.program

/-- A warning that the import with its path at the range is unused. -/
def Diagnostic.warnsUnused (range : SourceRange) (diagnostic : Diagnostic) : Bool :=
  diagnostic.code == some Code.unusedImport && diagnostic.primaryRange == range

variable {graph : ModuleGraph} {id : Nat} {module : Module} {purpose : NameUse} {origin : Origin}
  {name : Name} {range : SourceRange} {edge : ImportEdge}

/-! ### Imports in use -/

namespace Naming

variable {state : Naming} {position : Nat} {events : List NameEvent}

/-- Nothing else has the name, so it is looked up in the imports. -/
def AsksImports (module : Module) (state : Naming) (purpose : NameUse) (name : String) : Prop :=
  builtin? purpose name = none ∧ own? module state purpose name = none

theorem used_record (state : Naming) (purpose : NameUse) (origin : Origin) (target : Target) :
    (state.record purpose origin target).used = state.used := by
  cases purpose <;> rfl

theorem used_useImported (state : Naming) (purpose : NameUse) (origin : Origin) (name : Name) :
    (useImported graph id module state purpose origin name).used = state.used ++
      (graph.importedNames module.imports purpose.names name.text).map ImportedName.position := by
  unfold useImported
  dsimp only
  split
  · rfl
  · split
    · rfl
    · split
      · exact used_record _ _ _ _
      · rfl

theorem mem_used_use : position ∈ (use graph id module state purpose origin name).used ↔
    position ∈ state.used ∨ AsksImports module state purpose name.text ∧ position ∈
      (graph.importedNames module.imports purpose.names name.text).map ImportedName.position := by
  unfold use AsksImports
  cases hbuiltin : builtin? purpose name.text with
  | some type => simp [recordBuiltin]
  | none =>
      cases hown : own? module state purpose name.text with
      | some index => simp [used_record]
      | none => simp [used_useImported]

/-- The event looks a name up in the imports, and the one at the position has it. -/
def Finds (graph : ModuleGraph) (module : Module) (state : Naming) (position : Nat)
    (event : NameEvent) : Prop :=
  ∃ purpose origin name, event = .use purpose origin name ∧
    AsksImports module state purpose name.text ∧ position ∈
      (graph.importedNames module.imports purpose.names name.text).map ImportedName.position

theorem mem_used_step (event : NameEvent) : position ∈ (step graph id module state event).used ↔
    position ∈ state.used ∨ Finds graph module state position event := by
  cases event with
  | use purpose origin name =>
      refine mem_used_use.trans (or_congr_right ⟨fun h => ⟨_, _, _, rfl, h⟩, ?_⟩)
      rintro ⟨_, _, _, heq, h⟩
      cases heq
      exact h
  | declare kind name =>
      have hused : (state.declare kind name).used = state.used := by
        unfold declare
        split <;> rfl
      simp [step, hused, Finds]
  | textType | enter | leave => simp [step, recordBuiltin, Finds]

/-- An import is in use if one of the events has found a name in it. -/
theorem mem_used_run (events : List NameEvent) :
    position ∈ (run graph id module state events).used ↔ position ∈ state.used ∨
      ∃ before event after, events = before ++ event :: after ∧
        Finds graph module (run graph id module state before) position event := by
  induction events generalizing state with
  | nil => simp [run]
  | cons first rest ih =>
      show position ∈ (run graph id module (step graph id module state first) rest).used ↔ _
      rw [ih, mem_used_step, or_assoc]
      refine or_congr_right ?_
      constructor
      · rintro (hfinds | ⟨before, event, after, rfl, hfinds⟩)
        · exact ⟨[], first, rest, rfl, hfinds⟩
        · exact ⟨first :: before, event, after, rfl, hfinds⟩
      · rintro ⟨before, event, after, hsplit, hfinds⟩
        cases before with
        | nil =>
            cases hsplit
            exact .inl hfinds
        | cons head before =>
            cases hsplit
            exact .inr ⟨before, event, after, rfl, hfinds⟩

/-- What is reported on the way is reported by an event. -/
theorem reports_run {diagnostic : Diagnostic}
    (hmem : diagnostic ∈ (run graph id module state events).diagnostics) :
    diagnostic ∈ state.diagnostics ∨ ∃ event ∈ events, Reports event diagnostic := by
  induction events generalizing state with
  | nil => exact .inl hmem
  | cons event rest ih =>
      rcases ih hmem with hstep | ⟨other, hother, hreports⟩
      · obtain ⟨errors, herrors, hreported⟩ := step_reports graph id module state event
        rw [herrors] at hstep
        refine (List.mem_append.mp hstep).imp_right fun hnew => ?_
        exact ⟨event, List.mem_cons_self, hreported diagnostic hnew⟩
      · exact .inr ⟨other, List.mem_cons_of_mem _ hother, hreports⟩

end Naming

/-! ### What a module has itself -/

namespace Module.Unnamed

variable {env : Environment} {before : List NameEvent} {position : Nat}

theorem isSome_declared? (hmodule : module.Unnamed) (namesOf : Namespace) (name : String) :
    (module.collected.module.declared? namesOf name).isSome = true ↔
      module.program.Defines namesOf name := by
  rw [hmodule.collected_eq]
  exact (module.isSome_declared?_holding _ namesOf name).trans Definition.exists_kept_iff

theorem declared?_eq_none_iff (hmodule : module.Unnamed) (namesOf : Namespace) (name : String) :
    module.collected.module.declared? namesOf name = none ↔
      ¬module.program.Defines namesOf name := by
  rw [← hmodule.isSome_declared?, Bool.not_eq_true, Option.isSome_eq_false_iff,
    Option.isNone_iff_eq_none]

/-- A name is looked up in the imports where the program itself lacks it. -/
theorem asksImports_iff (hmodule : module.Unnamed) (graph : ModuleGraph) (id : Nat)
    (hshows : (before.foldl SymbolTable.follow module.collected.module.symbols).Shows env)
    (purpose : NameUse) (name : String) :
    Naming.AsksImports module.collected.module (Naming.run graph id module.collected.module
      (.initial module.collected.module) before) purpose name ↔
        module.program.Lacks env purpose name := by
  have hvalue : (Naming.run graph id module.collected.module
      (.initial module.collected.module) before).symbols.lookup name = none ↔
        env.find? name = none := by
    have hsound := hmodule.collected.sound.foldl before
    rw [Naming.symbols_run, ← hshows.kind_lookup hsound name]
    show (before.foldl SymbolTable.follow module.collected.module.symbols).lookup name = none ↔ _
    cases hlookup : (before.foldl SymbolTable.follow module.collected.module.symbols).lookup name with
    | none => simp
    | some index =>
        obtain ⟨symbol, hsymbol, -⟩ := hsound.symbol_of_lookup hlookup
        simp [hsymbol]
  cases purpose with
  | value | assignment => exact (and_iff_right rfl).trans hvalue
  | node => exact (and_iff_right rfl).trans (hmodule.declared?_eq_none_iff .node name)
  | type => exact and_congr_right' (hmodule.declared?_eq_none_iff .type name)

/-- An import is in use if the module looks up a name that the import has. -/
theorem mem_used_iff (hmodule : module.Unnamed) (graph : ModuleGraph) (id : Nat)
    (hedge : module.imports[position]? = some edge) :
    position ∈ (module.collected.module.naming graph id).used ↔
      ∃ env node purpose origin name, module.program.Sees env node ∧
        node.Uses purpose origin name ∧ module.program.Lacks env purpose name.text ∧
        Naming.provides graph purpose.names name.text edge = true := by
  have himports : module.collected.module.imports = module.imports := hmodule.collected.imports
  have hprovides : ∀ namesOf text, position ∈ (graph.importedNames module.collected.module.imports
      namesOf text).map ImportedName.position ↔ Naming.provides graph namesOf text edge = true := by
    intro namesOf text
    rw [himports, ← List.contains_iff_mem,
      Naming.usedBy_importedNames graph namesOf text module.imports position edge hedge]
  have hrun : module.collected.module.naming graph id =
      Naming.run graph id module.collected.module (.initial module.collected.module)
        module.program.nameEvents := by
    rw [Module.naming, hmodule.collected.program]
    rfl
  rw [hrun, Naming.mem_used_run]
  constructor
  · rintro (hnone | ⟨before, event, after, hevents, purpose, origin, name, rfl, hasks, hfound⟩)
    · cases hnone
    · obtain ⟨env, node, hsees, huses, hshows⟩ := hmodule.sees_of_use hevents
      exact ⟨env, node, purpose, origin, name, hsees, huses,
        (hmodule.asksImports_iff graph id hshows purpose name.text).mp hasks,
        (hprovides _ _).mp hfound⟩
  · rintro ⟨env, node, purpose, origin, name, hsees, huses, hlacks, hhas⟩
    obtain ⟨before, after, hevents, hshows⟩ := hmodule.located hsees huses
    exact .inr ⟨before, _, after, hevents, purpose, origin, name, rfl,
      (hmodule.asksImports_iff graph id hshows purpose name.text).mpr hlacks,
      (hprovides _ _).mpr hhas⟩

end Module.Unnamed

/-! ### Reports of unused imports -/

theorem NameReport.primaryRange_unusedImport (hlocated : edge.pathRange.isLocated = true) :
    (unusedImport edge).primaryRange = edge.pathRange := by
  simp [unusedImport, Diagnostic.warning, Diagnostic.new, hlocated, Diagnostic.withCode,
    Diagnostic.withLabel, Diagnostic.withFixIt, Diagnostic.setPrimaryMessage, Label.isPrimary,
    Diagnostic.primaryRange, Diagnostic.primaryLabel?]

theorem Diagnostic.warnsUnused_unusedImport (hlocated : edge.pathRange.isLocated = true) :
    (NameReport.unusedImport edge).warnsUnused range = (edge.pathRange == range) := by
  rw [warnsUnused, NameReport.primaryRange_unusedImport hlocated]
  rfl

theorem Diagnostic.not_warnsUnused {diagnostic : Diagnostic} {code : String}
    (hcode : diagnostic.code = some code) (hother : code ≠ Code.unusedImport) :
    diagnostic.warnsUnused range = false := by
  have hcodes : (diagnostic.code == some Code.unusedImport) = false := by simpa [hcode] using hother
  rw [warnsUnused, hcodes, Bool.false_and]

/-- Edges at different places: each is the only one at its place. -/
theorem filter_pathRange {edges : List ImportEdge} (hplaces : (edges.map ImportEdge.pathRange).Nodup)
    (hedge : edge ∈ edges) :
    edges.filter (fun other => other.pathRange == edge.pathRange) = [edge] := by
  obtain ⟨before, after, rfl⟩ := List.append_of_mem hedge
  rw [List.map_append, List.map_cons, List.nodup_append, List.nodup_cons] at hplaces
  obtain ⟨-, ⟨hafter, -⟩, hbefore⟩ := hplaces
  have hfront : before.filter (fun other => other.pathRange == edge.pathRange) = [] := by
    rw [List.filter_eq_nil_iff]
    intro other hother
    rw [beq_iff_eq]
    exact hbefore _ (List.mem_map_of_mem hother) _ List.mem_cons_self
  have hback : after.filter (fun other => other.pathRange == edge.pathRange) = [] := by
    rw [List.filter_eq_nil_iff]
    intro other hother hsame
    exact hafter (List.mem_map.mpr ⟨other, hother, beq_iff_eq.mp hsame⟩)
  rw [List.filter_append, hfront, List.filter_cons, if_pos (beq_self_eq_true _), hback,
    List.nil_append]

namespace Module

/-- Looking at the uses of names reports on names alone. -/
theorem code_naming {diagnostic : Diagnostic} (hmem : diagnostic ∈ (module.naming graph id).diagnostics) :
    diagnostic.HasCodeIn (Code.duplicateDefinition :: NameReport.useCodes) := by
  rcases Naming.reports_run hmem with hnone | ⟨event, -, hcode | ⟨purpose, origin, name, -, hrefuses⟩⟩
  · cases hnone
  · exact ⟨_, List.mem_cons_self, hcode⟩
  · obtain ⟨code, hcode, heq⟩ := hrefuses.code
    exact ⟨code, List.mem_cons_of_mem _ hcode, heq⟩

theorem naming_not_warnsUnused (graph : ModuleGraph) (id : Nat) (module : Module)
    (range : SourceRange) :
    (module.naming graph id).diagnostics.filter (Diagnostic.warnsUnused range) = [] := by
  rw [List.filter_eq_nil_iff]
  intro diagnostic hmem
  obtain ⟨code, hcode, heq⟩ := code_naming hmem
  have hother : ∀ code ∈ Code.duplicateDefinition :: NameReport.useCodes, code ≠ Code.unusedImport := by
    decide
  rw [Bool.not_eq_true]
  exact Diagnostic.not_warnsUnused heq (hother code hcode)

theorem mem_of_mem_unusedImports {state : Naming} (hedge : edge ∈ state.unusedImports module) :
    edge ∈ module.imports := by
  obtain ⟨⟨edge, position⟩, hentry, rfl⟩ := List.mem_map.mp hedge
  exact List.fst_mem_of_mem_zipIdx (List.mem_of_mem_filter hentry)

/-- The warnings of a module at a place are those about its unused imports there. -/
theorem warnsUnused_withNames (graph : ModuleGraph) (id : Nat)
    (hlocated : ∀ edge ∈ module.imports, edge.pathRange.isLocated = true) :
    (module.withNames graph id).2.filter (Diagnostic.warnsUnused range) =
      (((module.naming graph id).unusedImports module).filter fun edge =>
        edge.pathRange == range).map NameReport.unusedImport := by
  have hplaces : ∀ edge ∈ (module.naming graph id).unusedImports module,
      (Diagnostic.warnsUnused range ∘ NameReport.unusedImport) edge =
        (edge.pathRange == range) :=
    fun edge hedge => Diagnostic.warnsUnused_unusedImport (hlocated edge (mem_of_mem_unusedImports hedge))
  rw [Module.withNames, List.filter_append, naming_not_warnsUnused, List.nil_append,
    List.filter_map, List.filter_congr hplaces]

end Module

/-! ### All modules -/

namespace Loading

variable {state : Loading}

theorem Unnamed.provides_iff (hstate : state.Unnamed) (namesOf : Namespace) (name : String)
    (edge : ImportEdge) :
    Naming.provides state.graph.collectNames.1 namesOf name edge = true ↔
      ∃ target, state.graph.get? edge.target = some target ∧
        target.program.Defines namesOf name := by
  unfold Naming.provides ModuleGraph.declared?
  rw [ModuleGraph.get?_collectNames]
  cases htarget : state.graph.get? edge.target with
  | none => simp
  | some target =>
      have hunnamed := hstate.modules target (ModuleGraph.mem_of_get? htarget)
      simpa using hunnamed.isSome_declared? namesOf name

/-- An import is in use if the program needs what it leads to. -/
theorem Unnamed.mem_used_iff_needs (hstate : state.Unnamed)
    (hmodule : state.graph.get? id = some module) {position : Nat}
    (hedge : module.imports[position]? = some edge) :
    position ∈ (module.collected.module.naming state.graph.collectNames.1 id).used ↔
      state.graph.Needs module edge := by
  have hunnamed := hstate.modules module (ModuleGraph.mem_of_get? hmodule)
  rw [hunnamed.mem_used_iff _ id hedge]
  simp only [hstate.provides_iff]
  constructor
  · rintro ⟨env, node, purpose, origin, name, hsees, huses, hlacks, target, htarget, hdefines⟩
    exact ⟨target, htarget, env, node, purpose, origin, name, hsees, huses, hlacks, hdefines⟩
  · rintro ⟨target, htarget, env, node, purpose, origin, name, hsees, huses, hlacks, hdefines⟩
    exact ⟨env, node, purpose, origin, name, hsees, huses, hlacks, target, htarget, hdefines⟩

/-- The imports left over are those whose modules the program does not need. -/
theorem Unnamed.unusedImports_eq (hstate : state.Unnamed)
    (hmodule : state.graph.get? id = some module) {needs : ImportEdge → Bool}
    (hneeds : ∀ edge, needs edge = true ↔ state.graph.Needs module edge) :
    (module.collected.module.naming state.graph.collectNames.1 id).unusedImports
      module.collected.module = module.imports.filter fun edge => !needs edge := by
  have hunnamed := hstate.modules module (ModuleGraph.mem_of_get? hmodule)
  have himports : module.collected.module.imports = module.imports := hunnamed.collected.imports
  have hused : Naming.UsedBy needs module.collected.module.imports
      (module.collected.module.naming state.graph.collectNames.1 id).used := by
    intro position edge hedge
    rw [himports] at hedge
    rw [Bool.eq_iff_iff, List.contains_iff_mem, hneeds, hstate.mem_used_iff_needs hmodule hedge]
  rw [Naming.unusedImports_eq hused, himports]

/-- Looking at names changes no program, so a module needs the same imports. -/
theorem Unnamed.needs_resolveNames (hstate : state.Unnamed)
    (hmodule : state.graph.get? id = some module) (edge : ImportEdge) :
    state.graph.resolveNames.1.Needs
        (module.collected.module.withNames state.graph.collectNames.1 id).1 edge ↔
      state.graph.Needs module edge := by
  have hprogram : ∀ i source, state.graph.get? i = some source →
      (source.collected.module.withNames state.graph.collectNames.1 i).1.program =
        source.program :=
    fun i source hsource =>
      (hstate.modules source (ModuleGraph.mem_of_get? hsource)).collected.program
  unfold ModuleGraph.Needs
  rw [ModuleGraph.get?_resolveNames, hprogram id module hmodule]
  cases htarget : state.graph.get? edge.target with
  | none => simp
  | some target => simp [hprogram _ target htarget]

/-- The warnings at the place of an import are those of its own module. -/
theorem Built.filter_warnsUnused (hbuilt : state.Built)
    (hmodule : state.graph.get? id = some module) (hedge : edge ∈ module.imports) :
    state.reported.filter (Diagnostic.warnsUnused edge.pathRange) =
      (((module.collected.module.naming state.graph.collectNames.1 id).unusedImports
        module.collected.module).filter fun other =>
          other.pathRange == edge.pathRange).map NameReport.unusedImport := by
  have hstate := hbuilt.unnamed
  have hplaces : ∀ j other, state.graph.get? j = some other →
      ∀ edge ∈ other.collected.module.imports,
        edge.pathRange.file = other.file ∧ edge.pathRange.isLocated = true := by
    intro j other hother edge hedge
    have hmem := ModuleGraph.mem_of_get? hother
    have hunnamed := hstate.modules other hmem
    rw [hunnamed.collected.imports] at hedge
    exact (hbuilt.drawsImports other hmem).pathRange_file hunnamed hedge
  have hwarns : ∀ j other, state.graph.get? j = some other →
      (other.collected.module.withNames state.graph.collectNames.1 j).2.filter
        (Diagnostic.warnsUnused edge.pathRange) = _ :=
    fun j other hother => Module.warnsUnused_withNames _ j
      fun edge hedge => (hplaces j other hother edge hedge).2
  have hcodes : ∀ code ∈ Code.duplicateDefinition :: Loading.codes, code ≠ Code.unusedImport := by
    decide
  have hothers : ∀ j other, state.graph.get? j = some other → j ≠ id →
      (other.collected.module.withNames state.graph.collectNames.1 j).2.filter
        (Diagnostic.warnsUnused edge.pathRange) = [] := by
    intro j other hother hj
    rw [hwarns j other hother, List.map_eq_nil_iff, List.filter_eq_nil_iff]
    intro foreign hforeign hsame
    -- an import of another module stands in another file
    have hfile := (hplaces j other hother foreign (Module.mem_of_mem_unusedImports hforeign)).1
    have hunnamed := hstate.modules module (ModuleGraph.mem_of_get? hmodule)
    rw [← hunnamed.collected.imports] at hedge
    rw [beq_iff_eq.mp hsame, (hplaces id module hmodule edge hedge).1] at hfile
    exact hj (hstate.eq_of_file_eq hother hmodule hfile.symm)
  rw [hstate.filter_reported_of hmodule
      (fun code hcode _ heq => Diagnostic.not_warnsUnused heq (hcodes code hcode)) hothers,
    hwarns id module hmodule]

/-- **Unused imports are reported exactly.** After the names of a session have been looked at, there
is one warning at the place of an import if the program of its module does not need what the import
leads to, and none if it does. -/
theorem resolveNames_warnsUnused (hbuilt : state.Built)
    (hmodule : state.graph.resolveNames.1.get? id = some module) (hedge : edge ∈ module.imports) :
    (state.graph.resolveNames.1.Needs module edge →
      state.reported.filter (Diagnostic.warnsUnused edge.pathRange) = []) ∧
    (¬state.graph.resolveNames.1.Needs module edge →
      state.reported.filter (Diagnostic.warnsUnused edge.pathRange) =
        [NameReport.unusedImport edge]) := by
  classical
  have hstate := hbuilt.unnamed
  rw [ModuleGraph.get?_resolveNames] at hmodule
  obtain ⟨source, hsource, rfl⟩ := Option.map_eq_some_iff.mp hmodule
  have hmem := ModuleGraph.mem_of_get? hsource
  have hunnamed := hstate.modules source hmem
  have himported : edge ∈ source.imports := hunnamed.collected.imports ▸ hedge
  have hplaces := (hbuilt.drawsImports source hmem).pathRanges_nodup hunnamed
  have hreported := calc state.reported.filter (Diagnostic.warnsUnused edge.pathRange)
    _ = ((source.imports.filter fun other => !decide (state.graph.Needs source other)).filter
          fun other => other.pathRange == edge.pathRange).map NameReport.unusedImport := by
        rw [hbuilt.filter_warnsUnused hsource himported,
          hstate.unusedImports_eq hsource fun _ => decide_eq_true_iff]
    _ = ([edge].filter fun other => !decide (state.graph.Needs source other)).map
          NameReport.unusedImport := by
        rw [List.filter_comm, filter_pathRange hplaces himported]
  rw [hstate.needs_resolveNames hsource, hreported]
  constructor
  · intro hneeds
    simp [hneeds]
  · intro hidle
    simp [hidle]

/-- Of two imports, a name comes from the first one. -/
def secondIdle : ImportContext := ⟨rootFiles [
  ("main.bt", "import \"./used.bt\"; import \"./idle.bt\"; var copy = shared;"),
  ("used.bt", "var shared = 1;"), ("idle.bt", "var other = 2;")], .empty⟩

theorem resolveNames_warnsUnused_of_secondIdle :
    let state := (loadEntry secondIdle ⟨"main.bt"⟩ (.initial ⟨"/"⟩)).2
    ∃ module used idle, state.Built ∧ state.graph.resolveNames.1.get? 0 = some module ∧
      module.imports = [used, idle] ∧ state.graph.resolveNames.1.Needs module used ∧
      state.reported.filter (Diagnostic.warnsUnused used.pathRange) = [] ∧
      ¬state.graph.resolveNames.1.Needs module idle ∧
      state.reported.filter (Diagnostic.warnsUnused idle.pathRange) =
        [NameReport.unusedImport idle] := by
  intro state
  have hbuilt : state.Built := .loaded secondIdle ⟨"main.bt"⟩ (.initial ⟨"/"⟩)
  have hshape : ((state.graph.resolveNames.1.get? 0).map fun module => module.imports.map fun edge =>
      (state.reported.filter (Diagnostic.warnsUnused edge.pathRange)).length) = some [0, 1] := by
    decide +kernel
  obtain ⟨module, hmodule, hwarnings⟩ := Option.map_eq_some_iff.mp hshape
  have htwo : module.imports.length = 2 := by simpa using congrArg List.length hwarnings
  obtain ⟨used, idle, himports⟩ := List.length_eq_two.mp htwo
  have husedHere : used ∈ module.imports := by simp [himports]
  have hidleHere : idle ∈ module.imports := by simp [himports]
  obtain ⟨hneeded, hunneeded⟩ := resolveNames_warnsUnused hbuilt hmodule husedHere
  obtain ⟨hidleNeeded, hidleUnneeded⟩ := resolveNames_warnsUnused hbuilt hmodule hidleHere
  simp only [himports, List.map_cons, List.map_nil, List.cons.injEq, and_true] at hwarnings
  obtain ⟨hsilent, hwarned⟩ := hwarnings
  have husedNeeded : state.graph.resolveNames.1.Needs module used := by
    by_contra hidle
    rw [hunneeded hidle] at hsilent
    cases hsilent
  have hidleIdle : ¬state.graph.resolveNames.1.Needs module idle := by
    intro hneeds
    rw [hidleNeeded hneeds] at hwarned
    cases hwarned
  exact ⟨module, used, idle, hbuilt, hmodule, himports, husedNeeded, hneeded husedNeeded, hidleIdle,
    hidleUnneeded hidleIdle⟩

end Loading

end BehaviorTree
