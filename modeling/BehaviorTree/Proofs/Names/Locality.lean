import BehaviorTree.Proofs.Names.Resolution

/-!
# Names come from direct imports

Main statement: what the names of a module mean, its scopes and what is reported about it depend on
its program and on what the modules that it imports itself declare at their top. The order of the
imports and all other modules have no part in it; they only show in the words of a report.

Looking at the names of a module adds scopes to its table, but nothing at its top. So it makes no
difference whether the modules that were looked at before stand in the graph with the scopes of
their trees or without them.
-/

namespace BehaviorTree

/-! ## Modules and their direct imports -/

/-- The modules differ at most in the order of their imports, in their path and in how far they are
loaded. -/
structure Module.Alike (left right : Module) : Prop where
  program : left.program = right.program
  symbols : left.symbols = right.symbols
  types : left.types = right.types
  nodes : left.nodes = right.nodes
  imports : left.imports.Perm right.imports

namespace ModuleGraph

/-- The index of a name among those that a module of the graph declares at its top. -/
def declared? (graph : ModuleGraph) (id : Nat) (namesOf : Namespace) (name : String) : Option Nat :=
  (graph.get? id).bind (·.declared? namesOf name)

/-- Once their declarations are entered, the modules under a number declare the same values, nodes
and types at their top. -/
def SameDeclarations (left right : ModuleGraph) (id : Nat) : Prop :=
  ∀ namesOf name,
    left.collectNames.1.declared? id namesOf name = right.collectNames.1.declared? id namesOf name

/-- What is reported about the declarations and the names of one module. -/
def nameReports (graph : ModuleGraph) (id : Nat) : List Diagnostic :=
  ((graph.get? id).map fun module =>
    module.collected.diagnostics ++
      (module.collected.module.withNames graph.collectNames.1 id).2).getD []

end ModuleGraph

/-- The reports say the same up to their help, the order in which an ambiguity lists imports, and
the import that a private name is said to come from. -/
inductive NameReport.Alike (imports : List ImportEdge) : Diagnostic → Diagnostic → Prop
  | sameButHelp (diagnostic : Diagnostic) (left right : Option String) :
    Alike imports { diagnostic with help := left } { diagnostic with help := right }
  | ambiguous (name : Name) {left right : List ImportEdge} : left ⊆ imports → left.Perm right →
    Alike imports (ambiguousName name left) (ambiguousName name right)
  | privateName (name : Name) {left right : ImportEdge} : left ∈ imports → right ∈ imports →
    Alike imports (privateName name left) (privateName name right)

theorem NameReport.Alike.refl (imports : List ImportEdge) (diagnostic : Diagnostic) :
    Alike imports diagnostic diagnostic :=
  .sameButHelp diagnostic diagnostic.help diagnostic.help

/-! ### Declarations -/

namespace Collected

/-- The same declarations were entered in modules that are alike. -/
structure Alike (left right : Collected) : Prop where
  module : left.module.Alike right.module
  diagnostics : left.diagnostics = right.diagnostics

variable {left right : Collected}

theorem Alike.report (halike : left.Alike right) (diagnostic : Diagnostic) :
    (left.report diagnostic).Alike (right.report diagnostic) :=
  ⟨halike.module, congrArg (· ++ [diagnostic]) halike.diagnostics⟩

theorem Alike.addNode (halike : left.Alike right) (name : Name) (entry : DeclaredNode) :
    (left.addNode name entry).Alike (right.addNode name entry) := by
  unfold Collected.addNode
  rw [halike.module.nodes]
  split
  · exact ⟨{ halike.module with nodes := rfl }, halike.diagnostics⟩
  · exact halike.report _

theorem Alike.addType (halike : left.Alike right) (name : Name) (entry : DeclaredType) :
    (left.addType name entry).Alike (right.addType name entry) := by
  unfold Collected.addType
  rw [halike.module.types]
  split
  · exact halike.report _
  · split
    · exact ⟨{ halike.module with types := rfl }, halike.diagnostics⟩
    · exact halike.report _

theorem Alike.addGlobal (halike : left.Alike right) (name : Name) (kind : SymbolKind) :
    (left.addGlobal name kind).Alike (right.addGlobal name kind) := by
  unfold Collected.addGlobal
  rw [halike.module.symbols]
  split
  · exact ⟨{ halike.module with symbols := rfl }, halike.diagnostics⟩
  · exact halike.report _

theorem Alike.addDecl (halike : left.Alike right) (decl : Decl) :
    (left.addDecl decl).Alike (right.addDecl decl) := by
  cases decl with
  | importFile head path pathRange => exact halike
  | node head category name ports behavior => exact halike.addNode name _
  | tree head name params body => exact halike.addNode name _
  | opaqueType head name => exact halike.addType name _
  | typeAlias head name type => exact halike.addType name _
  | varDecl head name type init => exact halike.addGlobal name _
  | constDecl head name type value => exact halike.addGlobal name _

theorem Alike.foldl (halike : left.Alike right) (decls : List Decl) :
    (decls.foldl Collected.addDecl left).Alike (decls.foldl Collected.addDecl right) := by
  induction decls generalizing left right with
  | nil => exact halike
  | cons decl decls ih => exact ih (halike.addDecl decl)

end Collected

theorem Module.Alike.collected {left right : Module} (halike : left.Alike right) :
    left.collected.Alike right.collected := by
  have hstart : (⟨left, []⟩ : Collected).Alike ⟨right, []⟩ := ⟨halike, rfl⟩
  have hend := hstart.foldl left.program.decls
  unfold Module.collected
  rw [← halike.program]
  exact hend

theorem Collected.imports_addDecl (state : Collected) (decl : Decl) :
    (state.addDecl decl).module.imports = state.module.imports := by
  have hnode : ∀ name entry, (state.addNode name entry).module.imports = state.module.imports := by
    intro name entry
    unfold addNode
    split <;> rfl
  have htype : ∀ name entry, (state.addType name entry).module.imports = state.module.imports := by
    intro name entry
    unfold addType
    split
    · rfl
    · split <;> rfl
  have hglobal : ∀ name kind, (state.addGlobal name kind).module.imports = state.module.imports := by
    intro name kind
    unfold addGlobal
    split <;> rfl
  cases decl with
  | importFile => rfl
  | node | tree => exact hnode _ _
  | opaqueType | typeAlias => exact htype _ _
  | varDecl | constDecl => exact hglobal _ _

theorem Module.imports_collected (module : Module) :
    module.collected.module.imports = module.imports := by
  have hfold : ∀ (decls : List Decl) (state : Collected),
      (decls.foldl Collected.addDecl state).module.imports = state.module.imports := by
    intro decls
    induction decls with
    | nil => exact fun _ => rfl
    | cons decl decls ih => exact fun state => (ih _).trans (state.imports_addDecl decl)
  exact hfold module.program.decls ⟨module, []⟩

/-! ### Names -/

namespace Naming

/-- The positions in use among imports are those of the edges that are in use. -/
def UsedBy (uses : ImportEdge → Bool) (imports : List ImportEdge) (used : List Nat) : Prop :=
  ∀ position edge, imports[position]? = some edge → used.contains position = uses edge

/-- Two runs over the names of modules that are alike. -/
structure Alike (imports others : List ImportEdge) (left right : Naming) : Prop where
  symbols : left.symbols = right.symbols
  resolutions : left.resolutions = right.resolutions
  used : ∃ uses, UsedBy uses imports left.used ∧ UsedBy uses others right.used
  diagnostics : List.Forall₂ (NameReport.Alike imports) left.diagnostics right.diagnostics

variable {left right : ModuleGraph} {id : Nat} {module other : Module} {l r : Naming}
  {imports others : List ImportEdge}

theorem Alike.report (halike : Alike imports others l r) {diagnostic diagnostic' : Diagnostic}
    (hreport : NameReport.Alike imports diagnostic diagnostic') :
    Alike imports others (l.report diagnostic) (r.report diagnostic') :=
  { halike with diagnostics := List.rel_append halike.diagnostics (.cons hreport .nil) }

theorem Alike.reportSame (halike : Alike imports others l r) (diagnostic : Diagnostic) :
    Alike imports others (l.report diagnostic) (r.report diagnostic) :=
  halike.report (.refl imports diagnostic)

theorem Alike.record (halike : Alike imports others l r) (purpose : NameUse) (origin : Origin)
    (target : Target) :
    Alike imports others (l.record purpose origin target) (r.record purpose origin target) := by
  cases purpose <;>
    exact { halike with resolutions := by simp only [Naming.record, halike.resolutions] }

theorem Alike.recordBuiltin (halike : Alike imports others l r) (origin : Origin)
    (type : BuiltinType) :
    Alike imports others (l.recordBuiltin origin type) (r.recordBuiltin origin type) :=
  { halike with resolutions := by simp only [Naming.recordBuiltin, halike.resolutions] }

theorem Alike.declare (halike : Alike imports others l r) (kind : SymbolKind) (name : Name) :
    Alike imports others (l.declare kind name) (r.declare kind name) := by
  unfold Naming.declare
  rw [halike.symbols]
  split
  · exact { halike with symbols := rfl }
  · exact halike.reportSame _

/-! #### Imported names -/

section ImportedNames

variable (graph : ModuleGraph) (namesOf : Namespace) (name : String)

/-- Whether the module that an import leads to declares the name. -/
def provides (edge : ImportEdge) : Bool := (graph.declared? edge.target namesOf name).isSome

/-- What an import makes visible under the name. -/
def visible? (entry : ImportEdge × Nat) : Option ImportedName :=
  (graph.declared? entry.1.target namesOf name).map fun index => ⟨entry.2, entry.1, index⟩

theorem importedNames_eq (imports : List ImportEdge) :
    graph.importedNames imports namesOf name =
      imports.zipIdx.filterMap (visible? graph namesOf name) := rfl

theorem edges_filterMap (imports : List ImportEdge) (start : Nat) :
    ((imports.zipIdx start).filterMap (visible? graph namesOf name)).map ImportedName.edge =
      imports.filter (provides graph namesOf name) := by
  induction imports generalizing start with
  | nil => rfl
  | cons edge rest ih =>
      rw [List.zipIdx_cons, List.filterMap_cons, List.filter_cons]
      unfold visible? provides
      cases graph.declared? edge.target namesOf name with
      | none => exact ih _
      | some index => exact congrArg (edge :: ·) (ih _)

/-- The imports that a name is found in are those whose module declares it. -/
theorem edges_importedNames (imports : List ImportEdge) :
    (graph.importedNames imports namesOf name).map ImportedName.edge =
      imports.filter (provides graph namesOf name) :=
  edges_filterMap graph namesOf name imports 0

theorem usedBy_importedNames (imports : List ImportEdge) :
    UsedBy (provides graph namesOf name) imports
      ((graph.importedNames imports namesOf name).map ImportedName.position) := by
  intro position edge hedge
  rw [Bool.eq_iff_iff, List.contains_iff_mem, List.mem_map]
  constructor
  · rintro ⟨imported, hmem, rfl⟩
    rw [importedNames_eq] at hmem
    obtain ⟨⟨found, index⟩, hentry, hvisible⟩ := List.mem_filterMap.mp hmem
    obtain ⟨target, htarget, rfl⟩ := Option.map_eq_some_iff.mp hvisible
    rw [List.mem_zipIdx_iff_getElem?] at hentry
    cases hentry.symm.trans hedge
    exact Option.isSome_iff_exists.mpr ⟨target, htarget⟩
  · intro hprovides
    obtain ⟨index, hindex⟩ := Option.isSome_iff_exists.mp hprovides
    refine ⟨⟨position, edge, index⟩, ?_, rfl⟩
    rw [importedNames_eq]
    exact List.mem_filterMap.mpr ⟨(edge, position), List.mem_zipIdx_iff_getElem?.mpr hedge,
      congrArg (Option.map _) hindex⟩

end ImportedNames

theorem UsedBy.append {uses more : ImportEdge → Bool} {used found : List Nat}
    (hused : UsedBy uses imports used) (hfound : UsedBy more imports found) :
    UsedBy (fun edge => uses edge || more edge) imports (used ++ found) := by
  intro position edge hedge
  rw [List.contains_eq_any_beq, List.any_append, ← List.contains_eq_any_beq,
    ← List.contains_eq_any_beq, hused position edge hedge, hfound position edge hedge]

/-- The imports that are not in use. -/
theorem unusedImports_eq {uses : ImportEdge → Bool} {state : Naming}
    (hused : UsedBy uses module.imports state.used) :
    state.unusedImports module = module.imports.filter fun edge => !uses edge := by
  have hentries : ∀ entry ∈ module.imports.zipIdx,
      (!state.used.contains entry.2) = !uses entry.1 := by
    intro entry hentry
    rw [hused entry.2 entry.1 (List.mem_zipIdx_iff_getElem?.mp hentry)]
  have hfilter := List.filter_map (f := Prod.fst) (p := fun edge => !uses edge)
    (l := module.imports.zipIdx)
  rw [List.zipIdx_map_fst] at hfilter
  rw [hfilter]
  exact congrArg (List.map Prod.fst) (List.filter_congr hentries)

/-- The same imports provide a name in both graphs. -/
theorem provides_congr {namesOf : Namespace} {name : String}
    (hsame : ∀ edge ∈ imports,
      left.declared? edge.target namesOf name = right.declared? edge.target namesOf name) :
    ∀ edge ∈ imports, provides left namesOf name edge = provides right namesOf name edge :=
  fun edge hedge => congrArg Option.isSome (hsame edge hedge)

theorem UsedBy.congr {uses more : ImportEdge → Bool} {used : List Nat}
    (hused : UsedBy uses imports used) (hsame : ∀ edge ∈ imports, uses edge = more edge) :
    UsedBy more imports used :=
  fun position edge hedge =>
    (hused position edge hedge).trans (hsame edge (List.mem_of_getElem? hedge))

/-- What one import makes visible is the same declaration in both graphs. -/
theorem target_eq {namesOf : Namespace} {name : String} {found found' : ImportedName}
    (hfound : found ∈ left.importedNames imports namesOf name)
    (hfound' : found' ∈ right.importedNames others namesOf name) (hedge : found.edge = found'.edge)
    (hsame : ∀ edge ∈ imports,
      left.declared? edge.target namesOf name = right.declared? edge.target namesOf name) :
    found.target = found'.target := by
  obtain ⟨hmem, hindex⟩ := mem_importedNames hfound
  obtain ⟨-, hindex'⟩ := mem_importedNames hfound'
  have hindices : some found.index = some found'.index := by
    rw [← hindex, ← hindex', ← hedge]
    exact hsame found.edge hmem
  rw [ImportedName.target, ImportedName.target, hedge, Option.some.inj hindices]

theorem undeclaredName_alike (imports : List ImportEdge) (namesOf : Namespace) (name : Name)
    (owner owner' : Option Module) :
    NameReport.Alike imports (NameReport.undeclaredName namesOf name owner)
      (NameReport.undeclaredName namesOf name owner') := by
  have halike : NameReport.Alike imports _ _ :=
    .sameButHelp (NameReport.undeclaredName namesOf name none)
      (NameReport.undeclaredName namesOf name owner).help
      (NameReport.undeclaredName namesOf name owner').help
  cases owner <;> cases owner' <;> exact halike

theorem Alike.useImported (halike : Alike module.imports other.imports l r)
    (hperm : module.imports.Perm other.imports) (purpose : NameUse) (origin : Origin) (name : Name)
    (hsame : ∀ edge ∈ module.imports, left.declared? edge.target purpose.names name.text =
      right.declared? edge.target purpose.names name.text) :
    Alike module.imports other.imports (useImported left id module l purpose origin name)
      (useImported right id other r purpose origin name) := by
  have hsame' : ∀ edge ∈ other.imports,
      provides right purpose.names name.text edge = provides left purpose.names name.text edge :=
    fun edge hedge => (provides_congr hsame edge (hperm.mem_iff.mpr hedge)).symm
  have hedges : ((left.importedNames module.imports purpose.names name.text).map
      ImportedName.edge).Perm
      ((right.importedNames other.imports purpose.names name.text).map ImportedName.edge) := by
    rw [edges_importedNames, edges_importedNames, List.filter_congr hsame']
    exact hperm.filter _
  have hinside : (left.importedNames module.imports purpose.names name.text).map
      ImportedName.edge ⊆ module.imports := by
    rw [edges_importedNames]
    exact List.filter_subset_self _
  have hused : Alike module.imports other.imports
      { l with used := l.used ++
        (left.importedNames module.imports purpose.names name.text).map ImportedName.position }
      { r with used := r.used ++
        (right.importedNames other.imports purpose.names name.text).map ImportedName.position } := by
    obtain ⟨uses, hleft, hright⟩ := halike.used
    exact { halike with
      used := ⟨_, hleft.append (usedBy_importedNames _ _ _ _),
        hright.append ((usedBy_importedNames _ _ _ _).congr hsame')⟩ }
  have htarget : ∀ found ∈ left.importedNames module.imports purpose.names name.text,
      ∀ found' ∈ right.importedNames other.imports purpose.names name.text,
        found.edge = found'.edge → found.target = found'.target :=
    fun found hfound found' hfound' hedge => target_eq hfound hfound' hedge hsame
  unfold Naming.useImported
  dsimp only
  generalize left.importedNames module.imports purpose.names name.text = found at *
  generalize right.importedNames other.imports purpose.names name.text = found' at *
  cases found with
  | nil =>
      obtain rfl := List.map_eq_nil_iff.mp hedges.symm.eq_nil
      exact hused.report (undeclaredName_alike _ _ _ _ _)
  | cons first rest =>
      cases found' with
      | nil => cases hedges.eq_nil
      | cons first' rest' =>
          have hmem : first.edge ∈ module.imports := hinside List.mem_cons_self
          have hmem' : first'.edge ∈ module.imports :=
            hinside (hedges.mem_iff.mpr List.mem_cons_self)
          have hlength : rest.length = rest'.length := by simpa using hedges.length_eq
          dsimp only
          by_cases hprivate : isPrivate name.text = true
          · rw [if_pos hprivate, if_pos hprivate]
            exact hused.report (.privateName name hmem hmem')
          rw [if_neg hprivate, if_neg hprivate]
          cases rest with
          | nil =>
              obtain rfl := List.length_eq_zero_iff.mp hlength.symm
              have hedge : first.edge = first'.edge :=
                (List.singleton_perm_singleton.mp hedges)
              have hfirst := htarget first List.mem_cons_self first' List.mem_cons_self hedge
              rw [if_pos List.isEmpty_nil, if_pos List.isEmpty_nil, hfirst]
              exact hused.record purpose origin _
          | cons second more =>
              cases rest' with
              | nil => cases hlength
              | cons second' more' =>
                  simp only [List.isEmpty_cons, Bool.false_eq_true, if_false]
                  exact hused.report (.ambiguous name hinside hedges)

section Runs

variable (halike : module.Alike other)
  (hsame : ∀ edge ∈ module.imports, ∀ namesOf name,
    left.declared? edge.target namesOf name = right.declared? edge.target namesOf name)
include halike

theorem own?_congr (hstate : Alike module.imports other.imports l r) (purpose : NameUse)
    (name : String) : own? module l purpose name = own? other r purpose name := by
  unfold own?
  rw [hstate.symbols, halike.types, halike.nodes]

include hsame

theorem Alike.use (hstate : Alike module.imports other.imports l r) (purpose : NameUse)
    (origin : Origin) (name : Name) :
    Alike module.imports other.imports (Naming.use left id module l purpose origin name)
      (Naming.use right id other r purpose origin name) := by
  unfold Naming.use
  rw [own?_congr halike hstate]
  split
  · exact hstate.recordBuiltin origin _
  · split
    · exact hstate.record purpose origin _
    · exact hstate.useImported halike.imports purpose origin name
        fun edge hedge => hsame edge hedge _ _

theorem Alike.step (hstate : Alike module.imports other.imports l r) (event : NameEvent) :
    Alike module.imports other.imports (Naming.step left id module l event)
      (Naming.step right id other r event) := by
  cases event with
  | use purpose origin name => exact hstate.use halike hsame purpose origin name
  | textType origin => exact hstate.recordBuiltin origin _
  | declare kind name => exact hstate.declare kind name
  | enter kind => exact { hstate with symbols := congrArg (·.enter kind) hstate.symbols }
  | leave => exact { hstate with symbols := congrArg SymbolTable.exit hstate.symbols }

variable (id)

theorem Alike.foldl (hstate : Alike module.imports other.imports l r) (events : List NameEvent) :
    Alike module.imports other.imports (events.foldl (Naming.step left id module) l)
      (events.foldl (Naming.step right id other) r) := by
  induction events generalizing l r with
  | nil => exact hstate
  | cons event events ih => exact ih (hstate.step halike hsame event)

theorem alike_naming :
    Alike module.imports other.imports (module.naming left id) (other.naming right id) := by
  have hstart : Alike module.imports other.imports (initial module) (initial other) := {
    symbols := halike.symbols
    resolutions := rfl
    used := ⟨fun _ => false, fun _ _ _ => rfl, fun _ _ _ => rfl⟩
    diagnostics := .nil }
  have hend := hstart.foldl id halike hsame module.program.nameEvents
  unfold Module.naming
  rw [← halike.program]
  exact hend

/-- The same imports are reported as unused, if in another order. -/
theorem perm_unusedImports :
    ((module.naming left id).unusedImports module).Perm
      ((other.naming right id).unusedImports other) := by
  obtain ⟨uses, hleft, hright⟩ := (alike_naming id halike hsame).used
  rw [unusedImports_eq hleft, unusedImports_eq hright]
  exact halike.imports.filter _

end Runs

end Naming

/-! ### Graphs -/

namespace ModuleGraph

variable {left right : ModuleGraph} {id : Nat} {module other : Module}

/-- **Names come from direct imports.** If a module is the same in two graphs but for the order of
its imports, and what it imports itself declares the same there, then its names mean the same, its
scopes are the same, and so are its reports but for their order and some of their words. -/
theorem resolveNames_local (hmodule : left.get? id = some module)
    (hother : right.get? id = some other) (halike : module.Alike other)
    (hsame : ∀ edge ∈ module.imports, left.SameDeclarations right edge.target) :
    ∃ resolved resolved', left.resolveNames.1.get? id = some resolved ∧
      right.resolveNames.1.get? id = some resolved' ∧
      resolved.resolutions = resolved'.resolutions ∧ resolved.symbols = resolved'.symbols ∧
      ∃ reports, (left.nameReports id).Perm reports ∧
        List.Forall₂ (NameReport.Alike module.imports) reports (right.nameReports id) := by
  have hcollected := halike.collected
  have himports : ∀ edge ∈ module.collected.module.imports, ∀ namesOf name,
      left.collectNames.1.declared? edge.target namesOf name =
        right.collectNames.1.declared? edge.target namesOf name := by
    rw [module.imports_collected]
    exact hsame
  have hnaming := Naming.alike_naming id hcollected.module himports
  have hunused := Naming.perm_unusedImports id hcollected.module himports
  rw [module.imports_collected] at hnaming
  refine ⟨_, _, (get?_resolveNames left id).trans (congrArg _ hmodule),
    (get?_resolveNames right id).trans (congrArg _ hother), hnaming.resolutions,
    hnaming.symbols, ?_⟩
  have hleft : left.nameReports id = module.collected.diagnostics ++
      ((module.collected.module.naming left.collectNames.1 id).diagnostics ++
        ((module.collected.module.naming left.collectNames.1 id).unusedImports
          module.collected.module).map NameReport.unusedImport) := by
    unfold nameReports
    rw [hmodule]
    rfl
  have hright : right.nameReports id = other.collected.diagnostics ++
      ((other.collected.module.naming right.collectNames.1 id).diagnostics ++
        ((other.collected.module.naming right.collectNames.1 id).unusedImports
          other.collected.module).map NameReport.unusedImport) := by
    unfold nameReports
    rw [hother]
    rfl
  have hrefl : ∀ reports : List Diagnostic,
      List.Forall₂ (NameReport.Alike module.imports) reports reports :=
    fun reports => List.forall₂_same.mpr fun _ _ => .refl _ _
  rw [hleft, hright]
  refine ⟨_, ((hunused.map NameReport.unusedImport).append_left _).append_left _, ?_⟩
  rw [hcollected.diagnostics]
  exact List.rel_append (hrefl _) (List.rel_append hnaming.diagnostics (hrefl _))

/-- A module that uses a name of two others and imports them, in a session with a fourth module. -/
def usesShared (imports : List ImportEdge) (fourth : String) : ModuleGraph :=
  let read (index : Nat) (text : String) : Program :=
    (Parsed.ofText (.registered index) text .empty).program
  ⟨[{ Module.ofProgram ⟨"main.bt"⟩ (read 0 "var copy = shared;") with imports },
    .ofProgram ⟨"a.bt"⟩ (read 1 "var shared = 1;"),
    .ofProgram ⟨"b.bt"⟩ (read 2 "var shared = 2;"),
    .ofProgram ⟨"c.bt"⟩ (read 3 fourth)]⟩

/-- The import of the module with a number. -/
def usesShared.edge (target : Nat) (path : String) : ImportEdge :=
  ⟨target, path, .emptyAt (.registered 0) target, ⟨target, .emptyAt (.registered 0) target⟩⟩

theorem resolveNames_local_of_swapped :
    let first := usesShared.edge 1 "./a.bt"
    let second := usesShared.edge 2 "./b.bt"
    let left := usesShared [first, second] ""
    let right := usesShared [second, first] "var shared = 3;"
    ∃ module other, left.get? 0 = some module ∧ right.get? 0 = some other ∧ module.Alike other ∧
      (∀ edge ∈ module.imports, left.SameDeclarations right edge.target) ∧
      ∃ resolved resolved', left.resolveNames.1.get? 0 = some resolved ∧
        right.resolveNames.1.get? 0 = some resolved' ∧
        resolved.resolutions = resolved'.resolutions ∧ resolved.symbols = resolved'.symbols ∧
        ∃ reports, (left.nameReports 0).Perm reports ∧
          List.Forall₂ (NameReport.Alike module.imports) reports (right.nameReports 0) := by
  intro first second left right
  have halike : Module.Alike { Module.ofProgram ⟨"main.bt"⟩
      (Parsed.ofText (.registered 0) "var copy = shared;" .empty).program with
        imports := [first, second] } { Module.ofProgram ⟨"main.bt"⟩
      (Parsed.ofText (.registered 0) "var copy = shared;" .empty).program with
        imports := [second, first] } :=
    ⟨rfl, rfl, rfl, rfl, List.Perm.swap _ _ _⟩
  have hsame : ∀ edge ∈ [first, second], left.SameDeclarations right edge.target := by
    intro edge hedge
    rcases List.mem_pair.mp hedge with rfl | rfl
    · exact fun _ _ => rfl
    · exact fun _ _ => rfl
  exact ⟨_, _, rfl, rfl, halike, hsame, resolveNames_local rfl rfl halike hsame⟩

/-- What is reported for each of the elements of a list, with its index. -/
theorem flatten_mapIdx {α : Type} (list : List α) (place : Nat → α → List Diagnostic) :
    (list.mapIdx place).flatten =
      (List.range list.length).flatMap fun id => (list[id]?.map (place id)).getD [] := by
  rw [List.flatMap_def]
  congr 1
  refine List.ext_getElem (by simp) fun i hleft _ => ?_
  rw [List.length_mapIdx] at hleft
  simp [List.getElem?_eq_getElem hleft]

/-- All reports about names are reports about the names of one module. -/
theorem resolveNames_reports (graph : ModuleGraph) :
    graph.resolveNames.2.Perm (graph.ids.flatMap graph.nameReports) := by
  have hall : graph.resolveNames.2 =
      (graph.modules.mapIdx fun _ module => module.collected.diagnostics).flatten ++
        (graph.modules.mapIdx fun id module =>
          (module.collected.module.withNames graph.collectNames.1 id).2).flatten := by
    simp only [resolveNames, collectNames, List.flatMap_def, List.map_map]
    congr 2
    · exact List.ext_getElem (by simp) (by simp)
    · exact List.ext_getElem (by simp) (by simp)
  have hone : graph.nameReports = fun id =>
      (graph.modules[id]?.map fun module => module.collected.diagnostics).getD [] ++
        (graph.modules[id]?.map fun module =>
          (module.collected.module.withNames graph.collectNames.1 id).2).getD [] := by
    funext id
    unfold nameReports get?
    cases graph.modules[id]? <;> rfl
  rw [hall, hone, flatten_mapIdx, flatten_mapIdx]
  exact List.flatMap_append_perm _ _ _

end ModuleGraph

/-! ## Modules one after another -/

open SymbolTable

/-! ### The scope of the module stays -/

namespace SymbolTable

/-- The events leave the names of a scope alone. -/
def Spares (table : SymbolTable) (scope : Nat) (events : List NameEvent) : Prop :=
  ∀ name, (events.foldl follow table).lookupIn name scope = table.lookupIn name scope

variable {table : SymbolTable} {scope : Nat} {events before inner later : List NameEvent}

theorem Spares.nothing (huses : OnlyUses events) : table.Spares scope events := by
  intro name
  rw [foldl_onlyUses huses]

theorem Spares.append (hfirst : table.Spares scope events)
    (hsecond : (events.foldl follow table).Spares scope later) :
    table.Spares scope (events ++ later) := by
  intro name
  rw [List.foldl_append, hsecond name, hfirst name]

theorem Spares.declare (hother : scope ≠ table.current) (huses : OnlyUses before)
    (kind : SymbolKind) (name : Name) : table.Spares scope (before ++ [.declare kind name]) := by
  intro other
  rw [foldl_declare kind name huses]
  unfold ensure
  split
  · rfl
  · exact lookupIn_add_other hother other

theorem lookupIn_exit (table : SymbolTable) (name : String) :
    table.exit.lookupIn name scope = table.lookupIn name scope := by
  unfold exit
  split <;> rfl

theorem Spares.block (hlt : scope < table.scopes.length) (huses : OnlyUses before)
    (kind : ScopeKind) (hinner : (table.enter kind).Spares scope inner) :
    table.Spares scope (before ++ .enter kind :: (inner ++ [.leave])) := by
  intro name
  rw [foldl_block kind huses, lookupIn_exit, hinner name, lookupIn_enter hlt]

/-- A scope that is there is not the one that opens next. -/
theorem ne_current_enter (hlt : scope < table.scopes.length) (kind : ScopeKind) :
    scope ≠ (table.enter kind).current := Nat.ne_of_lt hlt

theorem lt_length_enter (hlt : scope < table.scopes.length) (kind : ScopeKind) :
    scope < (table.enter kind).scopes.length := by
  show scope < (table.scopes ++ _).length
  rw [List.length_append]
  omega

end SymbolTable

mutual

theorem Stmt.spares {table : SymbolTable} {scope : Nat} : (stmt : Stmt) → scope ≠ table.current →
    scope < table.scopes.length → table.Spares scope stmt.nameEvents
  | .varDecl head name type init, hother, _ => by
      refine .declare hother ?_ _ name
      simp only [onlyUses_append]
      exact ⟨⟨head.onlyUses, onlyUses_nameEventsOfType type⟩, onlyUses_nameEventsOfExpr init⟩
  | .constDecl head name type value, hother, _ => by
      refine .declare hother ?_ _ name
      simp only [onlyUses_append]
      exact ⟨⟨head.onlyUses, onlyUses_nameEventsOfType type⟩, value.onlyUses⟩
  | .assignment head target indices op value, _, _ =>
      .nothing (Stmt.onlyUses_assignment head target indices op value)
  | .leaf head callee arguments, _, _ => .nothing (Stmt.onlyUses_leaf head callee arguments)
  | .compound head callee arguments children, _, hlt => by
      obtain ⟨before, huses, hevents⟩ := Stmt.nameEvents_compound head callee arguments children
      rw [hevents]
      exact .block hlt huses .block (Stmt.sparesAll children (ne_current_enter hlt _)
        (lt_length_enter hlt _))

theorem Stmt.sparesAll {table : SymbolTable} {scope : Nat} : (stmts : List Stmt) →
    scope ≠ table.current → scope < table.scopes.length →
    table.Spares scope (Stmt.nameEventsAll stmts)
  | [], _, _ => .nothing onlyUses_nil
  | stmt :: rest, hother, hlt => by
      have hopens := stmt.opens table
      refine (stmt.spares hother hlt).append (Stmt.sparesAll rest ?_ ?_)
      · rwa [hopens.current]
      · rw [hopens.length_scopes]
        omega

end

section Program

variable {table : SymbolTable} {scope : Nat}

theorem spares_nameEventsOfParams (tree : Origin) (params : List Param)
    (hother : scope ≠ table.current) : table.Spares scope (nameEventsOfParams tree params) := by
  unfold nameEventsOfParams
  generalize params.zipIdx = entries
  induction entries generalizing table with
  | nil => exact .nothing onlyUses_nil
  | cons entry rest ih =>
      have hopens : table.Opens (entry.1.nameEvents ++
          [.declare (.param tree entry.2 entry.1.direction) entry.1.name]) [] :=
        .behind entry.1.onlyUses (.declare _ entry.1.name)
      rw [List.flatMap_cons]
      refine (Spares.declare hother entry.1.onlyUses _ entry.1.name).append (ih ?_)
      exact hopens.current ▸ hother

theorem Decl.spares (hlt : scope < table.scopes.length) (decl : Decl) :
    table.Spares scope decl.nameEvents := by
  cases decl with
  | importFile | node | opaqueType | typeAlias | varDecl | constDecl =>
      exact .nothing (Decl.onlyUses rfl)
  | tree head name params body =>
      have hopens := opens_nameEventsOfParams (table.enter .tree) head.origin params
      have hlater := lt_length_enter hlt .tree
      refine .block hlt onlyUses_nil .tree
        ((spares_nameEventsOfParams head.origin params (ne_current_enter hlt _)).append
          (Stmt.sparesAll body ?_ ?_))
      · rw [hopens.current]
        exact ne_current_enter hlt _
      · rw [hopens.length_scopes]
        exact Nat.lt_of_lt_of_le hlater (Nat.le_add_right _ _)

/-- What a program does with names inside its trees changes no scope that is there before. -/
theorem Program.spares (hcurrent : table.current = moduleScope) (hlt : scope < table.scopes.length)
    (program : Program) : table.Spares scope program.nameEvents := by
  unfold Program.nameEvents
  induction program.decls generalizing table with
  | nil => exact .nothing onlyUses_nil
  | cons decl rest ih =>
      rw [List.flatMap_cons]
      have hopens := decl.opens hcurrent
      refine (decl.spares hlt).append (ih (hopens.current.trans hcurrent) ?_)
      rw [hopens.length_scopes]
      exact Nat.lt_of_lt_of_le hlt (Nat.le_add_right _ _)

end Program

/-! ### What other modules see -/

/-- What other modules make of a module: its path and its declarations. -/
def Module.outside (module : Module) : Path × (Namespace → String → Option Nat) :=
  (module.path, module.declared?)

theorem Module.Unnamed.outside_withNames {module : Module} (hmodule : module.Unnamed)
    (graph : ModuleGraph) (id : Nat) :
    (module.collected.module.withNames graph id).1.outside = module.collected.module.outside := by
  have hcurrent : module.collected.module.symbols.current = moduleScope :=
    (List.cons.inj hmodule.collected.opened).1
  have hlt : moduleScope < module.collected.module.symbols.scopes.length := by
    rw [← length_outline, hmodule.collected.outline]
    exact Nat.zero_lt_one
  have hvalues : ∀ name,
      (module.collected.module.withNames graph id).1.symbols.lookupGlobal name =
        module.collected.module.symbols.lookupGlobal name := by
    rw [hmodule.symbols_withNames graph id]
    exact module.program.spares hcurrent hlt
  refine Prod.ext rfl ?_
  funext namesOf name
  cases namesOf with
  | value => exact hvalues name
  | node | type => rfl

namespace ModuleGraph

def outside (graph : ModuleGraph) : List (Path × (Namespace → String → Option Nat)) :=
  graph.modules.map Module.outside

variable {left right : ModuleGraph}

theorem declared?_congr (hsame : left.outside = right.outside) (id : Nat) (namesOf : Namespace)
    (name : String) : left.declared? id namesOf name = right.declared? id namesOf name := by
  have hview : ∀ graph : ModuleGraph, graph.declared? id namesOf name =
      graph.outside[id]?.bind fun view => view.2 namesOf name := by
    intro graph
    unfold declared? get? outside
    rw [List.getElem?_map]
    cases graph.modules[id]? <;> rfl
  rw [hview, hview, hsame]

/-- The name by which a module that would have a name is called. -/
theorem owner_congr (hsame : left.outside = right.outside) (id : Nat) (module : Module)
    (namesOf : Namespace) (name : String) :
    (left.ownerElsewhere? id module namesOf name).map Module.path =
      (right.ownerElsewhere? id module namesOf name).map Module.path := by
  have hview : ∀ graph : ModuleGraph,
      (graph.ownerElsewhere? id module namesOf name).map Module.path =
        if isPrivate name then none
        else (graph.outside.zipIdx.find? fun entry =>
          entry.2 != id && !module.importsModule entry.2 && (entry.1.2 namesOf name).isSome).map
            fun entry => entry.1.1 := by
    intro graph
    unfold ownerElsewhere? outside
    split
    · rfl
    · rw [List.zipIdx_map, List.find?_map, Option.map_map, Option.map_map]
      rfl
  rw [hview, hview, hsame]

end ModuleGraph

theorem NameReport.undeclaredName_congr (namesOf : Namespace) (name : Name)
    {owner owner' : Option Module} (hpath : owner.map Module.path = owner'.map Module.path) :
    undeclaredName namesOf name owner = undeclaredName namesOf name owner' := by
  cases owner with
  | none =>
      cases owner' with
      | none => rfl
      | some => cases hpath
  | some module =>
      cases owner' with
      | none => cases hpath
      | some other =>
          have hname : module.displayName = other.displayName := by
            unfold Module.displayName
            rw [Option.some.inj hpath]
          simp only [undeclaredName, hname]

section Congr

variable {left right : ModuleGraph} (hsame : left.outside = right.outside) (id : Nat)
  (module : Module)
include hsame

theorem Naming.step_congr (state : Naming) (event : NameEvent) :
    step left id module state event = step right id module state event := by
  cases event with
  | use purpose origin name =>
      have hfound : left.importedNames module.imports purpose.names name.text =
          right.importedNames module.imports purpose.names name.text := by
        rw [importedNames_eq, importedNames_eq]
        congr 1
        funext entry
        unfold visible?
        rw [ModuleGraph.declared?_congr hsame]
      have howner := NameReport.undeclaredName_congr purpose.names name
        (ModuleGraph.owner_congr hsame id module purpose.names name.text)
      show use left id module state purpose origin name = use right id module state purpose origin name
      unfold use useImported
      rw [hfound, howner]
  | _ => rfl

theorem Module.withNames_congr : module.withNames left id = module.withNames right id := by
  have hstep : Naming.step left id module = Naming.step right id module :=
    funext fun state => funext (Naming.step_congr hsame id module state)
  unfold Module.withNames Module.naming
  rw [hstep]

end Congr

/-! ### One after another -/

namespace ModuleGraph

/-- Looks at the names of one module and puts it back into the graph. -/
def nameOne (result : ModuleGraph × List Diagnostic) (id : Nat) : ModuleGraph × List Diagnostic :=
  match result.1.get? id with
  | none => result
  | some module =>
    let named := module.withNames result.1 id
    (result.1.modify id fun _ => named.1, result.2 ++ named.2)

/-- Enters the declarations of all modules, then looks at the names of one after another, each in
the graph that those before have left. -/
def resolveInTurn (graph : ModuleGraph) : ModuleGraph × List Diagnostic :=
  graph.ids.foldl nameOne graph.collectNames

/-- The modules behind those that have been looked at, if other modules see in them the same as in
those of a graph. -/
theorem foldl_nameOne (graph : ModuleGraph) (named pending : List Module)
    (reports : List Diagnostic) (hsame : ModuleGraph.outside ⟨named ++ pending⟩ = graph.outside)
    (hpending : ∀ module ∈ pending, ∀ id,
      (module.withNames graph id).1.outside = module.outside) :
    (List.range' named.length pending.length).foldl nameOne (⟨named ++ pending⟩, reports) =
      (⟨named ++ pending.mapIdx fun i module => (module.withNames graph (named.length + i)).1⟩,
        reports ++ (pending.mapIdx fun i module =>
          (module.withNames graph (named.length + i)).2).flatten) := by
  induction pending generalizing named reports with
  | nil => simp
  | cons module rest ih =>
      obtain ⟨hmodule, hrest⟩ := List.forall_mem_cons.mp hpending
      have hone : nameOne (⟨named ++ module :: rest⟩, reports) named.length =
          (⟨(named ++ [(module.withNames graph named.length).1]) ++ rest⟩,
            reports ++ (module.withNames graph named.length).2) := by
        have hget : ModuleGraph.get? ⟨named ++ module :: rest⟩ named.length = some module := by
          simp [get?]
        have hset : (named ++ module :: rest).modify named.length
            (fun _ => (module.withNames graph named.length).1) =
              named ++ [(module.withNames graph named.length).1] ++ rest := by
          simp [List.modify_eq_set_getElem?]
        simp only [nameOne, hget, Module.withNames_congr hsame named.length module, modify, hset]
      have hlater : ModuleGraph.outside
          ⟨named ++ [(module.withNames graph named.length).1] ++ rest⟩ = graph.outside := by
        rw [← hsame]
        simp [outside, hmodule]
      have hnext := ih (named ++ [(module.withNames graph named.length).1])
        (reports ++ (module.withNames graph named.length).2) hlater hrest
      rw [List.length_append, List.length_singleton] at hnext
      rw [List.length_cons, List.range'_succ, List.foldl_cons, hone, hnext]
      simp [List.mapIdx_cons, Nat.add_assoc, Nat.add_comm 1]

/-- **The order of the modules does not matter.** Looking at the names of one module after another,
each in the graph that those before have left, comes to the same as looking at each among modules
whose names have not been looked at. -/
theorem resolveInTurn_eq {graph : ModuleGraph}
    (hunnamed : ∀ module ∈ graph.modules, module.Unnamed) :
    graph.resolveInTurn = graph.resolveNames := by
  have hpending : ∀ module ∈ graph.collectNames.1.modules, ∀ id,
      (module.withNames graph.collectNames.1 id).1.outside = module.outside := by
    intro module hmodule id
    obtain ⟨state, hstate, rfl⟩ := List.mem_map.mp hmodule
    obtain ⟨source, hsource, rfl⟩ := List.mem_map.mp hstate
    exact (hunnamed source hsource).outside_withNames _ id
  have hfold := foldl_nameOne graph.collectNames.1 [] graph.collectNames.1.modules
    graph.collectNames.2 rfl hpending
  have hids : graph.ids = List.range' 0 graph.collectNames.1.modules.length := by
    rw [ids, size, collectNames, List.length_map, List.length_map, List.range_eq_range']
  unfold resolveInTurn
  rw [hids]
  refine hfold.trans (Prod.ext ?_ ?_)
  · simp only [resolveNames, List.nil_append, List.length_nil, Nat.zero_add]
    exact congrArg ModuleGraph.mk (List.ext_getElem (by simp) (by simp))
  · simp only [resolveNames, List.length_nil, Nat.zero_add, List.flatMap_def]
    exact congrArg (_ ++ List.flatten ·) (List.ext_getElem (by simp) (by simp))

end ModuleGraph

end BehaviorTree
