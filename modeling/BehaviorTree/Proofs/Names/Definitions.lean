import Mathlib.Data.List.Induction
import BehaviorTree.Proofs.Names.Collection

/-!
# Definitions at the top of a module

The reference for entering declarations: what each of them defines, which definitions are kept, what
speaks against the others, and the tables that hold just some definitions. A definition is judged by
those before it in the source.
-/

namespace BehaviorTree

/-! ### Elements told from those before them -/

section Behind

variable {α β : Type} (f : List α → α → Option β)

/-- What is made of each element of a list, given what stands before it. -/
def filterMapBehind (list : List α) : List β :=
  list.zipIdx.filterMap fun (x, index) => f (list.take index) x

theorem filterMapBehind_concat (list : List α) (x : α) :
    filterMapBehind f (list ++ [x]) = filterMapBehind f list ++ (f list x).toList := by
  have hbefore : ∀ entry ∈ list.zipIdx,
      f ((list ++ [x]).take entry.2) entry.1 = f (list.take entry.2) entry.1 := by
    rintro ⟨y, index⟩ hentry
    have hlt : index < list.length :=
      (List.getElem?_eq_some_iff.mp (List.mem_zipIdx_iff_getElem?.mp hentry)).1
    rw [List.take_append_of_le_length (Nat.le_of_lt hlt)]
  unfold filterMapBehind
  rw [List.zipIdx_append, List.filterMap_append, List.filterMap_congr hbefore]
  cases hmade : f list x <;> simp [hmade]

end Behind

/-! ### Definitions -/

/-- What a definition enters under its name. -/
inductive Entry
  | value (kind : SymbolKind)
  | node (kind : DeclaredNodeKind) (decl : Origin)
  | type (kind : TypeKind) (decl : Origin)
  deriving DecidableEq

namespace Entry

def namesOf : Entry → Namespace
  | value _ => .value
  | node .. => .node
  | type .. => .type

/-- The word for a definition in a report. -/
def describe : Entry → String
  | value kind => kind.describe
  | node kind _ => kind.describe
  | type .. => "type"

end Entry

/-- A name with what a declaration at the top of a module enters under it. -/
structure Definition where
  name : Name
  entry : Entry
  deriving DecidableEq

/-- What a declaration defines. An import defines nothing. -/
def Decl.definition? : Decl → Option Definition
  | .importFile .. => none
  | .node head category name _ behavior =>
    some ⟨name, .node (.foreign category behavior) head.origin⟩
  | .tree head name .. => some ⟨name, .node .tree head.origin⟩
  | .opaqueType head name => some ⟨name, .type .foreign head.origin⟩
  | .typeAlias head name _ => some ⟨name, .type .alias head.origin⟩
  | .varDecl head name .. => some ⟨name, .value (.globalVar head.origin)⟩
  | .constDecl head name .. => some ⟨name, .value (.globalConst head.origin)⟩

/-- The definitions at the top of a program, in the order of the source. -/
def Program.definitions (program : Program) : List Definition :=
  program.decls.filterMap Decl.definition?

/-- Why a definition is not entered. -/
inductive Objection
  /-- It is a type with the name of a builtin one. -/
  | reserved (name : Name)
  /-- The name is taken by a definition that is kept. -/
  | taken (definition kept : Definition)
  deriving DecidableEq

namespace Objection

/-- A node is called what the kept definition is, anything else what it is itself. -/
def word (definition kept : Definition) : String :=
  match definition.entry with
  | .node .. => kept.entry.describe
  | entry => entry.describe

def report : Objection → Diagnostic
  | reserved name => NameReport.redeclaredBuiltin name
  | taken definition kept =>
    NameReport.duplicate (word definition kept) definition.name kept.name.range

/-- The places that the report points at. -/
def places : Objection → List (LabelStyle × SourceRange)
  | reserved name => [(.primary, name.range)]
  | taken definition kept =>
    [(.primary, definition.name.range), (.secondary, kept.name.range)]

/-- The report is an error about a second definition, and points at these places and no others. -/
structure Reported (objection : Objection) : Prop where
  severity : objection.report.severity = .error
  code : objection.report.code = some Code.duplicateDefinition
  places : objection.report.labels.map (fun label => (label.style, label.range)) = objection.places

end Objection

namespace Definition

/-- The namespace and the name. -/
def key (definition : Definition) : Namespace × String :=
  (definition.entry.namesOf, definition.name.text)

/-- The name is that of a builtin type. -/
def isReserved (definition : Definition) : Bool :=
  definition.entry.namesOf == .type && (BuiltinType.ofName? definition.name.text).isSome

/-- What speaks against a definition behind others: its name is reserved, or the first one of its
name in its namespace stands before it. -/
def objection? (before : List Definition) (definition : Definition) : Option Objection :=
  if definition.isReserved then some (.reserved definition.name)
  else (before.find? fun earlier => earlier.key == definition.key).map (.taken definition)

/-- The definitions that nothing speaks against. -/
def kept (definitions : List Definition) : List Definition :=
  filterMapBehind
    (fun before definition =>
      if (definition.objection? before).isNone then some definition else none) definitions

/-- What speaks against the others. -/
def objections (definitions : List Definition) : List Objection :=
  filterMapBehind objection? definitions

def value? (definition : Definition) : Option (Name × SymbolKind) :=
  match definition.entry with
  | .value kind => some (definition.name, kind)
  | _ => none

def node? (definition : Definition) : Option (String × DeclaredNode) :=
  match definition.entry with
  | .node kind decl => some (definition.name.text, ⟨kind, decl, definition.name.range⟩)
  | _ => none

def type? (definition : Definition) : Option (String × DeclaredType) :=
  match definition.entry with
  | .type kind decl => some (definition.name.text, ⟨kind, decl, definition.name.range⟩)
  | _ => none

end Definition

/-- The table of a module that has just its globals: its scope lists them under their numbers. -/
def SymbolTable.ofGlobals (globals : List (Name × SymbolKind)) : SymbolTable where
  symbols := globals.map fun (name, kind) => ⟨name.text, kind, name.range, moduleScope⟩
  scopes := [⟨none, .module, ⟨globals.zipIdx.map fun ((name, _), index) => (name.text, index)⟩⟩]
  current := moduleScope
  enclosing := []

/-- The module with tables that hold these definitions and nothing else. -/
def Module.holding (module : Module) (definitions : List Definition) : Module :=
  { module with
    symbols := .ofGlobals (definitions.filterMap Definition.value?)
    nodes := ⟨definitions.filterMap Definition.node?⟩
    types := ⟨definitions.filterMap Definition.type?⟩ }

variable {before definitions : List Definition} {definition : Definition}

/-! ### What is kept -/

namespace Definition

theorem objection?_eq_none_iff : definition.objection? before = none ↔
    definition.isReserved = false ∧ ∀ earlier ∈ before, earlier.key ≠ definition.key := by
  unfold objection?
  by_cases hreserved : definition.isReserved = true
  · simp [hreserved]
  · simp [hreserved]

/-- Only an earlier definition speaks against a name that is not reserved. -/
theorem objection?_of_open (before : List Definition)
    (hreserved : definition.isReserved = false) :
    definition.objection? before =
      (before.find? fun earlier => earlier.key == definition.key).map (.taken definition) :=
  if_neg (Bool.eq_false_iff.mp hreserved)

theorem kept_concat (before : List Definition) (definition : Definition) :
    kept (before ++ [definition]) =
      kept before ++ if definition.objection? before = none then [definition] else [] := by
  unfold kept
  rw [filterMapBehind_concat]
  cases definition.objection? before <;> simp

theorem objections_concat (before : List Definition) (definition : Definition) :
    objections (before ++ [definition]) =
      objections before ++ (definition.objection? before).toList :=
  filterMapBehind_concat objection? before definition

/-- Among the kept definitions the first of a name is the first among all. -/
theorem find?_kept (hreserved : definition.isReserved = false) (before : List Definition) :
    (kept before).find? (fun earlier => earlier.key == definition.key) =
      before.find? fun earlier => earlier.key == definition.key := by
  induction before using List.reverseRecOn with
  | nil => rfl
  | append_singleton before last ih =>
      rw [kept_concat, List.find?_append, List.find?_append, ih]
      cases hfound : before.find? fun earlier => earlier.key == definition.key with
      | some first => rfl
      | none =>
          have hfresh : ∀ earlier ∈ before, earlier.key ≠ definition.key := by
            simpa using hfound
          by_cases hsame : last.key = definition.key
          · have hlast : last.objection? before = none := by
              refine objection?_eq_none_iff.mpr ⟨?_, ?_⟩
              · obtain ⟨hentry, htext⟩ := Prod.mk.inj hsame
                rw [isReserved, hentry, htext]
                exact hreserved
              · rwa [hsame]
            rw [if_pos hlast]
          · by_cases hlast : last.objection? before = none
            · rw [if_pos hlast]
            · simp [hlast, hsame]

theorem kept_sublist (definitions : List Definition) : (kept definitions).Sublist definitions := by
  induction definitions using List.reverseRecOn with
  | nil => exact List.Sublist.slnil
  | append_singleton before definition ih =>
      rw [kept_concat]
      refine ih.append ?_
      by_cases hkept : definition.objection? before = none
      · rw [if_pos hkept]
      · rw [if_neg hkept]
        exact List.nil_sublist _

theorem isReserved_of_mem_kept (hmem : definition ∈ kept definitions) :
    definition.isReserved = false := by
  induction definitions using List.reverseRecOn with
  | nil => cases hmem
  | append_singleton before last ih =>
      rw [kept_concat] at hmem
      rcases List.mem_append.mp hmem with hold | hnew
      · exact ih hold
      · by_cases hlast : last.objection? before = none
        · rw [if_pos hlast] at hnew
          rw [List.mem_singleton.mp hnew]
          exact (objection?_eq_none_iff.mp hlast).1
        · rw [if_neg hlast] at hnew
          cases hnew

/-- A name has a kept definition if it has any that is not reserved. -/
theorem exists_kept_iff {key : Namespace × String} :
    (∃ definition ∈ kept definitions, definition.key = key) ↔
      ∃ definition ∈ definitions, definition.key = key ∧ definition.isReserved = false := by
  constructor
  · rintro ⟨definition, hkept, hkey⟩
    exact ⟨definition, (kept_sublist definitions).subset hkept, hkey, isReserved_of_mem_kept hkept⟩
  · rintro ⟨definition, hmem, rfl, hreserved⟩
    have hfound := find?_kept hreserved definitions
    obtain ⟨first, hfirst⟩ : ∃ first,
        definitions.find? (fun other => other.key == definition.key) = some first :=
      Option.isSome_iff_exists.mp (List.find?_isSome.mpr ⟨definition, hmem, beq_self_eq_true _⟩)
    rw [hfirst] at hfound
    have hsame := List.find?_some hfound
    exact ⟨first, List.mem_of_find?_eq_some hfound, beq_iff_eq.mp hsame⟩

/-- What is taken is taken by a definition that is kept. -/
theorem mem_objections {objection : Objection} (hmem : objection ∈ objections definitions) :
    ∃ definition ∈ definitions, objection = .reserved definition.name ∨
      ∃ first ∈ kept definitions, first.key = definition.key ∧
        objection = .taken definition first := by
  induction definitions using List.reverseRecOn with
  | nil => cases hmem
  | append_singleton before last ih =>
      rw [objections_concat] at hmem
      rcases List.mem_append.mp hmem with hold | hnew
      · obtain ⟨definition, hdefinition, hcase⟩ := ih hold
        refine ⟨definition, List.mem_append_left _ hdefinition, hcase.imp_right ?_⟩
        rintro ⟨first, hfirst, hsame⟩
        exact ⟨first, kept_concat before last ▸ List.mem_append_left _ hfirst, hsame⟩
      · have hobjection := Option.mem_toList.mp hnew
        refine ⟨last, List.mem_append_right _ (List.mem_singleton_self last), ?_⟩
        by_cases hreserved : last.isReserved = true
        · exact .inl ((Option.some.inj ((if_pos hreserved).symm.trans hobjection)).symm)
        · have hopen := Bool.eq_false_iff.mpr hreserved
          rw [objection?_of_open before hopen, ← find?_kept hopen] at hobjection
          obtain ⟨first, hfirst, rfl⟩ := Option.map_eq_some_iff.mp hobjection
          have hsame := List.find?_some hfirst
          refine .inr ⟨first, ?_, beq_iff_eq.mp hsame, rfl⟩
          exact kept_concat before last ▸ List.mem_append_left _ (List.mem_of_find?_eq_some hfirst)

end Definition

/-! ### Reports -/

namespace Objection

theorem reported_reserved {name : Name} (hlocated : name.range.isLocated = true) :
    (reserved name).Reported where
  severity := rfl
  code := rfl
  places := by
    simp [report, NameReport.redeclaredBuiltin, Diagnostic.withHelp, Diagnostic.withLabel,
      Diagnostic.withCode, Diagnostic.error, Diagnostic.new, Diagnostic.setPrimaryMessage,
      Label.isPrimary, hlocated, Objection.places]

theorem reported_taken {definition kept : Definition}
    (hlocated : definition.name.range.isLocated = true)
    (hkept : kept.name.range.isLocated = true) : (taken definition kept).Reported where
  severity := Diagnostic.severity_withSecondary _ _ _
  code := Collected.code_duplicate _ _ _
  places := by
    simp [report, NameReport.duplicate, Diagnostic.withSecondary, Diagnostic.withLabel,
      Diagnostic.withCode, Diagnostic.error, Diagnostic.new, Diagnostic.setPrimaryMessage,
      Label.isPrimary, hlocated, hkept, Objection.places]

end Objection

/-! ### Tables of definitions -/

section Views

variable {α : Type} {view : Definition → Option (String × α)} {namesOf : Namespace}

/-- A table of the definitions in one namespace has under a name what the first of that name
enters. -/
theorem Table.find?_definitions
    (hview : ∀ definition : Definition, (view definition).map Prod.fst =
      if definition.entry.namesOf = namesOf then some definition.name.text else none)
    (definitions : List Definition) (name : String) :
    (Table.mk (definitions.filterMap view)).find? name =
      (definitions.find? fun definition => definition.key == (namesOf, name)).bind
        fun definition => (view definition).map Prod.snd := by
  induction definitions with
  | nil => rfl
  | cons definition rest ih =>
      have hhead := hview definition
      unfold Table.find? at ih ⊢
      by_cases hnames : definition.entry.namesOf = namesOf
      · rw [if_pos hnames] at hhead
        obtain ⟨⟨text, entry⟩, hentry, rfl⟩ := Option.map_eq_some_iff.mp hhead
        have hkey : (definition.key == (namesOf, name)) = (definition.name.text == name) := by
          rw [Definition.key, hnames, Bool.eq_iff_iff]
          simp
        rw [List.filterMap_cons_some hentry, List.find?_cons, List.find?_cons, hkey]
        cases definition.name.text == name with
        | true => rw [Option.map_some, Option.bind_some, hentry, Option.map_some]
        | false => exact ih
      · rw [if_neg hnames, Option.map_eq_none_iff] at hhead
        have hkey : (definition.key == (namesOf, name)) = false := by
          simp [Definition.key, hnames]
        rw [List.filterMap_cons_none hhead, List.find?_cons, hkey]
        exact ih

end Views

namespace Definition

theorem map_fst_node? (definition : Definition) : definition.node?.map Prod.fst =
    if definition.entry.namesOf = .node then some definition.name.text else none := by
  obtain ⟨name, entry⟩ := definition
  cases entry <;> rfl

theorem map_fst_type? (definition : Definition) : definition.type?.map Prod.fst =
    if definition.entry.namesOf = .type then some definition.name.text else none := by
  obtain ⟨name, entry⟩ := definition
  cases entry <;> rfl

/-- The first global of a name among some definitions. -/
theorem find?_value? (definitions : List Definition) (name : String) :
    (definitions.filterMap value?).find? (fun global => global.1.text == name) =
      (definitions.find? fun definition => definition.key == (.value, name)).bind value? := by
  have hview : ∀ definition : Definition,
      (definition.value?.map fun global => (global.1.text, global)).map Prod.fst =
        if definition.entry.namesOf = .value then some definition.name.text else none := by
    intro ⟨name, entry⟩
    cases entry <;> rfl
  have htable := Table.find?_definitions hview definitions name
  unfold Table.find? at htable
  rw [← List.map_filterMap, List.find?_map, Option.map_map] at htable
  simpa [Function.comp_def] using htable

end Definition

namespace SymbolTable

variable (globals : List (Name × SymbolKind))

/-- The scope of the module has under a name the number of the first global of that name. -/
theorem lookupLocal_ofGlobals (name : String) :
    (ofGlobals globals).lookupLocal name =
      (globals.zipIdx.find? fun entry => entry.1.1.text == name).map Prod.snd := by
  simp only [lookupLocal, lookupIn, scope?, ofGlobals, moduleScope, Table.find?,
    List.getElem?_cons_zero, Option.bind_some, List.find?_map, Option.map_map]
  congr 1

/-- That number leads back to the place of the first global of the name. -/
theorem map_rangeOf_lookupLocal (name : String) :
    ((ofGlobals globals).lookupLocal name).map (ofGlobals globals).rangeOf =
      (globals.find? fun global => global.1.text == name).map fun global => global.1.range := by
  have hfst : globals.find? (fun global => global.1.text == name) =
      (globals.zipIdx.find? fun entry => entry.1.1.text == name).map Prod.fst := by
    conv_lhs => rw [← List.zipIdx_map_fst 0 globals, List.find?_map]
    rfl
  rw [lookupLocal_ofGlobals, hfst]
  cases hfound : globals.zipIdx.find? fun entry => entry.1.1.text == name with
  | none => rfl
  | some entry =>
      have hglobal : globals[entry.2]? = some entry.1 :=
        List.mem_zipIdx_iff_getElem?.mp (List.mem_of_find?_eq_some hfound)
      simp [rangeOf, get?, ofGlobals, hglobal]

/-- Defining a name that no global has adds it at the end. -/
theorem ensure_ofGlobals {name : Name} (kind : SymbolKind)
    (hfresh : (ofGlobals globals).lookupLocal name.text = none) :
    (ofGlobals globals).ensure name.text kind name.range = ofGlobals (globals ++ [(name, kind)]) := by
  unfold ensure
  rw [hfresh]
  simp [add, ofGlobals, Table.add, List.zipIdx_append, moduleScope]

end SymbolTable

theorem Table.isSome_indexOf?_definitions {α : Type} {view : Definition → Option (String × α)}
    {namesOf : Namespace}
    (hview : ∀ definition : Definition, (view definition).map Prod.fst =
      if definition.entry.namesOf = namesOf then some definition.name.text else none)
    (definitions : List Definition) (name : String) :
    ((Table.mk (definitions.filterMap view)).indexOf? name).isSome = true ↔
      ∃ definition ∈ definitions, definition.key = (namesOf, name) := by
  have hkey : ∀ definition : Definition,
      definition.key = (namesOf, name) ↔ (view definition).map Prod.fst = some name := by
    intro definition
    rw [hview, Definition.key, Prod.mk.injEq]
    by_cases hnames : definition.entry.namesOf = namesOf
    · simp [hnames]
    · simp [hnames]
  simp only [hkey, Table.indexOf?, List.findIdx?_isSome, List.any_eq_true, List.mem_filterMap,
    Option.map_eq_some_iff, beq_iff_eq]
  constructor
  · rintro ⟨entry, ⟨definition, hmem, hentry⟩, hname⟩
    exact ⟨definition, hmem, entry, hentry, hname⟩
  · rintro ⟨definition, hmem, entry, hentry, hname⟩
    exact ⟨entry, ⟨definition, hmem, hentry⟩, hname⟩

/-- A module that holds some definitions declares at its top what these define. -/
theorem Module.isSome_declared?_holding (module : Module) (definitions : List Definition)
    (namesOf : Namespace) (name : String) :
    ((module.holding definitions).declared? namesOf name).isSome = true ↔
      ∃ definition ∈ definitions, definition.key = (namesOf, name) := by
  cases namesOf with
  | node => exact Table.isSome_indexOf?_definitions Definition.map_fst_node? definitions name
  | type => exact Table.isSome_indexOf?_definitions Definition.map_fst_type? definitions name
  | value =>
      have hrange := SymbolTable.map_rangeOf_lookupLocal
        (definitions.filterMap Definition.value?) name
      rw [Definition.find?_value?] at hrange
      have hsome := congrArg Option.isSome hrange
      rw [Option.isSome_map, Option.isSome_map] at hsome
      refine (Bool.eq_iff_iff.mp hsome).trans ?_
      cases hfound : definitions.find? fun definition => definition.key == (.value, name) with
      | none => simpa using hfound
      | some definition =>
          have hkey := List.find?_some hfound
          have hmem := List.mem_of_find?_eq_some hfound
          refine iff_of_true ?_ ⟨definition, hmem, beq_iff_eq.mp hkey⟩
          obtain ⟨own, entry⟩ := definition
          cases entry with
          | value kind => rfl
          | node | type => simp [Definition.key, Entry.namesOf] at hkey

end BehaviorTree
