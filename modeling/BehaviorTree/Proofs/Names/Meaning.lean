import BehaviorTree.Names.Resolution
import BehaviorTree.Proofs.Names.Collection

/-!
# Meanings of names

What looking at one name does: it records a meaning under the node that uses the name, or it reports
one error at the place of the name, and never both. An event leaves all other nodes and places alone,
so what a program's use of a name comes to is decided when the name is looked at.
-/

namespace BehaviorTree

namespace NameReport

/-- The codes for names that are undeclared, ambiguous or private. -/
def useCodes : List String := [Code.undeclaredName, Code.ambiguousName, Code.privateName]

end NameReport

/-- An error that the name at the range is undeclared, ambiguous or private. -/
def Diagnostic.blames (range : SourceRange) (diagnostic : Diagnostic) : Bool :=
  diagnostic.isError && NameReport.useCodes.any (diagnostic.code == some ·) &&
    diagnostic.primaryRange == range

/-- The meanings recorded for the use of a name by the node with a number. -/
def Resolutions.meanings (known : Resolutions) (purpose : NameUse) (id : Nat) : List TypeTarget :=
  match purpose with
  | .value => (known.values.filter fun entry => entry.1.id == id).map fun entry => .declared entry.2
  | .assignment =>
    (known.assignments.filter fun entry => entry.1.id == id).map fun entry => .declared entry.2
  | .node => (known.nodes.filter fun entry => entry.1.id == id).map fun entry => .declared entry.2
  | .type => (known.types.filter fun entry => entry.1.id == id).map Prod.snd

/-! ### Reports -/

/-- The diagnostic is an error about the use of the name. -/
structure NameReport.Refuses (name : Name) (diagnostic : Diagnostic) : Prop where
  severity : diagnostic.severity = .error
  code : ∃ code ∈ NameReport.useCodes, diagnostic.code = some code
  range : name.range.isLocated = true → diagnostic.primaryRange = name.range

namespace NameReport

variable {name : Name} {diagnostic : Diagnostic} {code : String}

theorem Refuses.withSecondary (hrefuses : Refuses name diagnostic) (range : SourceRange)
    (message : String) : Refuses name (diagnostic.withSecondary range message) where
  severity := (Diagnostic.severity_withSecondary _ _ _).trans hrefuses.severity
  code := by
    rw [Diagnostic.code_withSecondary]
    exact hrefuses.code
  range hlocated := by
    rw [Diagnostic.primaryRange_withSecondary]
    exact hrefuses.range hlocated

theorem Refuses.withHelp (hrefuses : Refuses name diagnostic) (help : String) :
    Refuses name (diagnostic.withHelp help) :=
  ⟨hrefuses.severity, hrefuses.code, hrefuses.range⟩

theorem refuses_error (name : Name) (message label : String) (hcode : code ∈ useCodes) :
    Refuses name (((Diagnostic.error name.range message).withCode code).withLabel label) where
  severity := rfl
  code := ⟨code, hcode, rfl⟩
  range hlocated := by
    simp [Diagnostic.error, Diagnostic.new, hlocated, Diagnostic.withCode, Diagnostic.withLabel,
      Diagnostic.setPrimaryMessage, Label.isPrimary, Diagnostic.primaryRange,
      Diagnostic.primaryLabel?]

theorem refuses_undeclaredName (namesOf : Namespace) (name : Name) (owner : Option Module) :
    Refuses name (undeclaredName namesOf name owner) := by
  have hbase := refuses_error name (undeclaredMessage namesOf name.text) (undeclaredLabel namesOf)
    (List.mem_cons_self (a := Code.undeclaredName))
  unfold undeclaredName
  cases owner with
  | none => exact hbase
  | some owner => exact hbase.withHelp _

theorem refuses_privateName (name : Name) (edge : ImportEdge) :
    Refuses name (privateName name edge) :=
  ((refuses_error name _ _ (by simp [useCodes])).withSecondary edge.pathRange _).withHelp _

theorem refuses_ambiguousName (name : Name) (edges : List ImportEdge) :
    Refuses name (ambiguousName name edges) := by
  unfold ambiguousName
  dsimp only
  generalize hbase : Diagnostic.withHelp _ _ = diagnostic
  have hrefuses : Refuses name diagnostic := by
    rw [← hbase]
    exact (refuses_error name _ _ (by simp [useCodes])).withHelp _
  clear hbase
  induction edges generalizing diagnostic with
  | nil => exact hrefuses
  | cons edge rest ih => exact ih _ (hrefuses.withSecondary edge.pathRange _)

theorem Refuses.blames (hrefuses : Refuses name diagnostic) (hlocated : name.range.isLocated = true)
    (range : SourceRange) : diagnostic.blames range = (name.range == range) := by
  obtain ⟨code, hcode, heq⟩ := hrefuses.code
  have herror : diagnostic.isError = true := by
    rw [Diagnostic.isError, hrefuses.severity]
    rfl
  have hcodes : useCodes.any (diagnostic.code == some ·) = true := by
    rw [heq, List.any_eq_true]
    exact ⟨code, hcode, beq_self_eq_true _⟩
  rw [Diagnostic.blames, herror, hcodes, hrefuses.range hlocated]
  rfl

end NameReport

/-- Other codes do not blame names. -/
theorem Diagnostic.not_blames {diagnostic : Diagnostic} {code : String}
    (hcode : diagnostic.code = some code) (hother : code ∉ NameReport.useCodes)
    (range : SourceRange) : diagnostic.blames range = false := by
  have hcodes : NameReport.useCodes.any (diagnostic.code == some ·) = false := by
    rw [hcode, List.any_eq_false]
    intro used hused
    simp only [beq_iff_eq, Option.some.injEq]
    rintro rfl
    exact hother hused
  rw [blames, hcodes, Bool.and_false, Bool.false_and]

/-! ### One use -/

namespace Naming

/-- What a name may mean: a builtin type, what the module itself has under the name, or what it
imports under it, unless that is private. -/
inductive Means (graph : ModuleGraph) (id : Nat) (module : Module) (state : Naming)
    (purpose : NameUse) (name : String) : TypeTarget → Prop
  | builtin {type : BuiltinType} : builtin? purpose name = some type →
    Means graph id module state purpose name (.builtin type)
  | own {index : Nat} : builtin? purpose name = none →
    own? module state purpose name = some index →
    Means graph id module state purpose name (.declared ⟨id, index⟩)
  | imported {edge : ImportEdge} {index : Nat} : builtin? purpose name = none →
    own? module state purpose name = none → edge ∈ module.imports →
    (graph.get? edge.target).bind (·.declared? purpose.names name) = some index →
    isPrivate name = false →
    Means graph id module state purpose name (.declared ⟨edge.target, index⟩)

/-- What a use comes to: the meanings that are recorded and the errors about the name. -/
inductive Settled (graph : ModuleGraph) (id : Nat) (module : Module) (state : Naming)
    (purpose : NameUse) (name : Name) : List TypeTarget → List Diagnostic → Prop
  | means {meaning : TypeTarget} : Means graph id module state purpose name.text meaning →
    Settled graph id module state purpose name [meaning] []
  | refused {diagnostic : Diagnostic} : builtin? purpose name.text = none →
    own? module state purpose name.text = none → NameReport.Refuses name diagnostic →
    Settled graph id module state purpose name [] [diagnostic]

variable {graph : ModuleGraph} {id i : Nat} {module : Module} {state : Naming}
  {purpose other : NameUse} {origin : Origin} {name : Name} {target : Target}

theorem meanings_record : (state.record purpose origin target).resolutions.meanings other i =
    state.resolutions.meanings other i ++
      if other = purpose ∧ origin.id = i then [.declared target] else [] := by
  by_cases hid : origin.id = i
  · cases purpose <;> cases other <;> simp [record, Resolutions.meanings, hid]
  · cases purpose <;> cases other <;> simp [record, Resolutions.meanings, hid]

theorem meanings_recordBuiltin (type : BuiltinType) :
    (state.recordBuiltin origin type).resolutions.meanings other i =
      state.resolutions.meanings other i ++
        if other = .type ∧ origin.id = i then [.builtin type] else [] := by
  by_cases hid : origin.id = i
  · cases other <;> simp [recordBuiltin, Resolutions.meanings, hid]
  · cases other <;> simp [recordBuiltin, Resolutions.meanings, hid]

theorem mem_importedNames {imports : List ImportEdge} {namesOf : Namespace} {name : String}
    {imported : ImportedName} (hmem : imported ∈ graph.importedNames imports namesOf name) :
    imported.edge ∈ imports ∧
      (graph.get? imported.edge.target).bind (·.declared? namesOf name) = some imported.index := by
  obtain ⟨⟨edge, position⟩, hentry, hfound⟩ := List.mem_filterMap.mp hmem
  obtain ⟨index, hindex, rfl⟩ := Option.map_eq_some_iff.mp hfound
  exact ⟨List.fst_mem_of_mem_zipIdx hentry, hindex⟩

/-- The step from a state records the meanings under a node and reports the errors. -/
structure Comes (state next : Naming) (purpose : NameUse) (origin : Origin)
    (meanings : List TypeTarget) (errors : List Diagnostic) : Prop where
  diagnostics : next.diagnostics = state.diagnostics ++ errors
  recorded : ∀ other i, next.resolutions.meanings other i = state.resolutions.meanings other i ++
    if other = purpose ∧ origin.id = i then meanings else []

theorem comes_record : Comes state (state.record purpose origin target) purpose origin
    [.declared target] [] where
  diagnostics := by
    rw [List.append_nil]
    cases purpose <;> rfl
  recorded _ _ := meanings_record

theorem comes_recordBuiltin (origin : Origin) (type : BuiltinType) :
    Comes state (state.recordBuiltin origin type) .type origin [.builtin type] [] where
  diagnostics := (List.append_nil _).symm
  recorded _ _ := meanings_recordBuiltin type

theorem comes_report (purpose : NameUse) (origin : Origin) (diagnostic : Diagnostic) :
    Comes state (state.report diagnostic) purpose origin [] [diagnostic] where
  diagnostics := rfl
  recorded _ _ := by
    rw [ite_self, List.append_nil]
    rfl

/-- The imports that were found do not matter to what is recorded and reported. -/
theorem Comes.of_used {next : Naming} {used : List Nat} {meanings : List TypeTarget}
    {errors : List Diagnostic}
    (hcomes : Comes { state with used } next purpose origin meanings errors) :
    Comes state next purpose origin meanings errors :=
  ⟨hcomes.diagnostics, hcomes.recorded⟩

theorem useImported_settles (hbuiltin : builtin? purpose name.text = none)
    (hown : own? module state purpose name.text = none) (origin : Origin) :
    ∃ meanings errors, Settled graph id module state purpose name meanings errors ∧
      Comes state (useImported graph id module state purpose origin name) purpose origin
        meanings errors := by
  unfold useImported
  dsimp only
  cases hfound : graph.importedNames module.imports purpose.names name.text with
  | nil =>
      exact ⟨_, _, .refused hbuiltin hown (NameReport.refuses_undeclaredName _ _ _),
        (comes_report _ _ _).of_used⟩
  | cons first others =>
      obtain ⟨hedge, hindex⟩ := mem_importedNames (hfound ▸ List.mem_cons_self)
      dsimp only
      split
      · exact ⟨_, _, .refused hbuiltin hown (NameReport.refuses_privateName _ _),
          (comes_report _ _ _).of_used⟩
      · rename_i hprivate
        split
        · exact ⟨_, _, .means (.imported hbuiltin hown hedge hindex (by simpa using hprivate)),
            comes_record.of_used⟩
        · exact ⟨_, _, .refused hbuiltin hown (NameReport.refuses_ambiguousName _ _),
            (comes_report _ _ _).of_used⟩

/-- A use records one meaning or reports one error. -/
theorem use_settles (graph : ModuleGraph) (id : Nat) (module : Module) (state : Naming)
    (purpose : NameUse) (origin : Origin) (name : Name) :
    ∃ meanings errors, Settled graph id module state purpose name meanings errors ∧
      Comes state (use graph id module state purpose origin name) purpose origin
        meanings errors := by
  unfold use
  cases hbuiltin : builtin? purpose name.text with
  | some type =>
      have htype : purpose = .type := by
        cases purpose <;> first | rfl | cases hbuiltin
      subst htype
      exact ⟨_, _, .means (.builtin hbuiltin), comes_recordBuiltin origin type⟩
  | none =>
      cases hown : own? module state purpose name.text with
      | some index => exact ⟨_, _, .means (.own hbuiltin hown), comes_record⟩
      | none => exact useImported_settles hbuiltin hown origin

/-! ### All events -/

/-- The state behind some events. -/
def run (graph : ModuleGraph) (id : Nat) (module : Module) (state : Naming)
    (events : List NameEvent) : Naming :=
  events.foldl (step graph id module) state

theorem symbols_useImported (origin : Origin) (name : Name) :
    (useImported graph id module state purpose origin name).symbols = state.symbols := by
  unfold useImported
  dsimp only
  split
  · rfl
  · split
    · rfl
    · split
      · cases purpose <;> rfl
      · rfl

theorem symbols_step (event : NameEvent) :
    (step graph id module state event).symbols = state.symbols.follow event := by
  cases event with
  | use purpose origin name =>
      show (use graph id module state purpose origin name).symbols = state.symbols
      unfold use
      split
      · rfl
      · split
        · cases purpose <;> rfl
        · exact symbols_useImported origin name
  | textType origin => rfl
  | declare kind name =>
      show (state.declare kind name).symbols = state.symbols.ensure name.text kind name.range
      unfold declare
      rw [SymbolTable.define_eq]
      cases hlocal : state.symbols.lookupLocal name.text with
      | none => rfl
      | some earlier => simp [SymbolTable.ensure, hlocal, report]
  | enter kind => rfl
  | leave => rfl

/-- The scopes follow the events, whatever becomes of the uses among them. -/
theorem symbols_run (events : List NameEvent) :
    (run graph id module state events).symbols = events.foldl SymbolTable.follow state.symbols := by
  induction events generalizing state with
  | nil => rfl
  | cons event events ih =>
      rw [run, List.foldl_cons, List.foldl_cons, ← symbols_step]
      exact ih

/-- What an event reports: a second definition, or an error about the name that it uses. -/
def Reports (event : NameEvent) (diagnostic : Diagnostic) : Prop :=
  diagnostic.code = some Code.duplicateDefinition ∨
    ∃ purpose origin name, event = .use purpose origin name ∧ NameReport.Refuses name diagnostic

theorem step_reports (graph : ModuleGraph) (id : Nat) (module : Module) (state : Naming)
    (event : NameEvent) :
    ∃ errors, (step graph id module state event).diagnostics = state.diagnostics ++ errors ∧
      ∀ diagnostic ∈ errors, Reports event diagnostic := by
  cases event with
  | use purpose origin name =>
      obtain ⟨meanings, errors, hsettled, hcomes⟩ :=
        use_settles graph id module state purpose origin name
      refine ⟨errors, hcomes.diagnostics, ?_⟩
      cases hsettled with
      | means => exact List.forall_mem_nil _
      | refused _ _ hrefuses =>
          exact List.forall_mem_singleton.mpr (.inr ⟨purpose, origin, name, rfl, hrefuses⟩)
  | declare kind name =>
      show ∃ errors, (state.declare kind name).diagnostics = state.diagnostics ++ errors ∧ _
      unfold declare
      split
      · exact ⟨[], (List.append_nil _).symm, List.forall_mem_nil _⟩
      · exact ⟨[_], rfl, List.forall_mem_singleton.mpr
          (.inl (Diagnostic.code_withSecondary _ _ _))⟩
  | textType | enter | leave => exact ⟨[], (List.append_nil _).symm, List.forall_mem_nil _⟩

/-- An event about another node records nothing under this one. -/
theorem meanings_step_apart {event : NameEvent}
    (hapart : .node purpose.nodeKind i ∉ event.stamps) :
    (step graph id module state event).resolutions.meanings purpose i =
      state.resolutions.meanings purpose i := by
  cases event with
  | use used origin name =>
      obtain ⟨meanings, errors, -, hcomes⟩ := use_settles graph id module state used origin name
      have hother : ¬(purpose = used ∧ origin.id = i) := by
        rintro ⟨rfl, rfl⟩
        exact hapart List.mem_cons_self
      rw [step, hcomes.recorded, if_neg hother, List.append_nil]
  | textType origin =>
      have hother : ¬(purpose = .type ∧ origin.id = i) := by
        rintro ⟨rfl, rfl⟩
        exact hapart List.mem_cons_self
      rw [step, meanings_recordBuiltin, if_neg hother, List.append_nil]
  | declare kind name =>
      show (state.declare kind name).resolutions.meanings purpose i = _
      unfold declare
      split <;> rfl
  | enter | leave => rfl

end Naming

end BehaviorTree
