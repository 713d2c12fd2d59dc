import BehaviorTree.Names.Collection
import BehaviorTree.Proofs.Module.Built
import BehaviorTree.Proofs.Names.Outline

/-!
# Collected declarations

What entering the declarations of a module leaves behind: the scope of the module, which shows the
globals of the program, and reports about second definitions alone.
-/

namespace BehaviorTree

theorem Table.get?_of_indexOf? {α : Type} {table : Table α} {name : String} {index : Nat}
    (hindex : table.indexOf? name = some index) :
    ∃ entry, table.get? index = some (name, entry) := by
  obtain ⟨hlt, hname, -⟩ := List.findIdx?_eq_some_iff_getElem.mp hindex
  refine ⟨table.entries[index].2, ?_⟩
  rw [get?, List.getElem?_eq_getElem hlt, ← beq_iff_eq.mp hname]

namespace Collected

open SymbolTable

/-- What the declarations `done` of a module have been entered into. -/
structure Of (module : Module) (done : List Decl) (state : Collected) : Prop where
  program : state.module.program = module.program
  imports : state.module.imports = module.imports
  resolutions : state.module.resolutions = module.resolutions
  sound : state.module.symbols.Sound
  shows : state.module.symbols.Shows [done.flatMap Decl.declared]
  opened : state.module.symbols.opened = [moduleScope]
  outline : state.module.symbols.outline = [(none, .module)]
  codes : ∀ diagnostic ∈ state.diagnostics, diagnostic.code = some Code.duplicateDefinition

variable {module : Module} {done : List Decl} {state : Collected} {diagnostic : Diagnostic}
  {name : Name}

theorem Of.initial (hmodule : module.Unnamed) : Of module [] ⟨module, []⟩ where
  program := rfl
  imports := rfl
  resolutions := rfl
  sound := hmodule.symbols ▸ sound_empty
  shows := hmodule.symbols ▸ shows_empty
  opened := by rw [hmodule.symbols]; rfl
  outline := by rw [hmodule.symbols]; rfl
  codes := List.forall_mem_nil _

theorem Of.report (hstate : Of module done state)
    (hcode : diagnostic.code = some Code.duplicateDefinition) :
    Of module done (state.report diagnostic) :=
  { hstate with
    codes := by
      intro other hother
      rcases List.mem_append.mp hother with hother | hother
      · exact hstate.codes other hother
      · rw [List.mem_singleton.mp hother]
        exact hcode }

theorem code_duplicate (what : String) (name : Name) (earlier : SourceRange) :
    (NameReport.duplicate what name earlier).code = some Code.duplicateDefinition :=
  Diagnostic.code_withSecondary _ _ _

theorem Of.addNode (hstate : Of module done state) (name : Name) (entry : DeclaredNode) :
    Of module done (state.addNode name entry) := by
  unfold Collected.addNode
  split
  · exact { hstate with }
  · exact hstate.report (code_duplicate _ _ _)

theorem Of.addType (hstate : Of module done state) (name : Name) (entry : DeclaredType) :
    Of module done (state.addType name entry) := by
  unfold Collected.addType
  split
  · exact hstate.report rfl
  · split
    · exact { hstate with }
    · exact hstate.report (code_duplicate _ _ _)

theorem Of.addGlobal {decl : Decl} {kind : SymbolKind} (hstate : Of module done state)
    (hdecl : decl.declared = [(name.text, kind)]) :
    Of module (done ++ [decl]) (state.addGlobal name kind) := by
  have hshows := hstate.shows.ensure hstate.sound name.text kind name.range
  have hensured : Of module (done ++ [decl]) { state with module := { state.module with
      symbols := state.module.symbols.ensure name.text kind name.range } } :=
    { hstate with
      sound := hstate.sound.ensure
      shows := by rwa [List.flatMap_append, List.flatMap_singleton, hdecl]
      opened := opened_ensure.trans hstate.opened
      outline := (outline_ensure _ _ _).trans hstate.outline }
  unfold Collected.addGlobal
  rw [define_eq]
  cases hlocal : state.module.symbols.lookupLocal name.text with
  | none => exact hensured
  | some earlier =>
      have hsame : state.module.symbols.ensure name.text kind name.range = state.module.symbols := by
        simp [ensure, hlocal]
      rw [hsame] at hensured
      exact hensured.report (code_duplicate _ _ _)

/-- A declaration of something else than a value. -/
theorem Of.other {decl : Decl} (hstate : Of module done state) (hdecl : decl.declared = []) :
    Of module (done ++ [decl]) state :=
  { hstate with
    shows := by
      rw [List.flatMap_append, List.flatMap_singleton, hdecl, List.append_nil]
      exact hstate.shows }

theorem Of.addDecl (hstate : Of module done state) (decl : Decl) :
    Of module (done ++ [decl]) (state.addDecl decl) := by
  cases decl with
  | importFile head path pathRange => exact hstate.other rfl
  | node head category name ports behavior => exact (hstate.addNode name _).other rfl
  | tree head name params body => exact (hstate.addNode name _).other rfl
  | opaqueType head name => exact (hstate.addType name _).other rfl
  | typeAlias head name type => exact (hstate.addType name _).other rfl
  | varDecl head name type init => exact hstate.addGlobal rfl
  | constDecl head name type value => exact hstate.addGlobal rfl

theorem Of.foldl (hstate : Of module done state) (decls : List Decl) :
    Of module (done ++ decls) (decls.foldl Collected.addDecl state) := by
  induction decls generalizing done state with
  | nil =>
      rw [List.append_nil]
      exact hstate
  | cons decl rest ih =>
      rw [List.append_cons]
      exact ih (hstate.addDecl decl)

end Collected

/-- The collected module shows the globals of its program. -/
theorem Module.Unnamed.collected {module : Module} (hmodule : module.Unnamed) :
    Collected.Of module module.program.decls module.collected :=
  (Collected.Of.initial hmodule).foldl module.program.decls

end BehaviorTree
