import BehaviorTree.Proofs.Lexical.Reports
import BehaviorTree.Proofs.Names.UnusedImports
import BehaviorTree.Proofs.Parsing.CutImports
import BehaviorTree.Proofs.Parsing.Ranges

/-!
# Imports that warnings offer to remove

Main statement: a warning about an unused or a duplicate import offers one edit, which takes an import
of the module out of its text. If nothing was reported on the text then the edit leaves the same
program without that import, and nothing is reported on it, exactly if the import has no
documentation. The range of a declaration starts behind its documentation, so that stays in the text
and goes to the next declaration.
-/

namespace BehaviorTree

/-! ### The warnings -/

/-- The diagnostic is about the import and offers to take its declaration out. -/
structure Diagnostic.Removes (diagnostic : Diagnostic) (request : ImportRequest) : Prop where
  place : request.pathRange.isLocated = true → diagnostic.primaryRange = request.pathRange
  edit : diagnostic.fixIts = [⟨request.decl.range, ""⟩]

theorem NameReport.removes_unusedImport (edge : ImportEdge) :
    (unusedImport edge).Removes edge.request where
  place := primaryRange_unusedImport
  edit := rfl

theorem ImportReport.removes_duplicateImport (request : ImportRequest) (first : SourceRange) :
    (duplicateImport request first).Removes request where
  place := by
    intro hlocated
    show ((Diagnostic.withLabel _ _).withSecondary _ _).primaryRange = _
    rw [Diagnostic.primaryRange_withSecondary, Diagnostic.primaryRange_withLabel]
    simp [Diagnostic.primaryRange, Diagnostic.primaryLabel?, Diagnostic.withCode, Diagnostic.warning,
      Diagnostic.new, hlocated, Label.isPrimary]
  edit := by
    unfold duplicateImport Diagnostic.withSecondary
    split <;> rfl

/-! ### Texts of the modules -/

namespace Loading

variable {state : Loading} {path : Path} {text : String} {diagnostic : Diagnostic} {id : Nat}
  {program : Program}

/-- The programs of a state are those of its texts, and a duplicate import is one in a program. -/
structure Sourced (state : Loading) : Prop where
  texts : ∀ program ∈ state.programs, ∃ index < state.session.sources.files.length, ∃ arena,
    program = (Parsed.ofText (.registered index)
      (state.session.sources.text (.registered index)) arena).program
  duplicates : ∀ diagnostic ∈ state.session.diagnostics,
    diagnostic.code = some Code.duplicateImport → ∃ program ∈ state.programs,
      ∃ request ∈ program.importRequests, diagnostic.Removes request

theorem text_add (sources : Sources) (path : Path) (text : String) {index : Nat}
    (hindex : index < sources.files.length) :
    (sources.add path text).text (.registered index) = sources.text (.registered index) := by
  simp [Sources.text, Sources.chars, Sources.file?, Sources.add, List.getElem?_append_left hindex]

theorem text_nextId (sources : Sources) (path : Path) (text : String) :
    (sources.add path text).text sources.nextId = text := by
  simp [Sources.text, Sources.chars, Sources.file?, Sources.add, Sources.nextId]

theorem Sourced.report (hstate : state.Sourced) (hother : diagnostic.code ≠ some Code.duplicateImport) :
    (state.report diagnostic).Sourced where
  texts := hstate.texts
  duplicates := by
    intro other hmem hcode
    rcases List.mem_append.mp hmem with hold | hnew
    · exact hstate.duplicates other hold hcode
    · rw [List.mem_singleton.mp hnew] at hcode
      exact absurd hcode hother

theorem Sourced.parse (hstate : state.Sourced) (path : Path) (text : String) :
    Sourced { state with session := (state.session.parse path text).2 } where
  texts := by
    intro program hprogram
    obtain ⟨index, hindex, arena, heq⟩ := hstate.texts program hprogram
    refine ⟨index, by simp [Session.parse, Sources.add]; omega, arena, ?_⟩
    rw [heq]
    exact congrArg (fun text => (Parsed.ofText _ text arena).program)
      (text_add _ path text hindex).symm
  duplicates := by
    intro diagnostic hmem hcode
    rcases List.mem_append.mp hmem with hold | hnew
    · exact hstate.duplicates diagnostic hold hcode
    · obtain ⟨code, hsyntax, heq⟩ := Parsed.ofText_codes _ _ _ diagnostic hnew
      have hcodes : Code.duplicateImport ∉ LexicalFault.codes ++ SyntaxReport.codes := by decide
      rw [hcode] at heq
      exact absurd (Option.some.inj heq ▸ hsyntax) hcodes

theorem Sourced.enter (hstate : state.Sourced) (hfind : state.graph.find? path = none)
    (text : String) : (state.enter path text).2.Sourced := by
  have hparsed := hstate.parse path text
  constructor
  case texts =>
    rw [programs_enter hfind]
    intro program hprogram
    rcases List.mem_append.mp hprogram with hold | hnew
    · exact hparsed.texts program hold
    · refine ⟨state.session.sources.files.length, by simp [Loading.enter, Session.parse, Sources.add],
        state.session.arena, ?_⟩
      rw [List.mem_singleton.mp hnew]
      exact congrArg (fun text => (Parsed.ofText _ text _).program)
        (text_nextId _ path text).symm
  case duplicates =>
    intro diagnostic hmem hcode
    obtain ⟨program, hprogram, hrequest⟩ := hparsed.duplicates diagnostic hmem hcode
    rw [programs_enter hfind]
    exact ⟨program, List.mem_append_left _ hprogram, hrequest⟩

theorem Sourced.link {request : ImportRequest} (hstate : state.Sourced) (id target : Nat)
    (hprogram : program ∈ state.programs) (hrequest : request ∈ program.importRequests) :
    (state.link id request target).Sourced where
  texts := by
    rw [programs_link]
    unfold Loading.link
    dsimp only
    split <;> exact hstate.texts
  duplicates := by
    rw [programs_link]
    unfold Loading.link
    dsimp only
    split
    · intro diagnostic hmem hcode
      rcases List.mem_append.mp hmem with hold | hnew
      · exact hstate.duplicates diagnostic hold hcode
      · rw [List.mem_singleton.mp hnew]
        exact ⟨program, hprogram, request, hrequest, ImportReport.removes_duplicateImport _ _⟩
    · exact hstate.duplicates

theorem kept_sourced : Kept Sourced where
  report := fun hstate hcode _ hother =>
    hstate.report (by rw [hcode]; exact fun heq => hother (Option.some.inj heq))
  enter := fun text hstate hfind => hstate.enter hfind text
  link := fun id target hstate hprogram hrequest => hstate.link id target hprogram hrequest
  leave := fun id errors hstate => by
    refine ⟨?_, ?_⟩
    · rw [programs_leave]
      exact hstate.texts
    · rw [programs_leave]
      exact hstate.duplicates

theorem Built.sourced (hbuilt : state.Built) : state.Sourced := by
  induction hbuilt with
  | initial directory => exact ⟨List.forall_mem_nil _, List.forall_mem_nil _⟩
  | loaded context entry _ ih => exact kept_sourced.loadEntry context entry ih
  | parsed path text _ ih => exact ih.parse path text

/-! ### What is reported -/

/-- What is reported is reported on texts and imports, on definitions, or on the names of a module. -/
theorem mem_reported (hmem : diagnostic ∈ state.reported) :
    diagnostic ∈ state.session.diagnostics ∨ diagnostic ∈ state.graph.collectNames.2 ∨
      ∃ id module, state.graph.get? id = some module ∧
        diagnostic ∈ (module.collected.module.withNames state.graph.collectNames.1 id).2 := by
  have hreported : state.reported = state.session.diagnostics ++ (state.graph.collectNames.2 ++
      (state.graph.collectNames.1.modules.mapIdx fun id module =>
        module.withNames state.graph.collectNames.1 id).flatMap Prod.snd) := rfl
  rw [hreported, List.mem_append, List.mem_append] at hmem
  refine hmem.imp_right (Or.imp_right fun hnamed => ?_)
  obtain ⟨entry, hentry, hlooked⟩ := List.mem_flatMap.mp hnamed
  obtain ⟨id, hid, rfl⟩ := List.mem_mapIdx.mp hentry
  have hget := ModuleGraph.get?_collectNames state.graph id
  rw [show state.graph.collectNames.1.get? id = _ from List.getElem?_eq_getElem hid] at hget
  obtain ⟨module, hmodule, heq⟩ := Option.map_eq_some_iff.mp hget.symm
  rw [← heq] at hlooked
  exact ⟨id, module, hmodule, hlooked⟩

/-- A warning that offers to remove an import is about one in a program. -/
theorem Built.removes (hbuilt : state.Built) (hmem : diagnostic ∈ state.reported) {code : String}
    (hcode : diagnostic.code = some code)
    (hoffers : code = Code.unusedImport ∨ code = Code.duplicateImport) :
    ∃ program ∈ state.programs, ∃ request ∈ program.importRequests, diagnostic.Removes request := by
  have hstate := hbuilt.unnamed
  have hother : ∀ {codes : List String}, diagnostic.HasCodeIn codes → code ∈ codes := by
    rintro codes ⟨other, hmem, heq⟩
    rw [hcode] at heq
    exact Option.some.inj heq ▸ hmem
  have hnames : code ∉ Code.duplicateDefinition :: NameReport.useCodes := by
    rcases hoffers with rfl | rfl <;> decide
  rcases mem_reported hmem with hsession | hcollected | ⟨id, module, hmodule, hnamed⟩
  · rcases hoffers with rfl | rfl
    · have hloaded : Code.unusedImport ∉ codes := by decide
      exact absurd (hother (hstate.codes diagnostic hsession)) hloaded
    · exact hbuilt.sourced.duplicates diagnostic hsession hcode
  · exact absurd (hother ⟨_, List.mem_cons_self, hstate.code_collectNames hcollected⟩) hnames
  · have hthere := ModuleGraph.mem_of_get? hmodule
    rcases List.mem_append.mp hnamed with hnaming | hunused
    · exact absurd (hother (Module.code_naming hnaming)) hnames
    · obtain ⟨edge, hedge, rfl⟩ := List.mem_map.mp hunused
      have himported := Module.mem_of_mem_unusedImports hedge
      rw [(hstate.modules module hthere).collected.imports] at himported
      exact ⟨module.program, List.mem_map_of_mem hthere, edge.request,
        (hbuilt.drawsImports module hthere).subset (List.mem_map_of_mem himported),
        NameReport.removes_unusedImport edge⟩

/-- **Removing an import.** A warning about an unused or a duplicate import is about one of the
declarations of a module, and offers to take it out of the text. If nothing is reported on the text,
then what remains is the text of the program without that declaration, with nothing reported on it,
if and only if the declaration has no documentation. -/
theorem reported_removes (hbuilt : state.Built) (hmem : diagnostic ∈ state.reported)
    (hoffers : diagnostic.code = some Code.unusedImport ∨
      diagnostic.code = some Code.duplicateImport) :
    ∃ module ∈ state.graph.modules, ∃ position head path fix,
      module.program.decls[position]? = some (.importFile head path diagnostic.primaryRange) ∧
      diagnostic.fixIts = [fix] ∧ fix.range.file = module.file ∧ fix.replacement = "" ∧
      ∀ file arena, (Parsed.ofText file (state.session.sources.text module.file) arena).diagnostics = [] →
        module.program.IsReadFrom (state.session.sources.text module.file) ∧
          ((module.program.without position).IsReadFrom
              (fix.carriedOut (state.session.sources.text module.file)) ↔ head.docs = []) := by
  obtain ⟨program, hprogram, request, hrequest, hremoves⟩ :
      ∃ program ∈ state.programs, ∃ request ∈ program.importRequests, diagnostic.Removes request := by
    rcases hoffers with hcode | hcode
    · exact hbuilt.removes hmem hcode (.inl rfl)
    · exact hbuilt.removes hmem hcode (.inr rfl)
  obtain ⟨index, -, arena, hread⟩ := hbuilt.sourced.texts program hprogram
  obtain ⟨module, hmodule, rfl⟩ := List.mem_map.mp hprogram
  have hfile : module.file = .registered index := by
    rw [Module.file, hread, Parsed.ofText_file]
  rw [← hfile] at hread
  obtain ⟨decl, hdecl, hasks⟩ := List.mem_filterMap.mp hrequest
  obtain ⟨position, hposition⟩ := List.mem_iff_getElem?.mp hdecl
  cases decl with
  | importFile head path range =>
      obtain rfl := Option.some.inj hasks
      have hplace : diagnostic.primaryRange = range := by
        have hrange : range ∈ pathRanges module.program.decls := List.mem_map_of_mem hrequest
        rw [hread] at hrange
        refine hremoves.place ?_
        rw [SourceRange.isLocated, Parsed.ofText_pathRange_file _ _ _ hrange, hfile]
        rfl
      refine ⟨module, hmodule, position, head, path, _, hplace ▸ hposition, hremoves.edit, ?_, rfl,
        fun file arena' hsilent => ⟨?_, ?_⟩⟩
      · rw [hread] at hdecl
        have hplaced := (Parsed.ofText_usable module.file ⟨""⟩ _ arena).2.1 _ (.decl hdecl)
        exact (hplaced.ranges head.origin.range (by simp [SyntaxNode.ownRanges, Decl.ownRanges])).file_eq
      · rw [hread]
        exact Parsed.isReadFrom_of_silent hsilent _ _
      · rw [hread] at hposition ⊢
        have hhere := (Parsed.isReadFrom_of_silent hsilent module.file arena module.file arena).1
        exact Parsed.ofText_cut hhere hposition
  | _ => cases hasks

theorem reported_removes_of_secondIdle :
    let state := (loadEntry secondIdle ⟨"main.bt"⟩ (.initial ⟨"/"⟩)).2
    ∃ diagnostic ∈ state.reported, state.Built ∧ diagnostic.code = some Code.unusedImport ∧
      ∃ module ∈ state.graph.modules, ∃ position head path fix,
        module.program.decls[position]? = some (.importFile head path diagnostic.primaryRange) ∧
        diagnostic.fixIts = [fix] ∧
        (module.program.without position).IsReadFrom
          (fix.carriedOut (state.session.sources.text module.file)) := by
  intro state
  have hbuilt : state.Built := .loaded secondIdle ⟨"main.bt"⟩ (.initial ⟨"/"⟩)
  obtain ⟨diagnostic, hmem, hcode⟩ : ∃ diagnostic ∈ state.reported,
      diagnostic.code = some Code.unusedImport := by decide +kernel
  have hplain : ∀ module ∈ state.graph.modules,
      (Parsed.ofText module.file (state.session.sources.text module.file) .empty).diagnostics = [] ∧
        ∀ decl ∈ module.program.decls, decl.head.docs = [] := by decide +kernel
  obtain ⟨module, hmodule, position, head, path, fix, hdecl, hfix, -, -, hremoves⟩ :=
    reported_removes hbuilt hmem (.inl hcode)
  obtain ⟨hsilent, hdocs⟩ := hplain module hmodule
  exact ⟨diagnostic, hmem, hbuilt, hcode, module, hmodule, position, head, path, fix, hdecl, hfix,
    (hremoves _ _ hsilent).2.mpr (hdocs _ (List.mem_of_getElem? hdecl))⟩

/-- An import that nothing is used from, with documentation of its own. -/
def describedIdle : ImportContext := ⟨rootFiles [
  ("main.bt", "/// about\nimport \"./dep.bt\";\nvar x: int32;"), ("dep.bt", "extern action Ping();")],
  .empty⟩

/-- The documentation of an import that is taken out goes to the declaration behind it. -/
theorem removed_import_leaves_docs :
    let state := (loadEntry describedIdle ⟨"main.bt"⟩ (.initial ⟨"/"⟩)).2
    let text := "/// about\nimport \"./dep.bt\";\nvar x: int32;"
    let read (text : String) := (Parsed.ofText (.registered 0) text .empty).program
    let docs (program : Program) := program.decls.map (·.head.docs)
    state.session.sources.text (.registered 0) = text ∧
      (Parsed.ofText (.registered 0) text .empty).diagnostics = [] ∧
      ∃ diagnostic ∈ state.reported, ∃ fix, diagnostic.code = some Code.unusedImport ∧
        diagnostic.fixIts = [fix] ∧ fix.carriedOut text = "/// about\n\nvar x: int32;" ∧
        docs (read text) = [["about"], []] ∧ docs (read (fix.carriedOut text)) = [["about"]] ∧
        ¬((read text).without 0).IsReadFrom (fix.carriedOut text) := by
  intro state text read docs
  let fix : FixIt := ⟨⟨.registered 0, 10, 28⟩, ""⟩
  obtain ⟨diagnostic, hmem, hcode, hfix⟩ : ∃ diagnostic ∈ state.reported,
      diagnostic.code = some Code.unusedImport ∧ diagnostic.fixIts = [fix] := by decide +kernel
  have hleft : fix.carriedOut text = "/// about\n\nvar x: int32;" := by decide +kernel
  have hafter : docs (read (fix.carriedOut text)) = [["about"]] := by
    rw [hleft]
    decide +kernel
  have hbefore : docs (read text) = [["about"], []] := by decide +kernel
  refine ⟨by decide +kernel, by decide +kernel, diagnostic, hmem, fix, hcode, hfix, hleft, hbefore,
    hafter, fun hread => ?_⟩
  have hshape : ∀ program : Program, docs program.shape = docs program := by
    intro program
    simp [docs, Program.shape, Function.comp_def, DeclHead.shape]
  have hsame : docs (read (fix.carriedOut text)) = docs ((read text).without 0) := by
    rw [← hshape, (hread _ _).2, hshape]
  have hwithout : docs ((read text).without 0) = [[]] := by decide +kernel
  rw [hafter, hwithout] at hsame
  cases hsame

end Loading

end BehaviorTree
