import Mathlib.Data.List.Nodup
import BehaviorTree.Module.Loading
import BehaviorTree.Proofs.Module.Graph
import BehaviorTree.Proofs.Parsing.Accounting

/-!
# Loaded modules

What holds of the modules of a session before their names are looked at, whatever was loaded in it:
each is the program of a text of its own, nothing is known about its names, and what was reported
is about its text or its imports.
-/

namespace BehaviorTree

/-- The codes for imports. -/
def ImportReport.codes : List String :=
  [Code.invalidImportPath, Code.moduleNotFound, Code.importCycle, Code.unreadableSource,
    Code.duplicateImport]

/-- The codes of all that is reported before names are looked at. -/
def Loading.codes : List String :=
  LexicalFault.codes ++ SyntaxReport.codes ++ ImportReport.codes

/-- The module is the program of a text, and nothing is known about its names. -/
structure Module.Unnamed (module : Module) : Prop where
  read : ∃ index text arena, module.program = (Parsed.ofText (.registered index) text arena).program
  symbols : module.symbols = .empty
  types : module.types = .empty
  nodes : module.nodes = .empty
  resolutions : module.resolutions = .empty

namespace Loading

/-- The states that the parser and the loader lead to: entry files are loaded and texts are read for
themselves, one after another in one session. -/
inductive Built : Loading → Prop
  | initial (directory : Path) : Built (.initial directory)
  | loaded {state : Loading} (context : ImportContext) (entry : Path) : Built state →
    Built (loadEntry context entry state).2
  | parsed {state : Loading} (path : Path) (text : String) : Built state →
    Built { state with session := (state.session.parse path text).2 }

/-! ### Steps of loading -/

/-- The programs of the modules. -/
def programs (state : Loading) : List Program := state.graph.modules.map Module.program

section Programs

variable {state : Loading} {path : Path}

theorem programs_enter (hfind : state.graph.find? path = none) (text : String) :
    (state.enter path text).2.programs = state.programs ++ [(state.enter path text).1] := by
  have hinsert : (state.enter path text).2.graph = ⟨state.graph.modules ++
      [{ Module.ofProgram path (state.session.parse path text).1 with state := .resolving }]⟩ :=
    ModuleGraph.insert_of_find? hfind
  rw [programs, hinsert, List.map_append]
  rfl

theorem programs_link (id : Nat) (request : ImportRequest) (target : Nat) :
    (state.link id request target).programs = state.programs := by
  unfold link
  dsimp only
  split
  · rfl
  · exact ModuleGraph.map_modules_modify _ _ fun _ _ => rfl

theorem programs_leave (id errors : Nat) : (state.leave id errors).programs = state.programs :=
  ModuleGraph.map_modules_modify _ _ fun _ _ => rfl

end Programs

/-- A property that each step of loading keeps. What is linked is an import of a program that has
been read, and a duplicate is reported nowhere else. -/
structure Kept (P : Loading → Prop) : Prop where
  report : ∀ {state diagnostic code}, P state → diagnostic.code = some code →
    code ∈ ImportReport.codes → code ≠ Code.duplicateImport → P (state.report diagnostic)
  enter : ∀ {state path} text, P state → state.graph.find? path = none → P (state.enter path text).2
  link : ∀ {state program request} id target, P state → program ∈ state.programs →
    request ∈ program.importRequests → P (state.link id request target)
  leave : ∀ {state} id errors, P state → P (state.leave id errors)

namespace Kept

variable {P : Loading → Prop} {context : ImportContext} {load : Loader} {directory path : Path}
  {request : ImportRequest} {state : Loading} {program : Program} {requests : List ImportRequest}
  {id : Nat}

/-- A program that has been read stays there. -/
theorem holding (h : Kept P) (program : Program) :
    Kept fun state => P state ∧ program ∈ state.programs where
  report := fun hstate hcode hmem hother => ⟨h.report hstate.1 hcode hmem hother, hstate.2⟩
  enter := fun text hstate hfind => by
    refine ⟨h.enter text hstate.1 hfind, ?_⟩
    rw [programs_enter hfind]
    exact List.mem_append_left _ hstate.2
  link := fun id target hstate hprogram hrequest => by
    refine ⟨h.link id target hstate.1 hprogram hrequest, ?_⟩
    rw [programs_link]
    exact hstate.2
  leave := fun id errors hstate => by
    refine ⟨h.leave id errors hstate.1, ?_⟩
    rw [programs_leave]
    exact hstate.2

theorem follow (h : Kept P) (hload : ∀ path state, P state → P (load path state).2)
    (hstate : P state) : P (follow context load directory request state).2 := by
  have hreport : ∀ code {state diagnostic}, P state → diagnostic.code = some code →
      code ∈ ImportReport.codes.erase Code.duplicateImport → P (state.report diagnostic) := by
    intro code state diagnostic hstate hcode hmem
    have hall : ∀ code ∈ ImportReport.codes.erase Code.duplicateImport,
        code ∈ ImportReport.codes ∧ code ≠ Code.duplicateImport := by decide
    exact h.report hstate hcode (hall code hmem).1 (hall code hmem).2
  unfold Loading.follow
  split
  · exact hreport Code.invalidImportPath hstate (ImportReport.code_brokenRule _ _) (by decide)
  · split
    · exact hreport Code.moduleNotFound hstate rfl (by decide)
    · rename_i canonical _
      unfold followTo
      split
      · split
        · exact hreport Code.importCycle hstate rfl (by decide)
        · exact hstate
      · have hloaded := hload canonical state hstate
        split
        · rename_i heq
          rw [heq] at hloaded
          exact hloaded
        · rename_i heq
          rw [heq] at hloaded
          exact hreport Code.unreadableSource hloaded rfl (by decide)

theorem followAll (h : Kept P) (hload : ∀ path state, P state → P (load path state).2)
    (hprogram : ∀ state, P state → program ∈ state.programs)
    (hrequests : ∀ request ∈ requests, request ∈ program.importRequests) (hstate : P state) :
    P (followAll context load id directory requests state) := by
  induction requests generalizing state with
  | nil => exact hstate
  | cons request rest ih =>
      rw [List.forall_mem_cons] at hrequests
      have hfollowed : P (Loading.follow context load directory request state).2 :=
        h.follow hload hstate
      refine ih hrequests.2 ?_
      dsimp only
      split
      · rename_i heq
        rw [heq] at hfollowed
        exact h.link id _ hfollowed (hprogram _ hfollowed) hrequests.1
      · rename_i heq
        rw [heq] at hfollowed
        exact hfollowed

/-- While the imports of a module are followed its program is one of those that have been read. -/
theorem followEntered (h : Kept P)
    (hload : ∀ Q : Loading → Prop, Kept Q → ∀ path state, Q state → Q (load path state).2)
    (hfind : state.graph.find? path = none) (text : String) (hentered : P (state.enter path text).2) :
    P (Loading.followAll context load id directory (state.enter path text).1.importRequests
      (state.enter path text).2) := by
  have hthere : (state.enter path text).1 ∈ (state.enter path text).2.programs := by
    rw [programs_enter hfind]
    exact List.mem_append_right _ (List.mem_singleton_self _)
  have hholding := h.holding (state.enter path text).1
  exact (hholding.followAll (hload _ hholding) (fun _ hstate => hstate.2) (fun _ hmem => hmem)
    ⟨hentered, hthere⟩).1

theorem loadUpTo (h : Kept P) (depth : Nat) (hstate : P state) :
    P (loadUpTo context depth path state).2 := by
  induction depth generalizing P path state with
  | zero => exact hstate
  | succ depth ih =>
      unfold Loading.loadUpTo
      split
      · exact hstate
      · rename_i hfind
        split
        · exact hstate
        · rename_i text _
          exact h.leave _ _ (h.followEntered (fun _ hkept _ _ hstate => ih hkept hstate) hfind text
            (h.enter text hstate hfind))

theorem loadEntry (h : Kept P) (context : ImportContext) (entry : Path) (hstate : P state) :
    P (loadEntry context entry state).2 := by
  have hreport : ∀ {state} error, P state → P (state.report (ImportReport.unreadableEntry error)) :=
    fun error hstate => h.report hstate
      (rfl : (ImportReport.unreadableEntry error).code = some Code.unreadableSource) (by decide) (by decide)
  unfold Loading.loadEntry
  split
  · exact hreport _ hstate
  · rename_i canonical _
    have hloaded : P (load context canonical state).2 := h.loadUpTo _ hstate
    split
    · rename_i heq
      rw [heq] at hloaded
      exact hloaded
    · rename_i heq
      rw [heq] at hloaded
      exact hreport _ hloaded

end Kept

/-! ### Names -/

/-- No name of a module has been looked at yet. -/
structure Unnamed (state : Loading) : Prop where
  modules : ∀ module ∈ state.graph.modules, module.Unnamed
  registered : ∀ module ∈ state.graph.modules,
    ∃ index < state.session.sources.files.length, module.file = .registered index
  apart : (state.graph.modules.map Module.file).Nodup
  codes : ∀ diagnostic ∈ state.session.diagnostics, diagnostic.HasCodeIn codes

variable {state : Loading} {path : Path} {text : String} {diagnostic : Diagnostic} {id : Nat}

theorem unnamed_initial (directory : Path) : (initial directory).Unnamed where
  modules := List.forall_mem_nil _
  registered := List.forall_mem_nil _
  apart := List.nodup_nil
  codes := List.forall_mem_nil _

theorem Unnamed.report (hstate : state.Unnamed) (hcode : diagnostic.HasCodeIn Loading.codes) :
    (state.report diagnostic).Unnamed where
  modules := hstate.modules
  registered := hstate.registered
  apart := hstate.apart
  codes := by
    intro other hother
    rcases List.mem_append.mp hother with hother | hother
    · exact hstate.codes other hother
    · rw [List.mem_singleton.mp hother]
      exact hcode

theorem Unnamed.reportImport (hstate : state.Unnamed) {code : String}
    (hcode : diagnostic.code = some code) (hmem : code ∈ ImportReport.codes) :
    (state.report diagnostic).Unnamed :=
  hstate.report ⟨code, List.mem_append_right _ hmem, hcode⟩

/-- Reading a text adds a file and reports about that text. -/
theorem Unnamed.parse (hstate : state.Unnamed) (path : Path) (text : String) :
    Unnamed { state with session := (state.session.parse path text).2 } where
  modules := hstate.modules
  registered := by
    intro module hmodule
    obtain ⟨index, hindex, hfile⟩ := hstate.registered module hmodule
    exact ⟨index, by simp [Session.parse, Sources.add]; omega, hfile⟩
  apart := hstate.apart
  codes := by
    intro diagnostic hdiagnostic
    rcases List.mem_append.mp hdiagnostic with hold | hnew
    · exact hstate.codes diagnostic hold
    · obtain ⟨code, hcode, heq⟩ := Parsed.ofText_codes _ _ _ diagnostic hnew
      exact ⟨code, List.mem_append_left _ hcode, heq⟩

/-- Entering the module of a text that has just been read. -/
theorem Unnamed.enter (hstate : state.Unnamed) (hfind : state.graph.find? path = none)
    (text : String) : (state.enter path text).2.Unnamed := by
  have hparsed := hstate.parse path text
  have hinsert : (state.enter path text).2.graph = ⟨state.graph.modules ++
      [{ Module.ofProgram path (state.session.parse path text).1 with state := .resolving }]⟩ :=
    ModuleGraph.insert_of_find? hfind
  have hfile : (state.session.parse path text).1.file = state.session.sources.nextId :=
    Parsed.ofText_file _ _ _
  constructor
  case modules =>
    rw [hinsert]
    intro module hmodule
    rcases List.mem_append.mp hmodule with hold | hnew
    · exact hstate.modules module hold
    · rw [List.mem_singleton.mp hnew]
      exact ⟨⟨_, text, _, rfl⟩, rfl, rfl, rfl, rfl⟩
  case registered =>
    rw [hinsert]
    intro module hmodule
    rcases List.mem_append.mp hmodule with hold | hnew
    · exact hparsed.registered module hold
    · rw [List.mem_singleton.mp hnew]
      exact ⟨_, by simp [Loading.enter, Session.parse, Sources.add], hfile⟩
  case apart =>
    rw [hinsert, List.map_append, List.nodup_append]
    refine ⟨hstate.apart, List.nodup_singleton _, ?_⟩
    intro file hold other hnew heq
    obtain ⟨module, hmodule, rfl⟩ := List.mem_map.mp hold
    obtain ⟨index, hindex, hregistered⟩ := hstate.registered module hmodule
    rw [hregistered, List.mem_singleton.mp hnew] at heq
    have hnext := heq.trans hfile
    simp only [Sources.nextId, FileId.registered.injEq] at hnext
    omega
  case codes => exact hparsed.codes

/-- Changing what is recorded of the loading of a module. -/
theorem Unnamed.modify (hstate : state.Unnamed) (change : Module → Module)
    (hchange : ∀ module, (change module).program = module.program ∧
      (module.Unnamed → (change module).Unnamed)) :
    Unnamed { state with graph := state.graph.modify id change } where
  modules := by
    intro module hmodule
    rcases ModuleGraph.mem_modify change hmodule with hold | ⟨known, hknown, rfl⟩
    · exact hstate.modules module hold
    · exact (hchange known).2 (hstate.modules known hknown)
  registered := by
    intro module hmodule
    rcases ModuleGraph.mem_modify change hmodule with hold | ⟨known, hknown, rfl⟩
    · exact hstate.registered module hold
    · unfold Module.file
      rw [(hchange known).1]
      exact hstate.registered known hknown
  apart := by
    rw [ModuleGraph.map_modules_modify]
    · exact hstate.apart
    · exact fun module _ => congrArg Program.file (hchange module).1
  codes := hstate.codes

theorem Unnamed.leave (hstate : state.Unnamed) (errors : Nat) : (state.leave id errors).Unnamed :=
  let outcome := if errors < state.session.errorCount then ModuleState.failed else .resolved
  have hchanged : Unnamed { state with graph := state.graph.setState id outcome } :=
    hstate.modify _ fun _ => ⟨rfl, fun h => ⟨h.read, h.symbols, h.types, h.nodes, h.resolutions⟩⟩
  ⟨hchanged.modules, hchanged.registered, hchanged.apart, hchanged.codes⟩

theorem Unnamed.link (hstate : state.Unnamed) (request : ImportRequest) (target : Nat) :
    (state.link id request target).Unnamed := by
  unfold Loading.link
  dsimp only
  split
  · exact hstate.reportImport (Diagnostic.code_withSecondary _ _ _) (by simp [ImportReport.codes])
  · exact hstate.modify _ fun _ =>
      ⟨rfl, fun h => ⟨h.read, h.symbols, h.types, h.nodes, h.resolutions⟩⟩

theorem kept_unnamed : Kept Unnamed where
  report := fun hstate hcode hmem _ => hstate.reportImport hcode hmem
  enter := fun text hstate hfind => hstate.enter hfind text
  link := fun _ target hstate _ _ => hstate.link _ target
  leave := fun _ errors hstate => hstate.leave errors

/-- **Names are still to be looked at** in all that the parser and the loader build. -/
theorem Built.unnamed (hbuilt : state.Built) : state.Unnamed := by
  induction hbuilt with
  | initial directory => exact unnamed_initial directory
  | loaded context entry _ ih => exact kept_unnamed.loadEntry context entry ih
  | parsed path text _ ih => exact ih.parse path text

end Loading

end BehaviorTree
