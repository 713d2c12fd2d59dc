import BehaviorTree.Proofs.Module.Built
import BehaviorTree.Proofs.Module.LoadingRun
import BehaviorTree.Proofs.Parsing.ImportPaths

/-!
# Drawn imports

The imports that the loader records for a module are drawn from its program: each is made from a
declaration of its own, in the order of the source. So they stand at different places of the text.
-/

namespace BehaviorTree

/-- The import that an edge comes from. -/
def ImportEdge.request (edge : ImportEdge) : ImportRequest :=
  ⟨edge.path, edge.pathRange, edge.decl⟩

/-- The edges of the module come from imports of its program, in the order of the source. -/
def Module.DrawsImports (module : Module) : Prop :=
  (module.imports.map ImportEdge.request).Sublist module.program.importRequests

namespace ModuleGraph

/-- The modules of a graph and behind them others that draw their imports from their programs. -/
def Adds (before after : ModuleGraph) : Prop :=
  ∃ added, after.modules = before.modules ++ added ∧ ∀ module ∈ added, module.DrawsImports

variable {before middle after : ModuleGraph}

theorem Adds.refl (graph : ModuleGraph) : graph.Adds graph :=
  ⟨[], (List.append_nil _).symm, List.forall_mem_nil _⟩

/-- Changing a module that others stand behind. -/
theorem modify_middle (front added : List Module) (module : Module) (change : Module → Module) :
    (⟨front ++ module :: added⟩ : ModuleGraph).modify front.length change =
      ⟨front ++ change module :: added⟩ := by
  simp [modify, List.modify_eq_set_getElem?]

theorem get?_middle (front added : List Module) (module : Module) :
    (⟨front ++ module :: added⟩ : ModuleGraph).get? front.length = some module := by
  simp [get?]

end ModuleGraph

namespace Loading

/-- A loader that leaves the modules as they are and adds some. -/
def OnlyAdds (load : Loader) : Prop :=
  ∀ path (state : Loading), state.graph.Adds (load path state).2.graph

variable {context : ImportContext} {load : Loader} {directory : Path} {state : Loading}
  {front added : List Module} {module : Module} {done requests : List ImportRequest}

theorem adds_follow (hload : OnlyAdds load) (request : ImportRequest) (state : Loading) :
    state.graph.Adds (follow context load directory request state).2.graph := by
  unfold follow
  split
  · exact .refl _
  · split
    · exact .refl _
    · rename_i canonical _
      unfold followTo
      split
      · split
        · exact .refl _
        · exact .refl _
      · have hadds := hload canonical state
        split
        · rename_i heq
          rw [heq] at hadds
          exact hadds
        · rename_i heq
          rw [heq] at hadds
          exact hadds

/-- The module behind some others has drawn its imports from those that are done. -/
def Drawing (front : List Module) (module : Module) (done : List ImportRequest) (state : Loading) :
    Prop :=
  ∃ imports added, state.graph = ⟨front ++ { module with imports } :: added⟩ ∧
    (imports.map ImportEdge.request).Sublist done ∧ ∀ other ∈ added, other.DrawsImports

theorem Drawing.skip (hdrawing : Drawing front module done state) (request : ImportRequest) :
    Drawing front module (done ++ [request]) state := by
  obtain ⟨imports, added, hgraph, hdrawn, hadded⟩ := hdrawing
  exact ⟨imports, added, hgraph, hdrawn.trans (List.sublist_append_left _ _), hadded⟩

theorem Drawing.adds (hdrawing : Drawing front module done state) {later : Loading}
    (hadds : state.graph.Adds later.graph) : Drawing front module done later := by
  obtain ⟨imports, added, hgraph, hdrawn, hadded⟩ := hdrawing
  obtain ⟨more, hmodules, hmore⟩ := hadds
  refine ⟨imports, added ++ more, ?_, hdrawn, List.forall_mem_append.mpr ⟨hadded, hmore⟩⟩
  rw [hgraph] at hmodules
  exact congrArg ModuleGraph.mk (hmodules.trans (by simp))

/-- The import that is linked is the next one to draw. -/
theorem Drawing.link (hdrawing : Drawing front module done state) (request : ImportRequest)
    (target : Nat) :
    Drawing front module (done ++ [request]) (state.link front.length request target) := by
  have hskipped := hdrawing.skip request
  obtain ⟨imports, added, hgraph, hdrawn, hadded⟩ := hdrawing
  have hhere : state.graph.get? front.length = some { module with imports } := by
    rw [hgraph]
    exact ModuleGraph.get?_middle _ _ _
  by_cases hknown : ∃ edge ∈ imports, edge.target = target
  · obtain ⟨first, -, -, hlink⟩ := link_of_known request hhere hknown
    rw [hlink]
    exact hskipped
  · have hfresh : ∀ edge ∈ imports, edge.target ≠ target :=
      fun edge hedge heq => hknown ⟨edge, hedge, heq⟩
    rw [link_of_fresh hhere hfresh, hgraph]
    refine ⟨imports ++ [⟨target, request.path, request.pathRange, request.decl⟩], added, ?_, ?_,
      hadded⟩
    · exact ModuleGraph.modify_middle _ _ _ _
    · rw [List.map_append]
      exact hdrawn.append_right _

theorem Drawing.followAll (hload : OnlyAdds load) (requests : List ImportRequest)
    (hdrawing : Drawing front module done state) :
    Drawing front module (done ++ requests)
      (followAll context load front.length directory requests state) := by
  induction requests generalizing state done with
  | nil =>
      rw [List.append_nil]
      exact hdrawing
  | cons request rest ih =>
      have hfollowed : Drawing front module done
          (Loading.follow context load directory request state).2 :=
        hdrawing.adds (adds_follow hload request state)
      rw [List.append_cons]
      refine ih ?_
      dsimp only
      split
      · rename_i heq
        rw [heq] at hfollowed
        exact hfollowed.link request _
      · rename_i heq
        rw [heq] at hfollowed
        exact hfollowed.skip request

/-- When all imports of the program are done, the module is one more that was added. -/
theorem Drawing.leave (hdrawing : Drawing front module module.program.importRequests state)
    (errors : Nat) : (⟨front⟩ : ModuleGraph).Adds (state.leave front.length errors).graph := by
  obtain ⟨imports, added, hgraph, hdrawn, hadded⟩ := hdrawing
  let outcome := if errors < state.session.errorCount then ModuleState.failed else .resolved
  refine ⟨{ module with imports, state := outcome } :: added, ?_,
    List.forall_mem_cons.mpr ⟨hdrawn, hadded⟩⟩
  show (state.graph.setState front.length outcome).modules = _
  rw [hgraph, ModuleGraph.setState, ModuleGraph.modify_middle]

theorem onlyAdds_loadUpTo (depth : Nat) : OnlyAdds (loadUpTo context depth) := by
  induction depth with
  | zero => exact fun path state => .refl _
  | succ depth ih =>
      intro path state
      unfold loadUpTo
      split
      · exact .refl _
      · rename_i hfind
        split
        · exact .refl _
        · rename_i text _
          have hentered : (state.enter path text).2.graph = ⟨state.graph.modules ++
              [{ Module.ofProgram path (state.session.parse path text).1 with state := .resolving }]⟩ :=
            ModuleGraph.insert_of_find? hfind
          have hstart : Drawing state.graph.modules
              { Module.ofProgram path (state.session.parse path text).1 with state := .resolving } []
              (state.enter path text).2 :=
            ⟨[], [], hentered, List.Sublist.slnil, List.forall_mem_nil _⟩
          exact (hstart.followAll ih _).leave _

theorem adds_loadEntry (context : ImportContext) (entry : Path) (state : Loading) :
    state.graph.Adds (loadEntry context entry state).2.graph := by
  unfold loadEntry
  split
  · exact .refl _
  · rename_i canonical _
    have hadds : state.graph.Adds (load context canonical state).2.graph :=
      onlyAdds_loadUpTo _ canonical state
    split
    · rename_i heq
      rw [heq] at hadds
      exact hadds
    · rename_i heq
      rw [heq] at hadds
      exact hadds

/-- **Imports are drawn from programs** in all that the loader builds. -/
theorem Built.drawsImports (hbuilt : state.Built) :
    ∀ module ∈ state.graph.modules, module.DrawsImports := by
  induction hbuilt with
  | initial directory => exact List.forall_mem_nil _
  | @loaded state context entry _ ih =>
      obtain ⟨added, hmodules, hadded⟩ := adds_loadEntry context entry state
      rw [hmodules]
      exact List.forall_mem_append.mpr ⟨ih, hadded⟩
  | parsed path text _ ih => exact ih

end Loading

/-! ### Places of edges -/

namespace Module.DrawsImports

variable {module : Module}

theorem pathRanges_sublist (hdraws : module.DrawsImports) :
    (module.imports.map ImportEdge.pathRange).Sublist (pathRanges module.program.decls) := by
  have hrequests := hdraws.map ImportRequest.pathRange
  rw [List.map_map] at hrequests
  exact hrequests

/-- The edges of a module are told apart by their places. -/
theorem pathRanges_nodup (hdraws : module.DrawsImports) (hmodule : module.Unnamed) :
    (module.imports.map ImportEdge.pathRange).Nodup := by
  obtain ⟨index, text, arena, hprogram⟩ := hmodule.read
  refine hdraws.pathRanges_sublist.nodup ?_
  rw [hprogram]
  exact Parsed.ofText_pathRanges_nodup _ _ _

/-- They stand in the text of the module. -/
theorem pathRange_file (hdraws : module.DrawsImports) (hmodule : module.Unnamed) {edge : ImportEdge}
    (hedge : edge ∈ module.imports) :
    edge.pathRange.file = module.file ∧ edge.pathRange.isLocated = true := by
  obtain ⟨index, text, arena, hprogram⟩ := hmodule.read
  have hrange := hdraws.pathRanges_sublist.subset (List.mem_map_of_mem hedge)
  rw [hprogram] at hrange
  have hfile := Parsed.ofText_pathRange_file _ text arena hrange
  constructor
  · rw [hfile, Module.file, hprogram, Parsed.ofText_file]
  · rw [SourceRange.isLocated, hfile]
    rfl

end Module.DrawsImports

end BehaviorTree
