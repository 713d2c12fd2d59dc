import Mathlib.Data.List.Perm.Subperm
import BehaviorTree.Proofs.Module.Graph

/-!
# Dependency order

The order of the modules in which imports come first. A tour is compared with visits that may go
any number of imports deep, and what is open during a visit leads to the module that is visited.
From this follow that the visits end, that they meet each module once, and that an import which does
not lead back comes before its importer.
-/

namespace BehaviorTree

namespace ModuleGraph

/-- All imports lead to modules of the graph. -/
def Closed (graph : ModuleGraph) : Prop := ∀ i j, graph.Imports i j → j < graph.size

/-- The one module leads to the other along any number of imports. -/
def Reaches (graph : ModuleGraph) : Nat → Nat → Prop := Relation.ReflTransGen graph.Imports

/-- The one module stands in front of the other. -/
def Precedes (order : List Nat) (i j : Nat) : Prop := [i, j].Sublist order

/-- Visits of modules one after another: a module that has been met is left alone, and one that is
met for the first time is put behind all that the visits of its imports find. -/
inductive Visits (graph : ModuleGraph) : List Nat → Tour → Tour → Prop
  | done (tour : Tour) : Visits graph [] tour tour
  | again {id : Nat} {rest : List Nat} {tour after : Tour} : id ∈ tour.met →
    Visits graph rest tour after → Visits graph (id :: rest) tour after
  | first {id : Nat} {rest : List Nat} {tour inner after : Tour} : id ∉ tour.met →
    Visits graph (graph.directImports id) { tour with met := id :: tour.met } inner →
    Visits graph rest { inner with order := inner.order ++ [id] } after →
    Visits graph (id :: rest) tour after

variable {graph : ModuleGraph} {id i j depth : Nat} {ids order : List Nat}
  {tour inner after other : Tour}

namespace Visits

/-- There is one way to make the visits. -/
theorem unique (hafter : graph.Visits ids tour after) (hother : graph.Visits ids tour other) :
    after = other := by
  induction hafter generalizing other with
  | done =>
      cases hother
      rfl
  | again hmet _ ih =>
      cases hother with
      | again _ hrest => exact ih hrest
      | first hnew => exact absurd hmet hnew
  | first hnew _ _ ihInner ih =>
      cases hother with
      | again hmet => exact absurd hmet hnew
      | first _ hinner hrest =>
          cases ihInner hinner
          exact ih hrest

theorem met_suffix (hvisits : graph.Visits ids tour after) : tour.met <:+ after.met := by
  induction hvisits with
  | done => exact List.suffix_rfl
  | again _ _ ih => exact ih
  | first _ _ _ ihInner ih => exact ((List.suffix_cons _ _).trans ihInner).trans ih

end Visits

/-! ### The visits end -/

/-- Modules of the graph have been met, each once. -/
structure Tour.Within (graph : ModuleGraph) (tour : Tour) : Prop where
  nodup : tour.met.Nodup
  bounded : ∀ id ∈ tour.met, id < graph.size

namespace Tour.Within

theorem length_le (hwithin : tour.Within graph) : tour.met.length ≤ graph.size := by
  have hsubset : tour.met ⊆ List.range graph.size := by
    intro id hmet
    exact List.mem_range.mpr (hwithin.bounded id hmet)
  calc
    tour.met.length ≤ (List.range graph.size).length := (hwithin.nodup.subperm hsubset).length_le
    _ = graph.size := List.length_range

theorem meet (hwithin : tour.Within graph) (hid : id < graph.size) (hnew : id ∉ tour.met) :
    Within graph { tour with met := id :: tour.met } where
  nodup := List.nodup_cons.mpr ⟨hnew, hwithin.nodup⟩
  bounded := List.forall_mem_cons.mpr ⟨hid, hwithin.bounded⟩

theorem visits (hclosed : graph.Closed) (hvisits : graph.Visits ids tour after)
    (hids : ∀ id ∈ ids, id < graph.size) (hwithin : tour.Within graph) : after.Within graph := by
  induction hvisits with
  | done => exact hwithin
  | again _ _ ih => exact ih (List.forall_mem_cons.mp hids).2 hwithin
  | @first id _ _ _ _ hnew _ _ ihInner ih =>
      obtain ⟨hid, hrest⟩ := List.forall_mem_cons.mp hids
      have himports : ∀ target ∈ graph.directImports id, target < graph.size :=
        fun target htarget => hclosed id target (imports_iff.mpr htarget)
      obtain ⟨hnodup, hbounded⟩ := ihInner himports (hwithin.meet hid hnew)
      exact ih hrest ⟨hnodup, hbounded⟩

end Tour.Within

theorem tourFrom_of_met (hmet : id ∈ tour.met) (depth : Nat) :
    graph.tourFrom depth id tour = tour := by
  cases depth with
  | zero => rfl
  | succ depth => simp [tourFrom, hmet]

theorem tourFrom_of_new (hid : id < graph.size) (hnew : id ∉ tour.met) (depth : Nat) :
    graph.tourFrom (depth + 1) id tour =
      let inner := (graph.directImports id).foldl (fun tour target => graph.tourFrom depth target tour)
        { tour with met := id :: tour.met }
      { inner with order := inner.order ++ [id] } := by
  simp [tourFrom, hnew, Nat.not_le.mpr hid]

/-- A depth of more than the modules that have not been met is as good as any. -/
theorem visits_foldl_tourFrom (hclosed : graph.Closed) (hwithin : tour.Within graph)
    (hids : ∀ id ∈ ids, id < graph.size) (hdepth : graph.size < depth + tour.met.length) :
    graph.Visits ids tour (ids.foldl (fun tour id => graph.tourFrom depth id tour) tour) := by
  induction depth generalizing ids tour with
  | zero =>
      have hlength := hwithin.length_le
      omega
  | succ depth ihDepth =>
      induction ids generalizing tour with
      | nil => exact .done tour
      | cons id rest ih =>
          obtain ⟨hid, hrest⟩ := List.forall_mem_cons.mp hids
          rw [List.foldl_cons]
          by_cases hmet : id ∈ tour.met
          · rw [tourFrom_of_met hmet]
            exact .again hmet (ih hwithin hrest hdepth)
          · have himports : ∀ target ∈ graph.directImports id, target < graph.size :=
              fun target htarget => hclosed id target (imports_iff.mpr htarget)
            have hmeets := hwithin.meet hid hmet
            -- one module more has been met, so one import less is enough
            have hinner := ihDepth hmeets himports (by rw [List.length_cons]; omega)
            have hlonger := hinner.met_suffix.length_le
            obtain ⟨hnodup, hbounded⟩ := hmeets.visits hclosed hinner himports
            rw [tourFrom_of_new hid hmet]
            refine .first hmet hinner (ih ⟨hnodup, hbounded⟩ hrest ?_)
            rw [List.length_cons] at hlonger
            dsimp only
            omega

/-! ### Imports come first -/

/-- The module has been met, and its imports are still being visited. -/
def Tour.Open (tour : Tour) (id : Nat) : Prop := id ∈ tour.met ∧ id ∉ tour.order

/-- What stands in the order has been met and stands there once, behind each of its imports that
does not lead back to it. -/
structure Tour.Sorted (graph : ModuleGraph) (tour : Tour) : Prop where
  met : tour.order ⊆ tour.met
  nodup : tour.order.Nodup
  imports : ∀ i j, i ∈ tour.order → graph.Imports i j → ¬ graph.Reaches j i →
    Precedes tour.order j i

theorem Precedes.append (hprecedes : Precedes order i j) (more : List Nat) :
    Precedes (order ++ more) i j :=
  hprecedes.trans (List.sublist_append_left order more)

theorem precedes_append_singleton (hi : i ∈ order) : Precedes (order ++ [j]) i j :=
  (List.singleton_sublist.mpr hi).append (List.Sublist.refl [j])

namespace Tour.Sorted

theorem meet (hsorted : tour.Sorted graph) (id : Nat) :
    Sorted graph { tour with met := id :: tour.met } where
  met _ hmem := List.mem_cons_of_mem _ (hsorted.met hmem)
  nodup := hsorted.nodup
  imports := hsorted.imports

/-- A module is put at the end once its imports have been met and those of them that are open lead
back to it. -/
theorem close (hsorted : tour.Sorted graph) (hopen : tour.Open id)
    (himports : ∀ j ∈ graph.directImports id, j ∈ tour.met)
    (hback : ∀ j, tour.Open j → graph.Reaches j id) :
    Sorted graph { tour with order := tour.order ++ [id] } where
  met := List.append_subset.mpr ⟨hsorted.met, List.cons_subset.mpr ⟨hopen.1, List.nil_subset _⟩⟩
  nodup := List.nodup_append.mpr ⟨hsorted.nodup, List.nodup_cons.mpr ⟨List.not_mem_nil, List.nodup_nil⟩, by
    intro i hi j hj heq
    rw [heq, List.mem_singleton.mp hj] at hi
    exact hopen.2 hi⟩
  imports := by
    intro i j hi himport hapart
    rcases List.mem_append.mp hi with hold | hnew
    · exact (hsorted.imports i j hold himport hapart).append [id]
    · obtain rfl := List.mem_singleton.mp hnew
      have hmet := himports j (imports_iff.mp himport)
      by_cases hclosed : j ∈ tour.order
      · exact precedes_append_singleton hclosed
      · exact absurd (hback j ⟨hmet, hclosed⟩) hapart

end Tour.Sorted

/-- A module that is met for the first time is open. -/
theorem Tour.open_meet (hunordered : id ∉ tour.order) :
    Open { tour with met := id :: tour.met } i ↔ i = id ∨ tour.Open i := by
  unfold Open
  rw [List.mem_cons]
  constructor
  · rintro ⟨rfl | hmet, horder⟩
    · exact .inl rfl
    · exact .inr ⟨hmet, horder⟩
  · rintro (rfl | ⟨hmet, horder⟩)
    · exact ⟨.inl rfl, hunordered⟩
    · exact ⟨.inr hmet, horder⟩

/-- A module that is put at the end is no longer open. -/
theorem Tour.open_close (hnew : id ∉ tour.met) (hinner : inner.Open i ↔ i = id ∨ tour.Open i) :
    Open { inner with order := inner.order ++ [id] } i ↔ tour.Open i := by
  have hother : tour.Open i → i ≠ id := by
    rintro ⟨hmet, -⟩ rfl
    exact hnew hmet
  simp only [Open, List.mem_append, List.mem_singleton] at hinner hother ⊢
  tauto

/-- Visits leave open what was open before them, and close all else that they meet. What is open
leads to the modules that are visited, so an import of theirs that is open leads back to them. -/
theorem Visits.sorted (hvisits : graph.Visits ids tour after) (hsorted : tour.Sorted graph)
    (hback : ∀ i, tour.Open i → ∀ id ∈ ids, graph.Reaches i id) :
    after.Sorted graph ∧ (∀ i, after.Open i ↔ tour.Open i) ∧ ∀ id ∈ ids, id ∈ after.met := by
  induction hvisits with
  | done => exact ⟨hsorted, fun _ => Iff.rfl, List.forall_mem_nil _⟩
  | again hmet hrest ih =>
      obtain ⟨hsorted, hopen, hmeets⟩ :=
        ih hsorted fun i hi => (List.forall_mem_cons.mp (hback i hi)).2
      exact ⟨hsorted, hopen, List.forall_mem_cons.mpr ⟨hrest.met_suffix.subset hmet, hmeets⟩⟩
  | @first id rest tour inner after hnew _ hrest ihInner ih =>
      have hentered : ∀ i, Tour.Open { tour with met := id :: tour.met } i ↔
          i = id ∨ tour.Open i :=
        fun i => Tour.open_meet fun horder => hnew (hsorted.met horder)
      have hleads : ∀ i, i = id ∨ tour.Open i → graph.Reaches i id := by
        rintro i (rfl | hi)
        · exact .refl
        · exact hback i hi id List.mem_cons_self
      have hinnerBack : ∀ i, Tour.Open { tour with met := id :: tour.met } i →
          ∀ target ∈ graph.directImports id, graph.Reaches i target := by
        intro i hi target htarget
        exact (hleads i ((hentered i).mp hi)).tail (imports_iff.mpr htarget)
      obtain ⟨hsortedInner, hopenInner, himports⟩ := ihInner (hsorted.meet id) hinnerBack
      have hopened : ∀ i, inner.Open i ↔ i = id ∨ tour.Open i :=
        fun i => (hopenInner i).trans (hentered i)
      have hclosed := hsortedInner.close ((hopened id).mpr (.inl rfl)) himports
        fun i hi => hleads i ((hopened i).mp hi)
      have hleft : ∀ i, Tour.Open { inner with order := inner.order ++ [id] } i ↔ tour.Open i :=
        fun i => Tour.open_close hnew (hopened i)
      obtain ⟨hsortedAfter, hopenAfter, hmeets⟩ := ih hclosed fun i hi =>
        (List.forall_mem_cons.mp (hback i ((hleft i).mp hi))).2
      have hmet : id ∈ after.met := hrest.met_suffix.subset ((hopened id).mpr (.inl rfl)).1
      exact ⟨hsortedAfter, fun i => (hopenAfter i).trans (hleft i),
        List.forall_mem_cons.mpr ⟨hmet, hmeets⟩⟩

/-- The modules in the order of their numbers. -/
theorem filterMap_get?_ids (graph : ModuleGraph) : graph.ids.filterMap graph.get? = graph.modules := by
  have hmodules : ∀ (modules : List Module), (List.range modules.length).filterMap (modules[·]?) =
      modules := by
    intro modules
    induction modules with
    | nil => rfl
    | cons module modules ih =>
        rw [List.length_cons, List.range_succ_eq_map, List.filterMap_cons, List.filterMap_map]
        exact congrArg (module :: ·) ih
  exact hmodules graph.modules

/-- **Imports come first.** If all imports of a graph lead to its modules, then visits of all modules
end, however the imports run in circles, and they lead to one order. It has each module once, and a
module stands in front of its importer unless it leads back to it. -/
theorem topologicalOrder_importsFirst (hclosed : graph.Closed) :
    (∃ met, ∀ after, graph.Visits graph.ids ⟨[], []⟩ after ↔ after = ⟨met, graph.topologicalOrder⟩) ∧
    graph.topologicalOrder.Perm graph.ids ∧
    graph.inDependencyOrder.Perm graph.modules ∧
    (∀ i j, graph.Imports i j → ¬ graph.Reaches j i → Precedes graph.topologicalOrder j i) ∧
    ((∀ i, ¬ Relation.TransGen graph.Imports i i) →
      ∀ i j, graph.Imports i j → Precedes graph.topologicalOrder j i) := by
  have hids : ∀ id ∈ graph.ids, id < graph.size := fun id hid => List.mem_range.mp hid
  have hwithin : Tour.Within graph ⟨[], []⟩ := ⟨List.nodup_nil, List.forall_mem_nil _⟩
  have hsorted : Tour.Sorted graph ⟨[], []⟩ := ⟨List.nil_subset _, List.nodup_nil, nofun⟩
  have hdepth : graph.size < graph.size + 1 + (⟨[], []⟩ : Tour).met.length :=
    Nat.lt_succ_self graph.size
  have hvisits := visits_foldl_tourFrom hclosed hwithin hids hdepth
  obtain ⟨hordered, hopen, hmet⟩ := hvisits.sorted hsorted nofun
  have hmem : ∀ id, id ∈ graph.topologicalOrder ↔ id ∈ graph.ids := by
    intro id
    constructor
    · intro horder
      exact List.mem_range.mpr ((hwithin.visits hclosed hvisits hids).bounded id (hordered.met horder))
    · intro hid
      by_contra horder
      cases ((hopen id).mp ⟨hmet id hid, horder⟩).1
  have hperm : graph.topologicalOrder.Perm graph.ids :=
    (List.perm_ext_iff_of_nodup hordered.nodup List.nodup_range).mpr hmem
  have hfirst : ∀ i j, graph.Imports i j → ¬ graph.Reaches j i →
      Precedes graph.topologicalOrder j i := by
    intro i j himport hapart
    have ⟨module, hmodule, _⟩ := himport
    have hi : i ∈ graph.ids := List.mem_range.mpr (lt_size_of_get? hmodule)
    exact hordered.imports i j ((hmem i).mpr hi) himport hapart
  refine ⟨⟨_, fun after => ⟨fun hafter => hafter.unique hvisits, ?_⟩⟩, hperm, ?_, hfirst, ?_⟩
  · rintro rfl
    exact hvisits
  · rw [← graph.filterMap_get?_ids]
    exact hperm.filterMap graph.get?
  · intro hacyclic i j himport
    refine hfirst i j himport fun hreaches => hacyclic i ?_
    exact Relation.TransGen.head' himport hreaches

/-- A module without declarations. -/
def bareModule (path : String) (targets : List Nat) : Module :=
  let program : Program := ⟨.detached, [], [], .none⟩
  { Module.ofProgram ⟨path⟩ program with
    imports := targets.map fun target => ⟨target, path, .none, ⟨0, .none⟩⟩ }

/-- Two modules in a circle, of which the second imports a third one twice. -/
def circleAndLeaf : ModuleGraph :=
  ⟨[bareModule "/a.bt" [1], bareModule "/b.bt" [0, 2, 2], bareModule "/c.bt" []]⟩

theorem imports_circleAndLeaf : circleAndLeaf.Imports i j ↔
    (i, j) ∈ [(0, 1), (1, 0), (1, 2), (1, 2)] := by
  rw [imports_iff]
  match i with
  | 0 | 1 | 2 => simp [directImports, get?, circleAndLeaf, bareModule]
  | i + 3 => simp [directImports, get?, circleAndLeaf]

theorem topologicalOrder_importsFirst_of_circle :
    circleAndLeaf.Closed ∧ circleAndLeaf.Imports 1 2 ∧ ¬ circleAndLeaf.Reaches 2 1 ∧
      circleAndLeaf.topologicalOrder = [2, 1, 0] ∧
      Precedes circleAndLeaf.topologicalOrder 2 1 := by
  have hclosed : circleAndLeaf.Closed := by
    intro i j himport
    have hpair := imports_circleAndLeaf.mp himport
    simp only [List.mem_cons, Prod.mk.injEq, List.not_mem_nil, or_false] at hpair
    have hsize : circleAndLeaf.size = 3 := rfl
    omega
  have himport : circleAndLeaf.Imports 1 2 := imports_circleAndLeaf.mpr (by decide)
  have hleaf : ¬ circleAndLeaf.Reaches 2 1 := by
    intro hreaches
    obtain heq | ⟨j, hnext, -⟩ := Relation.ReflTransGen.cases_head hreaches
    · cases heq
    · have hpair := imports_circleAndLeaf.mp hnext
      simp at hpair
  exact ⟨hclosed, himport, hleaf, by decide,
    (topologicalOrder_importsFirst hclosed).2.2.2.1 1 2 himport hleaf⟩

end ModuleGraph

end BehaviorTree
