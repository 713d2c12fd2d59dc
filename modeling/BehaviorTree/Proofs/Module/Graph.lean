import Mathlib.Logic.Relation
import BehaviorTree.Module.Graph

/-!
# Module graphs

What the operations on a graph do to its modules, when a graph has grown out of another one, and
which modules of a graph lead nowhere but to finished ones.
-/

namespace BehaviorTree

/-- All imports of the module have been followed. -/
def Module.Finished (module : Module) : Prop :=
  module.state = .resolved ∨ module.state = .failed

namespace ModuleGraph

variable {graph earlier middle later : ModuleGraph} {path : Path} {i j id : Nat} {module : Module}

theorem lt_size_of_get? (hmodule : graph.get? i = some module) : i < graph.size :=
  (List.getElem?_eq_some_iff.mp hmodule).1

theorem mem_of_get? (hmodule : graph.get? i = some module) : module ∈ graph.modules :=
  List.mem_of_getElem? hmodule

theorem exists_get?_of_mem (hmodule : module ∈ graph.modules) :
    ∃ i, graph.get? i = some module :=
  List.mem_iff_getElem?.mp hmodule

theorem exists_get?_of_lt (hi : i < graph.size) : ∃ module, graph.get? i = some module :=
  ⟨_, List.getElem?_eq_getElem hi⟩

theorem state_of_get? (hmodule : graph.get? i = some module) : graph.state i = module.state := by
  simp [state, hmodule]

theorem get?_of_find? (hfind : graph.find? path = some i) :
    ∃ module, graph.get? i = some module ∧ module.path.same path = true := by
  have hi := List.findIdx?_eq_some_iff_getElem.mp hfind
  obtain ⟨hlt, hsame, -⟩ := hi
  exact ⟨graph.modules[i], List.getElem?_eq_getElem hlt, hsame⟩

theorem not_same_of_find? (hfind : graph.find? path = none) (hmodule : module ∈ graph.modules) :
    module.path.same path = false :=
  List.findIdx?_eq_none_iff.mp hfind module hmodule

theorem insert_of_find? (hfind : graph.find? module.path = none) :
    graph.insert module = ⟨graph.modules ++ [module]⟩ := by
  simp [insert, hfind]

theorem get?_push : (⟨graph.modules ++ [module]⟩ : ModuleGraph).get? i =
    if i = graph.size then some module else graph.get? i := by
  unfold get? size
  split
  case isTrue hi => simp [hi]
  case isFalse hi =>
    by_cases hlt : i < graph.modules.length
    · exact List.getElem?_append_left hlt
    · rw [List.getElem?_eq_none (by simp; omega), List.getElem?_eq_none (by omega)]

theorem get?_modify (change : Module → Module) :
    (graph.modify id change).get? i =
      if i = id then (graph.get? i).map change else graph.get? i := by
  unfold get? modify
  rw [List.getElem?_modify]
  split <;> split <;> simp_all

theorem get?_modify_of_ne (change : Module → Module) (hi : i ≠ id) :
    (graph.modify id change).get? i = graph.get? i := by
  rw [get?_modify, if_neg hi]

theorem get?_modify_self (change : Module → Module) (hmodule : graph.get? id = some module) :
    (graph.modify id change).get? id = some (change module) := by
  rw [get?_modify, if_pos rfl, hmodule, Option.map_some]

/-- What a change of one module keeps is kept in the whole graph. -/
theorem map_modules_modify {β : Type} (change : Module → Module) (view : Module → β)
    (hview : ∀ module, graph.get? id = some module → view (change module) = view module) :
    (graph.modify id change).modules.map view = graph.modules.map view := by
  apply List.ext_getElem?
  intro i
  have hget : (graph.modify id change).get? i = _ := get?_modify change
  unfold get? at hget hview
  rw [List.getElem?_map, List.getElem?_map, hget]
  split
  case isTrue hi =>
    subst hi
    cases hmodule : graph.modules[i]? with
    | none => rfl
    | some module => exact congrArg some (hview module hmodule)
  case isFalse => rfl

theorem mem_modify (change : Module → Module) (hmodule : module ∈ (graph.modify id change).modules) :
    module ∈ graph.modules ∨ ∃ known ∈ graph.modules, module = change known := by
  obtain ⟨i, hi⟩ := exists_get?_of_mem hmodule
  rw [get?_modify] at hi
  split at hi
  · obtain ⟨known, hknown, rfl⟩ := Option.map_eq_some_iff.mp hi
    exact .inr ⟨known, mem_of_get? hknown, rfl⟩
  · exact .inl (mem_of_get? hi)

/-! ### Growth -/

/-- The later graph has all modules of the earlier one, and the others are finished. -/
structure Grown (earlier later : ModuleGraph) : Prop where
  keeps : ∀ i module, earlier.get? i = some module → later.get? i = some module
  finished : ∀ i module, later.get? i = some module → earlier.size ≤ i → module.Finished

/-- The graph has grown, and a module in it may have got more imports. -/
structure GrownAround (id : Nat) (earlier later : ModuleGraph) : Prop where
  keeps : ∀ i module, i ≠ id → earlier.get? i = some module → later.get? i = some module
  around : ∀ module, earlier.get? id = some module →
    ∃ imports, later.get? id = some { module with imports }
  finished : ∀ i module, later.get? i = some module → earlier.size ≤ i → module.Finished

theorem Grown.refl : Grown graph graph where
  keeps _ _ hmodule := hmodule
  finished i module hmodule hi := by
    have := lt_size_of_get? hmodule
    omega

theorem Grown.around (hgrown : Grown earlier later) : GrownAround id earlier later where
  keeps i module _ hmodule := hgrown.keeps i module hmodule
  around module hmodule := ⟨module.imports, hgrown.keeps id module hmodule⟩
  finished := hgrown.finished

theorem GrownAround.size_le (hgrown : GrownAround id earlier later) :
    earlier.size ≤ later.size := by
  apply Nat.le_of_not_lt
  intro hsize
  obtain ⟨module, hmodule⟩ := exists_get?_of_lt hsize
  have hkept : ∃ module, later.get? later.size = some module := by
    by_cases hi : later.size = id
    · rw [hi] at hmodule ⊢
      obtain ⟨imports, hlater⟩ := hgrown.around module hmodule
      exact ⟨_, hlater⟩
    · exact ⟨module, hgrown.keeps _ module hi hmodule⟩
  obtain ⟨kept, hkept⟩ := hkept
  have := lt_size_of_get? hkept
  omega

theorem GrownAround.trans (hfirst : GrownAround id earlier middle)
    (hsecond : GrownAround id middle later) (hid : id < earlier.size) :
    GrownAround id earlier later where
  keeps i module hi hmodule := hsecond.keeps i module hi (hfirst.keeps i module hi hmodule)
  around module hmodule := by
    obtain ⟨imports, hmiddle⟩ := hfirst.around module hmodule
    obtain ⟨others, hlater⟩ := hsecond.around _ hmiddle
    exact ⟨others, hlater⟩
  finished i module hmodule hi := by
    by_cases hmiddle : middle.size ≤ i
    · exact hsecond.finished i module hmodule hmiddle
    · obtain ⟨old, hold⟩ := exists_get?_of_lt (Nat.lt_of_not_le hmiddle)
      have hkept := hsecond.keeps i old (by omega) hold
      rw [hmodule] at hkept
      cases hkept
      exact hfirst.finished i module hold hi

/-! ### The import relation -/

/-- The module `i` imports the module `j` itself. -/
def Imports (graph : ModuleGraph) (i j : Nat) : Prop :=
  ∃ module, graph.get? i = some module ∧ ∃ edge ∈ module.imports, edge.target = j

theorem imports_iff : graph.Imports i j ↔ j ∈ graph.directImports i := by
  unfold Imports directImports
  cases graph.get? i <;> simp

def FinishedAt (graph : ModuleGraph) (i : Nat) : Prop :=
  ∃ module, graph.get? i = some module ∧ module.Finished

/-- No path of imports goes on forever from the module `i`. -/
def Grounded (graph : ModuleGraph) (i : Nat) : Prop :=
  Acc (fun target importer => graph.Imports importer target) i

/-- What is grounded stays so if the finished modules get no imports and lead to each other. -/
theorem Grounded.of_finished (hgrounded : earlier.Grounded i) (hi : earlier.FinishedAt i)
    (hclosed : ∀ i, earlier.FinishedAt i → ∀ j, later.Imports i j →
      earlier.Imports i j ∧ earlier.FinishedAt j) : later.Grounded i := by
  induction hgrounded with
  | intro i _ ih =>
      constructor
      intro j himports
      obtain ⟨hearlier, hj⟩ := hclosed i hi j himports
      exact ih j hearlier hj

theorem Grounded.acyclic (hgrounded : graph.Grounded i) :
    ¬ Relation.TransGen graph.Imports i i := by
  intro hcycle
  have hacc : Acc (Relation.TransGen fun target importer => graph.Imports importer target) i :=
    hgrounded.transGen
  have hback : Relation.TransGen (fun target importer => graph.Imports importer target) i i :=
    Relation.transGen_swap.mpr hcycle
  induction hacc with
  | intro i _ ih => exact ih i hback hgrounded hcycle hback

end ModuleGraph

end BehaviorTree
