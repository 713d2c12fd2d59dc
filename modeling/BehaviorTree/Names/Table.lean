/-!
Tables of named entries in the order of definition. A name is defined once: a second definition
fails with the entry that stands, and an entry keeps its index.
-/

namespace BehaviorTree

structure Table (α : Type) where
  entries : List (String × α)

namespace Table

def empty {α : Type} : Table α := ⟨[]⟩

def size {α : Type} (table : Table α) : Nat := table.entries.length

def names {α : Type} (table : Table α) : List String := table.entries.map Prod.fst

/-- The name and the entry at an index. -/
def get? {α : Type} (table : Table α) (index : Nat) : Option (String × α) := table.entries[index]?

def indexOf? {α : Type} (table : Table α) (name : String) : Option Nat :=
  table.entries.findIdx? fun entry => entry.1 == name

def find? {α : Type} (table : Table α) (name : String) : Option α :=
  (table.entries.find? fun entry => entry.1 == name).map Prod.snd

def contains {α : Type} (table : Table α) (name : String) : Bool := (table.indexOf? name).isSome

/-- Adds an entry at the end. -/
def add {α : Type} (table : Table α) (name : String) (entry : α) : Table α :=
  ⟨table.entries ++ [(name, entry)]⟩

/-- Adds an entry at the end, or fails with the entry that has the name already. -/
def define {α : Type} (table : Table α) (name : String) (entry : α) : Except α (Table α) :=
  match table.find? name with
  | some earlier => .error earlier
  | none => .ok (table.add name entry)

@[simp]
theorem names_add {α : Type} (table : Table α) (name : String) (entry : α) :
    (table.add name entry).names = table.names ++ [name] := by
  simp [names, add]

theorem find?_isSome_iff {α : Type} {table : Table α} {name : String} :
    (table.find? name).isSome = true ↔ name ∈ table.names := by
  simp [find?, names]

end Table

end BehaviorTree
