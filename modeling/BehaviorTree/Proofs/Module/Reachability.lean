import Mathlib.Data.List.Perm.Subperm
import BehaviorTree.Module.Loading

/-!
# Reachable files

Which files an entry leads to, told from the file system and the packages alone. A canonical path
has one spelling: this is what the system promises, and all that the loader relies on.
-/

namespace BehaviorTree

namespace FileSystem

/-- The paths that lead to one file lead to the same spelling of its canonical path. -/
def SpellsOnce (system : FileSystem) : Prop :=
  ∀ path other canonical canonical',
    system.canonical path = .ok canonical → system.canonical other = .ok canonical' →
      canonical.same canonical' = true → canonical = canonical'

def Readable (system : FileSystem) (canonical : Path) : Prop :=
  ∃ text, system.contents canonical = .ok text

variable {system : FileSystem} {path : Path}

theorem Readable.components_mem (hreadable : system.Readable path) :
    path.components ∈ system.entries.map fun entry => entry.1.components := by
  obtain ⟨text, hcontents⟩ := hreadable
  have hentry : (system.entries.find? fun entry => entry.1.same path).isSome := by
    apply Option.isSome_iff_ne_none.mpr
    intro hnone
    simp [contents, entry?, hnone] at hcontents
  obtain ⟨entry, hfind⟩ := Option.isSome_iff_exists.mp hentry
  have hsame : entry.1.same path = true := by
    simpa using List.find?_some hfind
  exact List.mem_map.mpr ⟨entry, List.mem_of_find?_eq_some hfind, Path.same_iff.mp hsame⟩

/-- There are no more different readable files than entries. -/
theorem length_le_of_readable {paths : List Path}
    (hdistinct : (paths.map Path.components).Nodup)
    (hreadable : ∀ path ∈ paths, system.Readable path) : paths.length ≤ system.entries.length := by
  have hsubset : paths.map Path.components ⊆
      system.entries.map fun entry => entry.1.components := by
    intro components hcomponents
    obtain ⟨path, hpath, rfl⟩ := List.mem_map.mp hcomponents
    exact (hreadable path hpath).components_mem
  have hlength := (hdistinct.subperm hsubset).length_le
  simpa using hlength

end FileSystem

/-- The paths that the import declarations of a source text give, in the order of the source. -/
def importPaths (text : String) : List String :=
  (Parsed.ofText .detached text .empty).program.importRequests.map ImportRequest.path

namespace ImportContext

/-- In the file `importer` the path `raw` obeys the rules and leads to the file `target`. -/
def Leads (context : ImportContext) (importer : Path) (raw : String) (target : Path) : Prop :=
  ∃ candidate, resolveImportPath context.packages importer.parent raw = .ok candidate ∧
    context.system.canonical candidate = .ok target

/-- The readable files that `entry` leads to by imports, as canonical paths. -/
inductive Reachable (context : ImportContext) (entry : Path) : Path → Prop
  | entry {path : Path} :
      context.system.canonical entry = .ok path → context.system.Readable path →
      Reachable context entry path
  | imported {importer path : Path} {text raw : String} :
      Reachable context entry importer → context.system.contents importer = .ok text →
      raw ∈ importPaths text → context.Leads importer raw path → context.system.Readable path →
      Reachable context entry path

variable {context : ImportContext} {entry path importer : Path} {raw : String}

theorem Leads.unique {target target' : Path} (hleads : context.Leads importer raw target)
    (hleads' : context.Leads importer raw target') : target = target' := by
  obtain ⟨candidate, hrule, hcanonical⟩ := hleads
  obtain ⟨candidate', hrule', hcanonical'⟩ := hleads'
  rw [hrule] at hrule'
  cases hrule'
  rw [hcanonical] at hcanonical'
  cases hcanonical'
  rfl

theorem Reachable.readable (hreachable : Reachable context entry path) :
    context.system.Readable path := by
  cases hreachable with
  | entry _ hreadable => exact hreadable
  | imported _ _ _ _ hreadable => exact hreadable

theorem Reachable.canonical (hreachable : Reachable context entry path) :
    ∃ other, context.system.canonical other = .ok path := by
  cases hreachable with
  | entry hcanonical _ => exact ⟨entry, hcanonical⟩
  | imported _ _ _ hleads _ =>
      obtain ⟨candidate, -, hcanonical⟩ := hleads
      exact ⟨candidate, hcanonical⟩

end ImportContext

end BehaviorTree
