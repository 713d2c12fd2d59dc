import Mathlib.Data.List.Induction
import BehaviorTree.Compilation
import BehaviorTree.Proofs.FileSystem.Components

/-!
# The rules for import paths

The rules are asked one after the other: a path that is not empty, not absolute and has an extension
leads on from the directory of the importing file or from that of a package, and what it leads to
lies below that directory as far as the components tell.
-/

namespace BehaviorTree

variable {registrations : List (String × Path)} {directory : Path} {raw : String}

/-! ## Packages that are registered -/

/-- The directory that was registered last for a package. -/
def latestDirectory? (registrations : List (String × Path)) (name : String) : Option Path :=
  (registrations.reverse.find? fun registration => registration.1 == name).map Prod.snd

theorem latestDirectory?_isSome_iff {name : String} :
    (latestDirectory? registrations name).isSome = true ↔ name ∈ registrations.map Prod.fst := by
  simp [latestDirectory?]

theorem Table.find?_cons {α : Type} (entry : String × α) (entries : List (String × α))
    (name : String) :
    Table.find? ⟨entry :: entries⟩ name =
      if entry.1 = name then some entry.2 else Table.find? ⟨entries⟩ name := by
  by_cases hname : entry.1 = name <;> simp [Table.find?, hname]

theorem Table.contains_eq {α : Type} (table : Table α) (name : String) :
    table.contains name = (table.find? name).isSome := by
  rw [contains, indexOf?, find?, List.findIdx?_isSome, Option.isSome_map, Bool.eq_iff_iff]
  simp

namespace Packages

theorem find?_replaced (entries : List (String × Path)) (registered : String) (directory : Path)
    (name : String) :
    Table.find? ⟨entries.map fun entry =>
        if entry.1 == registered then (registered, directory) else entry⟩ name =
      if registered = name then (Table.find? ⟨entries⟩ name).map fun _ => directory
      else Table.find? ⟨entries⟩ name := by
  induction entries with
  | nil => simp [Table.find?]
  | cons entry entries ih =>
      rw [List.map_cons, Table.find?_cons, Table.find?_cons, ih]
      by_cases hentry : entry.1 = registered
      · by_cases hname : registered = name <;> simp [hentry, hname]
      · by_cases hname : registered = name
        · simp [hname, hname ▸ hentry]
        · simp [hentry, hname]

/-- A registration says where its own package lies, and nothing on the others. -/
theorem find?_register (packages : Packages) (registered : String) (directory : Path)
    (name : String) :
    (packages.register registered directory).find? name =
      if registered = name then some directory else packages.find? name := by
  unfold register
  split
  case isTrue hknown =>
    rw [find?_replaced]
    split
    case isTrue hname =>
      subst hname
      obtain ⟨earlier, hearlier⟩ := Option.isSome_iff_exists.mp
        ((Table.contains_eq packages registered).symm.trans hknown)
      simp [hearlier]
    case isFalse => rfl
  case isFalse hknown =>
    rw [Table.contains_eq, Option.not_isSome_iff_eq_none] at hknown
    simp only [Table.find?, Option.map_eq_none_iff] at hknown
    by_cases hname : registered = name
    · subst hname
      simp [Table.find?, Table.add, List.find?_append, hknown]
    · simp [Table.find?, Table.add, List.find?_append, hname]

end Packages

/-- A package lies in the directory that it was registered with last. -/
theorem CompileOptions.find?_registered (options : CompileOptions) (name : String) :
    options.registered.find? name = latestDirectory? options.packages name := by
  rw [registered, latestDirectory?]
  induction options.packages using List.reverseRecOn with
  | nil => rfl
  | append_singleton earlier last ih =>
      rw [List.foldl_append, List.foldl_cons, List.foldl_nil, Packages.find?_register, ih,
        List.reverse_append]
      by_cases hname : last.1 = name <;> simp [hname]

/-! ## The rules -/

/-- The last component of a path is missing, is `..`, or has no dot behind its first character. -/
def Path.LacksExtension (path : Path) : Prop :=
  ∀ last ∈ path.components.getLast?, last = .parent ∨ '.' ∉ last.text.tail

/-- The first component of a path is neither `.` nor `..` nor the name of a registered package. -/
def Path.LeadsNowhere (registrations : List (String × Path)) (path : Path) : Prop :=
  ∀ first ∈ path.components.head?,
    first ≠ .current ∧ first ≠ .parent ∧ String.ofList first.text ∉ registrations.map Prod.fst

/-- What the rules make of the import path `raw` in a file of `directory`. -/
structure FollowsRules (registrations : List (String × Path)) (directory : Path) (raw : String)
    (answer : Except ImportPathError Path) : Prop where
  empty : answer = .error .empty ↔ raw = ""
  absolute : answer = .error (.absolute raw) ↔ raw ≠ "" ∧ raw.toList.head? = some '/'
  missingExtension : answer = .error (.missingExtension raw) ↔
    raw ≠ "" ∧ raw.toList.head? ≠ some '/' ∧ Path.LacksExtension ⟨raw⟩
  notRelative :
    (∃ first ∈ (Path.mk raw).components.head?,
      answer = .error (.notRelative raw (String.ofList first.text))) ↔
    raw ≠ "" ∧ raw.toList.head? ≠ some '/' ∧ ¬Path.LacksExtension ⟨raw⟩ ∧
      Path.LeadsNowhere registrations ⟨raw⟩
  accepted : (∃ found, answer = .ok found) ↔
    raw ≠ "" ∧ raw.toList.head? ≠ some '/' ∧ ¬Path.LacksExtension ⟨raw⟩ ∧
      ¬Path.LeadsNowhere registrations ⟨raw⟩
  /-- Behind `.` and `..` the path leads on from the directory of the importing file. -/
  fromImporter : ∀ found, answer = .ok found → ∀ first ∈ (Path.mk raw).components.head?,
    first = .current ∨ first = .parent →
      found = directory.join ⟨raw⟩ ∧ directory.components <+: found.components
  /-- Behind the name of a package its other components lead on from the directory that was
  registered last for the package. -/
  fromPackage : ∀ found, answer = .ok found → ∀ first ∈ (Path.mk raw).components.head?,
    first ≠ .current → first ≠ .parent →
      ∃ base rest, latestDirectory? registrations (String.ofList first.text) = some base ∧
        found = base.join rest ∧ rest.components = (Path.mk raw).components.tail ∧
        found.components = base.components ++ rest.components ∧
        base.components <+: found.components
  /-- The first component of a path that gets past the other rules is one that a rule is about. -/
  handled : raw ≠ "" → raw.toList.head? ≠ some '/' → ¬Path.LacksExtension ⟨raw⟩ →
    ∃ first ∈ (Path.mk raw).components.head?,
      first = .current ∨ first = .parent ∨ ∃ name, first = .normal name

variable {packages : Packages}

/-- A path that breaks none of the first three rules is judged by its first component. -/
theorem resolveImportPath_eq (packages : Packages) (directory : Path) (hne : raw ≠ "")
    (hrelative : raw.toList.head? ≠ some '/')
    (hextension : ¬Path.LacksExtension ⟨raw⟩) {first : Path.Component} {others : List Path.Component}
    (hcomponents : (Path.mk raw).components = first :: others) :
    resolveImportPath packages directory raw =
      match first with
      | .current | .parent => .ok (directory.join ⟨raw⟩)
      | .normal name =>
        match packages.find? (String.ofList name) with
        | some base => .ok (base.join (Path.mk raw).afterFirst)
        | none => .error (.notRelative raw (String.ofList name))
      | .root => .error (.absolute raw) := by
  have habsolute : (Path.mk raw).isAbsolute = false := by simpa [Path.isAbsolute] using hrelative
  have hsome : (Path.mk raw).extension?.isNone = false := by
    rw [Bool.eq_false_iff, ne_eq, Path.extension?_isNone_iff]
    exact hextension
  rw [resolveImportPath]
  simp only [String.isEmpty_iff, hne, if_false, habsolute, hsome, hcomponents, Bool.false_eq_true]
  cases first <;> rfl

theorem resolveImportPath_eq_missingExtension_iff :
    resolveImportPath packages directory raw = .error (.missingExtension raw) ↔
      raw ≠ "" ∧ raw.toList.head? ≠ some '/' ∧ Path.LacksExtension ⟨raw⟩ := by
  by_cases hempty : raw = ""
  · simp [resolveImportPath, hempty]
  by_cases hslash : raw.toList.head? = some '/'
  · simp [resolveImportPath, hempty, Path.isAbsolute, hslash]
  by_cases hextension : Path.LacksExtension ⟨raw⟩
  · simp [resolveImportPath, hempty, Path.isAbsolute, hslash, hextension,
      (Path.extension?_isNone_iff ⟨raw⟩).mpr hextension]
  · have hrelative : (Path.mk raw).isAbsolute = false := by simpa [Path.isAbsolute] using hslash
    obtain ⟨first, others, hcomponents, -⟩ := Path.head_components_of_relative hempty hrelative
    rw [resolveImportPath_eq _ _ hempty hslash hextension hcomponents]
    simp only [hextension, and_false, iff_false]
    repeat' split
    all_goals simp

/-- **Import paths are told apart by the rules and stay below their base.** -/
theorem resolveImportPath_followsRules (options : CompileOptions) (directory : Path) (raw : String) :
    FollowsRules options.packages directory raw
      (resolveImportPath options.registered directory raw) := by
  by_cases hempty : raw = ""
  · subst hempty
    have hanswer : resolveImportPath options.registered directory "" = .error .empty := by
      simp [resolveImportPath]
    constructor <;> simp [hanswer]
  by_cases hslash : raw.toList.head? = some '/'
  · have hanswer : resolveImportPath options.registered directory raw = .error (.absolute raw) := by
      simp [resolveImportPath, hempty, Path.isAbsolute, hslash]
    constructor <;> simp [hanswer, hempty, hslash]
  have habsolute : (Path.mk raw).isAbsolute = false := by simpa [Path.isAbsolute] using hslash
  by_cases hextension : Path.LacksExtension ⟨raw⟩
  · have hanswer : resolveImportPath options.registered directory raw =
        .error (.missingExtension raw) :=
      resolveImportPath_eq_missingExtension_iff.mpr ⟨hempty, hslash, hextension⟩
    constructor <;> simp [hanswer, hempty, hslash, hextension]
  obtain ⟨first, others, hcomponents, hroot⟩ :=
    Path.head_components_of_relative hempty habsolute
  have hanswer := resolveImportPath_eq options.registered directory
    hempty hslash hextension hcomponents
  cases first with
  | root => exact absurd rfl hroot
  | current | parent =>
      have hprefix : directory.components <+: (directory.join ⟨raw⟩).components :=
        Path.prefix_components_join habsolute
      constructor <;> simp [hanswer, hempty, hslash, hextension, hcomponents, Path.LeadsNowhere,
        hprefix]
  | normal name =>
      dsimp only at hanswer
      rw [options.find?_registered] at hanswer
      cases hlatest : latestDirectory? options.packages (String.ofList name) with
      | none =>
          have hunknown : String.ofList name ∉ options.packages.map Prod.fst := by
            rw [← latestDirectory?_isSome_iff, hlatest]
            simp
          rw [hlatest] at hanswer
          constructor <;> simp_all [Path.LeadsNowhere, Path.Component.text]
      | some base =>
          have hknown : String.ofList name ∈ options.packages.map Prod.fst := by
            rw [← latestDirectory?_isSome_iff, hlatest]
            rfl
          rw [hlatest] at hanswer
          obtain ⟨hrest, hfound⟩ :=
            Path.components_join_afterFirst base hempty habsolute hcomponents
          constructor
          case fromPackage =>
            intro found hok head hhead _ _
            rw [hcomponents, List.head?_cons, Option.mem_some_iff] at hhead
            subst hhead
            rw [hanswer, Except.ok.injEq] at hok
            subst hok
            exact ⟨base, _, hlatest, rfl, by rw [hrest, hcomponents, List.tail_cons],
              by rw [hfound, hrest], ⟨others, hfound.symm⟩⟩
          all_goals simp_all [Path.LeadsNowhere, Path.Component.text]

end BehaviorTree
