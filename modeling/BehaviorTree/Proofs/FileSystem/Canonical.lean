import BehaviorTree.FileSystem.Tree
import BehaviorTree.Proofs.Module.Reachability

/-!
# Canonical paths of trees

A tree of files spells the canonical path of a file in one way: as the names that lead to it from
the root. So canonical paths that are the same are spelled the same.
-/

namespace BehaviorTree

namespace Path

/-- A segment that names a file or a directory inside another. -/
def IsName (segment : List Char) : Prop :=
  isBlankSegment segment = false ∧ '/' ∉ segment

variable {chars : List Char} {names : List (List Char)}

theorem splitSlashes_no_slash : ∀ segment ∈ splitSlashes chars, '/' ∉ segment := by
  induction chars with
  | nil => simp [splitSlashes]
  | cons c rest ih =>
      unfold splitSlashes
      split
      case isTrue => simpa using ih
      case isFalse hslash =>
        split
        case h_1 => simpa using fun h => hslash h.symm
        case h_2 segment others hsplit =>
          rw [hsplit] at ih
          rintro other (_ | ⟨_, hmem⟩)
          · rintro (_ | ⟨_, hmem⟩)
            · exact hslash rfl
            · exact ih segment (by simp) hmem
          · exact ih other (List.mem_cons_of_mem _ hmem)

theorem splitSlashes_append_slash {segment : List Char} (hsegment : '/' ∉ segment)
    (rest : List Char) :
    splitSlashes (segment ++ '/' :: rest) = segment :: splitSlashes rest := by
  induction segment with
  | nil => simp [splitSlashes]
  | cons c segment ih =>
      simp only [List.mem_cons, not_or] at hsegment
      simp [splitSlashes, Ne.symm hsegment.1, ih hsegment.2]

theorem splitSlashes_of_no_slash {segment : List Char} (hsegment : '/' ∉ segment) :
    splitSlashes segment = [segment] := by
  induction segment with
  | nil => rfl
  | cons c segment ih =>
      simp only [List.mem_cons, not_or] at hsegment
      simp [splitSlashes, Ne.symm hsegment.1, ih hsegment.2]

theorem splitSlashes_joinSlashes {name : List Char} (hname : '/' ∉ name)
    (hnames : ∀ other ∈ names, '/' ∉ other) :
    splitSlashes (joinSlashes (name :: names)) = name :: names := by
  induction names generalizing name with
  | nil => simp [joinSlashes, splitSlashes_of_no_slash hname]
  | cons other names ih =>
      have hjoin : joinSlashes (name :: other :: names) =
          name ++ '/' :: joinSlashes (other :: names) := by
        simp [joinSlashes, List.intercalate]
      rw [hjoin, splitSlashes_append_slash hname,
        ih (hnames other (by simp)) fun later hlater => hnames later (by simp [hlater])]

/-- The names behind the root are those that the path was made from. -/
theorem names_ofNames (hnames : ∀ name ∈ names, IsName name) : (ofNames names).names = names := by
  have hblank : isBlankSegment [] = true := rfl
  have hkept : names.filter (fun segment => !isBlankSegment segment) = names := by
    apply List.filter_eq_self.mpr
    intro name hname
    simp [(hnames name hname).1]
  cases names with
  | nil => rfl
  | cons name names =>
      have hsplit : splitSlashes ('/' :: joinSlashes (name :: names)) = [] :: name :: names := by
        rw [splitSlashes, if_pos rfl, splitSlashes_joinSlashes (hnames name (by simp)).2]
        exact fun other hother => (hnames other (by simp [hother])).2
      simp only [Path.names, segments, ofNames, String.toList_ofList, hsplit]
      rw [List.filter_cons_of_neg (by simp [hblank]), hkept]

theorem ofSegment_injective : Function.Injective Component.ofSegment := by
  intro segment other hsame
  unfold Component.ofSegment at hsame
  split at hsame <;> split at hsame <;> simp_all

theorem components_ofNames (names : List (List Char)) :
    (ofNames names).components = .root :: (ofNames names).names.map Component.ofSegment := by
  have habsolute : (ofNames names).isAbsolute = true := by simp [isAbsolute, ofNames]
  rw [components, if_pos habsolute]
  rfl

theorem ofNames_eq_of_same {names other : List (List Char)} (hnames : ∀ name ∈ names, IsName name)
    (hother : ∀ name ∈ other, IsName name) (hsame : (ofNames names).same (ofNames other) = true) :
    ofNames names = ofNames other := by
  have hcomponents := same_iff.mp hsame
  rw [components_ofNames, components_ofNames, List.cons.injEq, names_ofNames hnames,
    names_ofNames hother] at hcomponents
  rw [(List.map_injective_iff.mpr ofSegment_injective) hcomponents.2]

end Path

namespace FileTree

variable {tree : FileTree} {here place : List (List Char)} {segments : List (List Char)}

/-- A walk ends at a place that is told by names. -/
theorem isName_of_walk (hhere : ∀ name ∈ here, Path.IsName name)
    (hsegments : ∀ segment ∈ segments, '/' ∉ segment)
    (hwalk : tree.walk here segments = .ok place) : ∀ name ∈ place, Path.IsName name := by
  induction segments generalizing here with
  | nil =>
      unfold walk at hwalk
      split at hwalk <;> cases hwalk
      exact hhere
  | cons segment rest ih =>
      have hrest : ∀ segment ∈ rest, '/' ∉ segment := fun other h => hsegments other (by simp [h])
      unfold walk at hwalk
      split at hwalk
      · cases hwalk
      · cases hwalk
      · split at hwalk
        case isTrue => exact ih hhere hrest hwalk
        case isFalse hblank =>
          split at hwalk
          case isTrue => exact ih (fun name h => hhere name (List.dropLast_subset _ h)) hrest hwalk
          case isFalse =>
            split at hwalk
            case isTrue => cases hwalk
            case isFalse =>
              refine ih ?_ hrest hwalk
              intro name hname
              rcases List.mem_append.mp hname with hold | hnew
              · exact hhere name hold
              · rw [List.mem_singleton.mp hnew]
                exact ⟨by simpa using hblank, hsegments segment (by simp)⟩

theorem canonical_eq_ofNames {directory : List (List Char)} {path canonical : Path}
    (hdirectory : ∀ name ∈ directory, Path.IsName name)
    (hcanonical : tree.canonical directory path = .ok canonical) :
    ∃ names, (∀ name ∈ names, Path.IsName name) ∧ canonical = Path.ofNames names := by
  unfold FileTree.canonical at hcanonical
  split at hcanonical
  · cases hcanonical
  · split at hcanonical
    · cases hcanonical
    · dsimp only at hcanonical
      cases hwalk : tree.walk (if path.isAbsolute then [] else directory) path.segments with
      | error fault =>
          rw [hwalk] at hcanonical
          cases hcanonical
      | ok names =>
          rw [hwalk] at hcanonical
          cases hcanonical
          refine ⟨names, ?_, rfl⟩
          refine isName_of_walk ?_ Path.splitSlashes_no_slash hwalk
          split
          · simp
          · exact hdirectory

/-- A tree spells canonical paths once. -/
theorem spellsOnce {directory : List (List Char)}
    (hdirectory : ∀ name ∈ directory, Path.IsName name) :
    (tree.toFileSystem directory).SpellsOnce := by
  intro path other canonical canonical' hpath hother hsame
  obtain ⟨names, hnames, rfl⟩ := canonical_eq_ofNames hdirectory hpath
  obtain ⟨names', hnames', rfl⟩ := canonical_eq_ofNames hdirectory hother
  exact Path.ofNames_eq_of_same hnames hnames' hsame

end FileTree

end BehaviorTree
