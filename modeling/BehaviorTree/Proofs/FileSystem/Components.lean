import Mathlib.Data.List.TakeWhile
import BehaviorTree.Proofs.FileSystem.Canonical

/-!
# Components of paths

A relative path put behind a directory has the components of the directory first, whatever slashes
and dots the two are spelled with. A path that is neither empty nor absolute has a first component,
and it has an extension when its last component has a dot that is not its first character. A path is
shown with its own characters.
-/

namespace BehaviorTree.Path

variable {path base tail : Path} {segments : List (List Char)}

/-- The text of a component. -/
def Component.text : Component → List Char
  | root => ['/']
  | current => ['.']
  | parent => ['.', '.']
  | normal name => name

/-! ## Segments -/

theorem splitSlashes_append (front back : List Char) :
    splitSlashes (front ++ '/' :: back) = splitSlashes front ++ splitSlashes back := by
  induction front with
  | nil => simp [splitSlashes]
  | cons c front ih =>
      by_cases hslash : c = '/'
      · simp [splitSlashes, hslash, ih]
      · obtain ⟨segment, others, hfront⟩ := List.exists_cons_of_ne_nil (splitSlashes_ne_nil front)
        simp [splitSlashes, hslash, ih, hfront]

@[simp]
theorem innerComponents_append (front back : List (List Char)) :
    innerComponents (front ++ back) = innerComponents front ++ innerComponents back := by
  simp [innerComponents]

@[simp]
theorem innerComponents_nil : innerComponents [] = [] := rfl

theorem innerComponents_cons_of_blank {segment : List Char} (hblank : isBlankSegment segment = true)
    (rest : List (List Char)) : innerComponents (segment :: rest) = innerComponents rest := by
  simp [innerComponents, hblank]

theorem innerComponents_cons_of_named {segment : List Char} (hnamed : isBlankSegment segment = false)
    (rest : List (List Char)) :
    innerComponents (segment :: rest) = .ofSegment segment :: innerComponents rest := by
  simp [innerComponents, hnamed]

/-- Segments that name nothing carry no component, so those at the ends may go. -/
theorem innerComponents_trimSegments (segments : List (List Char)) :
    innerComponents (trimSegments segments) = innerComponents segments := by
  have hdrop : ∀ list : List (List Char),
      innerComponents (list.dropWhile isBlankSegment) = innerComponents list := by
    intro list
    induction list with
    | nil => rfl
    | cons segment rest ih =>
        cases hblank : isBlankSegment segment with
        | true => rw [List.dropWhile_cons_of_pos hblank, ih, innerComponents_cons_of_blank hblank]
        | false => rw [List.dropWhile_cons_of_neg (by simp [hblank])]
  have hreverse : ∀ list : List (List Char),
      innerComponents list.reverse = (innerComponents list).reverse := by
    intro list
    simp [innerComponents, List.filter_reverse]
  rw [trimSegments, hreverse, hdrop, hreverse, List.reverse_reverse, hdrop]

theorem trimSegments_subset (segments : List (List Char)) : trimSegments segments ⊆ segments := by
  intro segment hsegment
  have hreversed := (List.dropWhile_sublist _).subset (List.mem_reverse.mp hsegment)
  exact (List.dropWhile_sublist _).subset (List.mem_reverse.mp hreversed)

theorem head_trimSegments_named {segment : List Char} {rest : List (List Char)}
    (htrimmed : trimSegments segments = segment :: rest) : isBlankSegment segment = false := by
  obtain ⟨removed, hkept⟩ := List.dropWhile_suffix (l := (segments.dropWhile isBlankSegment).reverse)
    isBlankSegment
  have hfront : segment :: rest ++ removed.reverse = segments.dropWhile isBlankSegment := by
    rw [← htrimmed, trimSegments, ← List.reverse_append, hkept, List.reverse_reverse]
  have hhead := List.head?_dropWhile_not isBlankSegment segments
  rw [← hfront] at hhead
  simpa using hhead

/-! ## The components of a path -/

@[simp]
theorem components_of_empty (hempty : path.text = "") : path.components = [] := by
  simp [components, isAbsolute, segments, hempty, splitSlashes, innerComponents, isBlankSegment]

theorem segment_ne_nil_of_relative {segment : List Char} {rest : List (List Char)}
    (hne : path.text ≠ "") (hrelative : path.isAbsolute = false)
    (hsegments : path.segments = segment :: rest) : segment ≠ [] := by
  rintro rfl
  cases htext : path.text.toList with
  | nil => exact hne (String.toList_eq_nil_iff.mp htext)
  | cons c others =>
      have hslash : c ≠ '/' := by simpa [isAbsolute, htext] using hrelative
      rw [segments, htext, splitSlashes, if_neg hslash] at hsegments
      split at hsegments <;> simp at hsegments

/-- The first segment of a path that is neither empty nor absolute is a component. -/
theorem components_of_relative (hne : path.text ≠ "") (hrelative : path.isAbsolute = false) :
    ∃ segment rest, path.segments = segment :: rest ∧
      path.components =
        (if segment = ['.'] then .current else .ofSegment segment) :: innerComponents rest := by
  obtain ⟨segment, rest, hsegments⟩ :=
    List.exists_cons_of_ne_nil (splitSlashes_ne_nil path.text.toList)
  refine ⟨segment, rest, hsegments, ?_⟩
  have hnonempty := segment_ne_nil_of_relative hne hrelative hsegments
  rw [components, hrelative, segments, hsegments]
  by_cases hdot : segment = ['.']
  · simp [hdot]
  · have hnamed : isBlankSegment segment = false := by simp [isBlankSegment, hnonempty, hdot]
    simp [hdot, innerComponents_cons_of_named hnamed]

theorem head_components_of_relative (hne : path.text ≠ "") (hrelative : path.isAbsolute = false) :
    ∃ first rest, path.components = first :: rest ∧ first ≠ .root := by
  obtain ⟨segment, rest, -, hcomponents⟩ := components_of_relative hne hrelative
  refine ⟨_, _, hcomponents, ?_⟩
  split
  · simp
  · unfold Component.ofSegment
    split <;> simp

/-- More segments behind those of a path are more components behind its own. -/
theorem components_of_segments_append {front more : List (List Char)} (blanks : List (List Char))
    (hfront : front ≠ []) (hblanks : innerComponents blanks = [])
    (habsolute : path.isAbsolute = base.isAbsolute)
    (hbase : base.segments = front ++ blanks) (hpath : path.segments = front ++ more) :
    path.components = base.components ++ innerComponents more := by
  obtain ⟨segment, rest, rfl⟩ := List.exists_cons_of_ne_nil hfront
  have hinner : ∀ others, innerComponents (segment :: others) =
      innerComponents [segment] ++ innerComponents others := fun others =>
    innerComponents_append [segment] others
  rw [components, components, habsolute, hbase, hpath]
  by_cases hroot : base.isAbsolute = true
  · simp [hroot, hinner (rest ++ more), hinner (rest ++ blanks), hblanks]
  · by_cases hdot : segment = ['.']
    · simp [hroot, hdot, hblanks]
    · simp [hroot, hdot, hinner (rest ++ more), hinner (rest ++ blanks), hblanks]

/-- **A join starts with its base.** Behind a directory that is written down, the segments of a
relative path are components of their own, so a `.` in front of them is none. -/
theorem components_join (hbase : base.text ≠ "") (hrelative : tail.isAbsolute = false) :
    (base.join tail).components = base.components ++ innerComponents tail.segments := by
  have hempty : base.text.toList.isEmpty = false := by
    simpa using hbase
  rw [join, hrelative, hempty]
  simp only [Bool.or_self, Bool.false_eq_true, if_false]
  split
  case isTrue hslash =>
    obtain ⟨front, hfront⟩ := List.getLast?_eq_some_iff.mp (eq_of_beq hslash)
    refine components_of_segments_append [[]] (splitSlashes_ne_nil front) rfl ?_ ?_ ?_
    · cases front <;> simp [isAbsolute, hfront]
    · simpa [segments, hfront, splitSlashes] using splitSlashes_append front []
    · simpa [segments, hfront] using splitSlashes_append front tail.text.toList
  case isFalse =>
    refine components_of_segments_append [] (splitSlashes_ne_nil _) rfl ?_
      (List.append_nil _).symm ?_
    · have hcons := List.exists_cons_of_ne_nil (l := base.text.toList) (by simpa using hbase)
      obtain ⟨c, rest, htext⟩ := hcons
      simp [isAbsolute, htext]
    · simpa [segments] using splitSlashes_append base.text.toList tail.text.toList

theorem join_of_empty (hbase : base.text = "") : base.join tail = tail := by
  simp [join, hbase]

theorem prefix_components_join (hrelative : tail.isAbsolute = false) :
    base.components <+: (base.join tail).components := by
  by_cases hbase : base.text = ""
  · simp [hbase]
  · exact ⟨_, (components_join hbase hrelative).symm⟩

/-! ## What is left of a path behind its first component -/

theorem segments_ofSegments (hsegments : ∀ segment ∈ segments, '/' ∉ segment) (hne : segments ≠ []) :
    (ofSegments segments).segments = segments := by
  obtain ⟨segment, rest, rfl⟩ := List.exists_cons_of_ne_nil hne
  rw [Path.segments, ofSegments, String.toList_ofList]
  exact splitSlashes_joinSlashes (hsegments segment (by simp))
    fun other hother => hsegments other (by simp [hother])

theorem isAbsolute_eq_false_of_segments {segment : List Char} {rest : List (List Char)}
    (hsegments : path.segments = segment :: rest) (hne : segment ≠ []) : path.isAbsolute = false := by
  cases htext : path.text.toList with
  | nil => simp [isAbsolute, htext]
  | cons c others =>
      rw [Path.segments, htext, splitSlashes] at hsegments
      split at hsegments
      case isTrue => exact absurd (List.cons.inj hsegments).1.symm hne
      case isFalse hslash => simpa [isAbsolute, htext] using hslash

/-- What is left begins with a segment that names something, so each of its segments that names
something is a component. -/
theorem ofSegments_trimSegments (hsegments : ∀ segment ∈ segments, '/' ∉ segment) :
    (ofSegments (trimSegments segments)).isAbsolute = false ∧
      (ofSegments (trimSegments segments)).components = innerComponents segments ∧
      innerComponents (ofSegments (trimSegments segments)).segments = innerComponents segments := by
  rw [← innerComponents_trimSegments segments]
  cases htrimmed : trimSegments segments with
  | nil => decide
  | cons segment rest =>
      have hnamed := head_trimSegments_named htrimmed
      have hclean : ∀ other ∈ segment :: rest, '/' ∉ other := by
        intro other hother
        exact hsegments other (trimSegments_subset segments (htrimmed ▸ hother))
      have hkept := segments_ofSegments hclean (by simp)
      have hnonempty : segment ≠ [] := by
        rintro rfl
        cases hnamed
      have hdot : segment ≠ ['.'] := by
        rintro rfl
        cases hnamed
      have hrelative := isAbsolute_eq_false_of_segments hkept hnonempty
      refine ⟨hrelative, ?_, by rw [hkept]⟩
      rw [components, hrelative, hkept]
      simp [hdot]

/-- A relative path without its first component, put behind a directory, adds its other components. -/
theorem components_join_afterFirst (base : Path) {name : List Char} {others : List Component}
    (hne : path.text ≠ "") (hrelative : path.isAbsolute = false)
    (hcomponents : path.components = .normal name :: others) :
    path.afterFirst.components = others ∧
      (base.join path.afterFirst).components = base.components ++ others := by
  obtain ⟨segment, rest, hsegments, hfirst⟩ := components_of_relative hne hrelative
  rw [hcomponents] at hfirst
  obtain ⟨hname, rfl⟩ := List.cons.inj hfirst
  have hnamed : isBlankSegment segment = false := by
    have hnonempty := segment_ne_nil_of_relative hne hrelative hsegments
    have hdot : segment ≠ ['.'] := by
      rintro rfl
      simp at hname
    simp [isBlankSegment, hnonempty, hdot]
  have hafter : path.afterFirst = ofSegments (trimSegments rest) := by
    rw [afterFirst, hsegments]
    simp [dropNamed, hnamed]
  have hclean : ∀ segment ∈ rest, '/' ∉ segment := by
    intro other hother
    exact splitSlashes_no_slash other (show other ∈ path.segments by simp [hsegments, hother])
  obtain ⟨hrest, hinner, hsame⟩ := ofSegments_trimSegments hclean
  rw [hafter]
  refine ⟨hinner, ?_⟩
  by_cases hbase : base.text = ""
  · rw [join_of_empty hbase, hinner, components_of_empty hbase, List.nil_append]
  · rw [components_join hbase hrest, hsame]

/-! ## Extensions -/

theorem extensionOfName?_eq_none_iff (name : List Char) :
    extensionOfName? name = none ↔ '.' ∉ name.tail := by
  cases name with
  | nil => simp [extensionOfName?]
  | cons c rest =>
      have hsplit := congrArg List.length
        (List.takeWhile_append_dropWhile (p := (· != '.')) (l := rest.reverse))
      rw [List.length_append, List.length_reverse] at hsplit
      have hdot : rest.reverse.dropWhile (· != '.') = [] ↔ '.' ∉ rest := by
        rw [List.dropWhile_eq_nil_iff]
        constructor
        · intro hall hdot
          simpa using hall '.' (by simpa using hdot)
        · rintro hdot c hc
          rw [bne_iff_ne]
          rintro rfl
          exact hdot (by simpa using hc)
      simp only [extensionOfName?, List.reverse_cons, List.takeWhile_append, List.length_cons,
        List.length_reverse, List.tail_cons, ite_eq_right_iff, reduceCtorEq, imp_false,
        ← hdot, ← List.length_eq_zero_iff]
      split
      case isTrue hwhole =>
        rw [List.length_append, List.length_reverse]
        omega
      case isFalse hpart => omega

/-- A path has no extension when its last component is missing, is `..`, or has no dot behind its
first character. -/
theorem extension?_isNone_iff (path : Path) :
    path.extension?.isNone = true ↔
      ∀ last ∈ path.components.getLast?, last = .parent ∨ '.' ∉ last.text.tail := by
  rw [extension?, fileName?]
  cases hlast : path.components.getLast? with
  | none => simp
  | some last => cases last <;> simp [Component.text, extensionOfName?_eq_none_iff]

/-! ## Paths as they are shown -/

theorem mem_of_mem_splitSlashes {c : Char} {chars : List Char} :
    ∀ segment ∈ splitSlashes chars, c ∈ segment → c ∈ chars := by
  induction chars with
  | nil => simp [splitSlashes]
  | cons first rest ih =>
      obtain ⟨segment, others, hrest⟩ := List.exists_cons_of_ne_nil (splitSlashes_ne_nil rest)
      rw [splitSlashes, hrest]
      rw [hrest] at ih
      split
      · rintro other (_ | ⟨_, hother⟩) hc
        · cases hc
        · exact List.mem_cons_of_mem first (ih other hother hc)
      · rintro other (_ | ⟨_, hother⟩) hc
        · rcases List.mem_cons.mp hc with rfl | hin
          · exact List.mem_cons_self
          · exact List.mem_cons_of_mem first (ih segment List.mem_cons_self hin)
        · exact List.mem_cons_of_mem first (ih other (List.mem_cons_of_mem segment hother) hc)

theorem mem_joinSlashes {c : Char} (hc : c ∈ joinSlashes segments) :
    c = '/' ∨ ∃ segment ∈ segments, c ∈ segment := by
  induction segments with
  | nil => cases hc
  | cons segment rest ih =>
      cases rest with
      | nil =>
          have hin : c ∈ segment := by simpa [joinSlashes, List.intercalate] using hc
          exact .inr ⟨segment, List.mem_cons_self, hin⟩
      | cons other others =>
          have hjoin : joinSlashes (segment :: other :: others) =
              segment ++ '/' :: joinSlashes (other :: others) := by
            simp [joinSlashes, List.intercalate]
          rw [hjoin, List.mem_append, List.mem_cons] at hc
          rcases hc with hin | rfl | hrest
          · exact .inr ⟨segment, List.mem_cons_self, hin⟩
          · exact .inl rfl
          · rcases ih hrest with hslash | ⟨found, hfound, hin⟩
            · exact .inl hslash
            · exact .inr ⟨found, List.mem_cons_of_mem segment hfound, hin⟩

@[simp]
theorem dropNamed_zero (segments : List (List Char)) : dropNamed 0 segments = segments := by
  cases segments <;> rfl

/-- When the named segments of a front are dropped, only blank ones may be left of it. -/
theorem mem_dropNamed {front more : List (List Char)} {segment : List Char}
    (hsegment : segment ∈ dropNamed (front.countP (!isBlankSegment ·)) (front ++ more)) :
    isBlankSegment segment = true ∨ segment ∈ more := by
  induction front with
  | nil => exact .inr (by simpa using hsegment)
  | cons first front ih =>
      cases hblank : isBlankSegment first with
      | true =>
          rw [List.countP_cons_of_neg (by simp [hblank]), List.cons_append] at hsegment
          cases hcount : front.countP (!isBlankSegment ·) with
          | zero =>
              rw [hcount] at hsegment ih
              rcases List.mem_cons.mp hsegment with rfl | hrest
              · exact .inl hblank
              · exact ih (by simpa using hrest)
          | succ count =>
              rw [hcount, dropNamed, if_pos hblank, ← hcount] at hsegment
              exact ih hsegment
      | false =>
          rw [List.countP_cons_of_pos (by simp [hblank]), List.cons_append, dropNamed,
            if_neg (by simp [hblank])] at hsegment
          exact ih hsegment

theorem dropNamed_subset (count : Nat) (segments : List (List Char)) :
    dropNamed count segments ⊆ segments := by
  induction segments generalizing count with
  | nil => cases count <;> exact fun _ h => h
  | cons segment rest ih =>
      cases count with
      | zero => simp
      | succ count =>
          rw [dropNamed]
          split <;> exact fun _ h => List.mem_cons_of_mem segment (ih _ h)

theorem mem_ofSegments {c : Char} (hc : c ∈ (ofSegments (trimSegments segments)).text.toList) :
    c = '/' ∨ ∃ segment ∈ segments, c ∈ segment := by
  rw [ofSegments, String.toList_ofList] at hc
  rcases mem_joinSlashes hc with hslash | ⟨segment, hsegment, hin⟩
  · exact .inl hslash
  · exact .inr ⟨segment, trimSegments_subset segments hsegment, hin⟩

/-- Behind an absolute directory, the segments of a relative path follow on those that the
components of the directory are made from. -/
theorem exists_segments_join (habsolute : base.isAbsolute = true)
    (hrelative : tail.isAbsolute = false) : ∃ front,
    (base.join tail).segments = front ++ tail.segments ∧
      base.components.length - 1 = front.countP (!isBlankSegment ·) := by
  have hcount : base.components.length - 1 = base.segments.countP (!isBlankSegment ·) := by
    rw [components, habsolute, List.countP_eq_length_filter]
    simp [innerComponents]
  have hempty : base.text.toList.isEmpty = false := by
    cases htext : base.text.toList with
    | nil => simp [isAbsolute, htext] at habsolute
    | cons => rfl
  rw [hcount, join, hrelative, hempty]
  simp only [Bool.or_self, Bool.false_eq_true, if_false]
  split
  case isTrue hslash =>
    obtain ⟨front, hfront⟩ := List.getLast?_eq_some_iff.mp (eq_of_beq hslash)
    have hbase := splitSlashes_append front []
    rw [← hfront] at hbase
    refine ⟨splitSlashes front, ?_, ?_⟩
    · simpa [segments, hfront] using splitSlashes_append front tail.text.toList
    · rw [segments, hbase, List.countP_append]
      rfl
  case isFalse =>
    refine ⟨base.segments, ?_, rfl⟩
    simpa [segments] using splitSlashes_append base.text.toList tail.text.toList

theorem mem_join {c : Char} (hc : c ∈ (base.join tail).text.toList) :
    c ∈ base.text.toList ∨ c = '/' ∨ c ∈ tail.text.toList := by
  rw [join] at hc
  split at hc
  · exact .inr (.inr hc)
  · split at hc
    · rw [String.toList_append] at hc
      rcases List.mem_append.mp hc with hbase | htail
      · exact .inl hbase
      · exact .inr (.inr htail)
    · rw [String.toList_append, String.toList_append] at hc
      rcases List.mem_append.mp hc with hfront | htail
      · rcases List.mem_append.mp hfront with hbase | hslash
        · exact .inl hbase
        · exact .inr (.inl (List.mem_singleton.mp hslash))
      · exact .inr (.inr htail)

/-- A path is shown with its own characters, but for slashes and dots. Only a directory that is not
absolute is shown in front of it. -/
theorem mem_shownFrom {directory : Path} {c : Char} (hc : c ∈ (path.shownFrom directory).toList) :
    c ∈ path.text.toList ∨ c = '/' ∨ c = '.' ∨
      directory.isAbsolute = false ∧ c ∈ directory.text.toList := by
  rw [shownFrom] at hc
  cases hdirectory : directory.isAbsolute with
  | false =>
      have hnone : (directory.join path).relativeTo? directory = none := by
        rw [relativeTo?, hdirectory, Bool.false_and, if_neg Bool.false_ne_true]
      rw [hnone] at hc
      rcases mem_join hc with hfront | hslash | hown
      · exact .inr (.inr (.inr ⟨rfl, hfront⟩))
      · exact .inr (.inl hslash)
      · exact .inl hown
  | true =>
      cases hpath : path.isAbsolute with
      | true =>
          have hjoin : directory.join path = path := by simp [join, hpath]
          rw [hjoin, relativeTo?] at hc
          split at hc
          · rcases mem_ofSegments hc with hslash | ⟨segment, hsegment, hin⟩
            · exact .inr (.inl hslash)
            · exact .inl (mem_of_mem_splitSlashes segment (dropNamed_subset _ _ hsegment) hin)
          · exact .inl hc
      | false =>
          have hbegins : (directory.isAbsolute &&
              directory.components.isPrefixOf (directory.join path).components) = true := by
            rw [hdirectory, Bool.true_and, List.isPrefixOf_iff_prefix]
            exact prefix_components_join hpath
          obtain ⟨front, hsegments, hcount⟩ := exists_segments_join hdirectory hpath
          rw [relativeTo?, if_pos hbegins, hsegments, hcount] at hc
          rcases mem_ofSegments hc with hslash | ⟨segment, hsegment, hin⟩
          · exact .inr (.inl hslash)
          rcases mem_dropNamed hsegment with hblank | hown
          · have hdot : segment = [] ∨ segment = ['.'] := by
              simpa [isBlankSegment] using hblank
            rcases hdot with rfl | rfl
            · cases hin
            · exact .inr (.inr (.inl (List.mem_singleton.mp hin)))
          · exact .inl (mem_of_mem_splitSlashes segment hown hin)

end BehaviorTree.Path
