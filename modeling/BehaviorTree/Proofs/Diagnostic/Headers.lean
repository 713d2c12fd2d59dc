import BehaviorTree.Diagnostic.Record
import BehaviorTree.Proofs.Diagnostic.Drawing

/-!
# Places in the headers

The header of a file shows the place of one of its labels, and the first header of a report that of
the primary label, as the record of the diagnostic does. The report takes the first primary label
of all, while its files are those of the labels with a registered file. Main result: the headers of
every report, and where the first one shows a place that is read in another file.
-/

namespace BehaviorTree

/-- The header of a file. -/
structure ReportHeader where
  arrow : String
  file : FileId
  place : Nat × Nat
  deriving DecidableEq

namespace ReportHeader

/-- The header of a file that shows where a label starts. -/
def of (sources : Sources) (arrow : String) (file : FileId) (label : Label) : ReportHeader :=
  ⟨arrow, file, sources.lineCol file label.range.start⟩

/-- The header shows the start of some label in its file. -/
def ShowsLabel (sources : Sources) (labels : List Label) (header : ReportHeader) : Prop :=
  ∃ label ∈ labels, Excerpt.fileOf label = header.file ∧
    header.place = sources.lineCol header.file label.range.start

instance (sources : Sources) (labels : List Label) (header : ReportHeader) :
    Decidable (header.ShowsLabel sources labels) :=
  inferInstanceAs (Decidable (∃ label ∈ labels, Excerpt.fileOf label = header.file ∧
    header.place = sources.lineCol header.file label.range.start))

end ReportHeader

def ReportPart.header? : ReportPart → Option ReportHeader
  | header arrow file place => some ⟨arrow, file, place⟩
  | _ => none

def Diagnostic.headers (diagnostic : Diagnostic) (sources : Sources) : List ReportHeader :=
  (diagnostic.parts sources).filterMap ReportPart.header?

/-! ## The labels that headers show -/

namespace Excerpt

variable {sources : Sources} {labels : List Label} {group : FileGroup}

/-- Lines and their underlines are no headers. -/
theorem header_lines (group : FileGroup) :
    (group.2.flatMap (lineParts group.1)).filterMap ReportPart.header? = [] := by
  rw [List.filterMap_flatMap]
  refine List.flatMap_eq_nil_iff.mpr fun line _ => ?_
  rw [filterMap_lineParts]
  exact List.filterMap_eq_nil_iff.mpr fun _ _ => rfl

theorem headers_fileParts (sources : Sources) (arrow : String) (anchor : Option Label)
    (group : FileGroup) : (fileParts sources arrow anchor group).filterMap ReportPart.header? =
      (anchor.map (ReportHeader.of sources arrow group.1)).toList := by
  cases anchor with
  | none => rfl
  | some anchor =>
      have htop : ReportPart.header?
          (.header arrow group.1 (sources.lineCol group.1 anchor.range.start)) =
            some (ReportHeader.of sources arrow group.1 anchor) := rfl
      rw [fileParts, List.filterMap_cons_some htop, List.filterMap_cons_none rfl, header_lines]
      rfl

theorem exists_of_mem_groupLabels (hgroup : group ∈ groupLabels sources labels) :
    ∃ label, firstLabel? group.2 = some label ∧ label ∈ labels ∧
      isKnown sources label = true ∧ fileOf label = group.1 := by
  have hsome : (firstLabel? group.2).isSome := by
    rw [groupLabels_eq_fileGroups] at hgroup
    obtain ⟨file, hfile, rfl⟩ := List.mem_map.mp hgroup
    exact isSome_firstLabel? hfile
  obtain ⟨label, hlabel⟩ := Option.isSome_iff_exists.mp hsome
  obtain ⟨line, hline, hfirst⟩ := Option.bind_eq_some_iff.mp hlabel
  obtain ⟨hdrawn, hfile, -⟩ :=
    mem_groupLabels hgroup (List.mem_of_head? hline) (List.mem_of_head? hfirst)
  exact ⟨label, hlabel, (mem_located.mp hdrawn).1, (mem_located.mp hdrawn).2, hfile⟩

end Excerpt

namespace Diagnostic

variable (diagnostic : Diagnostic) (sources : Sources)

/-- The headers of a report by the groups of the labels. -/
theorem headers_eq : diagnostic.headers sources =
    match Excerpt.groupLabels sources diagnostic.labels with
    | [] => []
    | first :: others =>
      ((diagnostic.primaryLabel? <|> Excerpt.firstLabel? first.2).map
        (ReportHeader.of sources "-->" first.1)).toList ++
      others.flatMap fun group =>
        ((Excerpt.firstLabel? group.2).map (ReportHeader.of sources ":::" group.1)).toList := by
  rw [headers, filterMap_parts, blocks]
  · cases Excerpt.groupLabels sources diagnostic.labels with
    | nil => rfl
    | cons first others =>
        simp only [Excerpt.groupParts, List.filterMap_append, List.filterMap_flatMap,
          Excerpt.headers_fileParts]
  · intro part haside
    cases part <;> first | rfl | cases haside.2.2

theorem map_file_headers : (diagnostic.headers sources).map ReportHeader.file =
    Excerpt.filesBy (Excerpt.located sources diagnostic.labels) := by
  rw [← headed_parts, headers, List.map_filterMap]
  refine congrArg (List.filterMap · _) (funext fun part => ?_)
  cases part <;> rfl

theorem file_isSome_of_mem_headers {header : ReportHeader}
    (hheader : header ∈ diagnostic.headers sources) : (sources.file? header.file).isSome := by
  have hfile : header.file ∈ Excerpt.filesBy (Excerpt.located sources diagnostic.labels) := by
    rw [← map_file_headers]
    exact List.mem_map_of_mem hheader
  obtain ⟨label, hlabel, hsame⟩ := Excerpt.mem_filesBy.mp hfile
  rw [← hsame]
  exact (Excerpt.mem_located.mp hlabel).2

/-- The first header shows the first primary label, or else the first label that is drawn. The
others show labels of their files. -/
theorem exists_headers (hsome : diagnostic.headers sources ≠ []) :
    ∃ (first : Excerpt.FileGroup) (anchor : Label) (others : List ReportHeader),
      diagnostic.headers sources = ReportHeader.of sources "-->" first.1 anchor :: others ∧
      first ∈ Excerpt.groupLabels sources diagnostic.labels ∧
      (diagnostic.primaryLabel? <|> Excerpt.firstLabel? first.2) = some anchor ∧
      ∀ header ∈ others, header.arrow = ":::" ∧ header.ShowsLabel sources diagnostic.labels := by
  have hlabel : ∀ group ∈ Excerpt.groupLabels sources diagnostic.labels, ∃ label,
      Excerpt.firstLabel? group.2 = some label ∧ label ∈ diagnostic.labels ∧
        Excerpt.isKnown sources label = true ∧ Excerpt.fileOf label = group.1 :=
    fun group => Excerpt.exists_of_mem_groupLabels
  rw [headers_eq] at hsome ⊢
  generalize Excerpt.groupLabels sources diagnostic.labels = groups at hlabel hsome ⊢
  cases groups with
  | nil => exact absurd rfl hsome
  | cons first others =>
      obtain ⟨further, hfurther⟩ : ∃ further, further = others.flatMap fun group =>
          ((Excerpt.firstLabel? group.2).map (ReportHeader.of sources ":::" group.1)).toList :=
        ⟨_, rfl⟩
      obtain ⟨top, htop, -⟩ := hlabel first List.mem_cons_self
      obtain ⟨anchor, hanchor⟩ : ∃ anchor,
          (diagnostic.primaryLabel? <|> Excerpt.firstLabel? first.2) = some anchor := by
        cases diagnostic.primaryLabel? with
        | some primary => exact ⟨primary, rfl⟩
        | none => exact ⟨top, htop⟩
      refine ⟨first, anchor, further, ?_, List.mem_cons_self, hanchor, fun header hheader => ?_⟩
      · dsimp only
        rw [hfurther, hanchor]
        rfl
      · rw [hfurther, List.mem_flatMap] at hheader
        obtain ⟨group, hgroup, hshown⟩ := hheader
        obtain ⟨label, hfirst, hmem, -, hfile⟩ := hlabel group (List.mem_cons_of_mem first hgroup)
        rw [hfirst] at hshown
        rw [List.mem_singleton.mp hshown]
        exact ⟨rfl, label, hmem, hfile, rfl⟩

/-- A first primary label with a registered file is the first one of those with such files. -/
theorem find?_isKnown {primary : Label} (hprimary : diagnostic.primaryLabel? = some primary)
    (hknown : Excerpt.isKnown sources primary = true) :
    diagnostic.labels.find? (fun label => Excerpt.isKnown sources label && label.isPrimary) =
      some primary := by
  obtain ⟨hstyle, front, back, hlabels, hbefore⟩ := List.find?_eq_some_iff_append.mp hprimary
  refine List.find?_eq_some_iff_append.mpr ⟨by simp [hknown, hstyle], front, back, hlabels, ?_⟩
  intro label hlabel
  have hsecondary := hbefore label hlabel
  rw [Bool.not_eq_true'] at hsecondary ⊢
  rw [hsecondary, Bool.and_false]

/-- The first header shows the first primary label, if this has a registered file. -/
theorem head?_headers {primary : Label} (hprimary : diagnostic.primaryLabel? = some primary)
    (hknown : Excerpt.isKnown sources primary = true) : (diagnostic.headers sources).head? =
      some (.of sources "-->" (Excerpt.fileOf primary) primary) := by
  have hfile := Excerpt.head?_filesBy (diagnostic.find?_isKnown sources hprimary hknown)
  rw [← map_file_headers] at hfile
  have hsome : diagnostic.headers sources ≠ [] := by
    intro hnil
    rw [hnil] at hfile
    cases hfile
  obtain ⟨first, anchor, others, hheaders, -, hanchor, -⟩ := diagnostic.exists_headers sources hsome
  rw [hprimary] at hanchor
  obtain rfl := Option.some.inj hanchor
  rw [hheaders] at hfile ⊢
  rw [← Option.some.inj hfile]
  rfl

/-- What the headers of a report show. They are as they should be if the first primary label, where
there is one, has a registered file. -/
structure HeadersShow (diagnostic : Diagnostic) (sources : Sources) : Prop where
  registered : ∀ header ∈ diagnostic.headers sources, (sources.file? header.file).isSome
  further : ∀ first others, diagnostic.headers sources = first :: others →
    first.arrow = "-->" ∧
      ∀ header ∈ others, header.arrow = ":::" ∧ header.ShowsLabel sources diagnostic.labels
  showsLabels : diagnostic.primaryLabel?.all (Excerpt.isKnown sources) = true →
    ∀ header ∈ diagnostic.headers sources, header.ShowsLabel sources diagnostic.labels
  showsPrimary : diagnostic.primaryLabel?.all (Excerpt.isKnown sources) = true → ∀ primary,
    diagnostic.labels.find? (fun label => Excerpt.isKnown sources label && label.isPrimary) =
      some primary →
    (diagnostic.headers sources).head? =
      some (.of sources "-->" (Excerpt.fileOf primary) primary)
  /-- The first header shows the place that a record has. -/
  record : ∀ place, diagnostic.place? sources = some place →
    ∃ header, (diagnostic.headers sources).head? = some header ∧ header.place = place.start ∧
      sources.displayPath header.file = place.path
  /-- The first primary label is read in the first file, whatever its own file is. -/
  readsPrimary : ∀ primary header, diagnostic.primaryLabel? = some primary →
    (diagnostic.headers sources).head? = some header →
    header.place = sources.lineCol header.file primary.range.start

theorem headersShow : HeadersShow diagnostic sources := by
  constructor
  case registered => exact fun _ => diagnostic.file_isSome_of_mem_headers sources
  case further =>
    intro first others hheaders
    obtain ⟨_, _, _, hshown, -, -, hothers⟩ :=
      diagnostic.exists_headers sources (by rw [hheaders]; exact List.cons_ne_nil _ _)
    rw [hheaders] at hshown
    obtain ⟨rfl, rfl⟩ := List.cons.inj hshown
    exact ⟨rfl, hothers⟩
  case showsLabels =>
    intro hknown header hheader
    obtain ⟨first, anchor, others, hheaders, hfirst, hanchor, hothers⟩ :=
      diagnostic.exists_headers sources (List.ne_nil_of_mem hheader)
    rw [hheaders] at hheader
    rcases List.mem_cons.mp hheader with rfl | hother
    · cases hprimary : diagnostic.primaryLabel? with
      | none =>
          rw [hprimary] at hanchor
          obtain ⟨label, hlabel, hmem, -, hfile⟩ := Excerpt.exists_of_mem_groupLabels hfirst
          obtain rfl := Option.some.inj (hanchor.symm.trans hlabel)
          exact ⟨anchor, hmem, hfile, rfl⟩
      | some primary =>
          rw [hprimary] at hknown
          have hhead := diagnostic.head?_headers sources hprimary hknown
          rw [hheaders] at hhead
          rw [Option.some.inj hhead]
          exact ⟨primary, List.mem_of_find?_eq_some hprimary, rfl, rfl⟩
    · exact (hothers header hother).2
  case showsPrimary =>
    intro hknown primary hfind
    have hstyle := List.find?_some hfind
    rw [Bool.and_eq_true] at hstyle
    obtain ⟨leading, hleading⟩ : ∃ leading, diagnostic.primaryLabel? = some leading :=
      Option.isSome_iff_exists.mp (List.find?_isSome.mpr
        ⟨primary, List.mem_of_find?_eq_some hfind, hstyle.2⟩)
    rw [hleading] at hknown
    have hsame := diagnostic.find?_isKnown sources hleading hknown
    obtain rfl := Option.some.inj (hfind.symm.trans hsame)
    exact diagnostic.head?_headers sources hleading hknown
  case record =>
    intro place hplace
    obtain ⟨source, hsource, rfl⟩ := Option.map_eq_some_iff.mp hplace
    cases hprimary : diagnostic.primaryLabel? with
    | none =>
        rw [primaryRange, hprimary] at hsource
        cases hsource
    | some primary =>
        have hrange : diagnostic.primaryRange = primary.range := by
          rw [primaryRange, hprimary]
          rfl
        rw [hrange] at hsource ⊢
        have hknown : Excerpt.isKnown sources primary = true := by
          rw [Excerpt.isKnown, hsource]
          rfl
        exact ⟨_, diagnostic.head?_headers sources hprimary hknown, rfl, rfl⟩
  case readsPrimary =>
    intro primary header hprimary hhead
    obtain ⟨_, anchor, _, hshown, -, hanchor, -⟩ := diagnostic.exists_headers sources
      (by rintro hnil; rw [hnil] at hhead; cases hhead)
    rw [hprimary] at hanchor
    obtain rfl := Option.some.inj hanchor
    rw [hshown] at hhead
    rw [← Option.some.inj hhead]
    rfl

/-- **Headers show labels of their files**, and the first one shows the first primary label with a
registered file, as the record does, unless there is a primary label without such a file in front of
it. The start of that one is shown as if it were in the first file. -/
theorem headers_placed : (∀ color, diagnostic.render sources color =
      ReportPart.written (diagnostic.printer sources color) (diagnostic.parts sources)) ∧
    HeadersShow diagnostic sources :=
  ⟨diagnostic.render_eq_written sources, diagnostic.headersShow sources⟩

/-- A primary label behind a secondary one, in the second of two files. -/
theorem headers_placed_of_twoFiles :
    let sources := ((Sources.inDirectory ⟨"/work"⟩).add ⟨"/work/a.bt"⟩ "ab\ncd\n").add
      ⟨"/work/b.bt"⟩ "xy"
    let primary : Label := ⟨⟨.registered 0, 3, 5⟩, .primary, ""⟩
    let secondary : Label := ⟨⟨.registered 1, 1, 2⟩, .secondary, ""⟩
    let diagnostic := { error .none "twice" with labels := [secondary, primary] }
    diagnostic.primaryLabel?.all (Excerpt.isKnown sources) = true ∧
      diagnostic.headers sources =
        [⟨"-->", .registered 0, (2, 1)⟩, ⟨":::", .registered 1, (1, 2)⟩] ∧
      ∀ header ∈ diagnostic.headers sources, header.ShowsLabel sources diagnostic.labels := by
  intro sources primary secondary diagnostic
  have hknown : diagnostic.primaryLabel?.all (Excerpt.isKnown sources) = true := by decide
  have hheaders : diagnostic.headers sources =
      [⟨"-->", .registered 0, (2, 1)⟩, ⟨":::", .registered 1, (1, 2)⟩] := by
    rw [headers_eq, Excerpt.groupLabels_eq_map]
    decide +kernel
  exact ⟨hknown, hheaders, (diagnostic.headers_placed sources).2.showsLabels hknown⟩

/-- The first primary label has no registered file. Its start is shown as a place of the file of the
other one, where no label starts. -/
theorem header_misplaced :
    let sources := (Sources.inDirectory ⟨"/work"⟩).add ⟨"/work/main.bt"⟩ "ab\ncd\n"
    let lost : Label := ⟨⟨.registered 9, 3, 4⟩, .primary, "lost"⟩
    let here : Label := ⟨⟨.registered 0, 0, 1⟩, .primary, "here"⟩
    let diagnostic := { error .none "m" with labels := [lost, here] }
    diagnostic.render sources false =
        "error: m\n  --> main.bt:2:1\n   |\n 1 | ab\n   | ^ here\n\n" ∧
      diagnostic.headers sources = [⟨"-->", .registered 0, (2, 1)⟩] ∧
      ¬ReportHeader.ShowsLabel sources diagnostic.labels ⟨"-->", .registered 0, (2, 1)⟩ ∧
      ReportHeader.of sources "-->" (.registered 0) here = ⟨"-->", .registered 0, (1, 1)⟩ := by
  intro sources lost here diagnostic
  exact ⟨by decide +kernel, by decide +kernel, by decide, by decide⟩

end Diagnostic

end BehaviorTree
