import Mathlib.Data.List.Nodup
import Mathlib.Data.List.Perm.Basic
import BehaviorTree.Proofs.Source.Positions
import BehaviorTree.Proofs.Diagnostic.Layout

/-!
# Which labels are drawn, and where

A report draws the labels of its diagnostic that have a registered file, each of them once: under
the line that it starts on, which is printed once, behind the one header of its file. Main result:
the parts of every report are drawn in this way.
-/

namespace BehaviorTree

/-! ## Lists by the keys of their elements -/

section Keys

variable {κ α : Type} [DecidableEq κ] {key : α → κ} {keys : List κ}

/-- Lists for different keys, one behind the other, hold under a key what the list for it holds. -/
theorem filter_flatMap_of_key {own : κ → List α} (hnodup : keys.Nodup)
    (hown : ∀ k ∈ keys, ∀ x ∈ own k, key x = k) (k : κ) :
    (keys.flatMap own).filter (key · = k) = if k ∈ keys then own k else [] := by
  induction hnodup with
  | nil => rfl
  | @cons first rest hfirst _ ih =>
      have hrest := ih fun other hother => hown other (List.mem_cons_of_mem first hother)
      rw [List.flatMap_cons, List.filter_append, hrest]
      by_cases hk : k = first
      · have hall : (own first).filter (key · = k) = own first :=
          List.filter_eq_self.mpr fun x hx =>
            decide_eq_true ((hown first List.mem_cons_self x hx).trans hk.symm)
        have hnone : k ∉ rest := fun h => hfirst k h hk.symm
        rw [hall, if_neg hnone, List.append_nil, if_pos (hk ▸ List.mem_cons_self), hk]
      · have hnone : (own first).filter (key · = k) = [] :=
          List.filter_eq_nil_iff.mpr fun x hx hkey =>
            hk ((of_decide_eq_true hkey).symm.trans (hown first List.mem_cons_self x hx))
        simp [hnone, hk]

/-- Taking the elements of a list key by key leaves none out and takes none twice. -/
theorem flatMap_filter_perm (hnodup : keys.Nodup) {list : List α}
    (hkeys : ∀ x ∈ list, key x ∈ keys) :
    (keys.flatMap fun k => list.filter (key · = k)).Perm list := by
  induction hnodup generalizing list with
  | nil =>
      have hnil : list = [] := List.eq_nil_iff_forall_not_mem.mpr fun x hx => nomatch hkeys x hx
      rw [hnil]
      exact .refl _
  | @cons first rest hfirst _ ih =>
      obtain ⟨others, hothers⟩ : ∃ others, others = list.filter fun x => !decide (key x = first) :=
        ⟨_, rfl⟩
      have hsame : ∀ k ∈ rest, list.filter (key · = k) = others.filter (key · = k) := by
        intro k hk
        rw [hothers, List.filter_filter]
        refine List.filter_congr fun x _ => ?_
        by_cases hx : key x = k
        · simp [hx, Ne.symm (hfirst k hk)]
        · simp [hx]
      have hkept : ∀ x ∈ others, key x ∈ rest := by
        intro x hx
        rw [hothers, List.mem_filter, Bool.not_eq_true', decide_eq_false_iff_not] at hx
        exact (List.mem_cons.mp (hkeys x hx.1)).resolve_left hx.2
      calc ((first :: rest).flatMap fun k => list.filter (key · = k)).Perm
            (list.filter (key · = first) ++ rest.flatMap fun k => others.filter (key · = k)) := by
              rw [List.flatMap_cons, List.flatMap_congr hsame]
        List.Perm _ (list.filter (key · = first) ++ others) := (ih hkept).append_left _
        List.Perm _ list := by
          rw [hothers]
          exact List.filter_append_perm _ list

end Keys

/-! ## What the parts of a report are about -/

namespace ReportPart

/-- The label that a part underlines. -/
def underlined? : ReportPart → Option Label
  | underline _ label => some label
  | _ => none

/-- The line that a part prints. -/
def printed? : ReportPart → Option (FileId × Nat)
  | sourceLine file line => some (file, line)
  | _ => none

/-- The file that a part is the header of. -/
def headed? : ReportPart → Option FileId
  | header _ file _ => some file
  | _ => none

/-- Between an underline and its line stand only underlines of the same line. -/
def UnderLine (before : List ReportPart) (part : ReportPart) : Prop :=
  ∀ line label, part = underline line label → ∃ (earlier : List ReportPart) (others : List Label),
    before = earlier ++ sourceLine (Excerpt.fileOf label) line :: others.map (underline line)

/-- Between a line and the header of its file stands no other header. -/
def UnderHeader (before : List ReportPart) (part : ReportPart) : Prop :=
  ∀ file line, part = sourceLine file line → ∃ earlier arrow place others,
    before = earlier ++ header arrow file place :: others ∧ others.filterMap headed? = []

theorem UnderLine.behind {before : List ReportPart} {part : ReportPart} (h : UnderLine before part)
    (more : List ReportPart) : UnderLine (more ++ before) part := by
  intro line label hpart
  obtain ⟨earlier, others, rfl⟩ := h line label hpart
  exact ⟨more ++ earlier, others, (List.append_assoc _ _ _).symm⟩

theorem UnderHeader.behind {before : List ReportPart} {part : ReportPart}
    (h : UnderHeader before part) (more : List ReportPart) : UnderHeader (more ++ before) part := by
  intro file line hpart
  obtain ⟨earlier, arrow, place, others, rfl, hothers⟩ := h file line hpart
  exact ⟨more ++ earlier, arrow, place, others, (List.append_assoc _ _ _).symm, hothers⟩

/-- A property of each part and of what stands in front of it. -/
def EachBehind (holds : List ReportPart → ReportPart → Prop) (parts : List ReportPart) : Prop :=
  ∀ before part after, parts = before ++ part :: after → holds before part

variable {holds : List ReportPart → ReportPart → Prop} {parts more : List ReportPart}

theorem EachBehind.append (hfront : ∀ before part, holds before part →
    ∀ more, holds (more ++ before) part) (hparts : EachBehind holds parts)
    (hmore : EachBehind holds more) :
    EachBehind holds (parts ++ more) := by
  intro before part after hsplit
  obtain ⟨others, rfl, hothers⟩ | ⟨others, rfl, hothers⟩ := List.append_eq_append_iff.mp hsplit
  · exact hfront others part (hmore others part after hothers) parts
  · cases others with
    | nil =>
        have hnil := hmore [] part after (by simpa using hothers.symm)
        simpa using hfront [] part hnil before
    | cons first rest =>
        obtain ⟨rfl, rfl⟩ := List.cons.inj hothers
        exact hparts before part rest rfl

theorem EachBehind.of_forall (hparts : ∀ part ∈ parts, ∀ before, holds before part) :
    EachBehind holds parts := by
  rintro before part after rfl
  exact hparts part (by simp) before

theorem UnderLine.of_none {part : ReportPart} (hnone : part.underlined? = none)
    (before : List ReportPart) : UnderLine before part := by
  rintro line label rfl
  cases hnone

theorem UnderHeader.of_none {part : ReportPart} (hnone : part.printed? = none)
    (before : List ReportPart) : UnderHeader before part := by
  rintro file line rfl
  cases hnone

theorem EachBehind.flatMap {α : Type} {list : List α} {parts : α → List ReportPart}
    (hfront : ∀ before part, holds before part → ∀ more, holds (more ++ before) part)
    (hparts : ∀ x ∈ list, EachBehind holds (parts x)) : EachBehind holds (list.flatMap parts) := by
  induction list with
  | nil => exact fun before part after hsplit => by simp at hsplit
  | cons x list ih =>
      rw [List.flatMap_cons]
      exact (hparts x List.mem_cons_self).append hfront
        (ih fun y hy => hparts y (List.mem_cons_of_mem x hy))

end ReportPart

/-- A line holds the place that an offset means: this is not in front of the start of the line, and
it is in front of the start of the next one, if there is one. -/
def SourceFile.LiesOn (source : SourceFile) (offset line : Nat) : Prop :=
  ∃ start, source.lineStart? line = some start ∧ start ≤ source.floor offset ∧
    ∀ next, source.lineStart? (line + 1) = some next → source.floor offset < next

theorem SourceFile.liesOn_lineCol (source : SourceFile) (offset : Nat) :
    source.LiesOn offset (source.lineCol offset).1 := by
  obtain ⟨earlier, after, hbefore, hlocates⟩ := source.exists_locates offset
  have hcount : (source.before offset).count '\n' = earlier.count '\n' := by
    rw [hbefore, List.count_append, List.count_eq_zero.mpr hlocates.inLine, Nat.add_zero]
  refine ⟨byteLength earlier, ?_, ?_, fun next hnext => Nat.lt_of_not_le fun hle => ?_⟩
  · refine source.lineStart?_eq_some_iff.mpr
      ⟨earlier, _, hlocates.chars.trans (List.append_assoc _ _ _), hlocates.ended, ?_, rfl⟩
    rw [lineCol, hcount]
  · rw [floor, hbefore, byteLength_append]
    exact Nat.le_add_right _ _
  · -- the lines up to the next one would all be over in front of the offset
    obtain ⟨front, back, hchars, -, hline, rfl⟩ := source.lineStart?_eq_some_iff.mp hnext
    have hbegins : front <+: source.before offset := by
      rw [before, hchars]
      exact begins_takeBytes back
        (Nat.le_trans hle (byteLength_takeBytes_le offset source.chars))
    have hle := hbegins.sublist.count_le '\n'
    rw [lineCol, hcount] at hline
    omega

/-! ## The parts of the groups -/

namespace Excerpt

variable {sources : Sources} {labels own : List Label} {groups : List FileGroup}
  {parts : List ReportPart}

/-- The parts that groups are shown with, whatever their headers say. -/
inductive Blocks : List FileGroup → List ReportPart → Prop
  | nil : Blocks [] []
  | cons {groups : List FileGroup} {parts : List ReportPart} (arrow : String) (place : Nat × Nat)
    (group : FileGroup) (rest : Blocks groups parts) : Blocks (group :: groups)
      (.header arrow group.1 place :: .gap :: group.2.flatMap (lineParts group.1) ++ parts)

theorem blocks_flatMap {arrow : String} (hlabels : ∀ group ∈ groups, (firstLabel? group.2).isSome) :
    Blocks groups (groups.flatMap fun group =>
      fileParts sources arrow (firstLabel? group.2) group) := by
  induction groups with
  | nil => exact .nil
  | cons group groups ih =>
      obtain ⟨anchor, hanchor⟩ := Option.isSome_iff_exists.mp (hlabels group List.mem_cons_self)
      rw [List.flatMap_cons, hanchor]
      exact .cons _ _ group (ih fun other hother => hlabels other (List.mem_cons_of_mem _ hother))

theorem blocks_groupParts (primary : Option Label)
    (hlabels : ∀ group ∈ groups, (firstLabel? group.2).isSome) :
    Blocks groups (groupParts sources primary groups) := by
  cases groups with
  | nil => exact .nil
  | cons first others =>
      obtain ⟨label, hlabel⟩ := Option.isSome_iff_exists.mp (hlabels first List.mem_cons_self)
      obtain ⟨anchor, hanchor⟩ : ∃ anchor, (primary <|> firstLabel? first.2) = some anchor := by
        cases primary with
        | some primary => exact ⟨primary, rfl⟩
        | none => exact ⟨label, hlabel⟩
      rw [groupParts, hanchor]
      exact .cons _ _ first (blocks_flatMap fun other hother =>
        hlabels other (List.mem_cons_of_mem _ hother))

section Views

variable {β : Type} {view : ReportPart → Option β}

theorem filterMap_lineParts (file : FileId) (line : LineGroup) :
    (lineParts file line).filterMap view =
      (view (.sourceLine file line.1)).toList ++ line.2.filterMap (view ∘ .underline line.1) := by
  rw [lineParts, List.filterMap_cons, List.filterMap_map]
  cases view (.sourceLine file line.1) <;> rfl

theorem Blocks.filterMap (h : Blocks groups parts) (top : FileId → Option β)
    (hgap : view .gap = none)
    (htop : ∀ arrow file place, view (.header arrow file place) = top file) :
    parts.filterMap view = groups.flatMap fun group => (top group.1).toList ++
      group.2.flatMap fun line => (lineParts group.1 line).filterMap view := by
  induction h with
  | nil => rfl
  | cons arrow place group rest ih =>
      rw [List.cons_append, List.cons_append, List.filterMap_cons, htop,
        List.filterMap_cons_none hgap, List.filterMap_append, List.filterMap_flatMap, ih,
        List.flatMap_cons]
      cases top group.1 <;> rfl

end Views

theorem Blocks.underlined (h : Blocks groups parts) :
    parts.filterMap ReportPart.underlined? =
      groups.flatMap fun group => group.2.flatMap Prod.snd := by
  rw [h.filterMap (fun _ => none) rfl fun _ _ _ => rfl]
  have hline : ∀ (line : LineGroup),
      line.2.filterMap (ReportPart.underlined? ∘ .underline line.1) = line.2 :=
    fun line => List.filterMap_some
  simp only [filterMap_lineParts, hline]
  rfl

theorem Blocks.printed (h : Blocks groups parts) :
    parts.filterMap ReportPart.printed? =
      groups.flatMap fun group => group.2.map fun line => (group.1, line.1) := by
  rw [h.filterMap (fun _ => none) rfl fun _ _ _ => rfl]
  have hline : ∀ (line : LineGroup),
      line.2.filterMap (ReportPart.printed? ∘ .underline line.1) = [] :=
    fun line => List.filterMap_eq_nil_iff.mpr fun _ _ => rfl
  simp only [filterMap_lineParts, hline, List.map_eq_flatMap]
  rfl

theorem headed_lines (group : FileGroup) :
    (group.2.flatMap (lineParts group.1)).filterMap ReportPart.headed? = [] := by
  rw [List.filterMap_flatMap]
  refine List.flatMap_eq_nil_iff.mpr fun line _ => ?_
  rw [filterMap_lineParts]
  exact List.filterMap_eq_nil_iff.mpr fun _ _ => rfl

theorem Blocks.headed (h : Blocks groups parts) :
    parts.filterMap ReportPart.headed? = groups.map Prod.fst := by
  rw [h.filterMap some rfl fun _ _ _ => rfl]
  simp only [← List.filterMap_flatMap, headed_lines, List.map_eq_flatMap]
  rfl

theorem underLine_lineParts {file : FileId} {line : LineGroup}
    (hfile : ∀ label ∈ line.2, fileOf label = file) :
    ReportPart.EachBehind ReportPart.UnderLine (lineParts file line) := by
  rintro before part after hsplit number label rfl
  cases before with
  | nil => cases (List.cons.inj hsplit).1
  | cons first rest =>
      obtain ⟨rfl, hrest⟩ := List.cons.inj hsplit
      obtain ⟨others, more, hlabels, rfl, hmore⟩ := List.map_eq_append_iff.mp hrest
      obtain ⟨own, later, rfl, hown, -⟩ := List.map_eq_cons_iff.mp hmore
      obtain ⟨rfl, rfl⟩ := ReportPart.underline.inj hown
      refine ⟨[], others, ?_⟩
      rw [hfile _ (hlabels ▸ by simp)]
      rfl

theorem Blocks.underLine (h : Blocks groups parts)
    (hfile : ∀ group ∈ groups, ∀ line ∈ group.2, ∀ label ∈ line.2, fileOf label = group.1) :
    ReportPart.EachBehind ReportPart.UnderLine parts := by
  induction h with
  | nil =>
      intro before part after hsplit
      simp at hsplit
  | @cons _ parts arrow place group rest ih =>
      have htop : ReportPart.EachBehind ReportPart.UnderLine
          [.header arrow group.1 place, .gap] :=
        .of_forall fun part hpart before => .of_none (by
          rcases List.mem_pair.mp hpart with rfl | rfl <;> rfl) before
      have hlines : ReportPart.EachBehind ReportPart.UnderLine
          (group.2.flatMap (lineParts group.1)) :=
        .flatMap (fun _ _ => .behind) fun line hline =>
          underLine_lineParts (hfile group List.mem_cons_self line hline)
      exact (htop.append (fun _ _ => .behind) hlines).append (fun _ _ => .behind)
        (ih fun other hother => hfile other (List.mem_cons_of_mem _ hother))

theorem Blocks.underHeader (h : Blocks groups parts) :
    ReportPart.EachBehind ReportPart.UnderHeader parts := by
  induction h with
  | nil =>
      intro before part after hsplit
      simp at hsplit
  | @cons _ parts arrow place group rest ih =>
      refine ReportPart.EachBehind.append (fun _ _ => .behind) ?_ ih
      rintro before part after hsplit file line rfl
      cases before with
      | nil => cases (List.cons.inj hsplit).1
      | cons first others =>
          obtain ⟨rfl, hbody⟩ := List.cons.inj hsplit
          change _ = others ++ .sourceLine file line :: after at hbody
          have hmem : ReportPart.sourceLine file line ∈
              .gap :: group.2.flatMap (lineParts group.1) := by
            rw [hbody]
            simp
          have hsame : file = group.1 := by
            simp only [List.mem_cons, List.mem_flatMap, lineParts, List.mem_map] at hmem
            obtain hgap | ⟨own, -, hline | ⟨label, -, hlabel⟩⟩ := hmem
            · cases hgap
            · exact (ReportPart.sourceLine.inj hline).1
            · cases hlabel
          have hnone : (others ++ .sourceLine file line :: after).filterMap ReportPart.headed? =
              [] := by
            rw [← hbody, List.filterMap_cons_none rfl, headed_lines]
          rw [List.filterMap_append, List.append_eq_nil_iff] at hnone
          exact ⟨[], arrow, place, others, by rw [hsame]; rfl, hnone.1⟩

theorem Blocks.exists_of_underline (h : Blocks groups parts) {number : Nat} {label : Label}
    (hmem : .underline number label ∈ parts) :
    ∃ group ∈ groups, ∃ line ∈ group.2, line.1 = number ∧ label ∈ line.2 := by
  induction h with
  | nil => cases hmem
  | cons arrow place group rest ih =>
      rcases List.mem_append.mp hmem with hgroup | hrest
      · simp only [List.mem_cons, List.mem_flatMap, lineParts, List.mem_map] at hgroup
        obtain htop | hgap | ⟨line, hline, hsource | ⟨other, hother, hlabel⟩⟩ := hgroup
        · cases htop
        · cases hgap
        · cases hsource
        · obtain ⟨rfl, rfl⟩ := ReportPart.underline.inj hlabel
          exact ⟨group, List.mem_cons_self, line, hline, rfl, hother⟩
      · obtain ⟨other, hother, hline⟩ := ih hrest
        exact ⟨other, List.mem_cons_of_mem _ hother, hline⟩

/-! ## The labels of a file and of a line -/

theorem located_perm (sources : Sources) (labels : List Label) :
    (located sources labels).Perm (labels.filter (isKnown sources)) :=
  List.filter_append_perm _ _

theorem mem_located {label : Label} :
    label ∈ located sources labels ↔ label ∈ labels ∧ isKnown sources label = true := by
  rw [(located_perm sources labels).mem_iff, List.mem_filter]

theorem mem_linesBy {line : Nat} :
    line ∈ linesBy sources own ↔ ∃ label ∈ own, lineOf sources label = line := by
  rw [linesBy, List.mem_mergeSort, mem_distinct, List.mem_map]

theorem nodup_linesBy (sources : Sources) (own : List Label) : (linesBy sources own).Nodup :=
  (List.mergeSort_perm _ _).nodup_iff.mpr (nodup_distinct _)

theorem ascending_linesBy (sources : Sources) (own : List Label) :
    (linesBy sources own).Pairwise (· < ·) := by
  have hsorted : (linesBy sources own).Pairwise (· ≤ ·) := pairwise_sortByKey (fun line => line) _
  exact hsorted.imp₂ (fun _ _ hle hne => Nat.lt_of_le_of_ne hle hne) (nodup_linesBy sources own)

theorem mem_labelsBy {label : Label} {line : Nat} :
    label ∈ labelsBy sources own line ↔ label ∈ own ∧ lineOf sources label = line := by
  rw [labelsBy, List.mem_mergeSort, List.mem_filter, decide_eq_true_eq]

theorem labelsBy_eq_nil {line : Nat} (hline : line ∉ linesBy sources own) :
    labelsBy sources own line = [] :=
  List.eq_nil_iff_forall_not_mem.mpr fun label hlabel =>
    hline (mem_linesBy.mpr ⟨label, mem_labelsBy.mp hlabel⟩)

/-- The labels of one file, line by line. -/
def lineByLine (sources : Sources) (own : List Label) : List Label :=
  (linesBy sources own).flatMap (labelsBy sources own)

theorem lineByLine_perm (sources : Sources) (own : List Label) :
    (lineByLine sources own).Perm own := by
  calc (lineByLine sources own).Perm
        ((linesBy sources own).flatMap fun line => own.filter (lineOf sources · = line)) :=
          List.Perm.flatMap_left _ fun line _ => List.mergeSort_perm _ _
    List.Perm _ own := flatMap_filter_perm (nodup_linesBy sources own)
      fun label hlabel => mem_linesBy.mpr ⟨label, hlabel, rfl⟩

theorem filter_lineByLine (sources : Sources) (own : List Label) (line : Nat) :
    (lineByLine sources own).filter (lineOf sources · = line) = labelsBy sources own line := by
  rw [lineByLine, filter_flatMap_of_key (nodup_linesBy sources own)
    fun _ _ _ hlabel => (mem_labelsBy.mp hlabel).2]
  split
  · rfl
  · rename_i hline
    exact (labelsBy_eq_nil hline).symm

/-- Labels of one file that start at the same place keep their order. -/
theorem filter_start_lineByLine {file : FileId} (hown : ∀ label ∈ own, fileOf label = file)
    (start : Nat) : (lineByLine sources own).filter (·.range.start = start) =
      own.filter (·.range.start = start) := by
  obtain ⟨line, hline⟩ : ∃ line, line = (sources.lineCol file start).1 := ⟨_, rfl⟩
  have hsame : ∀ label ∈ own, label.range.start = start → lineOf sources label = line := by
    intro label hlabel hstart
    rw [lineOf, hline, ← hown label hlabel, hstart]
    rfl
  have honLine : ∀ list : List Label, (∀ label ∈ list, label ∈ own) →
      list.filter (·.range.start = start) =
        (list.filter (lineOf sources · = line)).filter (·.range.start = start) := by
    intro list hlist
    rw [List.filter_filter]
    refine List.filter_congr fun label hlabel => ?_
    by_cases hstart : label.range.start = start
    · simp [hstart, hsame label (hlist label hlabel) hstart]
    · simp [hstart]
  calc (lineByLine sources own).filter (·.range.start = start)
      = ((lineByLine sources own).filter (lineOf sources · = line)).filter
          (·.range.start = start) :=
        honLine _ fun label hlabel => (lineByLine_perm sources own).mem_iff.mp hlabel
    _ = (labelsBy sources own line).filter (·.range.start = start) := by rw [filter_lineByLine]
    _ = (own.filter (lineOf sources · = line)).filter (·.range.start = start) :=
        filter_sortByKey (fun label : Label => label.range.start) _ start
    _ = own.filter (·.range.start = start) := (honLine own fun _ h => h).symm

/-! ## The files of the labels -/

/-- The files of some labels, in the order of first use. -/
def filesBy (labels : List Label) : List FileId := distinct (labels.map fileOf)

theorem mem_filesBy {file : FileId} :
    file ∈ filesBy labels ↔ ∃ label ∈ labels, fileOf label = file := by
  rw [filesBy, mem_distinct, List.mem_map]

theorem nodup_filesBy (labels : List Label) : (filesBy labels).Nodup := nodup_distinct _

/-- The labels, file by file and line by line. -/
def fileByFile (sources : Sources) (labels : List Label) : List Label :=
  (filesBy labels).flatMap fun file => lineByLine sources (labels.filter (fileOf · = file))

theorem fileByFile_perm (sources : Sources) (labels : List Label) :
    (fileByFile sources labels).Perm labels := by
  calc (fileByFile sources labels).Perm
        ((filesBy labels).flatMap fun file => labels.filter (fileOf · = file)) :=
          List.Perm.flatMap_left _ fun file _ => lineByLine_perm sources _
    List.Perm _ labels := flatMap_filter_perm (nodup_filesBy labels)
      fun label hlabel => mem_filesBy.mpr ⟨label, hlabel, rfl⟩

theorem filter_fileByFile (sources : Sources) (labels : List Label) (file : FileId) :
    (fileByFile sources labels).filter (fileOf · = file) =
      lineByLine sources (labels.filter (fileOf · = file)) := by
  have hown : ∀ other ∈ filesBy labels,
      ∀ label ∈ lineByLine sources (labels.filter (fileOf · = other)), fileOf label = other := by
    intro other _ label hlabel
    have hmem := (lineByLine_perm sources _).mem_iff.mp hlabel
    exact of_decide_eq_true (List.mem_filter.mp hmem).2
  rw [fileByFile, filter_flatMap_of_key (nodup_filesBy labels) hown]
  split
  · rfl
  · rename_i hfile
    have hnone : labels.filter (fileOf · = file) = [] :=
      List.filter_eq_nil_iff.mpr fun label hlabel hsame =>
        hfile (mem_filesBy.mpr ⟨label, hlabel, of_decide_eq_true hsame⟩)
    rw [hnone]
    exact (lineByLine_perm sources []).eq_nil.symm

/-- The labels of a line are drawn by their starts. -/
theorem pairwise_fileByFile (sources : Sources) (labels : List Label) (file : FileId) (line : Nat) :
    ((fileByFile sources labels).filter fun label =>
      fileOf label = file ∧ lineOf sources label = line).Pairwise
        (·.range.start ≤ ·.range.start) := by
  have hsplit :=
    calc ((fileByFile sources labels).filter fun label =>
          fileOf label = file ∧ lineOf sources label = line)
        = ((fileByFile sources labels).filter (fileOf · = file)).filter
            (lineOf sources · = line) := by
          rw [List.filter_filter]
          exact List.filter_congr fun label _ => by rw [Bool.decide_and, Bool.and_comm]
      _ = (lineByLine sources (labels.filter (fileOf · = file))).filter
            (lineOf sources · = line) := by rw [filter_fileByFile]
      _ = labelsBy sources (labels.filter (fileOf · = file)) line := filter_lineByLine ..
  rw [hsplit]
  exact pairwise_sortByKey (fun label : Label => label.range.start) _

/-- Labels that start at the same place keep their order. -/
theorem filter_start_fileByFile (sources : Sources) (labels : List Label) (file : FileId)
    (start : Nat) :
    (fileByFile sources labels).filter (fun label =>
      fileOf label = file ∧ label.range.start = start) =
    labels.filter fun label => fileOf label = file ∧ label.range.start = start := by
  have hsplit : ∀ list : List Label,
      list.filter (fun label => fileOf label = file ∧ label.range.start = start) =
        (list.filter (fileOf · = file)).filter (·.range.start = start) := by
    intro list
    rw [List.filter_filter]
    exact List.filter_congr fun label _ => by rw [Bool.decide_and, Bool.and_comm]
  have hown : ∀ label ∈ labels.filter (fileOf · = file), fileOf label = file :=
    fun label hlabel => of_decide_eq_true (List.mem_filter.mp hlabel).2
  rw [hsplit, hsplit, filter_fileByFile]
  exact filter_start_lineByLine hown start

/-- The file of the first primary label comes first. -/
theorem head?_filesBy {primary : Label}
    (hprimary : labels.find? (fun label => isKnown sources label && label.isPrimary) =
      some primary) :
    (filesBy (located sources labels)).head? = some (fileOf primary) := by
  have hfirst : ((labels.filter (isKnown sources)).filter Label.isPrimary).head? =
      some primary := by
    rw [List.filter_filter, List.head?_filter, ← hprimary]
    exact congrArg (List.find? · labels) (funext fun label => Bool.and_comm _ _)
  obtain ⟨rest, hrest⟩ := List.head?_eq_some_iff.mp hfirst
  have hlocated : located sources labels = primary :: (rest ++
      (labels.filter (isKnown sources)).filter fun label => !label.isPrimary) := by
    rw [← List.cons_append, ← hrest]
    rfl
  rw [hlocated]
  rfl

/-- The lines of all files. -/
def allLines (sources : Sources) (labels : List Label) : List (FileId × Nat) :=
  (filesBy labels).flatMap fun file =>
    (linesBy sources (labels.filter (fileOf · = file))).map (Prod.mk file)

theorem mem_allLines {file : FileId} {line : Nat} : (file, line) ∈ allLines sources labels ↔
    ∃ label ∈ labels, fileOf label = file ∧ lineOf sources label = line := by
  simp only [allLines, List.mem_flatMap, List.mem_map, mem_filesBy, mem_linesBy, List.mem_filter,
    decide_eq_true_eq]
  constructor
  · rintro ⟨other, -, number, ⟨label, ⟨hlabel, hfile⟩, hline⟩, hpair⟩
    obtain ⟨rfl, rfl⟩ := Prod.mk.inj hpair
    exact ⟨label, hlabel, hfile, hline⟩
  · rintro ⟨label, hlabel, hfile, hline⟩
    exact ⟨file, ⟨label, hlabel, hfile⟩, line, ⟨label, ⟨hlabel, hfile⟩, hline⟩, rfl⟩

theorem nodup_allLines (sources : Sources) (labels : List Label) :
    (allLines sources labels).Nodup := by
  refine List.nodup_flatMap.mpr ⟨fun file _ => ?_, ?_⟩
  · exact (nodup_linesBy sources _).map fun _ _ h => (Prod.mk.inj h).2
  · refine (nodup_filesBy labels).imp fun {left right} hne => ?_
    intro entry hleft hright
    obtain ⟨_, -, rfl⟩ := List.mem_map.mp hleft
    obtain ⟨_, -, hright⟩ := List.mem_map.mp hright
    exact hne (Prod.mk.inj hright).1.symm

theorem ascending_allLines (sources : Sources) (labels : List Label) (file : FileId) :
    ((allLines sources labels).filter (·.1 = file)).Pairwise (·.2 < ·.2) := by
  have hown : ∀ other ∈ filesBy labels,
      ∀ entry ∈ (linesBy sources (labels.filter (fileOf · = other))).map (Prod.mk other),
        entry.1 = other := by
    intro other _ entry hentry
    obtain ⟨_, -, rfl⟩ := List.mem_map.mp hentry
    rfl
  rw [allLines, filter_flatMap_of_key (nodup_filesBy labels) hown]
  split
  · exact List.pairwise_map.mpr (ascending_linesBy sources _)
  · exact .nil

/-- The group of a file. -/
def fileGroup (sources : Sources) (labels : List Label) (file : FileId) : FileGroup :=
  let own := labels.filter (fileOf · = file)
  (file, (linesBy sources own).map fun line => (line, labelsBy sources own line))

theorem groupLabels_eq_fileGroups (sources : Sources) (labels : List Label) :
    groupLabels sources labels =
      (filesBy (located sources labels)).map (fileGroup sources (located sources labels)) :=
  groupLabels_eq_map sources labels

theorem flatMap_groupLabels (sources : Sources) (labels : List Label) :
    ((groupLabels sources labels).flatMap fun group => group.2.flatMap Prod.snd) =
      fileByFile sources (located sources labels) := by
  rw [groupLabels_eq_fileGroups, List.flatMap_map, fileByFile]
  refine List.flatMap_congr fun file _ => ?_
  rw [fileGroup, List.flatMap_map]
  rfl

theorem lines_groupLabels (sources : Sources) (labels : List Label) :
    ((groupLabels sources labels).flatMap fun group => group.2.map fun line => (group.1, line.1)) =
      allLines sources (located sources labels) := by
  rw [groupLabels_eq_fileGroups, List.flatMap_map, allLines]
  refine List.flatMap_congr fun file _ => ?_
  rw [fileGroup, List.map_map]
  rfl

theorem files_groupLabels (sources : Sources) (labels : List Label) :
    (groupLabels sources labels).map Prod.fst = filesBy (located sources labels) := by
  rw [groupLabels_eq_fileGroups, List.map_map]
  exact List.map_id _

/-- A label stands in the group of its file and its line. -/
theorem mem_groupLabels {group : FileGroup} {line : LineGroup} {label : Label}
    (hgroup : group ∈ groupLabels sources labels) (hline : line ∈ group.2)
    (hlabel : label ∈ line.2) :
    label ∈ located sources labels ∧ fileOf label = group.1 ∧ lineOf sources label = line.1 := by
  rw [groupLabels_eq_fileGroups] at hgroup
  obtain ⟨file, -, rfl⟩ := List.mem_map.mp hgroup
  obtain ⟨number, -, rfl⟩ := List.mem_map.mp hline
  obtain ⟨hown, hnumber⟩ := mem_labelsBy.mp hlabel
  obtain ⟨hmem, hfile⟩ := List.mem_filter.mp hown
  exact ⟨hmem, of_decide_eq_true hfile, hnumber⟩

theorem isSome_firstLabel? {file : FileId} (hfile : file ∈ filesBy labels) :
    (firstLabel? (fileGroup sources labels file).2).isSome := by
  obtain ⟨label, hlabel, hsame⟩ := mem_filesBy.mp hfile
  obtain ⟨own, hown⟩ : ∃ own, own = labels.filter (fileOf · = file) := ⟨_, rfl⟩
  have hmem : lineOf sources label ∈ linesBy sources own := by
    refine mem_linesBy.mpr ⟨label, ?_, rfl⟩
    rw [hown]
    exact List.mem_filter.mpr ⟨hlabel, decide_eq_true hsame⟩
  obtain ⟨line, rest, hlines⟩ := List.exists_cons_of_ne_nil (List.ne_nil_of_mem hmem)
  obtain ⟨first, hfirst⟩ := mem_linesBy.mp (hlines ▸ List.mem_cons_self)
  obtain ⟨top, others, hlabels⟩ :=
    List.exists_cons_of_ne_nil (List.ne_nil_of_mem (mem_labelsBy.mpr hfirst))
  rw [firstLabel?, fileGroup, ← hown]
  simp [hlines, hlabels]

theorem blocks_groupLabels (sources : Sources) (labels : List Label) (primary : Option Label) :
    Blocks (groupLabels sources labels)
      (groupParts sources primary (groupLabels sources labels)) := by
  refine blocks_groupParts primary fun group hgroup => ?_
  rw [groupLabels_eq_fileGroups] at hgroup
  obtain ⟨file, hfile, rfl⟩ := List.mem_map.mp hgroup
  exact isSome_firstLabel? hfile

end Excerpt

/-- The character that a label is underlined with. -/
def Label.mark (label : Label) : Char := if label.isPrimary then '^' else '-'

/-- What stands behind the marks of a label. -/
def Label.caption (label : Label) : String :=
  if label.message = "" then "" else " " ++ label.message

namespace ReportPart

/-- An underline is written as blanks up to its column, its marks and the message of its label. It
has one mark at least. -/
def Marked (sources : Sources) (line : Nat) (label : Label) : Prop :=
  ∃ column length, Excerpt.underline sources line label = (column, length) ∧ 1 ≤ length ∧
    ∀ printer : Printer, printer.sources = sources → ∃ styles,
      Fragment.joined printer.color ((underline line label).fragments printer) =
        " " ++ printer.padding ++ " " ++ printer.bar ++ " " ++
          paint printer.color styles (String.ofList
            (List.replicate column ' ' ++ List.replicate length label.mark) ++ label.caption) ++ "\n"

theorem marked_underline (sources : Sources) (line : Nat) (label : Label) :
    Marked sources line label := by
  obtain ⟨column, length, hunderline⟩ : ∃ column length,
      Excerpt.underline sources line label = (column, length) := ⟨_, _, rfl⟩
  have hlength : length = max 1 _ := (congrArg Prod.snd hunderline).symm
  refine ⟨column, length, hunderline, hlength ▸ Nat.le_max_left 1 _, fun printer hsources => ?_⟩
  refine ⟨[.bold, if label.isPrimary then printer.severity.style else .blue], ?_⟩
  rw [joined_underline, Printer.underline, hsources, hunderline, Label.mark, Label.caption]
  cases label.isPrimary <;> by_cases hmessage : label.message = "" <;>
    simp [hmessage, String.append_assoc]

/-- How the parts of a report draw labels. -/
structure DrawsLabels (sources : Sources) (labels : List Label) (parts : List ReportPart) :
    Prop where
  /-- Each label with a registered file is underlined once, and no other. -/
  once : (parts.filterMap underlined?).Perm (labels.filter (Excerpt.isKnown sources))
  underLine : EachBehind UnderLine parts
  marked : ∀ line label, underline line label ∈ parts → Marked sources line label
  /-- This is the line that the label starts on. -/
  startsOn : ∀ line label, underline line label ∈ parts → ∃ source,
    sources.file? (Excerpt.fileOf label) = some source ∧ source.LiesOn label.range.start line
  /-- The lines with labels are printed, each of them once. -/
  printed : (parts.filterMap printed?).Nodup ∧
    ∀ file line, sourceLine file line ∈ parts ↔ ∃ label ∈ labels,
      Excerpt.isKnown sources label = true ∧ Excerpt.fileOf label = file ∧
        Excerpt.lineOf sources label = line
  underHeader : EachBehind UnderHeader parts
  ascending : ∀ file, ((parts.filterMap printed?).filter (·.1 = file)).Pairwise (·.2 < ·.2)
  byStart : ∀ file line, ((parts.filterMap underlined?).filter fun label =>
    Excerpt.fileOf label = file ∧ Excerpt.lineOf sources label = line).Pairwise
      (·.range.start ≤ ·.range.start)
  /-- Labels that start at the same place keep their order, but primary ones come first. -/
  ties : ∀ file start,
    (parts.filterMap underlined?).filter (fun label =>
      Excerpt.fileOf label = file ∧ label.range.start = start) =
    (Excerpt.located sources labels).filter fun label =>
      Excerpt.fileOf label = file ∧ label.range.start = start
  /-- Each file has one header, in the order of first use. -/
  headers : parts.filterMap headed? = Excerpt.filesBy (Excerpt.located sources labels)
  headedOnce : (parts.filterMap headed?).Nodup
  leading : ∀ primary,
    labels.find? (fun label => Excerpt.isKnown sources label && label.isPrimary) = some primary →
    (parts.filterMap headed?).head? = some (Excerpt.fileOf primary)

end ReportPart

/-- A part that is neither a header nor about a line. -/
def ReportPart.IsAside (part : ReportPart) : Prop :=
  part.underlined? = none ∧ part.printed? = none ∧ part.headed? = none

namespace Diagnostic

open Excerpt (groupLabels located)

variable (diagnostic : Diagnostic) (sources : Sources)

/-- The blocks of the files in a report. -/
def blocks : List ReportPart :=
  Excerpt.groupParts sources diagnostic.primaryLabel? (groupLabels sources diagnostic.labels)

theorem blocks_spec :
    Excerpt.Blocks (groupLabels sources diagnostic.labels) (diagnostic.blocks sources) :=
  Excerpt.blocks_groupLabels sources diagnostic.labels diagnostic.primaryLabel?

/-- Outside of the blocks there are no headers, lines and underlines. -/
theorem exists_asides : ∃ front tail,
    diagnostic.parts sources = front ++ diagnostic.blocks sources ++ tail ∧
    (∀ part ∈ front, part.IsAside) ∧ ∀ part ∈ tail, part.IsAside := by
  refine ⟨[.headline diagnostic.code diagnostic.message], _,
    by rw [parts, List.append_assoc, List.append_assoc, List.append_assoc]; rfl, ?_, ?_⟩
  · intro part hpart
    rw [List.mem_singleton.mp hpart]
    exact ⟨rfl, rfl, rfl⟩
  have hremark : ∀ title text, ∀ part ∈ remarkParts title text, part.IsAside := by
    intro title text part hpart
    obtain ⟨_, -, rfl⟩ := List.mem_map.mp hpart
    exact ⟨rfl, rfl, rfl⟩
  intro part hpart
  simp only [List.mem_append, List.mem_singleton] at hpart
  obtain hgap | hhelp | hnote | rfl := hpart
  · split at hgap
    · rw [List.mem_singleton.mp hgap]
      exact ⟨rfl, rfl, rfl⟩
    · cases hgap
  · exact hremark _ _ part hhelp
  · exact hremark _ _ part hnote
  · exact ⟨rfl, rfl, rfl⟩

/-- What asides do not have is found in the blocks. -/
theorem filterMap_parts {β : Type} {view : ReportPart → Option β}
    (haside : ∀ part : ReportPart, part.IsAside → view part = none) :
    (diagnostic.parts sources).filterMap view = (diagnostic.blocks sources).filterMap view := by
  obtain ⟨front, tail, hparts, hfront, htail⟩ := diagnostic.exists_asides sources
  rw [hparts, List.filterMap_append, List.filterMap_append,
    List.filterMap_eq_nil_iff.mpr fun part hpart => haside part (hfront part hpart),
    List.filterMap_eq_nil_iff.mpr fun part hpart => haside part (htail part hpart),
    List.nil_append, List.append_nil]

theorem underlined_parts : (diagnostic.parts sources).filterMap ReportPart.underlined? =
    Excerpt.fileByFile sources (located sources diagnostic.labels) := by
  rw [filterMap_parts _ _ fun _ haside => haside.1, (diagnostic.blocks_spec sources).underlined,
    Excerpt.flatMap_groupLabels]

theorem printed_parts : (diagnostic.parts sources).filterMap ReportPart.printed? =
    Excerpt.allLines sources (located sources diagnostic.labels) := by
  rw [filterMap_parts _ _ fun _ haside => haside.2.1, (diagnostic.blocks_spec sources).printed,
    Excerpt.lines_groupLabels]

theorem headed_parts : (diagnostic.parts sources).filterMap ReportPart.headed? =
    Excerpt.filesBy (located sources diagnostic.labels) := by
  rw [filterMap_parts _ _ fun _ haside => haside.2.2, (diagnostic.blocks_spec sources).headed,
    Excerpt.files_groupLabels]

theorem eachBehind_parts {holds : List ReportPart → ReportPart → Prop}
    (hfront : ∀ before part, holds before part → ∀ more, holds (more ++ before) part)
    (haside : ∀ part : ReportPart, part.IsAside → ∀ before, holds before part)
    (hblocks : ReportPart.EachBehind holds (diagnostic.blocks sources)) :
    ReportPart.EachBehind holds (diagnostic.parts sources) := by
  obtain ⟨front, tail, hparts, hasides, htail⟩ := diagnostic.exists_asides sources
  have hbegin : ReportPart.EachBehind holds front :=
    .of_forall fun part hpart => haside part (hasides part hpart)
  have hend : ReportPart.EachBehind holds tail :=
    .of_forall fun part hpart => haside part (htail part hpart)
  rw [hparts]
  exact (hbegin.append hfront hblocks).append hfront hend

theorem mem_parts_sourceLine {file : FileId} {line : Nat} :
    .sourceLine file line ∈ diagnostic.parts sources ↔
      (file, line) ∈ (diagnostic.parts sources).filterMap ReportPart.printed? := by
  rw [List.mem_filterMap]
  constructor
  · exact fun hpart => ⟨_, hpart, rfl⟩
  · rintro ⟨part, hpart, hline⟩
    cases part <;> cases hline
    exact hpart

/-- A label that is underlined stands under the line that it starts on. -/
theorem lineOf_of_underline {line : Nat} {label : Label}
    (hmem : .underline line label ∈ diagnostic.parts sources) :
    label ∈ located sources diagnostic.labels ∧ Excerpt.lineOf sources label = line := by
  obtain ⟨front, tail, hparts, hfront, htail⟩ := diagnostic.exists_asides sources
  rw [hparts, List.mem_append, List.mem_append] at hmem
  rcases hmem with (hasides | hblock) | hasides
  · cases (hfront _ hasides).1
  · obtain ⟨group, hgroup, own, hown, rfl, hlabel⟩ :=
      (diagnostic.blocks_spec sources).exists_of_underline hblock
    obtain ⟨hdrawn, -, hline⟩ := Excerpt.mem_groupLabels hgroup hown hlabel
    exact ⟨hdrawn, hline⟩
  · cases (htail _ hasides).1

theorem drawsLabels_parts :
    ReportPart.DrawsLabels sources diagnostic.labels (diagnostic.parts sources) := by
  constructor
  case once =>
    rw [underlined_parts]
    exact (Excerpt.fileByFile_perm sources _).trans (Excerpt.located_perm sources _)
  case underLine =>
    exact diagnostic.eachBehind_parts sources (fun _ _ => .behind)
      (fun part haside => .of_none haside.1) ((diagnostic.blocks_spec sources).underLine
        fun group hgroup line hline label hlabel =>
          (Excerpt.mem_groupLabels hgroup hline hlabel).2.1)
  case marked => exact fun line label _ => ReportPart.marked_underline sources line label
  case startsOn =>
    intro line label hmem
    obtain ⟨hdrawn, hline⟩ := diagnostic.lineOf_of_underline sources hmem
    obtain ⟨source, hsource⟩ := Option.isSome_iff_exists.mp (Excerpt.mem_located.mp hdrawn).2
    refine ⟨source, hsource, ?_⟩
    rw [← hline, Excerpt.lineOf, Sources.lineCol, hsource]
    exact source.liesOn_lineCol _
  case printed =>
    refine ⟨?_, fun file line => ?_⟩
    · rw [printed_parts]
      exact Excerpt.nodup_allLines sources _
    · rw [mem_parts_sourceLine, printed_parts, Excerpt.mem_allLines]
      simp only [Excerpt.mem_located, and_assoc]
  case underHeader =>
    exact diagnostic.eachBehind_parts sources (fun _ _ => .behind)
      (fun part haside => .of_none haside.2.1) (diagnostic.blocks_spec sources).underHeader
  case ascending =>
    rw [printed_parts]
    exact Excerpt.ascending_allLines sources _
  case byStart =>
    rw [underlined_parts]
    exact Excerpt.pairwise_fileByFile sources _
  case ties =>
    rw [underlined_parts]
    exact Excerpt.filter_start_fileByFile sources _
  case headers => exact diagnostic.headed_parts sources
  case headedOnce =>
    rw [headed_parts]
    exact Excerpt.nodup_filesBy _
  case leading =>
    intro primary hprimary
    rw [headed_parts]
    exact Excerpt.head?_filesBy hprimary

/-- **No label is lost or drawn twice.** -/
theorem drawsLabels : (∀ color, diagnostic.render sources color =
      ReportPart.written (diagnostic.printer sources color) (diagnostic.parts sources)) ∧
    ReportPart.DrawsLabels sources diagnostic.labels (diagnostic.parts sources) :=
  ⟨diagnostic.render_eq_written sources, diagnostic.drawsLabels_parts sources⟩

end Diagnostic

end BehaviorTree
