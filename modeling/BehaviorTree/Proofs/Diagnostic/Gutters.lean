import BehaviorTree.Diagnostic.Printer

/-!
# Rows of a report

A report without colors as a list of rows. A row of the gutter has a mark, a bar or the sign of a
remark, behind a line number or blanks; there is room for the number of the last line that is shown,
so the marks stand in one column.
-/

namespace BehaviorTree

/-- A row of a report. -/
inductive ReportRow
  /-- The severity, the code and the message. -/
  | headline (text : String)
  /-- The place that the rows below belong to. -/
  | header (text : String)
  /-- A row with a mark, and what stands in front of it and behind it. -/
  | gutter (lead : String) (mark : Char) (rest : String)
  /-- The empty row at the end. -/
  | ending
  deriving DecidableEq

def ReportRow.text : ReportRow → String
  | headline text => text
  | header text => text
  | gutter lead mark rest => lead ++ String.singleton mark ++ rest ++ "\n"
  | ending => "\n"

namespace Printer

variable (printer : Printer)

/-- A row with nothing but blanks in front of its mark. -/
def blankRow (mark : Char) (rest : String) : ReportRow :=
  .gutter (" " ++ printer.padding ++ " ") mark rest

def sourceRow (file : FileId) (line : Nat) : ReportRow :=
  let text := Excerpt.expandTabs ((printer.sources.lineText? file line).getD [])
  .gutter (" " ++ printer.lineNumber line ++ " ") '|'
    (if text = [] then "" else " " ++ String.ofList text)

def underlineRow (line : Nat) (label : Label) : ReportRow :=
  let (column, length) := Excerpt.underline printer.sources line label
  let mark := if label.isPrimary then '^' else '-'
  let marks := String.ofList (List.replicate column ' ' ++ List.replicate length mark)
  printer.blankRow '|' (" " ++ if label.message = "" then marks else marks ++ " " ++ label.message)

def lineRows (file : FileId) (labels : List (Nat × Label)) (line : Nat) : List ReportRow :=
  printer.sourceRow file line :: (Excerpt.labelsOn line labels).map (printer.underlineRow line)

def fileRows (arrow : String) (anchor : Option Label) (file : FileId)
    (labels : List (Nat × Label)) : List ReportRow :=
  match anchor with
  | none => []
  | some anchor =>
    .header (printer.header arrow file anchor.range.start) :: printer.blankRow '|' "" ::
      (Excerpt.linesOf labels).flatMap (printer.lineRows file labels)

def rowsOfFiles (primary : Option Label) (labels : List (Nat × Label)) : List ReportRow :=
  match Excerpt.filesOf labels with
  | [] => []
  | first :: others =>
    let firstLabels := Excerpt.labelsIn first labels
    printer.fileRows "-->" (primary <|> anchor? firstLabels) first firstLabels ++
      others.flatMap fun file =>
        let labels := Excerpt.labelsIn file labels
        printer.fileRows ":::" (anchor? labels) file labels

def remarkRows (title : String) : Option String → List ReportRow
  | none => []
  | some text => [printer.blankRow '=' (" " ++ title ++ " " ++ text)]

end Printer

namespace Diagnostic

/-- The labels that are shown, with their lines. -/
def shownLabels (diagnostic : Diagnostic) (sources : Sources) : List (Nat × Label) :=
  Excerpt.placed sources (Excerpt.located sources diagnostic.labels)

def rows (diagnostic : Diagnostic) (sources : Sources) : List ReportRow :=
  let labels := diagnostic.shownLabels sources
  let printer : Printer := ⟨sources, false, diagnostic.severity, gutterDigits labels⟩
  .headline (diagnostic.headline false) :: printer.rowsOfFiles diagnostic.primaryLabel? labels ++
    (if diagnostic.help = none ∧ diagnostic.note = none ∨ labels.isEmpty then [] else
      [printer.blankRow '|' ""]) ++
    printer.remarkRows "help:" diagnostic.help ++ printer.remarkRows "note:" diagnostic.note ++
    [.ending]

end Diagnostic

/-! ## A report is its rows -/

/-- The text of some rows. -/
def ReportRow.joined (rows : List ReportRow) : String := String.join (rows.map text)

@[simp]
theorem ReportRow.joined_nil : joined [] = "" := rfl

@[simp]
theorem ReportRow.joined_cons (row : ReportRow) (rows : List ReportRow) :
    joined (row :: rows) = row.text ++ joined rows := by
  simp [joined, String.join_cons]

@[simp]
theorem ReportRow.joined_append (rows more : List ReportRow) :
    joined (rows ++ more) = joined rows ++ joined more := by
  simp [joined, String.join_append]

theorem ReportRow.joined_flatMap {α : Type} {list : List α} {rows : α → List ReportRow}
    {block : α → String} (hblock : ∀ x ∈ list, joined (rows x) = block x) :
    joined (list.flatMap rows) = String.join (list.map block) := by
  induction list with
  | nil => rfl
  | cons x list ih =>
      rw [List.flatMap_cons, joined_append, List.map_cons, String.join_cons,
        hblock x List.mem_cons_self, ih fun y hy => hblock y (List.mem_cons_of_mem x hy)]

namespace Printer

variable {printer : Printer} (hplain : printer.color = false)

include hplain

theorem text_blankRow : (printer.blankRow '|' "").text = printer.emptyGutter := by
  simp [blankRow, ReportRow.text, emptyGutter, bar, paint, hplain]

theorem text_sourceRow (file : FileId) (line : Nat) :
    (printer.sourceRow file line).text = printer.sourceLine file line := by
  simp [sourceRow, ReportRow.text, sourceLine, bar, paint, hplain]

theorem text_underlineRow (line : Nat) (label : Label) :
    (printer.underlineRow line label).text = printer.underline line label := by
  rw [← String.toList_inj]
  cases hprimary : label.isPrimary <;>
    simp [underlineRow, blankRow, ReportRow.text, underline, bar, paint, hplain, hprimary]

theorem joined_lineRows (file : FileId) (labels : List (Nat × Label)) (line : Nat) :
    ReportRow.joined (printer.lineRows file labels line) = printer.lineBlock file labels line := by
  have hunderlines : ReportRow.text ∘ printer.underlineRow line = printer.underline line :=
    funext (text_underlineRow hplain line)
  rw [lineRows, ReportRow.joined_cons, text_sourceRow hplain, lineBlock, ReportRow.joined,
    List.map_map, hunderlines]

theorem joined_fileRows (arrow : String) (anchor : Option Label) (file : FileId)
    (labels : List (Nat × Label)) :
    ReportRow.joined (printer.fileRows arrow anchor file labels) =
      printer.fileBlock arrow anchor file labels := by
  cases anchor with
  | none => rfl
  | some anchor =>
      rw [fileRows, ReportRow.joined_cons, ReportRow.joined_cons, text_blankRow hplain,
        ReportRow.joined_flatMap fun line _ => joined_lineRows hplain file labels line]
      simp [fileBlock, ReportRow.text, String.append_assoc]

theorem joined_rowsOfFiles (primary : Option Label) (labels : List (Nat × Label)) :
    ReportRow.joined (printer.rowsOfFiles primary labels) = printer.fileBlocks primary labels := by
  unfold rowsOfFiles fileBlocks
  cases Excerpt.filesOf labels with
  | nil => rfl
  | cons first others =>
      dsimp only
      rw [ReportRow.joined_append, joined_fileRows hplain,
        ReportRow.joined_flatMap fun file _ => joined_fileRows hplain ":::" _ file _]

theorem joined_remarkRows (title : String) (remark : Option String) :
    ReportRow.joined (printer.remarkRows title remark) =
      printer.remark ("= " ++ title) remark := by
  cases remark with
  | none => rfl
  | some text =>
      rw [← String.toList_inj]
      simp [remarkRows, blankRow, ReportRow.text, remark, paint, hplain]

end Printer

theorem Diagnostic.render_eq_rows (diagnostic : Diagnostic) (sources : Sources) :
    diagnostic.render sources false = ReportRow.joined (diagnostic.rows sources) := by
  obtain ⟨printer, hprinter⟩ : ∃ printer : Printer, printer = ⟨sources, false,
    diagnostic.severity, gutterDigits (diagnostic.shownLabels sources)⟩ := ⟨_, rfl⟩
  have hplain : printer.color = false := by rw [hprinter]
  have hgap : ∀ absent : Prop, ∀ [Decidable absent],
      ReportRow.joined (if absent then [] else [printer.blankRow '|' ""]) =
        if absent then "" else printer.emptyGutter := by
    intro absent _
    split
    · rfl
    · rw [ReportRow.joined_cons, Printer.text_blankRow hplain]
      exact String.append_empty
  unfold render rows
  dsimp only
  rw [← shownLabels, ← hprinter]
  simp only [ReportRow.joined_append, ReportRow.joined_cons, ReportRow.joined_nil, hgap,
    Printer.joined_rowsOfFiles hplain, Printer.joined_remarkRows hplain, ReportRow.text]
  simp [String.append_assoc]

/-! ## The column of the marks -/

theorem length_toString_mono {small large : Nat} (hle : small ≤ large) :
    (toString small).length ≤ (toString large).length := by
  have hlength : ∀ n : Nat, (toString n).length = (Nat.toDigits 10 n).length := fun n => by
    rw [Nat.toString_eq_repr, Nat.repr_eq_ofList_toDigits, String.length_ofList]
  rw [hlength, hlength, Nat.length_toDigits_le_iff (by decide) Nat.length_toDigits_pos]
  exact Nat.lt_of_le_of_lt hle
    ((Nat.length_toDigits_le_iff (by decide) Nat.length_toDigits_pos).mp (Nat.le_refl _))

/-- The row ends its line. If it has a mark, this stands at the column, and in front of it stand
blanks and the digits of a line number. -/
def ReportRow.MarkedAt (column : Nat) : ReportRow → Prop
  | headline text => text.toList.getLast? = some '\n'
  | header text => text.toList.getLast? = some '\n'
  | gutter lead mark _ => lead.length = column ∧ (∀ c ∈ lead.toList, c = ' ' ∨ c.isDigit = true) ∧
    (mark = '|' ∨ mark = '=')
  | ending => True

theorem getLast?_feed (text : String) : (text ++ "\n").toList.getLast? = some '\n' := by
  rw [String.toList_append]
  exact List.getLast?_concat

theorem ReportRow.MarkedAt.ends {row : ReportRow} {column : Nat} (h : row.MarkedAt column) :
    row.text.toList.getLast? = some '\n' := by
  cases row with
  | headline text | header text => exact h
  | gutter lead mark rest => exact getLast?_feed _
  | ending => rfl

namespace Printer

variable {printer : Printer}

/-- A number or a padding in front of a mark, with a blank on either side. -/
theorem markedAt_gutter {middle : String} {mark : Char} {column : Nat} (rest : String)
    (hlength : middle.length = column) (hmiddle : ∀ c ∈ middle.toList, c = ' ' ∨ c.isDigit = true)
    (hmark : mark = '|' ∨ mark = '=') :
    (ReportRow.gutter (" " ++ middle ++ " ") mark rest).MarkedAt (column + 2) := by
  refine ⟨?_, fun c hc => ?_, hmark⟩
  · have hblank : " ".length = 1 := rfl
    rw [String.length_append, String.length_append, hblank, hlength]
    omega
  · simp only [String.toList_append, List.mem_append] at hc
    rcases hc with (hc | hc) | hc
    · exact .inl (by simpa using hc)
    · exact hmiddle c hc
    · exact .inl (by simpa using hc)

theorem markedAt_blankRow {mark : Char} (hmark : mark = '|' ∨ mark = '=') (rest : String) :
    (printer.blankRow mark rest).MarkedAt (printer.digits + 2) := by
  refine markedAt_gutter rest ?_ (fun c hc => .inl ?_) hmark
  · rw [padding, String.length_ofList, List.length_replicate]
  · rw [padding, String.toList_ofList] at hc
    exact List.eq_of_mem_replicate hc

theorem markedAt_remarkRows (title : String) (remark : Option String) :
    ∀ row ∈ printer.remarkRows title remark, row.MarkedAt (printer.digits + 2) := by
  cases remark with
  | none => exact fun _ hrow => nomatch hrow
  | some text => exact List.forall_mem_singleton.mpr (markedAt_blankRow (.inr rfl) _)

/-- Line numbers are filled up to the width of the gutter. -/
theorem length_lineNumber {line : Nat} (hroom : (toString line).length ≤ printer.digits) :
    (printer.lineNumber line).length = printer.digits := by
  simp only [lineNumber, String.length_ofList, List.length_append, List.length_replicate,
    String.length_toList]
  omega

theorem blank_or_digit_of_mem_lineNumber {line : Nat} :
    ∀ c ∈ (printer.lineNumber line).toList, c = ' ' ∨ c.isDigit = true := by
  intro c hc
  simp only [lineNumber, String.toList_ofList, List.mem_append] at hc
  rcases hc with hblank | hdigit
  · exact .inl (List.eq_of_mem_replicate hblank)
  · rw [Nat.toString_eq_repr, Nat.repr_eq_ofList_toDigits, String.toList_ofList] at hdigit
    exact .inr (Nat.isDigit_of_mem_toDigits (by decide) (by decide) hdigit)

theorem markedAt_lineRows {labels : List (Nat × Label)} {line : Nat} (file : FileId)
    (hroom : (toString line).length ≤ printer.digits) :
    ∀ row ∈ printer.lineRows file labels line, row.MarkedAt (printer.digits + 2) := by
  refine List.forall_mem_cons.mpr ⟨?_, fun row hrow => ?_⟩
  · exact markedAt_gutter _ (length_lineNumber hroom) blank_or_digit_of_mem_lineNumber (.inl rfl)
  · obtain ⟨label, -, rfl⟩ := List.mem_map.mp hrow
    exact markedAt_blankRow (.inl rfl) _

theorem mem_linesOf {labels : List (Nat × Label)} {line : Nat} :
    line ∈ Excerpt.linesOf labels ↔ line ∈ labels.map Prod.fst := by
  rw [Excerpt.linesOf, List.mem_mergeSort, Excerpt.mem_distinct]

theorem markedAt_fileRows {labels : List (Nat × Label)}
    (hroom : ∀ line ∈ labels.map Prod.fst, (toString line).length ≤ printer.digits)
    (arrow : String) (anchor : Option Label) (file : FileId) :
    ∀ row ∈ printer.fileRows arrow anchor file labels, row.MarkedAt (printer.digits + 2) := by
  cases anchor with
  | none => exact fun _ hrow => nomatch hrow
  | some anchor =>
      have hheader : (printer.header arrow file anchor.range.start).toList.getLast? = some '\n' :=
        getLast?_feed _
      refine List.forall_mem_cons.mpr ⟨hheader, List.forall_mem_cons.mpr
        ⟨markedAt_blankRow (.inl rfl) "", fun row hrow => ?_⟩⟩
      obtain ⟨line, hline, hrow⟩ := List.mem_flatMap.mp hrow
      exact markedAt_lineRows file (hroom line (mem_linesOf.mp hline)) row hrow

theorem markedAt_rowsOfFiles {labels : List (Nat × Label)}
    (hroom : ∀ line ∈ labels.map Prod.fst, (toString line).length ≤ printer.digits)
    (primary : Option Label) :
    ∀ row ∈ printer.rowsOfFiles primary labels, row.MarkedAt (printer.digits + 2) := by
  have hfile : ∀ arrow anchor file, ∀ row ∈ printer.fileRows arrow anchor file
      (Excerpt.labelsIn file labels), row.MarkedAt (printer.digits + 2) :=
    fun arrow anchor file => markedAt_fileRows (fun line hline => hroom line
      (List.map_subset Prod.fst (List.filter_sublist.subset) hline)) arrow anchor file
  intro row hrow
  unfold rowsOfFiles at hrow
  split at hrow
  · cases hrow
  · rcases List.mem_append.mp hrow with hfirst | hother
    · exact hfile _ _ _ row hfirst
    · obtain ⟨file, -, hrow⟩ := List.mem_flatMap.mp hother
      exact hfile _ _ file row hrow

end Printer

/-- There is room for the number of each line that is shown. -/
theorem Diagnostic.length_toString_le_gutterDigits {labels : List (Nat × Label)} :
    ∀ line ∈ labels.map Prod.fst, (toString line).length ≤ gutterDigits labels := by
  intro line hline
  unfold gutterDigits
  split
  case h_1 largest hlargest =>
    exact length_toString_mono ((List.max?_eq_some_iff.mp hlargest).2 line hline)
  case h_2 hnone =>
    rw [List.max?_eq_none_iff.mp hnone] at hline
    cases hline

/-- All marks of a report stand in the column behind the room for the line numbers and a blank on
either side of it. -/
theorem Diagnostic.markedAt_of_mem_rows (diagnostic : Diagnostic) (sources : Sources) :
    ∀ row ∈ diagnostic.rows sources,
      row.MarkedAt (gutterDigits (diagnostic.shownLabels sources) + 2) := by
  have hroom := @length_toString_le_gutterDigits (diagnostic.shownLabels sources)
  intro row hrow
  simp only [rows, List.cons_append, List.mem_cons, List.mem_append, List.append_assoc] at hrow
  rcases hrow with rfl | hfile | hgap | hhelp | hnote | rfl | hnone
  · exact getLast?_feed _
  · exact @Printer.markedAt_rowsOfFiles ⟨_, _, _, _⟩ _ hroom _ row hfile
  · split at hgap
    · cases hgap
    · rw [List.mem_singleton.mp hgap]
      exact @Printer.markedAt_blankRow ⟨_, _, _, _⟩ _ (.inl rfl) ""
  · exact @Printer.markedAt_remarkRows ⟨_, _, _, _⟩ _ _ row hhelp
  · exact @Printer.markedAt_remarkRows ⟨_, _, _, _⟩ _ _ row hnote
  · trivial
  · cases hnone

end BehaviorTree
