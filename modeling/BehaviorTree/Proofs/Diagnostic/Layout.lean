import Mathlib.Data.List.Induction
import Mathlib.Data.List.Pairwise
import BehaviorTree.Diagnostic.Printer
import BehaviorTree.Proofs.Diagnostic.Gutters

/-!
# Parts of a report

The labels of a diagnostic are grouped in one pass: each label goes behind those of its file and its
line, where a file or a line that is new comes last, and the groups are sorted when all labels are
in. A report is made from these groups. Its parts are named: the headers with the places that they
show, the lines of the sources and the underlines. A part is written as fragments, some of them
painted, and the report is the text of these fragments, with colors and without.
-/

namespace BehaviorTree.Excerpt

/-! ## Sorting by a key -/

section SortByKey

variable {α : Type} (key : α → Nat)

theorem atMost_trans (a b c : α) (hab : decide (key a ≤ key b) = true)
    (hbc : decide (key b ≤ key c) = true) : decide (key a ≤ key c) = true := by
  simp only [decide_eq_true_eq] at hab hbc ⊢
  exact Nat.le_trans hab hbc

theorem atMost_total (a b : α) : (decide (key a ≤ key b) || decide (key b ≤ key a)) = true := by
  simp only [Bool.or_eq_true, decide_eq_true_eq]
  exact Nat.le_total _ _

variable (list : List α)

theorem pairwise_sortByKey :
    (list.mergeSort fun left right => key left ≤ key right).Pairwise (key · ≤ key ·) :=
  (List.pairwise_mergeSort (atMost_trans key) (atMost_total key) list).imp of_decide_eq_true

/-- Elements with the same key keep their order. -/
theorem filter_sortByKey (k : Nat) :
    (list.mergeSort fun left right => key left ≤ key right).filter (key · = k) =
      list.filter (key · = k) := by
  have hties : (list.filter (key · = k)).Pairwise fun left right =>
      decide (key left ≤ key right) = true := by
    refine List.pairwise_of_forall_mem_list fun left hleft right hright => ?_
    have hl := of_decide_eq_true (List.mem_filter.mp hleft).2
    have hr := of_decide_eq_true (List.mem_filter.mp hright).2
    exact decide_eq_true (by omega)
  have hkept := (List.sublist_mergeSort (atMost_trans key) (atMost_total key) hties
    List.filter_sublist).filter (key · = k)
  simp only [List.filter_filter, Bool.and_self] at hkept
  have hperm := (List.mergeSort_perm list fun left right => key left ≤ key right).filter (key · = k)
  exact (hkept.eq_of_length hperm.length_eq.symm).symm

end SortByKey

/-- A list in which nothing with a property stands behind something without it. -/
theorem filter_append_filter_not {α : Type} {p : α → Bool} {list : List α}
    (hsorted : list.Pairwise fun left right => p right = true → p left = true) :
    list.filter p ++ list.filter (fun x => !p x) = list := by
  induction hsorted with
  | nil => rfl
  | @cons x rest hx _ ih =>
      cases hp : p x with
      | true => simp [hp, ih]
      | false =>
          have hnone : rest.filter p = [] :=
            List.filter_eq_nil_iff.mpr fun y hy htrue => by simp [hx y hy htrue] at hp
          have hall : rest.filter (fun y => !p y) = rest := by simpa [hnone] using ih
          simp [hp, hnone, hall]

/-! ## The labels that are shown -/

def isKnown (sources : Sources) (label : Label) : Bool :=
  (sources.file? label.range.file).isSome

/-- The labels with a registered file, sorted by style. -/
def sortedByStyle (sources : Sources) (labels : List Label) : List Label :=
  (labels.filter (isKnown sources)).mergeSort fun left right =>
    (!left.isPrimary).toNat ≤ (!right.isPrimary).toNat

theorem sortedByStyle_eq (sources : Sources) (labels : List Label) :
    sortedByStyle sources labels = located sources labels := by
  obtain ⟨known, hknown⟩ : ∃ known, known = labels.filter (isKnown sources) := ⟨_, rfl⟩
  obtain ⟨rank, hrank⟩ : ∃ rank : Label → Nat, rank = fun label => (!label.isPrimary).toNat :=
    ⟨_, rfl⟩
  have hprimary : ∀ label : Label, decide (rank label = 0) = label.isPrimary := by
    intro label
    cases hp : label.isPrimary <;> simp [hrank, hp]
  have hsecondary : ∀ label : Label, decide (rank label = 1) = !label.isPrimary := by
    intro label
    cases hp : label.isPrimary <;> simp [hrank, hp]
  have hsorted := pairwise_sortByKey rank known
  have hfirst := filter_sortByKey rank known 0
  have hlast := filter_sortByKey rank known 1
  simp only [hprimary] at hfirst
  simp only [hsecondary] at hlast
  have hsplit : (known.mergeSort fun left right => rank left ≤ rank right).Pairwise
      fun left right => right.isPrimary = true → left.isPrimary = true := by
    refine hsorted.imp fun {left right} hle hright => ?_
    rw [← hprimary, decide_eq_true_eq] at hright ⊢
    omega
  have hparts := filter_append_filter_not hsplit
  rw [hfirst, hlast, hknown, hrank] at hparts
  exact hparts.symm

/-! ## Grouping -/

section Groups

variable {κ α β : Type} [DecidableEq κ]

/-- Changes the value of a key. A new key comes last, with the change of a start value. -/
def changeAt (key : κ) (start : β) (change : β → β) : List (κ × β) → List (κ × β)
  | [] => [(key, change start)]
  | entry :: rest =>
    if entry.1 = key then (entry.1, change entry.2) :: rest
    else entry :: changeAt key start change rest

theorem changeAt_map (key : κ) (start : β) (change : β → β) (value : κ → β) {keys : List κ}
    (hnodup : keys.Nodup) : changeAt key start change (keys.map fun k => (k, value k)) =
      if key ∈ keys then keys.map fun k => (k, if k = key then change (value k) else value k)
      else (keys.map fun k => (k, value k)) ++ [(key, change start)] := by
  induction hnodup with
  | nil => rfl
  | @cons first rest hfirst _ ih =>
      rw [List.map_cons, changeAt]
      by_cases hkey : first = key
      · have hrest : rest.map (fun k => (k, if k = key then change (value k) else value k)) =
            rest.map fun k => (k, value k) :=
          List.map_congr_left fun k hk => by rw [if_neg fun h => hfirst k hk (hkey.trans h.symm)]
        simp [hkey, ← hrest]
      · have hmem : key ∈ first :: rest ↔ key ∈ rest := by simp [Ne.symm hkey]
        simp only [hkey, if_false, ih, hmem, List.map_cons]
        split <;> rfl

theorem distinct_concat (list : List κ) (x : κ) :
    distinct (list ++ [x]) = if x ∈ list then distinct list else distinct list ++ [x] := by
  induction list with
  | nil => rfl
  | cons first rest ih =>
      rw [List.cons_append, distinct, ih, distinct]
      by_cases hrest : x ∈ rest
      · simp [hrest]
      · rw [if_neg hrest, List.filter_append]
        by_cases hfirst : x = first <;> simp [hrest, hfirst]

/-- Grouping in one pass: for each key, in the order of first use, what its elements make of the
start value. -/
theorem foldl_changeAt (key : α → κ) (start : β) (add : α → β → β) (list : List α) :
    list.foldl (fun groups x => changeAt (key x) start (add x) groups) [] =
      (distinct (list.map key)).map fun k =>
        (k, (list.filter (key · = k)).foldl (fun value x => add x value) start) := by
  induction list using List.reverseRecOn with
  | nil => rfl
  | append_singleton list x ih =>
      rw [List.foldl_append, ih, List.foldl_cons, List.foldl_nil,
        changeAt_map _ _ _ _ (nodup_distinct _), List.map_append, List.map_singleton,
        distinct_concat]
      simp only [mem_distinct]
      have hother : ∀ k, key x ≠ k →
          (list ++ [x]).filter (key · = k) = list.filter (key · = k) := by
        intro k hk
        simp [hk]
      split
      case isTrue =>
        refine List.map_congr_left fun k _ => ?_
        by_cases hk : key x = k
        · simp [hk]
        · rw [if_neg (Ne.symm hk), hother k hk]
      case isFalse hnew =>
        have hnone : list.filter (key · = key x) = [] :=
          List.filter_eq_nil_iff.mpr fun y hy hkey =>
            hnew (List.mem_map.mpr ⟨y, hy, of_decide_eq_true hkey⟩)
        rw [List.map_append, List.map_singleton]
        congr 1
        · refine List.map_congr_left fun k hk => ?_
          rw [hother k fun h => hnew (h ▸ mem_distinct.mp hk)]
        · simp [hnone]

end Groups

/-- The labels that start on a line of a file. -/
abbrev LineGroup := Nat × List Label

/-- The lines of a file with labels on them. -/
abbrev FileGroup := FileId × List LineGroup

def fileOf (label : Label) : FileId := label.range.file

/-- The line that a label starts on. -/
def lineOf (sources : Sources) (label : Label) : Nat :=
  (sources.lineCol label.range.file label.range.start).1

/-- Adds a label to the group of its file and its line. -/
def addLabel (sources : Sources) (groups : List FileGroup) (label : Label) : List FileGroup :=
  changeAt (fileOf label) [] (changeAt (lineOf sources label) [] (· ++ [label])) groups

/-- The lines of a file by their numbers, and the labels of a line by their starts. -/
def sortLines (lines : List LineGroup) : List LineGroup :=
  (lines.mergeSort fun left right => left.1 ≤ right.1).map fun line =>
    (line.1, line.2.mergeSort fun left right => left.range.start ≤ right.range.start)

/-- The labels with a registered file by their files and lines, in the order in which they are
shown. -/
def groupLabels (sources : Sources) (labels : List Label) : List FileGroup :=
  ((sortedByStyle sources labels).foldl (addLabel sources) []).map fun group =>
    (group.1, sortLines group.2)

/-- The lines of one file that one pass makes, when they are sorted. -/
theorem sortLines_foldl (own : List (Nat × Label)) :
    sortLines (own.foldl (fun lines entry => changeAt entry.1 [] (· ++ [entry.2]) lines) []) =
      (linesOf own).map fun line => (line, labelsOn line own) := by
  obtain ⟨group, hgroup⟩ : ∃ group : Nat → LineGroup,
      group = fun line => (line, (own.filter (·.1 = line)).map Prod.snd) := ⟨_, rfl⟩
  have hlines : own.foldl (fun lines entry => changeAt entry.1 [] (· ++ [entry.2]) lines) [] =
      (distinct (own.map Prod.fst)).map group := by
    rw [foldl_changeAt Prod.fst [] (fun entry labels => labels ++ [entry.2]) own, hgroup]
    refine List.map_congr_left fun line _ => ?_
    rw [List.foldl_append_eq_append, List.nil_append, ← List.flatMap_def, ← List.map_eq_flatMap]
  have hsort : (linesOf own).map group = ((distinct (own.map Prod.fst)).map group).mergeSort
      fun left right => left.1 ≤ right.1 :=
    List.map_mergeSort fun _ _ _ _ => by rw [hgroup]
  rw [sortLines, hlines, ← hsort, List.map_map, hgroup]
  rfl

/-- The groups of one pass are those that a report is made from. -/
theorem groupLabels_eq (sources : Sources) (labels : List Label) :
    groupLabels sources labels =
      let shown := placed sources (located sources labels)
      (filesOf shown).map fun file =>
        (file, (linesOf (labelsIn file shown)).map fun line =>
          (line, labelsOn line (labelsIn file shown))) := by
  obtain ⟨shown, hshown⟩ : ∃ shown, shown = placed sources (located sources labels) := ⟨_, rfl⟩
  have hfold : (located sources labels).foldl (addLabel sources) [] =
      shown.foldl (fun groups entry => changeAt entry.2.range.file []
        (changeAt entry.1 [] (· ++ [entry.2])) groups) [] := by
    rw [hshown, placed, List.foldl_map]
    rfl
  rw [groupLabels, sortedByStyle_eq, hfold,
    foldl_changeAt (fun entry : Nat × Label => entry.2.range.file) []
      (fun entry => changeAt entry.1 [] (· ++ [entry.2])) shown, List.map_map, ← hshown]
  exact List.map_congr_left fun file _ =>
    congrArg (Prod.mk file) (sortLines_foldl (labelsIn file shown))

/-! ### Groups by what is in them -/

/-- The lines that some labels start on, in ascending order. -/
def linesBy (sources : Sources) (labels : List Label) : List Nat :=
  (distinct (labels.map (lineOf sources))).mergeSort fun left right => left ≤ right

/-- The labels that start on a line, by their starts. -/
def labelsBy (sources : Sources) (labels : List Label) (line : Nat) : List Label :=
  (labels.filter (lineOf sources · = line)).mergeSort fun left right =>
    left.range.start ≤ right.range.start

theorem groupLabels_eq_map (sources : Sources) (labels : List Label) :
    groupLabels sources labels =
      (distinct ((located sources labels).map fileOf)).map fun file =>
        let own := (located sources labels).filter (fileOf · = file)
        (file, (linesBy sources own).map fun line => (line, labelsBy sources own line)) := by
  obtain ⟨shown, hshown⟩ : ∃ shown, shown = located sources labels := ⟨_, rfl⟩
  have hown : ∀ file, labelsIn file (placed sources shown) =
      placed sources (shown.filter (fileOf · = file)) := by
    intro file
    rw [labelsIn, placed, List.filter_map]
    rfl
  have hlines : ∀ own, linesOf (placed sources own) = linesBy sources own := by
    intro own
    rw [linesOf, placed, List.map_map]
    rfl
  have hlabels : ∀ own line, labelsOn line (placed sources own) = labelsBy sources own line := by
    intro own line
    rw [labelsOn, placed, List.filter_map, List.map_map, labelsBy]
    exact congrArg (List.mergeSort · _) (List.map_id _)
  rw [groupLabels_eq, ← hshown]
  simp only [filesOf, hown, hlines, hlabels]
  rw [placed, List.map_map]
  rfl

end BehaviorTree.Excerpt

namespace BehaviorTree

/-! ## Fragments and parts -/

/-- A text in some styles, or one that is written as it is. -/
inductive Fragment
  | plain (text : String)
  | painted (styles : List Style) (text : String)
  deriving DecidableEq

def Fragment.shown (color : Bool) : Fragment → String
  | plain text => text
  | painted styles text => paint color styles text

/-- The text of some fragments. -/
def Fragment.joined (color : Bool) (fragments : List Fragment) : String :=
  String.join (fragments.map (shown color))

@[simp]
theorem Fragment.joined_nil (color : Bool) : joined color [] = "" := rfl

@[simp]
theorem Fragment.joined_cons (color : Bool) (fragment : Fragment) (rest : List Fragment) :
    joined color (fragment :: rest) = fragment.shown color ++ joined color rest := by
  simp [joined, String.join_cons]

@[simp]
theorem Fragment.joined_append (color : Bool) (fragments more : List Fragment) :
    joined color (fragments ++ more) = joined color fragments ++ joined color more := by
  simp [joined, String.join_append]

inductive ReportPart
  /-- The severity, the code and the message. -/
  | headline (code : Option String) (message : String)
  /-- A file, with a line and a column in it. -/
  | header (arrow : String) (file : FileId) (place : Nat × Nat)
  /-- A line of the gutter with nothing behind it. -/
  | gap
  | sourceLine (file : FileId) (line : Nat)
  | underline (line : Nat) (label : Label)
  | remark (title text : String)
  /-- The empty line at the end. -/
  | ending
  deriving DecidableEq

namespace ReportPart

def bar : Fragment := .painted [.bold, .blue] "|"

/-- How a part is written. It does not depend on whether the printer uses colors. -/
def fragments (printer : Printer) : ReportPart → List Fragment
  | headline code message =>
    let code := match code with
      | some code => "[" ++ code ++ "]"
      | none => ""
    [.painted [.bold, printer.severity.style] (printer.severity.name ++ code),
      .painted [.bold] (": " ++ message), .plain "\n"]
  | header arrow file place =>
    [.plain (printer.padding ++ " "), .painted [.bold, .blue] arrow,
      .plain (" " ++ printer.sources.displayPath file ++ ":" ++ toString place.1 ++ ":" ++
        toString place.2 ++ "\n")]
  | gap => [.plain (" " ++ printer.padding ++ " "), bar, .plain "\n"]
  | sourceLine file line =>
    let text := Excerpt.expandTabs ((printer.sources.lineText? file line).getD [])
    [.plain " ", .painted [.bold, .blue] (printer.lineNumber line), .plain " ", bar,
      .plain ((if text = [] then "" else " " ++ String.ofList text) ++ "\n")]
  | underline line label =>
    let (column, length) := Excerpt.underline printer.sources line label
    let (mark, style) := if label.isPrimary then ('^', printer.severity.style) else ('-', .blue)
    let marks := String.ofList (List.replicate column ' ' ++ List.replicate length mark)
    [.plain (" " ++ printer.padding ++ " "), bar, .plain " ",
      .painted [.bold, style] (if label.message = "" then marks else marks ++ " " ++ label.message),
      .plain "\n"]
  | remark title text =>
    [.plain (" " ++ printer.padding ++ " "), .painted [.bold] title, .plain (" " ++ text ++ "\n")]
  | ending => [.plain "\n"]

/-- The text of some parts. -/
def written (printer : Printer) (parts : List ReportPart) : String :=
  Fragment.joined printer.color (parts.flatMap (fragments printer))

@[simp]
theorem written_nil (printer : Printer) : written printer [] = "" := rfl

theorem written_cons (printer : Printer) (part : ReportPart) (parts : List ReportPart) :
    written printer (part :: parts) =
      Fragment.joined printer.color (part.fragments printer) ++ written printer parts := by
  simp [written]

@[simp]
theorem written_append (printer : Printer) (parts more : List ReportPart) :
    written printer (parts ++ more) = written printer parts ++ written printer more := by
  simp [written]

theorem written_flatMap {α : Type} {printer : Printer} {list : List α}
    {parts : α → List ReportPart} {block : α → String}
    (hblock : ∀ x ∈ list, written printer (parts x) = block x) :
    written printer (list.flatMap parts) = String.join (list.map block) := by
  induction list with
  | nil => rfl
  | cons x list ih =>
      rw [List.flatMap_cons, written_append, List.map_cons, String.join_cons,
        hblock x List.mem_cons_self, ih fun y hy => hblock y (List.mem_cons_of_mem x hy)]

end ReportPart

/-! ## The parts of a report -/

namespace Excerpt

/-- The first label on the first line of a file. -/
def firstLabel? (lines : List LineGroup) : Option Label :=
  lines.head?.bind fun line => line.2.head?

def lineParts (file : FileId) (line : LineGroup) : List ReportPart :=
  .sourceLine file line.1 :: line.2.map (.underline line.1)

/-- The parts of a file. Its header shows where a label starts, read in the text of this file. -/
def fileParts (sources : Sources) (arrow : String) (anchor : Option Label) (group : FileGroup) :
    List ReportPart :=
  match anchor with
  | none => []
  | some anchor =>
    .header arrow group.1 (sources.lineCol group.1 anchor.range.start) :: .gap ::
      group.2.flatMap (lineParts group.1)

/-- The parts of all files. The header of the first one shows the primary label, if there is one. -/
def groupParts (sources : Sources) (primary : Option Label) : List FileGroup → List ReportPart
  | [] => []
  | first :: others =>
    fileParts sources "-->" (primary <|> firstLabel? first.2) first ++
      others.flatMap fun group => fileParts sources ":::" (firstLabel? group.2) group

end Excerpt

namespace Diagnostic

def remarkParts (title : String) (text : Option String) : List ReportPart :=
  text.toList.map (.remark title)

def parts (diagnostic : Diagnostic) (sources : Sources) : List ReportPart :=
  let groups := Excerpt.groupLabels sources diagnostic.labels
  .headline diagnostic.code diagnostic.message ::
    Excerpt.groupParts sources diagnostic.primaryLabel? groups ++
    (if (diagnostic.help.isSome || diagnostic.note.isSome) && !groups.isEmpty then [.gap] else []) ++
    remarkParts "= help:" diagnostic.help ++ remarkParts "= note:" diagnostic.note ++ [.ending]

def printer (diagnostic : Diagnostic) (sources : Sources) (color : Bool) : Printer :=
  ⟨sources, color, diagnostic.severity, gutterDigits (diagnostic.shownLabels sources)⟩

/-- How a report is written, whether colors are used or not. -/
def fragments (diagnostic : Diagnostic) (sources : Sources) : List Fragment :=
  (diagnostic.parts sources).flatMap (ReportPart.fragments (diagnostic.printer sources false))

end Diagnostic

/-! ## A report is its parts -/

namespace ReportPart

variable (printer : Printer)

theorem joined_headline {diagnostic : Diagnostic}
    (hseverity : printer.severity = diagnostic.severity) :
    Fragment.joined printer.color
        ((headline diagnostic.code diagnostic.message).fragments printer) =
      diagnostic.headline printer.color := by
  cases hcode : diagnostic.code <;>
    simp [fragments, Fragment.shown, Diagnostic.headline, hcode, hseverity, String.append_assoc]

theorem joined_header (arrow : String) (file : FileId) (offset : Nat) :
    Fragment.joined printer.color
        ((header arrow file (printer.sources.lineCol file offset)).fragments printer) =
      printer.header arrow file offset := by
  simp [fragments, Fragment.shown, Printer.header, String.append_assoc]

theorem joined_gap :
    Fragment.joined printer.color (gap.fragments printer) = printer.emptyGutter := by
  simp [fragments, Fragment.shown, bar, Printer.emptyGutter, Printer.bar, String.append_assoc]

theorem joined_sourceLine (file : FileId) (line : Nat) :
    Fragment.joined printer.color ((sourceLine file line).fragments printer) =
      printer.sourceLine file line := by
  simp [fragments, Fragment.shown, bar, Printer.sourceLine, Printer.bar, String.append_assoc]

theorem joined_underline (line : Nat) (label : Label) :
    Fragment.joined printer.color ((underline line label).fragments printer) =
      printer.underline line label := by
  simp [fragments, Fragment.shown, bar, Printer.underline, Printer.bar, String.append_assoc]

theorem written_lineParts (file : FileId) (line : Nat) (own : List (Nat × Label)) :
    written printer (Excerpt.lineParts file (line, Excerpt.labelsOn line own)) =
      printer.lineBlock file own line := by
  have hlabels : ∀ labels : List Label,
      written printer (labels.map (.underline line)) =
        String.join (labels.map (printer.underline line)) := by
    intro labels
    rw [List.map_eq_flatMap]
    refine written_flatMap fun label _ => ?_
    rw [written_cons, joined_underline, written_nil, String.append_empty]
  rw [Excerpt.lineParts, written_cons, joined_sourceLine, hlabels, Printer.lineBlock]

theorem written_fileParts (arrow : String) (anchor : Option Label) (file : FileId)
    (own : List (Nat × Label)) :
    written printer (Excerpt.fileParts printer.sources arrow anchor
        (file, (Excerpt.linesOf own).map fun line => (line, Excerpt.labelsOn line own))) =
      printer.fileBlock arrow anchor file own := by
  cases anchor with
  | none => rfl
  | some anchor =>
      rw [Excerpt.fileParts, written_cons, written_cons, joined_header, joined_gap,
        List.flatMap_map, written_flatMap fun line _ => written_lineParts printer file line own,
        Printer.fileBlock, String.append_assoc]

theorem written_groupParts (primary : Option Label) (labels : List Label) :
    written printer (Excerpt.groupParts printer.sources primary
        (Excerpt.groupLabels printer.sources labels)) =
      printer.fileBlocks primary
        (Excerpt.placed printer.sources (Excerpt.located printer.sources labels)) := by
  have hanchor : ∀ own : List (Nat × Label),
      Excerpt.firstLabel? ((Excerpt.linesOf own).map fun line =>
        (line, Excerpt.labelsOn line own)) = Printer.anchor? own := by
    intro own
    rw [Excerpt.firstLabel?, List.head?_map, Option.bind_map, Printer.anchor?]
    rfl
  rw [Excerpt.groupLabels_eq, Printer.fileBlocks]
  dsimp only
  generalize Excerpt.filesOf (Excerpt.placed printer.sources
    (Excerpt.located printer.sources labels)) = files
  cases files with
  | nil => rfl
  | cons first others =>
      rw [List.map_cons, Excerpt.groupParts, hanchor, written_append, written_fileParts,
        List.flatMap_map]
      congr 1
      refine written_flatMap fun file _ => ?_
      rw [hanchor, written_fileParts]

theorem written_remarkParts (title : String) (text : Option String) :
    written printer (Diagnostic.remarkParts title text) = printer.remark title text := by
  cases text with
  | none => rfl
  | some text =>
      simp [Diagnostic.remarkParts, written_cons, fragments, Fragment.shown, Printer.remark,
        String.append_assoc]

end ReportPart

theorem Excerpt.isEmpty_groupLabels (sources : Sources) (labels : List Label) :
    (groupLabels sources labels).isEmpty = (placed sources (located sources labels)).isEmpty := by
  rw [groupLabels_eq]
  cases placed sources (located sources labels) with
  | nil => rfl
  | cons entry rest => rfl

/-- **A report is its parts**, with colors and without. -/
theorem Diagnostic.render_eq_written (diagnostic : Diagnostic) (sources : Sources) (color : Bool) :
    diagnostic.render sources color =
      ReportPart.written (diagnostic.printer sources color) (diagnostic.parts sources) := by
  obtain ⟨printer, hprinter⟩ : ∃ printer, printer = diagnostic.printer sources color := ⟨_, rfl⟩
  have hsources : printer.sources = sources := by rw [hprinter, Diagnostic.printer]
  have hcolor : printer.color = color := by rw [hprinter, Diagnostic.printer]
  have hseverity : printer.severity = diagnostic.severity := by rw [hprinter, Diagnostic.printer]
  have hhead := ReportPart.joined_headline printer hseverity
  have hfiles := ReportPart.written_groupParts printer diagnostic.primaryLabel? diagnostic.labels
  have hgap : ReportPart.written printer
      (if (diagnostic.help.isSome || diagnostic.note.isSome) &&
        !(Excerpt.groupLabels sources diagnostic.labels).isEmpty then [.gap] else []) =
      if diagnostic.help = none ∧ diagnostic.note = none ∨
        (diagnostic.shownLabels sources).isEmpty then "" else printer.emptyGutter := by
    rw [Excerpt.isEmpty_groupLabels, ← shownLabels]
    cases diagnostic.help <;> cases diagnostic.note <;>
      cases (diagnostic.shownLabels sources).isEmpty <;>
      simp [ReportPart.written_cons, ReportPart.joined_gap]
  have hend : Fragment.joined printer.color (ReportPart.ending.fragments printer) = "\n" := by
    simp [ReportPart.fragments, Fragment.shown]
  rw [hsources, ← shownLabels] at hfiles
  rw [hcolor] at hhead hend
  unfold render parts
  dsimp only
  rw [← hprinter, ← shownLabels, show (⟨sources, color, diagnostic.severity,
    gutterDigits (diagnostic.shownLabels sources)⟩ : Printer) = printer from hprinter.symm]
  simp only [ReportPart.written_cons, ReportPart.written_append, ReportPart.written_nil, hhead,
    hfiles, hgap, hend, hcolor, ReportPart.written_remarkParts, String.append_assoc,
    String.append_empty]

end BehaviorTree
