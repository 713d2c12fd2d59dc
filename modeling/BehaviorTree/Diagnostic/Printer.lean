import BehaviorTree.Diagnostic
import BehaviorTree.Text.Terminal

/-!
Diagnostics as text with excerpts of the sources. The labels are grouped by file, the files in the
order in which they are first met with primary labels first, and by line; a file has one header,
a line is printed once, and each label underlines its text there. With colors on, the same text has
escape sequences around its parts.
-/

namespace BehaviorTree

def Severity.style : Severity → Style
  | error => .red
  | warning => .yellow
  | info => .green
  | hint => .cyan

namespace Excerpt

def tabWidth : Nat := 4

/-- The columns that a character takes. -/
def columns (c : Char) : Nat := if c = '\t' then tabWidth else 1

def width (chars : List Char) : Nat := total columns chars

/-- A text with its tabs replaced by blanks. -/
def expandTabs (chars : List Char) : List Char :=
  chars.flatMap fun c => if c = '\t' then List.replicate tabWidth ' ' else [c]

theorem length_expandTabs (chars : List Char) : (expandTabs chars).length = width chars := by
  induction chars with
  | nil => rfl
  | cons c rest ih =>
    simp only [expandTabs, width, List.flatMap_cons, List.length_append, total_cons,
      columns] at ih ⊢
    rw [ih]
    split <;> simp

/-- A list without repetitions, each element where it comes first. -/
def distinct {α : Type} [DecidableEq α] : List α → List α
  | [] => []
  | first :: rest => first :: (distinct rest).filter (· ≠ first)

theorem mem_distinct {α : Type} [DecidableEq α] {x : α} {list : List α} :
    x ∈ distinct list ↔ x ∈ list := by
  induction list with
  | nil => rfl
  | cons first rest ih =>
    by_cases same : x = first <;> simp [distinct, same, ih]

theorem nodup_distinct {α : Type} [DecidableEq α] (list : List α) : (distinct list).Nodup := by
  induction list with
  | nil => exact List.nodup_nil
  | cons first rest ih =>
    rw [distinct, List.nodup_cons]
    exact ⟨by simp, ih.filter _⟩

/-- The labels with a registered file, primary ones first. -/
def located (sources : Sources) (labels : List Label) : List Label :=
  let known := labels.filter fun label => (sources.file? label.range.file).isSome
  known.filter Label.isPrimary ++ known.filter fun label => !label.isPrimary

/-- Labels with the lines that they start on. -/
def placed (sources : Sources) (labels : List Label) : List (Nat × Label) :=
  labels.map fun label => ((sources.lineCol label.range.file label.range.start).1, label)

def filesOf (labels : List (Nat × Label)) : List FileId :=
  distinct (labels.map fun entry => entry.2.range.file)

def labelsIn (file : FileId) (labels : List (Nat × Label)) : List (Nat × Label) :=
  labels.filter fun entry => entry.2.range.file = file

/-- The lines that labels start on, in ascending order. -/
def linesOf (labels : List (Nat × Label)) : List Nat :=
  (distinct (labels.map Prod.fst)).mergeSort fun left right => left ≤ right

/-- The labels that start on a line, by their start. -/
def labelsOn (line : Nat) (labels : List (Nat × Label)) : List Label :=
  ((labels.filter fun entry => entry.1 = line).map Prod.snd).mergeSort fun left right =>
    left.range.start ≤ right.range.start

/-- The column where the underline of a label on a line starts, and its length. It stays on the
line, and is one mark long at least. -/
def underline (sources : Sources) (line : Nat) (label : Label) : Nat × Nat :=
  let file := label.range.file
  let lineStart := (sources.lineStart? file line).getD 0
  let text := (sources.lineText? file line).getD []
  let lead := takeBytes (label.range.start - lineStart) text
  let marked := takeBytes (label.range.stop - (lineStart + byteLength lead))
    (text.drop lead.length)
  (width lead, max 1 (width marked))

end Excerpt

/-- How a diagnostic is written: with colors or not, and with gutters of a width. -/
structure Printer where
  sources : Sources
  color : Bool
  severity : Severity
  /-- The number of digits that line numbers have room for. -/
  digits : Nat

namespace Printer

def padding (printer : Printer) : String := String.ofList (List.replicate printer.digits ' ')

def bar (printer : Printer) : String := paint printer.color [.bold, .blue] "|"

/-- A line of the gutter with nothing behind it. -/
def emptyGutter (printer : Printer) : String := " " ++ printer.padding ++ " " ++ printer.bar ++ "\n"

/-- The header of a file: the place of the label that stands for it. -/
def header (printer : Printer) (arrow : String) (file : FileId) (offset : Nat) : String :=
  let (line, column) := printer.sources.lineCol file offset
  printer.padding ++ " " ++ paint printer.color [.bold, .blue] arrow ++ " " ++
    printer.sources.displayPath file ++ ":" ++ toString line ++ ":" ++ toString column ++ "\n"

/-- A line number, aligned to the right. -/
def lineNumber (printer : Printer) (line : Nat) : String :=
  let digits := (toString line).toList
  String.ofList (List.replicate (printer.digits - digits.length) ' ' ++ digits)

def sourceLine (printer : Printer) (file : FileId) (line : Nat) : String :=
  let text := Excerpt.expandTabs ((printer.sources.lineText? file line).getD [])
  " " ++ paint printer.color [.bold, .blue] (printer.lineNumber line) ++ " " ++ printer.bar ++
    (if text = [] then "" else " " ++ String.ofList text) ++ "\n"

/-- The underline of a label, with its message behind it. -/
def underline (printer : Printer) (line : Nat) (label : Label) : String :=
  let (column, length) := Excerpt.underline printer.sources line label
  let (mark, style) := if label.isPrimary then ('^', printer.severity.style) else ('-', .blue)
  let marks := String.ofList (List.replicate column ' ' ++ List.replicate length mark)
  let text := if label.message = "" then marks else marks ++ " " ++ label.message
  " " ++ printer.padding ++ " " ++ printer.bar ++ " " ++ paint printer.color [.bold, style] text ++
    "\n"

/-- A line of a file and the underlines of the labels on it. -/
def lineBlock (printer : Printer) (file : FileId) (labels : List (Nat × Label)) (line : Nat) :
    String :=
  printer.sourceLine file line ++
    String.join ((Excerpt.labelsOn line labels).map (printer.underline line))

/-- The label that stands for a file in its header: the first one on its first line. -/
def anchor? (labels : List (Nat × Label)) : Option Label :=
  (Excerpt.linesOf labels).head?.bind fun line => (Excerpt.labelsOn line labels).head?

/-- The header and the lines of a file. -/
def fileBlock (printer : Printer) (arrow : String) (anchor : Option Label) (file : FileId)
    (labels : List (Nat × Label)) : String :=
  match anchor with
  | none => ""
  | some anchor =>
    printer.header arrow file anchor.range.start ++ printer.emptyGutter ++
      String.join ((Excerpt.linesOf labels).map (printer.lineBlock file labels))

/-- The blocks of all files. The header of the first file shows the first primary label. -/
def fileBlocks (printer : Printer) (primary : Option Label) (labels : List (Nat × Label)) :
    String :=
  match Excerpt.filesOf labels with
  | [] => ""
  | first :: others =>
    let firstLabels := Excerpt.labelsIn first labels
    printer.fileBlock "-->" (primary <|> anchor? firstLabels) first firstLabels ++
      String.join (others.map fun file =>
        let labels := Excerpt.labelsIn file labels
        printer.fileBlock ":::" (anchor? labels) file labels)

def remark (printer : Printer) (title : String) : Option String → String
  | none => ""
  | some text =>
    " " ++ printer.padding ++ " " ++ paint printer.color [.bold] title ++ " " ++ text ++ "\n"

end Printer

namespace Diagnostic

/-- The first line: severity, code and message. -/
def headline (diagnostic : Diagnostic) (color : Bool) : String :=
  let code := match diagnostic.code with
    | some code => "[" ++ code ++ "]"
    | none => ""
  paint color [.bold, diagnostic.severity.style] (diagnostic.severity.name ++ code) ++
    paint color [.bold] (": " ++ diagnostic.message) ++ "\n"

/-- The number of digits of the largest line number that is shown. -/
def gutterDigits (labels : List (Nat × Label)) : Nat :=
  match (labels.map Prod.fst).max? with
  | some line => (toString line).length
  | none => 1

/-- A diagnostic as text, with an empty line at the end. -/
def render (diagnostic : Diagnostic) (sources : Sources) (color : Bool) : String :=
  let labels := Excerpt.placed sources (Excerpt.located sources diagnostic.labels)
  let printer : Printer := ⟨sources, color, diagnostic.severity, gutterDigits labels⟩
  let remarks := printer.remark "= help:" diagnostic.help ++ printer.remark "= note:" diagnostic.note
  diagnostic.headline color ++ printer.fileBlocks diagnostic.primaryLabel? labels ++
    (if diagnostic.help = none ∧ diagnostic.note = none ∨ labels.isEmpty then "" else
      printer.emptyGutter) ++
    remarks ++ "\n"

end Diagnostic

/-- All diagnostics as text, in display order. -/
def Diagnostics.render (diagnostics : List Diagnostic) (sources : Sources) (color : Bool) : String :=
  String.join ((inDisplayOrder diagnostics).map fun diagnostic => diagnostic.render sources color)

end BehaviorTree
