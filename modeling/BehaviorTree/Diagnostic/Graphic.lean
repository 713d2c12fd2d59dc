import BehaviorTree.Diagnostic

/-!
What a graphical display of a diagnostic needs: one source at most, the labels in it, and help and
note as one text. The drawing itself is left to the display, and nothing is known of it here.
-/

namespace BehaviorTree

structure GraphicLabel where
  text : Option String
  offset : Nat
  length : Nat
  isPrimary : Bool
  deriving DecidableEq

/-- How a graphical display ranks a diagnostic. -/
inductive GraphicSeverity
  | error
  | warning
  | advice
  deriving DecidableEq

namespace GraphicSeverity

def name : GraphicSeverity → String
  | error => "Error"
  | warning => "Warning"
  | advice => "Advice"

def ofSeverity : Severity → GraphicSeverity
  | .error => error
  | .warning => warning
  | .info | .hint => advice

end GraphicSeverity

/-- A text to draw labels into, and the name that it is shown under. -/
structure GraphicSource where
  name : String
  text : String
  deriving DecidableEq

structure GraphicReport where
  message : String
  code : Option String
  severity : GraphicSeverity
  labels : List GraphicLabel
  help : Option String
  source : Option GraphicSource
  deriving DecidableEq

def GraphicReport.hasSource (report : GraphicReport) : Bool := report.source.isSome

namespace Diagnostic

def graphicLabel (label : Label) : GraphicLabel where
  text := if label.message = "" then none else some label.message
  offset := label.range.start
  length := label.range.length
  isPrimary := label.isPrimary

/-- Help and note, one a line. -/
def graphicHelp : Option String → Option String → Option String
  | some help, some note => some (help ++ "\nnote: " ++ note)
  | some help, none => some help
  | none, some note => some ("note: " ++ note)
  | none, none => none

/-- Labels outside the file of the primary one are dropped. -/
def graphic (diagnostic : Diagnostic) (sources : Sources) : GraphicReport :=
  let file := diagnostic.primaryRange.file
  let source := (sources.file? file).map fun source => ⟨sources.displayPath file, source.text⟩
  { message := diagnostic.message
    code := diagnostic.code
    severity := .ofSeverity diagnostic.severity
    labels := (diagnostic.labels.filter fun label =>
      source.isSome && label.range.file = file).map graphicLabel
    help := graphicHelp diagnostic.help diagnostic.note
    source }

end Diagnostic

def Diagnostics.graphics (diagnostics : List Diagnostic) (sources : Sources) : List GraphicReport :=
  (inDisplayOrder diagnostics).map fun diagnostic => diagnostic.graphic sources

/-- What draws reports, in color or not. It may go by the terminal that it draws on. -/
structure GraphicDisplay where
  draw (color : Bool) (report : GraphicReport) : String

namespace GraphicDisplay

/-- A display that knows no drawings: the severity and the message, and the help below. -/
def plain : GraphicDisplay where
  draw _ report :=
    report.severity.name ++ ": " ++ report.message ++ ((report.help.map ("\n" ++ ·)).getD "")

/-- All diagnostics as they are drawn, in display order, each followed by a line break. -/
def render (display : GraphicDisplay) (diagnostics : List Diagnostic) (sources : Sources)
    (color : Bool) : String :=
  String.join ((Diagnostics.graphics diagnostics sources).map fun report =>
    display.draw color report ++ "\n")

end GraphicDisplay

end BehaviorTree
