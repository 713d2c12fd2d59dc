import BehaviorTree.Source

/-!
Diagnostics: what is wrong, where, and how it may be mended. A list of them is kept in the order
of reporting; they are shown by file and start of the primary label, ties in the order of reporting
and those without a location last.
-/

namespace BehaviorTree

/-- A piece of source text or a path as messages show it. -/
def quoted (text : String) : String := "`" ++ text ++ "`"

inductive Severity
  | error
  | warning
  | info
  | hint
  deriving DecidableEq

def Severity.name : Severity → String
  | error => "error"
  | warning => "warning"
  | info => "info"
  | hint => "hint"

inductive LabelStyle
  | primary
  | secondary
  deriving DecidableEq

/-- A message at a place in a source text. -/
structure Label where
  range : SourceRange
  style : LabelStyle
  message : String
  deriving DecidableEq

def Label.isPrimary (label : Label) : Bool := label.style == .primary

/-- An edit that is offered: put `replacement` in the place of `range`. -/
structure FixIt where
  range : SourceRange
  replacement : String
  deriving DecidableEq

structure Diagnostic where
  severity : Severity
  message : String
  code : Option String
  labels : List Label
  fixIts : List FixIt
  help : Option String
  note : Option String
  deriving DecidableEq

namespace Diagnostic

/-- A diagnostic with an empty primary label on `range`, or with no label where that is detached. -/
def new (severity : Severity) (range : SourceRange) (message : String) : Diagnostic where
  severity := severity
  message := message
  code := none
  labels := if range.isLocated then [⟨range, .primary, ""⟩] else []
  fixIts := []
  help := none
  note := none

def error : SourceRange → String → Diagnostic := new .error

def warning : SourceRange → String → Diagnostic := new .warning

def withCode (diagnostic : Diagnostic) (code : String) : Diagnostic :=
  { diagnostic with code := some code }

/-- Replaces the message of the first primary label in a list. -/
def setPrimaryMessage (message : String) : List Label → List Label
  | [] => []
  | label :: rest =>
    if label.isPrimary then { label with message } :: rest
    else label :: setPrimaryMessage message rest

def withLabel (diagnostic : Diagnostic) (message : String) : Diagnostic :=
  { diagnostic with labels := setPrimaryMessage message diagnostic.labels }

/-- Adds a secondary label, unless its range is detached. -/
def withSecondary (diagnostic : Diagnostic) (range : SourceRange) (message : String) : Diagnostic :=
  if range.isLocated then
    { diagnostic with labels := diagnostic.labels ++ [⟨range, .secondary, message⟩] }
  else diagnostic

def withHelp (diagnostic : Diagnostic) (help : String) : Diagnostic :=
  { diagnostic with help := some help }

def withNote (diagnostic : Diagnostic) (note : String) : Diagnostic :=
  { diagnostic with note := some note }

def withFixIt (diagnostic : Diagnostic) (range : SourceRange) (replacement : String) : Diagnostic :=
  { diagnostic with fixIts := diagnostic.fixIts ++ [⟨range, replacement⟩] }

def isError (diagnostic : Diagnostic) : Bool := diagnostic.severity == .error

def primaryLabel? (diagnostic : Diagnostic) : Option Label :=
  diagnostic.labels.find? Label.isPrimary

/-- The range of the primary label, or none at all. -/
def primaryRange (diagnostic : Diagnostic) : SourceRange :=
  (diagnostic.primaryLabel?.map Label.range).getD .none

/-! A secondary label changes nothing else. -/

section WithSecondary

variable (diagnostic : Diagnostic) (range : SourceRange) (message : String)

theorem code_withSecondary :
    (diagnostic.withSecondary range message).code = diagnostic.code := by
  unfold withSecondary
  split <;> rfl

theorem message_withSecondary :
    (diagnostic.withSecondary range message).message = diagnostic.message := by
  unfold withSecondary
  split <;> rfl

theorem severity_withSecondary :
    (diagnostic.withSecondary range message).severity = diagnostic.severity := by
  unfold withSecondary
  split <;> rfl

theorem primaryRange_withSecondary :
    (diagnostic.withSecondary range message).primaryRange = diagnostic.primaryRange := by
  unfold withSecondary
  split
  · simp [primaryRange, primaryLabel?, Label.isPrimary]
  · rfl

end WithSecondary

/-- Whether one diagnostic is shown before another or at the same place. -/
def shownBefore (left right : Diagnostic) : Bool :=
  let l := left.primaryRange
  let r := right.primaryRange
  l.file.before r.file || (l.file == r.file && l.start ≤ r.start)

end Diagnostic

namespace Diagnostics

def count (severity : Severity) (diagnostics : List Diagnostic) : Nat :=
  diagnostics.countP fun diagnostic => diagnostic.severity == severity

def errorCount (diagnostics : List Diagnostic) : Nat := count .error diagnostics

def warningCount (diagnostics : List Diagnostic) : Nat := count .warning diagnostics

def hasErrors (diagnostics : List Diagnostic) : Bool := diagnostics.any Diagnostic.isError

/-- The diagnostics as they are shown. -/
def inDisplayOrder (diagnostics : List Diagnostic) : List Diagnostic :=
  diagnostics.mergeSort Diagnostic.shownBefore

theorem inDisplayOrder_perm (diagnostics : List Diagnostic) :
    (inDisplayOrder diagnostics).Perm diagnostics :=
  List.mergeSort_perm diagnostics Diagnostic.shownBefore

end Diagnostics

end BehaviorTree
