import BehaviorTree.Diagnostic
import BehaviorTree.Text.Json

/-!
Diagnostics as records for other programs: positions as lines and columns from 1, the file as it is
shown, and no key for what is absent.
-/

namespace BehaviorTree

/-- Where a diagnostic points to. -/
structure RecordPlace where
  start : Nat × Nat
  stop : Nat × Nat
  path : String
  deriving DecidableEq

structure DiagnosticRecord where
  severity : Severity
  message : String
  code : Option String
  place : Option RecordPlace
  help : Option String
  note : Option String
  deriving DecidableEq

namespace Diagnostic

/-- The place of the primary label, if its file is registered. -/
def place? (diagnostic : Diagnostic) (sources : Sources) : Option RecordPlace :=
  let range := diagnostic.primaryRange
  (sources.file? range.file).map fun _ =>
    ⟨sources.lineCol range.file range.start, sources.lineCol range.file range.stop,
      sources.displayPath range.file⟩

def record (diagnostic : Diagnostic) (sources : Sources) : DiagnosticRecord where
  severity := diagnostic.severity
  message := diagnostic.message
  code := diagnostic.code
  place := diagnostic.place? sources
  help := diagnostic.help
  note := diagnostic.note

end Diagnostic

namespace DiagnosticRecord

def textField (key : String) (value : Option String) : List (String × JsonValue) :=
  value.toList.map fun text => (key, .string text)

def placeFields (place : RecordPlace) : List (String × JsonValue) :=
  [("range", .object
      [("startLine", .number place.start.1), ("startColumn", .number place.start.2),
        ("endLine", .number place.stop.1), ("endColumn", .number place.stop.2)]),
    ("source", .string place.path)]

def toJson (record : DiagnosticRecord) : JsonValue :=
  .object ([("severity", .string record.severity.name), ("message", .string record.message)] ++
    textField "code" record.code ++ record.place.toList.flatMap placeFields ++
    textField "help" record.help ++ textField "note" record.note)

end DiagnosticRecord

/-- All diagnostics as the text of a JSON array, in display order. -/
def Diagnostics.toJsonText (diagnostics : List Diagnostic) (sources : Sources) : String :=
  (JsonValue.array ((inDisplayOrder diagnostics).map fun diagnostic =>
    (diagnostic.record sources).toJson)).pretty

end BehaviorTree
