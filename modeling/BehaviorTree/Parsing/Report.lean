import BehaviorTree.Diagnostic
import BehaviorTree.Diagnostic.Code
import BehaviorTree.Token
import BehaviorTree.Vocabulary.Foreign
import BehaviorTree.Vocabulary.Policy

/-!
What a parser reports, each report with its wording, labels and offered edits.
-/

namespace BehaviorTree.SyntaxReport

/-- The found token is not what has to come here. -/
def expected (what : String) (found : Token) : Diagnostic :=
  ((Diagnostic.error found.range ("expected " ++ what ++ ", found " ++ found.describe)).withCode
    Code.expectedToken).withLabel ("expected " ++ what)

/-- A token is missing in front of the found one. -/
def missing (what context : String) (found : Token) : Diagnostic :=
  ((Diagnostic.error found.range
      ("expected " ++ what ++ " " ++ context ++ ", found " ++ found.describe)).withCode
    Code.expectedToken).withLabel ("expected " ++ what)

/-- A terminator is missing at the end of a line, where an edit can insert it. -/
def missingAtLineEnd (what context insertion : String) (place : SourceRange) : Diagnostic :=
  (((Diagnostic.error place ("expected " ++ what ++ " " ++ context)).withCode
    Code.expectedToken).withLabel ("expected " ++ what)).withFixIt place insertion

def reservedWord (word : Keyword) : String :=
  quoted word.spelling ++ " is a reserved word and cannot be used as a name"

def foreignWord (word : ForeignWord) (range : SourceRange) : Diagnostic :=
  (((Diagnostic.error range (quoted word.spelling ++ " is not supported in BT-DSL")).withCode
    Code.unsupportedWord).withLabel "unsupported keyword").withHelp word.help

def danglingDocs (range : SourceRange) : Diagnostic :=
  ((Diagnostic.warning range "doc comment does not document anything").withCode
    Code.danglingDocComment).withHelp
      "place `///` comments directly before a declaration, parameter or statement"

def misplacedModuleDoc (range : SourceRange) : Diagnostic :=
  ((Diagnostic.warning range "module doc comments are only allowed at the start of a file").withCode
    Code.danglingDocComment).withHelp "use `///` to document the item that follows"

/-- A second operator of a layer that does not group. -/
def chainedComparison (second first : SourceRange) : Diagnostic :=
  ((((Diagnostic.error second "comparison operators cannot be chained").withCode
    Code.nonAssociativeChain).withLabel "second operator of the chain").withSecondary first
      "first operator").withHelp
        "use parentheses and `&&` to spell out the intent, e.g. `(a < b) && (b < c)`"

def unclosedBlock (found : Token) (opening : SourceRange) : Diagnostic :=
  (((Diagnostic.error found.range
      ("expected `\x7d` to close the block, found " ++ found.describe)).withCode
    Code.expectedToken).withLabel "expected `\x7d`").withSecondary opening "block opened here"

def unattachedPrecondition (range : SourceRange) : Diagnostic :=
  ((Diagnostic.error range "precondition is not attached to a statement").withCode
    Code.expectedToken).withLabel "nothing follows this precondition"

def unknownPrecondition (name : String) (range : SourceRange) : Diagnostic :=
  (((Diagnostic.error range ("unknown precondition " ++ quoted name)).withCode
    Code.unknownPrecondition).withLabel "unknown precondition").withHelp
      ("expected one of " ++ PreconditionKind.spellingList)

def semicolonAfterBlock (range : SourceRange) : Diagnostic :=
  ((((Diagnostic.error range "unexpected `;` after a node block").withCode
    Code.invalidNodeShape).withLabel "remove this `;`").withHelp
      "a node is either a leaf call ending in `;` or a compound node with a `\x7b ... \x7d` block").withFixIt
        range ""

def misplacedAttribute (range : SourceRange) : Diagnostic :=
  ((Diagnostic.error range "attributes are only allowed on `extern` node declarations").withCode
    Code.unknownAttribute).withLabel "not allowed here"

def unknownAttribute (name : String) (range : SourceRange) : Diagnostic :=
  (((Diagnostic.error range ("unknown attribute " ++ quoted name)).withCode
    Code.unknownAttribute).withLabel "unknown attribute").withHelp
      "the only supported attribute is `#[behavior(DataPolicy, FlowPolicy)]`"

def unknownPolicy (what name choices : String) (range : SourceRange) : Diagnostic :=
  (((Diagnostic.error range ("unknown " ++ what ++ " " ++ quoted name)).withCode
    Code.unknownAttribute).withLabel ("not a " ++ what)).withHelp ("expected " ++ choices)

end BehaviorTree.SyntaxReport
