import BehaviorTree.Parsing.Report
import BehaviorTree.Parsing.State

/-!
Consuming what the grammar demands, and recovering where it is not there. A terminator that is
missing in front of a line break is taken as read and an edit that inserts it is offered; any other
missing token makes the parser skip to the nearest token that it can go on from.
-/

namespace BehaviorTree.Parser

/-- Reports that something else was expected here. -/
def expected (what : String) : Parser Unit := do
  reportOnce (SyntaxReport.expected what (← peek))

def expectedWithHelp (what help : String) : Parser Unit := do
  reportOnce ((SyntaxReport.expected what (← peek)).withHelp help)

/-- Skips to a token of the set. -/
def synchronize (set : RecoverySet) : Parser Unit := skip (Skip.untilStop set)

/-- How a missing token is dealt with. -/
inductive Recovery
  /-- As if it were there. -/
  | insert
  /-- By skipping ahead. -/
  | skip

/-- Reports a missing token. Where a text to insert is given and the current token starts a line,
the place is the end of the previous token. -/
def missing (what context : String) (insertion : Option String) : Parser Recovery := fun state =>
  let found := state.current
  match insertion, decide (0 < state.position) && found.newlineBefore with
  | some text, true =>
    let place := SourceRange.emptyAt state.file state.lastRange.stop
    (.insert, state.reportOnce (SyntaxReport.missingAtLineEnd what context text place))
  | _, _ => (.skip, state.reportOnce (SyntaxReport.missing what context found))

/-- The text that may be inserted for a mark: closers of lists only. -/
def insertable (mark : Punctuation) : Option String :=
  if mark = .rParen ∨ mark = .rBracket then some mark.spelling else none

/-- Consumes a mark, and says whether it was there or recovery stopped at it. -/
def expectPunctuation (mark : Punctuation) (context : String) (set : RecoverySet) :
    Parser Bool := do
  if ← acceptPunctuation mark then pure true
  else match ← missing (quoted mark.spelling) context (insertable mark) with
    | .insert => pure false
    | .skip =>
      synchronize set
      acceptPunctuation mark

/-- Consumes a `;`. -/
def expectSemi (context : String) (set : RecoverySet) : Parser Unit := do
  if ← acceptPunctuation .semi then pure ()
  else match ← missing "`;`" context (some ";") with
    | .insert => pure ()
    | .skip =>
      synchronize set
      let _ ← acceptPunctuation .semi

/-- Consumes an operator, and says whether it was there or recovery stopped at it. -/
def expectOperator (op : Operator) (context : String) (set : RecoverySet) : Parser Bool := do
  if ← acceptOperator op then pure true
  else
    let _ ← missing (quoted op.spelling) context none
    synchronize set
    acceptOperator op

/-- Consumes a name. A reserved word on the same line is reported and taken as the name. -/
def expectName (what : String) (set : RecoverySet) : Parser (Option Name) := do
  let found ← peek
  if found.isIdentifier then
    let _ ← advance
    return some (← nameOf found)
  else match found.keyword? with
    | some word =>
      expectedWithHelp what (SyntaxReport.reservedWord word)
      if found.newlineBefore then
        synchronize set
        pure none
      else
        let _ ← advance
        return some (← nameOf found)
    | none =>
      expected what
      synchronize set
      pure none

/-- Reports that the `)` of a list is missing. -/
def unclosedList (context : String) : Parser Unit := do
  let _ ← missing "`)`" context (some ")")

end BehaviorTree.Parser

namespace BehaviorTree.ParserState

/-- Whether the current token starts a line that cannot continue an open list. Between declarations
only a word that opens one does; in a tree body so do the end of a block, a doc comment, a
precondition, a node call and an assignment. -/
def startsConstruct (state : ParserState) (inBody : Bool) : Bool :=
  let token := state.current
  token.newlineBefore &&
    match token.kind with
    | .keyword word => word.isOpener
    | .docComment _ | .punctuation .rBrace | .punctuation .at => inBody
    | .identifier =>
      inBody && ((state.tokenAt 1).isPunctuation .lParen || (state.tokenAt 1).isPunctuation .lBrace ||
        Skip.assignmentFollows 0 (state.rest.drop 1))
    | _ => false

end BehaviorTree.ParserState

namespace BehaviorTree.Parser

/-- Whether an open list ends here without its closer. -/
def listBreaksOff (inBody : Bool) : Parser Bool := fun state =>
  (state.current.isEndOfFile || state.startsConstruct inBody, state)

/-- One part of a foreign construct: its header and, if there is one, its block. An `else` behind
the block of a conditional starts another part. -/
def foreignPart (shape : ForeignShape) (_ : Unit) : Parser (Turn Unit) := do
  skip Skip.header
  if ← atPunctuation .lBrace then
    skip Skip.block
    let next ← peek
    if shape = .conditional ∧ next.isIdentifier ∧ next.text = "else" then
      let _ ← advance
      pure (.again ())
    else pure (.done ())
  else
    let _ ← acceptPunctuation .semi
    pure (.done ())

/-- Reports a foreign word once and skips the construct that it opens. -/
def skipForeign (word : ForeignWord) : Parser Unit := do
  reportOnce (SyntaxReport.foreignWord word (← peek).range)
  let _ ← advance
  iterate (foreignPart word.shape) ()

def danglingDocs (range : Option SourceRange) : Parser Unit :=
  match range with
  | some range => report (SyntaxReport.danglingDocs range)
  | none => pure ()

end BehaviorTree.Parser
