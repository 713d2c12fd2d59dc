import BehaviorTree.Diagnostic
import BehaviorTree.Parsing.Skip
import BehaviorTree.Program.Arena

/-!
The state of a parser and its elementary steps. Parsing never fails: what is wrong is reported, and
of the reports that depend on the current token only the first one at each position is kept.
-/

namespace BehaviorTree

structure ParserState where
  file : FileId
  /-- The tokens not consumed yet. -/
  rest : List Token
  /-- What is seen past the end of the tokens. -/
  final : Token
  /-- The number of consumed tokens. -/
  position : Nat
  /-- The range of the last consumed token. -/
  lastRange : SourceRange
  /-- The position of the last gated report. -/
  reportedAt : Option Nat
  arena : Arena
  diagnostics : List Diagnostic

abbrev Parser := StateM ParserState

namespace ParserState

/-- The token that comes after `count` others. -/
def tokenAt (state : ParserState) (count : Nat) : Token := state.rest[count]?.getD state.final

def current (state : ParserState) : Token := state.tokenAt 0

/-- The state after consuming the next `count` tokens. -/
def skip (state : ParserState) (count : Nat) : ParserState :=
  { state with
    rest := state.rest.drop count
    position := state.position + count
    lastRange := ((state.rest.take count).getLast?.map Token.range).getD state.lastRange }

/-- The range from the start of one range to the end of the last consumed token. -/
def rangeSince (state : ParserState) (start : SourceRange) : SourceRange :=
  ⟨state.file, start.start, max state.lastRange.stop start.stop⟩

def report (state : ParserState) (diagnostic : Diagnostic) : ParserState :=
  { state with diagnostics := state.diagnostics ++ [diagnostic] }

/-- Reports, unless a gated report was made at this position before. -/
def reportOnce (state : ParserState) (diagnostic : Diagnostic) : ParserState :=
  if state.reportedAt = some state.position then state
  else { state.report diagnostic with reportedAt := some state.position }

@[simp]
theorem rest_reportOnce (state : ParserState) (diagnostic : Diagnostic) :
    (state.reportOnce diagnostic).rest = state.rest := by
  unfold reportOnce
  split <;> rfl

@[simp]
theorem final_reportOnce (state : ParserState) (diagnostic : Diagnostic) :
    (state.reportOnce diagnostic).final = state.final := by
  unfold reportOnce
  split <;> rfl

@[simp]
theorem position_reportOnce (state : ParserState) (diagnostic : Diagnostic) :
    (state.reportOnce diagnostic).position = state.position := by
  unfold reportOnce
  split <;> rfl

end ParserState

namespace Parser

def peek : Parser Token := fun state => (state.current, state)

def peekSecond : Parser Token := fun state => (state.tokenAt 1, state)

def rangeSince (start : SourceRange) : Parser SourceRange :=
  fun state => (state.rangeSince start, state)

def report (diagnostic : Diagnostic) : Parser Unit := fun state => ((), state.report diagnostic)

def reportOnce (diagnostic : Diagnostic) : Parser Unit :=
  fun state => ((), state.reportOnce diagnostic)

/-- Skips as many tokens as a count over the coming ones says. -/
def skip (count : List Token → Nat) : Parser Unit :=
  fun state => ((), state.skip (count state.rest))

/-- Consumes the current token. The end of the file is never consumed. -/
def advance : Parser Token := fun state =>
  (state.current, if state.current.isEndOfFile then state else state.skip 1)

/-- Consumes the current token if it passes a test. -/
def accept (test : Token → Bool) : Parser Bool := do
  if test (← peek) then
    let _ ← advance
    pure true
  else pure false

def acceptPunctuation (mark : Punctuation) : Parser Bool := accept (·.isPunctuation mark)

def acceptOperator (op : Operator) : Parser Bool := accept (·.isOperator op)

def atPunctuation (mark : Punctuation) : Parser Bool := return (← peek).isPunctuation mark

def atEnd : Parser Bool := return (← peek).isEndOfFile

def intern (text : String) : Parser Unit :=
  fun state => ((), { state with arena := state.arena.intern text })

/-- Makes a token's text a name. -/
def nameOf (token : Token) : Parser Name := do
  intern token.text
  pure ⟨token.text, token.range⟩

def newExpr (range : SourceRange) (build : Origin → Expr) : Parser Expr := fun state =>
  let (expr, arena) := state.arena.addExpr range build
  (expr, { state with arena })

def newType (range : SourceRange) (build : Origin → TypeExpr) : Parser TypeExpr := fun state =>
  let (type, arena) := state.arena.addType range build
  (type, { state with arena })

def newStmt (range : SourceRange) (build : Origin → Stmt) : Parser Stmt := fun state =>
  let (stmt, arena) := state.arena.addStmt range build
  (stmt, { state with arena })

def newDecl (range : SourceRange) (build : Origin → Decl) : Parser Decl := fun state =>
  let (decl, arena) := state.arena.addDecl range build
  (decl, { state with arena })

def widenExpr (expr : Expr) (range : SourceRange) : Parser Expr := fun state =>
  let (wider, arena) := state.arena.widenExpr expr range
  (wider, { state with arena })

/-- The empty range where the current token starts. -/
def emptyHere : Parser SourceRange := fun state =>
  (.emptyAt state.file state.current.range.start, state)

def missingExpr : Parser Expr := do newExpr (← emptyHere) .missing

def missingType : Parser TypeExpr := do newType (← emptyHere) .missing

/-- What an iteration of a loop asks for. -/
inductive Turn (α : Type)
  | again (value : α)
  | done (value : α)

/-- Runs a loop for one turn for each token of a list, and one more. -/
def iterateAlong {α : Type} (body : α → Parser (Turn α)) : List Token → α → Parser α
  | [], value => do
    match ← body value with
    | .again last => pure last
    | .done last => pure last
  | _ :: turns, value => do
    match ← body value with
    | .again next => iterateAlong body turns next
    | .done last => pure last

/-- What a loop does behind a turn. -/
def Turn.goOn {α : Type} (next : α → Parser α) : Turn α → Parser α
  | .again value => next value
  | .done value => pure value

theorem iterateAlong_nil {α : Type} (body : α → Parser (Turn α)) (value : α) (state : ParserState) :
    iterateAlong body [] value state = (body value state).1.goOn pure (body value state).2 := rfl

theorem iterateAlong_cons {α : Type} (body : α → Parser (Turn α)) (token : Token)
    (turns : List Token) (value : α) (state : ParserState) :
    iterateAlong body (token :: turns) value state =
      (body value state).1.goOn (iterateAlong body turns) (body value state).2 := rfl

/-- Runs a loop whose every turn but the last consumes a token, so that one turn for each token
at hand and one more are enough. -/
def iterate {α : Type} (body : α → Parser (Turn α)) (value : α) : Parser α :=
  fun state => iterateAlong body state.rest value state

end Parser

end BehaviorTree
