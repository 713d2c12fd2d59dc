import BehaviorTree.Parsing.Item

/-!
Statements: `var` and `const` declarations, assignments, and nodes, each with documentation and
preconditions in front. A node ends in `;` or has a block of children.
-/

namespace BehaviorTree.Parser

/-- A turn behind the condition: it adds the precondition if its kind is known. -/
def preconditionClosed (found : List Precondition) (start : SourceRange) (condition : Expr)
    (kind : Option PreconditionKind) : Parser (Turn (List Precondition)) := do
  let range ← rangeSince start
  match kind with
  | some kind => pure (.again (found ++ [⟨kind, condition, range⟩]))
  | none => pure (.again found)

/-- A turn behind the name of a precondition. -/
def preconditionBehind (found : List Precondition) (start : SourceRange)
    (kind : Option PreconditionKind) : Parser (Turn (List Precondition)) := do
  let set := RecoverySet.statement ++ [.rParen]
  if ← expectPunctuation .lParen "after the precondition name" set then
    let condition ← expression
    let _ ← expectPunctuation .rParen "to close the precondition" set
    preconditionClosed found start condition kind
  else pure (.again found)

/-- One more precondition, if one follows. One of unknown kind is reported and dropped. -/
def preconditionTurn (found : List Precondition) : Parser (Turn (List Precondition)) := do
  let set := RecoverySet.statement ++ [.rParen]
  let start := (← peek).range
  if ← acceptPunctuation .at then
    match ← expectName "a precondition name after `@`" set with
    | none =>
      let _ ← acceptPunctuation .rParen
      pure (.again found)
    | some name =>
      let kind := PreconditionKind.ofSpelling? name.text
      if kind = none then report (SyntaxReport.unknownPrecondition name.text name.range)
      preconditionBehind found start kind
  else pure (.done found)

def preconditions : Parser (List Precondition) := iterate preconditionTurn []

/-- The name and the colon in front of an argument. -/
def argumentName : Parser (Option Name) := do
  let token ← peek
  if token.isIdentifier && (← peekSecond).isPunctuation .colon then
    let _ ← advance
    let _ ← advance
    some <$> nameOf token
  else pure none

def argument : Parser Argument := do
  let start := (← peek).range
  let name ← argumentName
  let direction ← direction
  let value ← expression
  return ⟨name, direction, value, ← rangeSince start⟩

def argumentTurn (arguments : List Argument) : Parser (Turn (List Argument)) := do
  let context := "to close the argument list"
  if ← listGoesOn context true then
    let arguments := arguments ++ [← argument]
    if ← listContinues context "`,` or `)` in argument list" true
        ([.comma, .rParen, .lBrace] ++ RecoverySet.statement) then
      pure (.again arguments)
    else pure (.done arguments)
  else pure (.done arguments)

/-- The arguments of a node, if a `(` opens them, through the closing `)`. -/
def arguments : Parser (Option (List Argument)) := do
  if ← acceptPunctuation .lParen then some <$> iterate argumentTurn [] else pure none

/-- One more index of an assignment target, if one follows. -/
def indexTurn (indices : List Expr) : Parser (Turn (List Expr)) := do
  if ← acceptPunctuation .lBracket then
    let indices := indices ++ [← expression]
    if ← acceptPunctuation .rBracket then pure (.again indices)
    else if (← peek).isAssignment then
      expected "`]` to close the index"
      pure (.done indices)
    else
      let _ ← expectPunctuation .rBracket "to close the index"
        (Stop.rBracket :: RecoverySet.statement)
      pure (.again indices)
  else pure (.done indices)

/-- Gives a statement up: skips to its end. -/
def abandonStatement : Parser Unit := do
  synchronize .statement
  let _ ← acceptPunctuation .semi

def assignment : Parser (Option (StmtHead → Stmt)) := do
  let target ← nameOf (← advance)
  let indices ← iterate indexTurn []
  match (← peek).operator?.bind AssignOp.ofOperator? with
  | some op =>
    let _ ← advance
    let value ← expression
    expectSemi "after assignment" .statement
    pure (some (.assignment · target indices op value))
  | none =>
    expected "an assignment operator"
    abandonStatement
    pure none

/-- Reports and consumes a `;` behind a block. -/
def semicolonAfterBlock : Parser Unit := do
  let token ← peek
  if ← acceptPunctuation .semi then report (SyntaxReport.semicolonAfterBlock token.range)

/-- A node call behind its arguments, if it has any. -/
def leafBehind (callee : Name) (arguments : Option (List Argument)) :
    Parser (Option (StmtHead → Stmt)) := do
  match arguments with
  | some arguments =>
    expectSemi "after node call" .statement
    pure (some (.leaf · callee arguments))
  | none =>
    expectedWithHelp ("`(` or `\x7b` after node name " ++ quoted callee.text)
      "call a leaf node with `Name(...);` or open a compound node with `Name \x7b ... \x7d`"
    abandonStatement
    pure none

/-- A node behind the block of its children. -/
def finishNode (callee : Name) (arguments : Option (List Argument)) (children : List Stmt) :
    Parser (Option (StmtHead → Stmt)) := do
  semicolonAfterBlock
  pure (some (.compound · callee arguments children))

/-- A node, given a parser for the block of its children. -/
def node (block : Parser (List Stmt)) : Parser (Option (StmtHead → Stmt)) := do
  let callee ← nameOf (← advance)
  let arguments ← arguments
  if ← atPunctuation .lBrace then
    let children ← block
    finishNode callee arguments children
  else leafBehind callee arguments

/-- Reports what stands in front of no statement. -/
def unattached (preconditions : List Precondition) (docs : Docs) : Parser Unit :=
  match preconditions with
  | first :: _ => report (SyntaxReport.unattachedPrecondition first.range)
  | [] => danglingDocs docs.range

/-- A statement without what stands in front of it. -/
def bareStatement (block : Parser (List Stmt)) (preconditions : List Precondition) (docs : Docs) :
    Parser (Option (StmtHead → Stmt)) := do
  let token ← peek
  match token.kind with
  | .keyword .varWord =>
    return (← varParts .statement).map fun parts head =>
      .varDecl head parts.name parts.type parts.init
  | .keyword .constWord =>
    return (← constParts .statement).map fun parts head =>
      .constDecl head parts.name parts.type parts.value
  | .identifier =>
    match ForeignWord.ofSpelling? token.text with
    | some word =>
      skipForeign word
      pure none
    | none =>
      let isAssignment : Bool ← fun state =>
        (Skip.assignmentFollows 0 (state.rest.drop 1), state)
      if isAssignment then assignment else node block
  | .punctuation .rBrace | .endOfFile =>
    unattached preconditions docs
    pure none
  | _ =>
    if token.isOpenerWord then
      unattached preconditions docs
      pure none
    else
      expectedWithHelp "a statement"
        "statements are node calls like `Action();`, assignments, or `var`/`const` declarations"
      abandonStatement
      pure none

/-- Makes a statement of what was parsed since a range. -/
def finishStmt (docs : Docs) (preconditions : List Precondition) (start : SourceRange) :
    Option (StmtHead → Stmt) → Parser (Option Stmt)
  | none => pure none
  | some build => do
    let range ← rangeSince start
    some <$> newStmt range fun origin => build ⟨origin, docs.lines, preconditions⟩

/-- A statement behind its documentation and its preconditions. It starts with the first of these,
if there is one. -/
def statementBehind (block : Parser (List Stmt)) (docs : Docs) (preconditions : List Precondition) :
    Parser (Option Stmt) := do
  let start := (preconditions.head?.map Precondition.range).getD (← peek).range
  let build ← bareStatement block preconditions docs
  finishStmt docs preconditions start build

/-- A statement, given a parser for blocks of children. -/
def statement (block : Parser (List Stmt)) : Parser (Option Stmt) := do
  let docs ← docComments
  let preconditions ← preconditions
  statementBehind block docs preconditions

/-- Whether a block cannot go on at a token: words other than `var` and `const` that open a
top-level construct mean that its `}` is missing. -/
def breaksBlock (token : Token) : Bool :=
  token.isEndOfFile ||
    (token.isOpenerWord && !token.isKeyword .varWord && !token.isKeyword .constWord)

def blockTurn (statement : Parser (Option Stmt)) (opening : SourceRange) (stmts : List Stmt) :
    Parser (Turn (List Stmt)) := do
  if ← acceptPunctuation .rBrace then pure (.done stmts)
  else
    let token ← peek
    if breaksBlock token then
      reportOnce (SyntaxReport.unclosedBlock token opening)
      pure (.done stmts)
    else
      let stmt ← orStepOver statement (·.isPunctuation .rBrace)
      pure (.again (stmts ++ stmt.toList))

/-- The statements of a block, from the opening brace through the closing one. -/
def blockOf (statement : Parser (Option Stmt)) : Parser (List Stmt) := do
  let opening := (← advance).range
  iterate (blockTurn statement opening) []

/-- A block with one level of nesting for each token of a list, and one more. -/
def blockAlong : List Token → Parser (List Stmt)
  | [] => blockOf (statement (pure []))
  | _ :: levels => blockOf (statement (blockAlong levels))

/-- Only the number of levels counts. -/
theorem blockAlong_congr {levels levels' : List Token} (hlength : levels.length = levels'.length) :
    blockAlong levels = blockAlong levels' := by
  induction levels generalizing levels' with
  | nil =>
      cases levels' with
      | nil => rfl
      | cons _ _ => cases hlength
  | cons token levels ih =>
      cases levels' with
      | nil => cases hlength
      | cons token' levels' => rw [blockAlong, blockAlong, ih (Nat.succ.inj hlength)]

/-- A block: each level of nesting consumes a token. -/
def block : Parser (List Stmt) := fun state => blockAlong state.rest state

end BehaviorTree.Parser
