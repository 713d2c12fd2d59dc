import BehaviorTree.Parsing.Expression

/-!
What statements and declarations have in common: documentation, directions, lists in parentheses,
and the parts of `var` and `const`.
-/

namespace BehaviorTree

/-- Doc comments in front of an item and the range around them. -/
structure Docs where
  lines : List String
  range : Option SourceRange

namespace Docs

def none : Docs := ⟨[], .none⟩

def push (docs : Docs) (line : String) (range : SourceRange) : Docs :=
  ⟨docs.lines ++ [line], some ((docs.range.map (·.merge range)).getD range)⟩

end Docs

/-- What a `var` declares. -/
structure VarParts where
  name : Name
  type : Option TypeExpr
  init : Option Expr

/-- What a `const` declares. -/
structure ConstParts where
  name : Name
  type : Option TypeExpr
  value : Expr

end BehaviorTree

namespace BehaviorTree.Parser

def docTurn (docs : Docs) : Parser (Turn Docs) := do
  let token ← peek
  match token.kind with
  | .docComment line =>
    let _ ← advance
    pure (.again (docs.push line token.range))
  | .moduleDoc _ =>
    report (SyntaxReport.misplacedModuleDoc token.range)
    let _ ← advance
    pure (.again docs)
  | _ => pure (.done docs)

/-- The doc comments in front of an item. Those for modules are reported and dropped. -/
def docComments : Parser Docs := iterate docTurn .none

def direction : Parser (Option Direction) := do
  match (← peek).keyword?.bind Direction.ofKeyword? with
  | some direction =>
    let _ ← advance
    pure (some direction)
  | none => pure none

/-- Whether an item of a list in parentheses follows; its end is consumed. -/
def listGoesOn (context : String) (inBody : Bool) : Parser Bool := do
  if ← acceptPunctuation .rParen then pure false
  else if ← listBreaksOff inBody then
    unclosedList context
    pure false
  else pure true

/-- Whether another item may follow an item of a list in parentheses; what lies between is
consumed. -/
def listContinues (context what : String) (inBody : Bool) (set : RecoverySet) : Parser Bool := do
  if ← acceptPunctuation .comma then pure true
  else if ← listGoesOn context inBody then
    expected what
    synchronize set
    if ← acceptPunctuation .comma then pure true
    else
      let _ ← acceptPunctuation .rParen
      pure false
  else pure false

def declaredType : Parser (Option TypeExpr) := do
  if ← acceptPunctuation .colon then some <$> typeExpr else pure none

def initializer : Parser (Option Expr) := do
  if ← acceptOperator .eq then some <$> expression else pure none

/-- What follows the word `var`, with the `;`. -/
def varParts (set : RecoverySet) : Parser (Option VarParts) := do
  let _ ← advance
  match ← expectName "a variable name" set with
  | none =>
    let _ ← acceptPunctuation .semi
    pure none
  | some name =>
    let type ← declaredType
    let init ← initializer
    expectSemi "after variable declaration" set
    pure (some ⟨name, type, init⟩)

/-- What follows the word `const`, with the `;`. -/
def constParts (set : RecoverySet) : Parser (Option ConstParts) := do
  let _ ← advance
  match ← expectName "a constant name" set with
  | none =>
    let _ ← acceptPunctuation .semi
    pure none
  | some name =>
    let type ← declaredType
    let value ← if ← expectOperator .eq "in constant declaration" set then expression
      else missingExpr
    expectSemi "after constant declaration" set
    pure (some ⟨name, type, value⟩)

/-- Runs a parser and steps over a token should it have consumed none, except where a test holds. -/
def orStepOver {α : Type} (parser : Parser α) (exempt : Token → Bool) : Parser α := fun state =>
  let (value, after) := parser state
  if after.position = state.position ∧ !exempt after.current then (value, (advance after).2)
  else (value, after)

end BehaviorTree.Parser
