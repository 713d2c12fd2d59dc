import BehaviorTree.Parsing.Type

/-!
Expressions. Operators between operands are layered: a layer is a chain of operands of the tighter
layers, grouped to the left. Unary operators bind tighter than any of them, indexing and casts
tighter still.
-/

namespace BehaviorTree.Parser

/-- An expression that is one token. -/
def literal (build : Origin → Expr) : Parser Expr := do
  let token ← advance
  newExpr token.range build

/-- An expression in parentheses, which count to its range. -/
def parenthesized (nested : Nested) : Parser Expr := do
  let start := (← advance).range
  let inner ← nested.expression
  let _ ← expectPunctuation .rParen "to close the parenthesized expression"
    (Stop.rParen :: RecoverySet.statement)
  widenExpr inner (← rangeSince start)

/-- One more element of an array literal, if a comma and no closer follows it. -/
def nextElement (nested : Nested) (elements : List Expr) : Parser (Turn (List Expr)) := do
  if ← acceptPunctuation .comma then
    if ← atPunctuation .rBracket then pure (.done elements)
    else
      let element ← nested.expression
      pure (.again (elements ++ [element]))
  else pure (.done elements)

/-- `[a, b, c]` or `[value; count]`. -/
def arrayExpr (nested : Nested) : Parser Expr := do
  let start := (← advance).range
  let close := expectPunctuation .rBracket "to close the array" (Stop.rBracket :: RecoverySet.statement)
  if ← acceptPunctuation .rBracket then newExpr (← rangeSince start) (.array · [])
  else
    let first ← nested.expression
    if ← acceptPunctuation .semi then
      let count ← nested.expression
      let _ ← close
      newExpr (← rangeSince start) (.repeated · first count)
    else
      let elements ← iterate (nextElement nested) [first]
      let _ ← close
      newExpr (← rangeSince start) (.array · elements)

/-- `vec!` and an array. -/
def vecExpr (nested : Nested) : Parser Expr := do
  let start := (← advance).range
  if ← acceptOperator .bang then
    if ← atPunctuation .lBracket then
      let inner ← arrayExpr nested
      newExpr (← rangeSince start) (.vec · inner)
    else
      expected "`[` after `vec!`"
      missingExpr
  else
    expectedWithHelp "`!` after `vec`"
      "dynamic arrays are written `vec![a, b]` or `vec![value; count]`"
    missingExpr

def primary (nested : Nested) : Parser Expr := do
  let token ← peek
  match token.kind with
  | .int value => literal (.int · value)
  | .float value => literal (.float · value)
  | .string value =>
    intern value
    literal (.string · value)
  | .keyword .trueWord => literal (.bool · true)
  | .keyword .falseWord => literal (.bool · false)
  | .keyword .nullWord => literal .null
  | .identifier =>
    let name ← nameOf token
    literal (.ref · name)
  | .punctuation .lParen => parenthesized nested
  | .punctuation .lBracket => arrayExpr nested
  | .keyword .vecWord => vecExpr nested
  | .unknown =>
    let missing ← missingExpr
    let _ ← advance
    pure missing
  | _ =>
    expected "an expression"
    missingExpr

/-- An index or a cast behind an expression, if one follows. -/
def suffix (nested : Nested) (base : Expr) : Parser (Turn Expr) := do
  let start := base.range
  if ← acceptPunctuation .lBracket then
    let position ← nested.expression
    let _ ← expectPunctuation .rBracket "to close the index" (Stop.rBracket :: RecoverySet.statement)
    return .again (← newExpr (← rangeSince start) (.index · base position))
  else if (← peek).isKeyword .asWord then
    let _ ← advance
    let type ← nested.type
    return .again (← newExpr (← rangeSince start) (.cast · base type))
  else pure (.done base)

def suffixed (nested : Nested) : Parser Expr := do
  let base ← primary nested
  iterate (suffix nested) base

def unary (nested : Nested) : Parser Expr := do
  match (← peek).operator?.bind UnaryOp.ofOperator? with
  | some op =>
    let start := (← advance).range
    let operand ← nested.operand
    newExpr (start.merge operand.range) (.unary · op operand)
  | none => suffixed nested

end BehaviorTree.Parser

namespace BehaviorTree

/-- The operator between operands that a token is, if its layer is the given one. -/
def Token.binaryOpOn? (token : Token) (layer : Nat) : Option BinaryOp :=
  (token.operator?.bind BinaryOp.ofOperator?).filter fun op => op.operator.precedence == layer

/-- The left side of a chain, and whether a chain that does not group was reported in it. -/
structure Chain where
  left : Expr
  reported : Bool

end BehaviorTree

namespace BehaviorTree.Parser

/-- One more operator of a layer and its right operand, if they follow. Where a second operator
follows on a layer that does not group, the first such is reported. -/
def extendChain (layer : Nat) (tighter : Parser Chain) (chain : Chain) : Parser (Turn Chain) := do
  match (← peek).binaryOpOn? layer with
  | some op =>
    let first := (← advance).range
    let right := (← tighter).left
    let whole ← newExpr (chain.left.range.merge right.range) (.binary · op chain.left right)
    let next ← peek
    if op.operator.associativity = .none ∧ !chain.reported ∧ (next.binaryOpOn? layer).isSome then
      report (SyntaxReport.chainedComparison next.range first)
      pure (.again ⟨whole, true⟩)
    else pure (.again ⟨whole, chain.reported⟩)
  | none => pure (.done chain)

/-- An expression of the given layers, loosest first. -/
def layered (nested : Nested) : List Nat → Parser Chain
  | [] => do
    let operand ← unary nested
    pure ⟨operand, false⟩
  | layer :: tighter => do
    let start ← layered nested tighter
    iterate (extendChain layer (layered nested tighter)) start

def expressionIn (nested : Nested) : Parser Expr := do
  return (← layered nested Operator.layers).left

/-- Parsers for what has the given ones nested in it. These are made only when something is nested. -/
def around (inner : Unit → Nested) : Nested :=
  ⟨fun state => expressionIn (inner ()) state,
    fun state => unary (inner ()) state,
    fun state => typeIn (inner ()) state⟩

/-- Parsers with one level of nesting for each token of a list, and one more. -/
def nestedAlong : List Token → Nested
  | [] => around fun _ => .nothing
  | _ :: levels => around fun _ => nestedAlong levels

/-- Only the number of levels counts. -/
theorem nestedAlong_congr {levels levels' : List Token} (hlength : levels.length = levels'.length) :
    nestedAlong levels = nestedAlong levels' := by
  induction levels generalizing levels' with
  | nil =>
      cases levels' with
      | nil => rfl
      | cons _ _ => cases hlength
  | cons token levels ih =>
      cases levels' with
      | nil => cases hlength
      | cons token' levels' => rw [nestedAlong, nestedAlong, ih (Nat.succ.inj hlength)]

/-- The parsers for what can be nested in the tokens at hand: each level consumes a token. -/
def nestedHere : Parser Nested := fun state => (nestedAlong state.rest, state)

def expression : Parser Expr := do (← nestedHere).expression

def typeExpr : Parser TypeExpr := do (← nestedHere).type

end BehaviorTree.Parser
