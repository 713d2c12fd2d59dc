import BehaviorTree.Parsing.State

/-!
Expressions contain types and types contain expressions. The parsers of either are written in terms
of parsers for what is nested in them, and the knot is tied over the depth of nesting.
-/

namespace BehaviorTree

/-- Parsers for the expressions, operands and types inside an expression or a type. -/
structure Nested where
  expression : Parser Expr
  /-- What a unary operator applies to. -/
  operand : Parser Expr
  type : Parser TypeExpr

/-- Nothing may be nested. -/
def Nested.nothing : Nested := ⟨Parser.missingExpr, Parser.missingExpr, Parser.missingType⟩

end BehaviorTree
