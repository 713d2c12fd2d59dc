import BehaviorTree.Parsing.Report
import BehaviorTree.Proofs.Parsing.Words
import BehaviorTree.Proofs.Syntax.Grammar

/-!
# Expressions as they are written

The tree of an expression shows neither where its parentheses stand nor which tokens its operators
are. A written expression has both, so the chains in it can be found: operators of a layer that does
not group, each with the one before it in its left operand, with no parentheses in between.
-/

namespace BehaviorTree

/-- An expression by its tokens, or a token of one. -/
inductive Written
  | token (token : Token)
  /-- An operator between its operands. -/
  | binary (left : Written) (operator : Token) (right : Written)
  /-- Any other expression: its own tokens and the expressions in it. -/
  | row (parts : List Written)

/-! ### Chains -/

/-- The layer of an operator that does not group with others of its layer. -/
def Token.singleLayer? (token : Token) : Option Nat :=
  ((token.operator?.bind BinaryOp.ofOperator?).filter (·.operator.associativity = .none)).map
    (·.operator.precedence)

/-- A chain by its first two operators. -/
structure ChainStart where
  first : Token
  second : Token
  /-- Whether the first operand of the chain has a chain in it outside of parentheses, on the left. -/
  shadowed : Bool
  deriving DecidableEq

/-- The report on a chain is at its second operator. -/
def ChainStart.report (chain : ChainStart) : Diagnostic :=
  SyntaxReport.chainedComparison chain.second.range chain.first.range

namespace Written

/-- Whether the expression is one of an operator, without parentheses, that does not group with the
operator behind it. -/
def meets : Written → Token → Bool
  | .binary _ operator _, next =>
    operator.singleLayer?.isSome && operator.singleLayer? == next.singleLayer?
  | _, _ => false

/-- Whether a chain is in the expression or in its left operands, outside of parentheses. -/
def chained : Written → Bool
  | .binary left operator _ => left.meets operator || left.chained
  | _ => false

/-- The chain that has its second operator behind the expression. -/
def opened : Written → Token → List ChainStart
  | .binary left operator right, next =>
    if (Written.binary left operator right).meets next && !left.meets operator then
      [⟨operator, next, left.chained⟩]
    else []
  | _, _ => []

mutual

/-- The tokens of an expression. -/
def tokens : Written → List Token
  | .token t => [t]
  | .binary left operator right => left.tokens ++ operator :: right.tokens
  | .row parts => tokensOf parts

def tokensOf : List Written → List Token
  | [] => []
  | part :: parts => part.tokens ++ tokensOf parts

end

mutual

/-- All chains in an expression, in the order of their second operators. -/
def chains : Written → List ChainStart
  | .token _ => []
  | .binary left operator right => left.chains ++ (left.opened operator ++ right.chains)
  | .row parts => chainsOf parts

def chainsOf : List Written → List ChainStart
  | [] => []
  | part :: parts => part.chains ++ chainsOf parts

end

@[simp]
theorem tokensOf_append (parts later : List Written) :
    tokensOf (parts ++ later) = tokensOf parts ++ tokensOf later := by
  induction parts with
  | nil => rfl
  | cons part parts ih => rw [List.cons_append, tokensOf, tokensOf, ih, List.append_assoc]

@[simp]
theorem chainsOf_append (parts later : List Written) :
    chainsOf (parts ++ later) = chainsOf parts ++ chainsOf later := by
  induction parts with
  | nil => rfl
  | cons part parts ih => rw [List.cons_append, chainsOf, chainsOf, ih, List.append_assoc]

/-- The reports on the chains that are not shadowed. -/
def reportsOf (chains : List ChainStart) : List Diagnostic :=
  (chains.filter (!·.shadowed)).map ChainStart.report

end Written

/-! ### What is written -/

/-- A terminal of an expression, or an expression directly in it. -/
inductive FrameSlot
  | own (terminal : Terminal)
  | inner (expr : Expr)

/-- Expressions with commas between them. -/
def FrameSlot.list : List Expr → List FrameSlot
  | [] => []
  | first :: more => .inner first :: more.flatMap fun expr => [.own (.mark .comma), .inner expr]

def TypeExpr.frame : TypeExpr → List FrameSlot
  | .infer _ => [.own (.of .infer)]
  | .named _ name => [.own (.name name.text)]
  | .string _ none => [.own (.word .stringWord)]
  | .string _ (some bound) =>
    [.own (.word .stringWord), .own (.op .lt), .own (.of (.int bound)), .own (.op .gt)]
  | .vec _ element => .own (.word .vecWord) :: .own (.op .lt) :: (element.frame ++ [.own (.op .gt)])
  | .staticArray _ element length =>
    .own (.mark .lBracket) :: (element.frame ++
      [.own (.mark .semi), .inner length, .own (.mark .rBracket)])
  | .boundedArray _ element bound =>
    .own (.mark .lBracket) :: (element.frame ++
      [.own (.mark .semi), .own (.op .ltEq), .inner bound, .own (.mark .rBracket)])
  | .nullable _ inner => inner.frame ++ [.own (.mark .question)]
  | .missing _ => []

/-- The terminals of an expression itself, with places for the expressions in it. Its last element
may have a comma behind it. An operator between operands has a form of its own. -/
def Expr.frame? (comma : Bool) : Expr → Option (List FrameSlot)
  | .int _ value => some [.own (.of (.int value))]
  | .float _ value => some [.own (.of (.float value))]
  | .string _ value => some [.own (.of (.string value))]
  | .bool _ value => some [.own (.word (if value then .trueWord else .falseWord))]
  | .null _ => some [.own (.word .nullWord)]
  | .ref _ name => some [.own (.name name.text)]
  | .missing _ => some [.own (.of .unknown)]
  | .binary _ _ _ _ => none
  | .unary _ op operand => some [.own (.op op.operator), .inner operand]
  | .index _ base position =>
    some [.inner base, .own (.mark .lBracket), .inner position, .own (.mark .rBracket)]
  | .cast _ operand type => some (.inner operand :: .own (.word .asWord) :: type.frame)
  | .array _ elements =>
    some (.own (.mark .lBracket) ::
      (FrameSlot.list elements ++ (if comma then [.own (.mark .comma)] else []) ++
        [.own (.mark .rBracket)]))
  | .repeated _ value count =>
    some [.own (.mark .lBracket), .inner value, .own (.mark .semi), .inner count,
      .own (.mark .rBracket)]
  | .vec _ inner => some [.own (.word .vecWord), .own (.op .bang), .inner inner]

/-- The parts fill the slots one by one. -/
inductive Fills (writes : Written → Expr → Prop) : List Written → List FrameSlot → Prop
  | nil : Fills writes [] []
  | own {parts slots} (token : Token) :
    Fills writes parts slots → Fills writes (.token token :: parts) (.own token.terminal :: slots)
  | inner {written expr parts slots} :
    writes written expr → Fills writes parts slots →
    Fills writes (written :: parts) (.inner expr :: slots)

/-- The tree is that of the written expression. -/
inductive Written.Of : Written → Expr → Prop
  | parens {inner : Written} {expr : Expr} {opening closing : Token} (range : SourceRange) :
    opening.kind = .punctuation .lParen → inner.Of expr → closing.kind = .punctuation .rParen →
    Written.Of (.row [.token opening, inner, .token closing]) (expr.withRange range)
  | binary {left right : Written} {l r : Expr} {operator : Token} (origin : Origin) (op : BinaryOp) :
    left.Of l → operator.kind = .operator op.operator → right.Of r →
    Written.Of (.binary left operator right) (.binary origin op l r)
  | row {parts : List Written} {expr : Expr} {slots : List FrameSlot} (comma : Bool) :
    expr.frame? comma = some slots → Fills Written.Of parts slots → Written.Of (.row parts) expr

theorem Fills.append {writes : Written → Expr → Prop} {parts later : List Written}
    {slots more : List FrameSlot} (h : Fills writes parts slots) (hlater : Fills writes later more) :
    Fills writes (parts ++ later) (slots ++ more) := by
  induction h with
  | nil => exact hlater
  | own token _ ih => exact .own token ih
  | inner hinner _ ih => exact .inner hinner ih

end BehaviorTree
