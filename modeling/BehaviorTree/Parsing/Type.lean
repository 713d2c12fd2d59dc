import BehaviorTree.Parsing.Nested
import BehaviorTree.Parsing.Recovery

/-!
Types: `( name | _ | string [< N >] | vec < T > | [ T ; N ] | [ T ; <= N ] ) [?]`.
-/

namespace BehaviorTree.Parser

/-- The bound and the `>` behind `string <`. -/
def stringBound : Parser (Option Nat) := do
  let token ← peek
  let bound ← match token.kind with
    | .int value => do
      let _ ← advance
      pure (some value)
    | _ => do
      expected "a maximum length in `string<N>`"
      pure none
  let _ ← expectOperator .gt "to close `string<N>`" .type
  pure bound

/-- What follows the word `string`. -/
def stringType : Parser (Origin → TypeExpr) := do
  if ← acceptOperator .lt then
    let bound ← stringBound
    pure (.string · bound)
  else pure (.string · none)

/-- What follows the word `vec`. -/
def vecType (nested : Nested) : Parser (Origin → TypeExpr) := do
  if ← expectOperator .lt "after `vec` in a type" .type then
    let element ← nested.type
    let _ ← expectOperator .gt "to close `vec<T>`" .type
    pure (.vec · element)
  else pure .missing

/-- What follows the `[` of an array type. -/
def arrayType (nested : Nested) : Parser (Origin → TypeExpr) := do
  let set : RecoverySet := Stop.rBracket :: RecoverySet.statement
  let element ← nested.type
  if ← expectPunctuation .semi "after the array element type" set then
    let bounded ← acceptOperator .ltEq
    let length ← nested.expression
    let _ ← expectPunctuation .rBracket "to close the array type" set
    if bounded then pure (.boundedArray · element length) else pure (.staticArray · element length)
  else
    let _ ← acceptPunctuation .rBracket
    pure .missing

/-- The type without its `?`, or nothing where no type starts. -/
def plainType (nested : Nested) : Parser (Option (Origin → TypeExpr)) := do
  let token ← peek
  match token.kind with
  | .infer =>
    let _ ← advance
    pure (some .infer)
  | .identifier =>
    let _ ← advance
    let name ← nameOf token
    pure (some (.named · name))
  | .keyword .stringWord =>
    let _ ← advance
    some <$> stringType
  | .keyword .vecWord =>
    let _ ← advance
    some <$> vecType nested
  | .punctuation .lBracket =>
    let _ ← advance
    some <$> arrayType nested
  | _ =>
    expected "a type"
    pure none

def typeIn (nested : Nested) : Parser TypeExpr := do
  let start := (← peek).range
  match ← plainType nested with
  | none => missingType
  | some build =>
    let type ← newType (← rangeSince start) build
    if ← acceptPunctuation .question then newType (← rangeSince start) (.nullable · type)
    else pure type

end BehaviorTree.Parser
