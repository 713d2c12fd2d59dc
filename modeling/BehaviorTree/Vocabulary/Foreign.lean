/-!
Words that open a construct in other languages but not in this one. They are ordinary identifiers;
the parser recognizes them where a statement or a declaration starts and reports one error with a
hint instead of many.
-/

namespace BehaviorTree

/-- What the construct of a foreign word looks like, hence how much of it to skip. -/
inductive ForeignShape
  | conditional
  | block
  | statement
  | definition
  deriving DecidableEq

def ForeignShape.name : ForeignShape → String
  | conditional => "Conditional"
  | block => "Block"
  | statement => "Statement"
  | definition => "Definition"

structure ForeignWord where
  spelling : String
  shape : ForeignShape
  help : String

namespace ForeignWord

def controlFlowHelp : String :=
  "behavior trees express control flow with control nodes such as `Sequence`, `Fallback` or `Repeat`, or with preconditions like `@guard(...)`"

def definitionHelp : String :=
  "define reusable behavior with `tree Name(params) \x7b ... \x7d`"

def all : List ForeignWord :=
  [⟨"if", .conditional,
      "use a precondition such as `@guard(cond)` or `@skip_if(cond)` on the statement instead"⟩,
    ⟨"else", .conditional, "`else` branches can be modeled with a `Fallback` control node"⟩,
    ⟨"while", .block, "use `@run_while(cond)` or a `Repeat`/`RetryUntilSuccessful` decorator"⟩,
    ⟨"for", .block, controlFlowHelp⟩,
    ⟨"loop", .block, controlFlowHelp⟩,
    ⟨"match", .block,
      "use a `Fallback` node whose children carry `@guard(...)` preconditions"⟩,
    ⟨"return", .statement,
      "trees finish with the status of their root node; use `AlwaysSuccess()` or `AlwaysFailure()` to force a result"⟩,
    ⟨"let", .statement, "declare blackboard variables with `var` or constants with `const`"⟩,
    ⟨"fn", .definition, definitionHelp⟩,
    ⟨"def", .definition, definitionHelp⟩,
    ⟨"function", .definition, definitionHelp⟩,
    ⟨"class", .definition, "declare runtime nodes with `extern action Name(...);`"⟩,
    ⟨"struct", .definition, "declare opaque runtime types with `extern type Name;`"⟩,
    ⟨"enum", .definition, "declare opaque runtime types with `extern type Name;`"⟩]

def ofSpelling? (spelling : String) : Option ForeignWord :=
  all.find? fun word => word.spelling == spelling

end ForeignWord

end BehaviorTree
