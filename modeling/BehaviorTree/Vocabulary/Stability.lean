/-!
What a vocabulary table records about each of its entries besides the spelling.
-/

namespace BehaviorTree

/-- How settled a word of the language is. -/
inductive Stability
  | stable
  | draft
  | deprecated
  deriving DecidableEq

def Stability.name : Stability → String
  | .stable => "Stable"
  | .draft => "Draft"
  | .deprecated => "Deprecated"

/-- The language version that introduced every word of the present grammar. -/
def firstGrammar : String := "0.1.0"

end BehaviorTree
