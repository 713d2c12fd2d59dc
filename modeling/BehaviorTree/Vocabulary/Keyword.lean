import BehaviorTree.Vocabulary.Stability

/-!
Reserved words. Spellings are distinct and case-sensitive, so reading a spelling and writing it
are inverse to each other.
-/

namespace BehaviorTree

inductive Keyword
  | importWord
  | externWord
  | typeWord
  | varWord
  | constWord
  | treeWord
  | trueWord
  | falseWord
  | nullWord
  | action
  | condition
  | control
  | decorator
  | subtree
  | inWord
  | outWord
  | refWord
  | mutWord
  | asWord
  | stringWord
  | vecWord
  | infer
  deriving DecidableEq

namespace Keyword

inductive Category
  | declaration
  | literal
  | nodeCategory
  | direction
  | type
  | operator
  deriving DecidableEq

def Category.name : Category → String
  | declaration => "Declaration"
  | literal => "Literal"
  | nodeCategory => "NodeCategory"
  | direction => "Direction"
  | type => "Type"
  | operator => "Operator"

def all : List Keyword :=
  [importWord, externWord, typeWord, varWord, constWord, treeWord, trueWord, falseWord, nullWord,
    action, condition, control, decorator, subtree, inWord, outWord, refWord, mutWord, asWord,
    stringWord, vecWord, infer]

def spelling : Keyword → String
  | importWord => "import"
  | externWord => "extern"
  | typeWord => "type"
  | varWord => "var"
  | constWord => "const"
  | treeWord => "tree"
  | trueWord => "true"
  | falseWord => "false"
  | nullWord => "null"
  | action => "action"
  | condition => "condition"
  | control => "control"
  | decorator => "decorator"
  | subtree => "subtree"
  | inWord => "in"
  | outWord => "out"
  | refWord => "ref"
  | mutWord => "mut"
  | asWord => "as"
  | stringWord => "string"
  | vecWord => "vec"
  | infer => "_"

def name : Keyword → String
  | importWord => "Import"
  | externWord => "Extern"
  | typeWord => "Type"
  | varWord => "Var"
  | constWord => "Const"
  | treeWord => "Tree"
  | trueWord => "True"
  | falseWord => "False"
  | nullWord => "Null"
  | action => "Action"
  | condition => "Condition"
  | control => "Control"
  | decorator => "Decorator"
  | subtree => "Subtree"
  | inWord => "In"
  | outWord => "Out"
  | refWord => "Ref"
  | mutWord => "Mut"
  | asWord => "As"
  | stringWord => "String"
  | vecWord => "Vec"
  | infer => "Infer"

def category : Keyword → Category
  | importWord | externWord | typeWord | varWord | constWord | treeWord => .declaration
  | trueWord | falseWord | nullWord => .literal
  | action | condition | control | decorator | subtree => .nodeCategory
  | inWord | outWord | refWord | mutWord => .direction
  | asWord => .operator
  | stringWord | vecWord | infer => .type

def stability (_ : Keyword) : Stability := .stable

def since (_ : Keyword) : String := firstGrammar

/-- The words that open a top-level construct. Error recovery stops in front of any of them. -/
def openers : List Keyword := [varWord, constWord, typeWord, treeWord, importWord, externWord]

def isOpener (word : Keyword) : Bool := openers.contains word

/-- The reserved word with exactly this spelling. -/
def ofSpelling? (spelling : String) : Option Keyword :=
  all.find? fun word => word.spelling == spelling

theorem ofSpelling?_spelling (word : Keyword) : ofSpelling? word.spelling = some word := by
  cases word <;> rfl

theorem spelling_eq_of_ofSpelling? {text : String} {word : Keyword}
    (found : ofSpelling? text = some word) : word.spelling = text := by
  simpa using List.find?_some found

end Keyword

end BehaviorTree
