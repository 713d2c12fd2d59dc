import BehaviorTree.Vocabulary.Stability

/-!
Operators, with the layer each one binds on and how a chain of its layer groups.
-/

namespace BehaviorTree

inductive Operator
  | plus
  | minus
  | star
  | slash
  | percent
  | amp
  | pipe
  | caret
  | andAnd
  | orOr
  | bang
  | eqEq
  | notEq
  | lt
  | ltEq
  | gt
  | gtEq
  | eq
  | plusEq
  | minusEq
  | starEq
  | slashEq
  | percentEq
  deriving DecidableEq

namespace Operator

inductive Associativity
  | left
  | right
  | none
  deriving DecidableEq

def Associativity.name : Associativity → String
  | left => "Left"
  | right => "Right"
  | none => "None"

/-- Where an operator stands: between two operands, before one, or in an assignment. -/
inductive Fixity
  | between
  | before
  | assigning
  deriving DecidableEq

def Fixity.name : Fixity → String
  | between => "Infix"
  | before => "Prefix"
  | assigning => "Assign"

/-- Loosest layer first, assignments last. -/
def all : List Operator :=
  [orOr, andAnd, pipe, caret, amp, eqEq, notEq, lt, ltEq, gt, gtEq, plus, minus, star, slash,
    percent, bang, eq, plusEq, minusEq, starEq, slashEq, percentEq]

def spelling : Operator → String
  | plus => "+"
  | minus => "-"
  | star => "*"
  | slash => "/"
  | percent => "%"
  | amp => "&"
  | pipe => "|"
  | caret => "^"
  | andAnd => "&&"
  | orOr => "||"
  | bang => "!"
  | eqEq => "=="
  | notEq => "!="
  | lt => "<"
  | ltEq => "<="
  | gt => ">"
  | gtEq => ">="
  | eq => "="
  | plusEq => "+="
  | minusEq => "-="
  | starEq => "*="
  | slashEq => "/="
  | percentEq => "%="

def name : Operator → String
  | plus => "Plus"
  | minus => "Minus"
  | star => "Star"
  | slash => "Slash"
  | percent => "Percent"
  | amp => "Amp"
  | pipe => "Pipe"
  | caret => "Caret"
  | andAnd => "AndAnd"
  | orOr => "OrOr"
  | bang => "Bang"
  | eqEq => "EqEq"
  | notEq => "NotEq"
  | lt => "Lt"
  | ltEq => "LtEq"
  | gt => "Gt"
  | gtEq => "GtEq"
  | eq => "Eq"
  | plusEq => "PlusEq"
  | minusEq => "MinusEq"
  | starEq => "StarEq"
  | slashEq => "SlashEq"
  | percentEq => "PercentEq"

/-- The layer of an operator; a higher layer binds tighter. -/
def precedence : Operator → Nat
  | orOr => 10
  | andAnd => 20
  | pipe => 30
  | caret => 40
  | amp => 50
  | eqEq | notEq => 60
  | lt | ltEq | gt | gtEq => 70
  | plus | minus => 80
  | star | slash | percent => 90
  | bang => 100
  | eq | plusEq | minusEq | starEq | slashEq | percentEq => 0

/-- The layers of the operators that stand between two operands, loosest first. -/
def layers : List Nat := [10, 20, 30, 40, 50, 60, 70, 80, 90]

def associativity : Operator → Associativity
  | eqEq | notEq | lt | ltEq | gt | gtEq => .none
  | bang | eq | plusEq | minusEq | starEq | slashEq | percentEq => .right
  | orOr | andAnd | pipe | caret | amp | plus | minus | star | slash | percent => .left

def fixity : Operator → Fixity
  | bang => .before
  | eq | plusEq | minusEq | starEq | slashEq | percentEq => .assigning
  | orOr | andAnd | pipe | caret | amp | eqEq | notEq | lt | ltEq | gt | gtEq | plus | minus
  | star | slash | percent => .between

def stability (_ : Operator) : Stability := .stable

def since (_ : Operator) : String := firstGrammar

def isAssignment (op : Operator) : Bool := op.fixity == .assigning

/-- The operator with exactly this spelling. -/
def ofSpelling? (spelling : String) : Option Operator :=
  all.find? fun op => op.spelling == spelling

theorem ofSpelling?_spelling (op : Operator) : ofSpelling? op.spelling = some op := by
  cases op <;> rfl

theorem spelling_eq_of_ofSpelling? {text : String} {op : Operator}
    (found : ofSpelling? text = some op) : op.spelling = text := by
  simpa using List.find?_some found

/-- All operators of one layer group alike. -/
theorem associativity_eq_of_precedence_eq {left right : Operator}
    (same : left.precedence = right.precedence) (positive : 0 < left.precedence) :
    left.associativity = right.associativity := by
  cases left <;> cases right <;> first | rfl | simp [precedence] at same positive

theorem precedence_mem_layers {op : Operator} (infixed : op.fixity = .between) :
    op.precedence ∈ layers := by
  cases op <;> first | decide | simp [fixity] at infixed

end Operator

end BehaviorTree
