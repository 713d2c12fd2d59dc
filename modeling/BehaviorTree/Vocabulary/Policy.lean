/-!
The closed sets of names that preconditions and the `#[behavior(...)]` attribute accept.
-/

namespace BehaviorTree

/-- The kind of a precondition clause such as `@guard(cond)`. -/
inductive PreconditionKind
  | guard
  | successIf
  | failureIf
  | skipIf
  | runWhile
  deriving DecidableEq

namespace PreconditionKind

def all : List PreconditionKind := [guard, successIf, failureIf, skipIf, runWhile]

def spelling : PreconditionKind → String
  | guard => "guard"
  | successIf => "success_if"
  | failureIf => "failure_if"
  | skipIf => "skip_if"
  | runWhile => "run_while"

def name : PreconditionKind → String
  | guard => "Guard"
  | successIf => "SuccessIf"
  | failureIf => "FailureIf"
  | skipIf => "SkipIf"
  | runWhile => "RunWhile"

def ofSpelling? (spelling : String) : Option PreconditionKind :=
  all.find? fun kind => kind.spelling == spelling

/-- All spellings, quoted and separated by commas, as help texts list them. -/
def spellingList : String :=
  ", ".intercalate (all.map fun kind => "`" ++ kind.spelling ++ "`")

theorem ofSpelling?_spelling (kind : PreconditionKind) :
    ofSpelling? kind.spelling = some kind := by
  cases kind <;> rfl

end PreconditionKind

/-- How a node treats the data that its children write. -/
inductive DataPolicy
  | all
  | any
  | none
  deriving DecidableEq

namespace DataPolicy

def values : List DataPolicy := [all, any, none]

def spelling : DataPolicy → String
  | all => "All"
  | any => "Any"
  | none => "None"

def ofSpelling? (spelling : String) : Option DataPolicy :=
  values.find? fun policy => policy.spelling == spelling

theorem ofSpelling?_spelling (policy : DataPolicy) : ofSpelling? policy.spelling = some policy := by
  cases policy <;> rfl

end DataPolicy

/-- How a node sequences the control flow of its children. -/
inductive FlowPolicy
  | chained
  | isolated
  deriving DecidableEq

namespace FlowPolicy

def values : List FlowPolicy := [chained, isolated]

def spelling : FlowPolicy → String
  | chained => "Chained"
  | isolated => "Isolated"

def ofSpelling? (spelling : String) : Option FlowPolicy :=
  values.find? fun policy => policy.spelling == spelling

theorem ofSpelling?_spelling (policy : FlowPolicy) : ofSpelling? policy.spelling = some policy := by
  cases policy <;> rfl

end FlowPolicy

/-- The flow policy of an attribute that names a data policy alone. -/
def defaultFlowPolicy : FlowPolicy := .chained

/-- The only attribute that declarations accept. -/
def behaviorAttribute : String := "behavior"

end BehaviorTree
