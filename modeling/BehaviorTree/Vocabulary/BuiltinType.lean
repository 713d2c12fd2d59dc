/-!
Types that every module knows. They are ordinary identifiers that are found before any declared
type, except `string`, which is reserved because it takes a length bound.
-/

namespace BehaviorTree

inductive BuiltinType
  | int8
  | int16
  | int32
  | int64
  | uint8
  | uint16
  | uint32
  | uint64
  | float32
  | float64
  | bool
  | string
  deriving DecidableEq

namespace BuiltinType

def all : List BuiltinType :=
  [int8, int16, int32, int64, uint8, uint16, uint32, uint64, float32, float64, bool, string]

def canonical : BuiltinType → String
  | int8 => "int8"
  | int16 => "int16"
  | int32 => "int32"
  | int64 => "int64"
  | uint8 => "uint8"
  | uint16 => "uint16"
  | uint32 => "uint32"
  | uint64 => "uint64"
  | float32 => "float32"
  | float64 => "float64"
  | bool => "bool"
  | string => "string"

def aliases : BuiltinType → List String
  | int32 => ["int"]
  | float64 => ["float", "double"]
  | _ => []

def name : BuiltinType → String
  | int8 => "Int8"
  | int16 => "Int16"
  | int32 => "Int32"
  | int64 => "Int64"
  | uint8 => "Uint8"
  | uint16 => "Uint16"
  | uint32 => "Uint32"
  | uint64 => "Uint64"
  | float32 => "Float32"
  | float64 => "Float64"
  | bool => "Bool"
  | string => "String"

/-- The builtin type with this canonical name or alias. -/
def ofName? (name : String) : Option BuiltinType :=
  all.find? fun type => type.canonical == name || type.aliases.contains name

theorem ofName?_canonical (type : BuiltinType) : ofName? type.canonical = some type := by
  cases type <;> rfl

end BuiltinType

end BehaviorTree
