/-!
The types a cell can have. Integers come in eight kinds, each with the range it can hold; a value
of a kind outside that range does not exist.
-/
namespace Windowing

inductive IntKind
  | int8 | int16 | int32 | int64 | uint8 | uint16 | uint32 | uint64
  deriving DecidableEq

namespace IntKind

/-- Bytes a value takes. -/
def bytes : IntKind → Nat
  | int8 | uint8 => 1
  | int16 | uint16 => 2
  | int32 | uint32 => 4
  | int64 | uint64 => 8

def least : IntKind → Int
  | int8 => -128
  | int16 => -32768
  | int32 => -2147483648
  | int64 => -9223372036854775808
  | uint8 | uint16 | uint32 | uint64 => 0

def greatest : IntKind → Int
  | int8 => 127
  | int16 => 32767
  | int32 => 2147483647
  | int64 => 9223372036854775807
  | uint8 => 255
  | uint16 => 65535
  | uint32 => 4294967295
  | uint64 => 18446744073709551615

def Fits (k : IntKind) (v : Int) : Prop :=
  k.least ≤ v ∧ v ≤ k.greatest

instance (k : IntKind) (v : Int) : Decidable (k.Fits v) :=
  inferInstanceAs (Decidable (_ ∧ _))

def name : IntKind → String
  | int8 => "Int8"
  | int16 => "Int16"
  | int32 => "Int32"
  | int64 => "Int64"
  | uint8 => "UInt8"
  | uint16 => "UInt16"
  | uint32 => "UInt32"
  | uint64 => "UInt64"

end IntKind

/-- `null` is the type of a column that holds nothing but nulls. -/
inductive DataType
  | null
  | boolean
  | integer (kind : IntKind)
  | float32
  | float64
  | utf8
  | binary
  deriving DecidableEq

namespace DataType

abbrev int64 : DataType := .integer .int64

def isInteger : DataType → Bool
  | integer _ => true
  | _ => false

def isFloating : DataType → Bool
  | float32 | float64 => true
  | _ => false

def name : DataType → String
  | null => "Null"
  | boolean => "Boolean"
  | integer k => k.name
  | float32 => "Float32"
  | float64 => "Float64"
  | utf8 => "Utf8"
  | binary => "Binary"

end DataType
end Windowing
