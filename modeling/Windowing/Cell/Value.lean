import Windowing.Cell.Type
import Windowing.FloatingPoint.Format

/-!
Present values, and the order within one type: integers and booleans by value, strings and binaries
by their bytes, floating-point numbers by the total order of their codes. Values of different types
are not comparable.
-/
namespace Windowing

inductive Value
  | boolean (b : Bool)
  | integer (kind : IntKind) (v : Int) (fits : kind.Fits v)
  | float32 (code : BitVec 32)
  | float64 (code : BitVec 64)
  | utf8 (text : String)
  | binary (bytes : List UInt8)
  deriving DecidableEq

/-- Negative codes come first, in descending order:
`-NaN < -inf < .. < -0.0 < 0.0 < .. < inf < NaN`. -/
def FloatFormat.orderKey (f : FloatFormat) (code : Nat) : Int :=
  if f.isNegative code then -1 - f.magnitude code else code

namespace Value

def type : Value → DataType
  | boolean _ => .boolean
  | integer k _ _ => .integer k
  | float32 _ => .float32
  | float64 _ => .float64
  | utf8 _ => .utf8
  | binary _ => .binary

def compare? : Value → Value → Option Ordering
  | boolean a, boolean b => some (compare a b)
  | integer j a _, integer k b _ => if j = k then some (compare a b) else none
  | float32 a, float32 b =>
    some (compare (FloatFormat.single.orderKey a.toNat) (FloatFormat.single.orderKey b.toNat))
  | float64 a, float64 b =>
    some (compare (FloatFormat.double.orderKey a.toNat) (FloatFormat.double.orderKey b.toNat))
  | utf8 a, utf8 b => some (compare a b)
  | binary a, binary b => some (compare a b)
  | _, _ => none

/-- Bytes a value holds beyond its cell. -/
def payloadSize : Value → Nat
  | utf8 s => s.utf8ByteSize
  | binary bytes => bytes.length
  | _ => 0

end Value
end Windowing
