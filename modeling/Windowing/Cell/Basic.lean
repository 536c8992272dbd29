import Windowing.Cell.Value

/-!
A cell holds a present value or a null. A null has a type too; the null of type `null` is the
untyped one, which reserved result cells hold until a function has been computed.
-/
namespace Windowing

inductive Cell
  | null (type : DataType)
  | value (v : Value)
  deriving DecidableEq

abbrev Row := List Cell

/-- Positions and counts are 64-bit; this is one past the largest. -/
def countLimit : Nat := 18446744073709551616

namespace Cell

abbrev untyped : Cell := .null .null

def type : Cell → DataType
  | null t => t
  | value v => v.type

def isNull : Cell → Bool
  | null _ => true
  | value _ => false

def present? : Cell → Option Value
  | null _ => none
  | value v => some v

def ofBool (b : Bool) : Cell := .value (.boolean b)

theorem bmod_fits_int64 (n : Int) : IntKind.int64.Fits (n.bmod countLimit) := by
  have low := Int.le_bmod (x := n) (m := countLimit) (by decide)
  have high := Int.bmod_lt (x := n) (m := countLimit) (by decide)
  simp only [countLimit] at low high ⊢
  simp only [IntKind.Fits, IntKind.least, IntKind.greatest]
  omega

/-- A count as a 64-bit signed cell; counts from `2 ^ 63` on wrap. -/
def ofCount (n : Nat) : Cell :=
  .value (.integer .int64 ((n : Int).bmod countLimit) (bmod_fits_int64 n))

/-- A fixed amount, and what a present value holds. -/
def estimatedSize (c : Cell) : Nat :=
  64 + (c.present?.map Value.payloadSize).getD 0

end Cell

/-- What the cells take, and a header. -/
def Row.estimatedSize (row : Row) : Nat :=
  row.foldl (fun total c => total + c.estimatedSize) 24

end Windowing
