import Windowing.Cell.Basic

/-!
Defects: a caller broke a precondition, and the computation stops where that is noticed. They are
kept apart from errors, which a correct caller can meet; a `Fault` is one or the other.
-/
namespace Windowing

inductive Defect
  | rowOutOfRange (position size : Nat)
  | cellOutOfRange (column width : Nat)
  | incomparable (column : Nat)
  | frameOutsideBuffer (first last size : Nat)
  | disorderedBounds (partitionStart first last size : Nat)
  | offsetOutsideFrame (offset size : Nat)
  | currentRowOutsidePartition (partitionStart peerStart current : Nat)
  | countOutOfRange
  deriving DecidableEq

/-- Out-of-range positions and counts are reported without a text of their own. -/
def Defect.message? : Defect → Option String
  | incomparable column => some s!"values in column {column} are not comparable"
  | frameOutsideBuffer first last size =>
    some s!"frame [{first}, {last}) out of buffer of {size} rows"
  | disorderedBounds start first last size =>
    some s!"invalid frame bounds: partition_start={start} frame=[{first}, {last}) rows={size}"
  | offsetOutsideFrame offset size =>
    some s!"frame offset {offset} out of range, frame size is {size}"
  | rowOutOfRange .. | cellOutOfRange .. | currentRowOutsidePartition .. | countOutOfRange => none

inductive Fault (ε : Type)
  | defect (d : Defect)
  | error (e : ε)
  deriving DecidableEq

namespace Fault

def map (f : ε → δ) : Fault ε → Fault δ
  | defect d => .defect d
  | error e => .error (f e)

end Fault

/-- A computation that may be stopped by a defect or fail with an error. -/
abbrev Guarded (ε α : Type) := Except (Fault ε) α

namespace Guarded

def ofDefect (x : Except Defect α) : Guarded ε α := x.mapError .defect

def ofError (x : Except ε α) : Guarded ε α := x.mapError .error

def mapError (f : ε → δ) (x : Guarded ε α) : Guarded δ α := Except.mapError (Fault.map f) x

end Guarded

instance : MonadLift (Except Defect) (Except (Fault ε)) := ⟨Guarded.ofDefect⟩

namespace Guarded

@[simp] theorem ofDefect_ok (a : α) : (ofDefect (.ok a) : Guarded ε α) = .ok a := rfl

@[simp] theorem ofDefect_error (d : Defect) :
    (ofDefect (.error d) : Guarded ε α) = .error (.defect d) := rfl

@[simp] theorem ofError_ok (a : α) : (ofError (.ok a) : Guarded ε α) = .ok a := rfl

@[simp] theorem ofError_error (e : ε) :
    (ofError (.error e) : Guarded ε α) = .error (.error e) := rfl

@[simp] theorem lift_eq (x : Except Defect α) :
    (liftM x : Except (Fault ε) α) = ofDefect x := rfl

end Guarded

def rowAt (rows : Array α) (position : Nat) : Except Defect α :=
  match rows[position]? with
  | some row => .ok row
  | none => .error (.rowOutOfRange position rows.size)

theorem rowAt_eq_ok_iff {rows : Array α} {position : Nat} {row : α} :
    rowAt rows position = .ok row ↔ rows[position]? = some row := by
  unfold rowAt
  cases rows[position]? <;> simp

theorem rowAt_of_lt {rows : Array α} {position : Nat} (inside : position < rows.size) :
    rowAt rows position = .ok rows[position] :=
  rowAt_eq_ok_iff.mpr (Array.getElem?_eq_getElem inside)

def Row.cellAt (row : Row) (column : Nat) : Except Defect Cell :=
  match row[column]? with
  | some cell => .ok cell
  | none => .error (.cellOutOfRange column row.length)

theorem Row.cellAt_eq_ok_iff {row : Row} {column : Nat} {cell : Cell} :
    row.cellAt column = .ok cell ↔ row[column]? = some cell := by
  unfold Row.cellAt
  cases row[column]? <;> simp

theorem Row.cellAt_of_lt {row : Row} {column : Nat} (inside : column < row.length) :
    row.cellAt column = .ok row[column] :=
  Row.cellAt_eq_ok_iff.mpr (List.getElem?_eq_getElem inside)

end Windowing
