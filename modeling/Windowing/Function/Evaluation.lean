import Windowing.FloatingPoint.Arithmetic
import Windowing.Frame
import Windowing.Function.Call

/-!
Evaluating a call over a frame. Aggregates go through the rows of the frame in order, skip nulls,
and stop at the first value they cannot work with. The type of an argument over a frame is that of
its first row.
-/
namespace Windowing

namespace Argument

/-- Folds the present values of an argument, row by row. -/
def foldPresent (a : Argument) (step : σ → Value → Except EvaluationError σ) :
    σ → List Row → Guarded EvaluationError σ
  | s, [] => .ok s
  | s, row :: rows => do
    match ← a.evaluate row with
    | .null _ => foldPresent a step s rows
    | .value v => foldPresent a step (← Guarded.ofError (step s v)) rows

/-- An empty frame has no type to show. -/
def frameType (a : Argument) (frame : Frame) : Except Defect DataType :=
  if frame.isEmpty then .ok .null
  else do return (← a.evaluate (← frame.row 0)).type

end Argument

namespace Call

/-- The next integer, if it still is a signed 64-bit one. -/
def successor (n : Int) : Except Defect Cell :=
  match IntKind.int64.carrier? (n + 1) with
  | some n => .ok (.value (.integer .int64 n.val n.property))
  | none => .error .countOutOfRange

/-- One more than a position, as a signed 64-bit cell. -/
def ordinal (position : Nat) : Except Defect Cell := successor ((position : Int).bmod countLimit)

/-- One more than the number of rows before the peers of the current row. -/
def rankOf (frame : Frame) : Except Defect Cell :=
  if frame.peerStart < frame.partitionStart then .error .countOutOfRange
  else
    let rank := frame.peerStart - frame.partitionStart + 1
    if rank < countLimit then .ok (Cell.ofCount rank) else .error .countOutOfRange

def countPresent (frame : Frame) (a : Argument) : Guarded EvaluationError Cell := do
  return Cell.ofCount (← a.foldPresent (fun n _ => .ok (n + 1)) 0 frame.rows)

def addExact (sum : Option IntKind.int64.Carrier) (v : Value) :
    Except EvaluationError (Option IntKind.int64.Carrier) := do
  let n ← (v.toInteger .int64).mapError .cast
  match IntKind.int64.carrier? ((sum.map Subtype.val).getD 0 + n.val) with
  | some next => return some next
  | none => .error .sumOverflow

def addFloat (sum : BitVec 64) (v : Value) : Except EvaluationError (BitVec 64) := do
  let x ← v.toFloat64.mapError .cast
  return BitVec.ofNat 64 (FloatFormat.double.add sum.toNat x.toNat)

def sumExact (frame : Frame) (a : Argument) : Guarded EvaluationError Cell := do
  match ← a.foldPresent addExact none frame.rows with
  | none => return .null .int64
  | some n => return .value (.integer .int64 n.val n.property)

def sumFloat (frame : Frame) (a : Argument) : Guarded EvaluationError Cell := do
  let sum ← a.foldPresent (fun s v => some <$> addFloat (s.getD 0) v) none frame.rows
  return (sum.map fun code => Cell.value (.float64 code)).getD (.null .float64)

def sumOver (c : Call) (frame : Frame) (a : Argument) : Guarded EvaluationError Cell := do
  match ← Guarded.ofError ((c.function.summation (← a.frameType frame)).mapError .signature) with
  | .exact => sumExact frame a
  | .floating => sumFloat frame a

/-- The sum in floating-point numbers over how many there are. -/
def mean (sum : BitVec 64) (count : Nat) : BitVec 64 :=
  BitVec.ofNat 64 (FloatFormat.double.div sum.toNat (FloatFormat.double.ofInt count))

def avgOver (c : Call) (frame : Frame) (a : Argument) : Guarded EvaluationError Cell := do
  let _ ← Guarded.ofError ((c.function.summation (← a.frameType frame)).mapError .signature)
  let (sum, count) ← a.foldPresent
    (fun (s, n) v => do return (← addFloat s v, n + 1)) (0, 0) frame.rows
  if count = 0 then return .null .float64
  else return .value (.float64 (mean sum count))

/-- Keeps the better of two values, the earlier one if they are equal. -/
def better (f : Function) (keep : Ordering) (best : Option Value) (v : Value) :
    Except EvaluationError (Option Value) :=
  match best with
  | none => .ok (some v)
  | some b =>
    match v.compare? b with
    | some o => .ok (some (if o = keep then v else b))
    | none => .error (.incomparable f v b)

def extreme (c : Call) (keep : Ordering) (frame : Frame) (a : Argument) :
    Guarded EvaluationError Cell := do
  match ← a.foldPresent (better c.function keep) none frame.rows with
  | some v => return .value v
  | none => return .null (← a.frameType frame)

/-- The argument in the row at an offset; an empty frame has no value at all. -/
def valueAt (frame : Frame) (offset : Nat) (a : Argument) : Except Defect Cell :=
  if frame.isEmpty then .ok Cell.untyped
  else do a.evaluate (← frame.row offset)

/-- A one-based position, read as a signed 64-bit integer. -/
def positionOf (cell : Cell) : Except EvaluationError Nat := do
  match ← (cell.cast .int64).mapError EvaluationError.cast with
  | .value (.integer .int64 n fits) =>
    if 0 < n then return n.toNat else .error (.position (.value (.integer .int64 n fits)))
  | found => .error (.position found)

/-- The position is taken from the first row of the frame. -/
def nth (frame : Frame) (a position : Argument) : Guarded EvaluationError Cell :=
  if frame.isEmpty then .ok Cell.untyped
  else do
    let n ← Guarded.ofError (positionOf (← position.evaluate (← frame.row 0)))
    if frame.size < n then return .null (← a.frameType frame)
    else a.evaluate (← frame.row (n - 1))

def one (c : Call) : Guarded EvaluationError Argument :=
  Guarded.ofError (c.oneArgument.mapError .signature)

/-- Ranking functions ignore their arguments, `count` all but the first. -/
def evaluate (c : Call) (index : Nat) (frame : Frame) : Guarded EvaluationError Cell :=
  match c.function with
  | .rowNumber => ordinal index
  | .rank => rankOf frame
  | .denseRank => ordinal frame.peerGroup
  | .count =>
    match c.arguments with
    | [] => .ok (Cell.ofCount frame.size)
    | a :: _ => countPresent frame a
  | .sum => do c.sumOver frame (← c.one)
  | .avg => do c.avgOver frame (← c.one)
  | .min => do c.extreme .lt frame (← c.one)
  | .max => do c.extreme .gt frame (← c.one)
  | .firstValue => do valueAt frame 0 (← c.one)
  | .lastValue => do valueAt frame (frame.size - 1) (← c.one)
  | .nthValue => do
    let (a, position) ← Guarded.ofError (c.twoArguments.mapError .signature)
    nth frame a position

end Call
end Windowing
