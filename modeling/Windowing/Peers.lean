import Windowing.Defect

/-!
The end of a run of peers: rows that compare equal to the first row of a range. The search halves
the range and, whenever it hits a peer, looks one row further, so it stops early at a run's
boundary. It needs the range sorted only to find the run's real end; on any data it stops at some
boundary between a peer and a row that is none.
-/
namespace Windowing.Peers

variable {α ε : Type}

/-- `low` is a peer, and the boundary lies in `(low, high]`. -/
def search (isPeer : Nat → Except ε Bool) (low high : Nat) : Except ε Nat :=
  if low + 1 < high then do
    let middle := low + (high - low) / 2
    if ← isPeer middle then
      if middle + 1 = high then return middle + 1
      else if ← isPeer (middle + 1) then search isPeer (middle + 1) high
      else return middle + 1
    else search isPeer low middle
  else .ok high
termination_by high - low

def isPeerOf (cmp : α → α → Except Defect Ordering) (rows : Array α) (first : α) (k : Nat) :
    Except Defect Bool := do
  let row ← rowAt rows k
  return (← cmp first row) == .eq

/-- Exclusive end of the peers of row `start` within `[start, stop)`. Without an order, and in a
range of fewer than two rows, the range is one run. Only an empty range can begin at a position that
has no 64-bit successor. -/
def runEnd (cmp : Option (α → α → Except Defect Ordering)) (rows : Array α) (start stop : Nat) :
    Except Defect Nat :=
  match cmp with
  | none => .ok stop
  | some cmp =>
    if stop ≤ start ∧ countLimit ≤ start + 1 then .error .countOutOfRange
    else if stop ≤ start + 1 then .ok stop
    else do
      let first ← rowAt rows start
      if ← isPeerOf cmp rows first (start + 1) then
        search (isPeerOf cmp rows first) (start + 1) stop
      else return start + 1

end Windowing.Peers
