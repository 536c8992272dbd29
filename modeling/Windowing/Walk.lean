import Windowing.Definition
import Windowing.Function.Evaluation
import Windowing.Peers
import Windowing.Source

/-!
The walk over the sorted buffer. At each row it finds the frame, which reaches from the partition's
start to the end of the row's peers, computes all calls, and only then writes their results into the
row's reserved cells. Peers share a frame, so a call that depends on the frame alone is computed for
the first of them and copied to the others. Writing happens in place: a later row sees the results
of earlier ones. The first call that fails ends the walk, and the rows from there on are as they
were.
-/
namespace Windowing

/-- Where a row lies: in its partition, among its peers, and in its frame. -/
structure Position where
  partitionStart : Nat
  partitionEnd : Nat
  /-- Rows of the partition before this one. -/
  index : Nat
  peerStart : Nat
  /-- Runs of peers of the partition before this row's. -/
  peerGroup : Nat
  frameEnd : Nat
  /-- The row before is a peer and has the same frame. -/
  sharesFrame : Bool
  deriving DecidableEq

namespace Position

def frame (p : Position) (rows : Array Row) (i : Nat) : Except Defect Frame := do
  let f ← Frame.ofRange rows 0 rows.size
  let f ← f.withBounds p.partitionStart p.partitionStart p.frameEnd
  f.withCurrent i p.peerStart p.peerGroup

end Position

namespace Definition

def runEnd (order : Option RowOrder) (rows : Array Row) (start stop : Nat) : Except Defect Nat :=
  Peers.runEnd (order.map RowOrder.compare) rows start stop

variable (d : Definition)

/-- Row `i` as the first of its partition. -/
def opening (rows : Array Row) (i : Nat) : Except Defect Position := do
  let partitionEnd ← runEnd d.partitionBy rows i rows.size
  let frameEnd ← runEnd d.orderBy rows i partitionEnd
  return ⟨i, partitionEnd, 0, i, 0, frameEnd, false⟩

/-- Row `i` after a row of the same partition. -/
def following (rows : Array Row) (i : Nat) (p : Position) : Except Defect Position :=
  if i < p.frameEnd then .ok { p with index := p.index + 1, sharesFrame := true }
  else do
    let frameEnd ← runEnd d.orderBy rows i p.partitionEnd
    return ⟨p.partitionStart, p.partitionEnd, p.index + 1, i, p.peerGroup + 1, frameEnd, false⟩

/-- The position of row `i`, given that of the row before it. -/
def locate (rows : Array Row) (i : Nat) : Option Position → Except Defect Position
  | none => d.opening rows i
  | some p => if i = p.partitionEnd then d.opening rows i else d.following rows i p

/-- The result of a call for row `i`, whose place is cell `cell`. -/
def resultAt (rows : Array Row) (i : Nat) (p : Position) (f : Frame) (cell : Nat) (c : Call) :
    Guarded WindowError Cell :=
  if p.sharesFrame && c.function.frameOnly then do
    (← rowAt rows (i - 1)).cellAt cell
  else Guarded.mapError (WindowError.evaluation c.function) (c.evaluate p.index f)

/-- The results of calls whose places begin at cell `cell`. -/
def resultsFrom (rows : Array Row) (i : Nat) (p : Position) (f : Frame) :
    (cell : Nat) → List Call → Guarded WindowError (List Cell)
  | _, [] => .ok []
  | cell, c :: calls => do
    let result ← resultAt rows i p f cell c
    return result :: (← resultsFrom rows i p f (cell + 1) calls)

/-- Overwrites the cells of a row from `start` on. -/
def write (row : Row) (start : Nat) (results : List Cell) : Except Defect Row :=
  if results = [] then .ok row
  else if start + results.length ≤ row.length then
    .ok (row.take start ++ results ++ row.drop (start + results.length))
  else .error (.cellOutOfRange (max start row.length) row.length)

theorem length_write {row written : Row} {start : Nat} {results : List Cell}
    (h : write row start results = .ok written) : written.length = row.length := by
  unfold write at h
  split at h
  · cases h
    rfl
  · split at h
    · cases h
      simp only [List.length_append, List.length_take, List.length_drop]
      omega
    · cases h

/-- The position of row `i`, and the row with its results. -/
def visit (rows : Array Row) (i : Nat) (before : Option Position) :
    Guarded WindowError (Position × Row) := do
  let p ← d.locate rows i before
  let f ← p.frame rows i
  let results ← resultsFrom rows i p f d.width d.calls
  let row ← write (← rowAt rows i) d.width results
  return (p, row)

def walkFrom : (remaining i : Nat) → Option Position → Array Row →
    Array Row × Guarded WindowError Unit
  | 0, _, _, rows => (rows, .ok ())
  | remaining + 1, i, before, rows =>
    match d.visit rows i before with
    | .error e => (rows, .error e)
    | .ok (p, row) => walkFrom remaining (i + 1) (some p) (rows.setIfInBounds i row)

/-- The buffer after the walk, and how the walk ended. -/
def walk (rows : Array Row) : Array Row × Guarded WindowError Unit :=
  d.walkFrom rows.size 0 none rows

end Definition
end Windowing
