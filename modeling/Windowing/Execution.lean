import Windowing.Settings.Basic
import Windowing.Sorting.Chunked
import Windowing.Walk

/-!
Executing a definition over a source: drain it, sort what came, walk over it. Cancellation that is
seen before the sort leaves no rows; the rows are handed out only when all results are there.
-/
namespace Windowing

/-- Completed rows in their final order, handed out one by one. -/
structure ResultRows where
  rows : List Row
  blocking : Bool
  deriving DecidableEq

namespace ResultRows

def empty : ResultRows := ⟨[], false⟩

def size (r : ResultRows) : Nat := r.rows.length

/-- The next row, and what is left after it. -/
def next? (r : ResultRows) : Option (Row × ResultRows) :=
  match r.rows with
  | [] => none
  | row :: rows => some (row, { r with rows })

end ResultRows

structure Executor where
  settings : Settings
  /-- Threads of the pool, if there is one. -/
  pool : Option Nat
  deriving DecidableEq

namespace Executor

/-- Checks the settings and gives them a pool, on a machine that offers `offered` threads. -/
def ofSettings (settings : Settings) (offered : Nat) : Except SettingsError Executor := do
  settings.check
  return ⟨settings, settings.pool offered⟩

def workers (x : Executor) : Nat :=
  if x.settings.parallelSort then x.pool.getD 1 else 1

def sort (x : Executor) (order : Option RowOrder) (rows : List Row) : Except Defect (List Row) :=
  match order with
  | none => .ok rows
  | some order =>
    Sorting.sort order.compare x.settings.minItemsPerWorker x.workers x.pool.isSome rows

/-- Sorts and walks over collected rows. -/
def compute (x : Executor) (d : Definition) (rows : List Row) : Guarded WindowError (List Row) := do
  let sorted ← x.sort (RowOrder.join d.partitionBy d.orderBy) rows
  let (buffer, outcome) := d.walk sorted.toArray
  outcome
  return buffer.toList

def execute (x : Executor) (d : Definition) (source : Source) (cancel : Cancellation)
    (accounting : Accounting) : Accounting × Guarded WindowError ResultRows :=
  match source.collect d.width d.calls.length cancel accounting with
  | (accounting, .error e) => (accounting, .error (.error e))
  | (accounting, .ok rows) =>
    if cancel.seen (source.items.length + 1) then (accounting, .error (.error .cancelled))
    else (accounting, (x.compute d rows).map fun rows => ⟨rows, source.blocking⟩)

end Executor
end Windowing
