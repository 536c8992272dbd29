import Windowing.Batch.Basic
import Windowing.Budget.Breaker
import Windowing.Function.Error

/-!
Draining a source. Items are pulled one by one until the end, the first failure, or cancellation,
which is looked at before each poll. Either all rows come out, in arrival order and each extended by
its reserved cells, or none do.
-/
namespace Windowing

/-- Why an execution hands out no rows. -/
inductive WindowError
  | budget (e : BudgetExceeded)
  | evaluation (f : Function) (e : EvaluationError)
  /-- Outermost context first. -/
  | sourceFailed (context : List String)
  | cancelled
  | batchWidth (batch found expected : Nat)
  deriving DecidableEq

namespace WindowError

def message : WindowError → String
  | budget e => "resource limit exceeded: " ++ e.message
  | evaluation f e => "window function `" ++ f.name ++ "` failed: " ++ e.message
  | sourceFailed context => "upstream source failed: " ++ ": ".intercalate context
  | cancelled => "window execution cancelled"
  | batchWidth batch found expected =>
    s!"invalid configuration: source batch {batch} has {found} columns, " ++
      s!"window definition expects {expected} source cells"

def isBudget : WindowError → Bool
  | budget _ => true
  | _ => false

end WindowError

inductive Item
  | batch (b : Batch)
  | failure (context : List String)
  deriving DecidableEq

structure Source where
  items : List Item
  /-- Whether draining blocks on input or output. -/
  blocking : Bool := false
  deriving DecidableEq

namespace Source

def ofBatches (batches : List Batch) : Source := { items := batches.map .batch }

def text (s : Source) : String :=
  "BatchSource \x7b involves_io: " ++ (if s.blocking then "true" else "false") ++ " \x7d"

end Source

/-- When an execution is cancelled: never, before it starts, or in the poll that hands out the item
of that number, the end of input counting as the item after the last. One that comes later, while
the rows of this item are charged or while the next item is waited for, is seen at the same place,
for a pull that waits is abandoned; and before any item was handed out it is one before the
start. -/
inductive Cancellation
  | never
  | fromStart
  | during (item : Nat)
  deriving DecidableEq

/-- Whether cancellation is seen once so many items have been pulled. -/
def Cancellation.seen (c : Cancellation) (pulled : Nat) : Bool :=
  match c with
  | never => false
  | fromStart => true
  | during item => item < pulled

namespace Source

/-- Pulls the items from number `pulled` on. The item that was handed out by the poll in which the
cancellation came is still processed, and may fail by itself; none is pulled after it. -/
def drain (width spare : Nat) (cancel : Cancellation) :
    (pulled : Nat) → Accounting → List Item → Accounting × Except WindowError (List Row)
  | pulled, accounting, [] =>
    if cancel.seen pulled then (accounting, .error .cancelled) else (accounting, .ok [])
  | pulled, accounting, item :: items =>
    if cancel.seen pulled then (accounting, .error .cancelled)
    else
      match item with
      | .failure context => (accounting, .error (.sourceFailed context))
      | .batch b =>
        if b.width ≠ width then (accounting, .error (.batchWidth pulled b.width width))
        else
          match accounting.chargeAll b.rows with
          | (accounting, .error e) => (accounting, .error (.budget e))
          | (accounting, .ok _) =>
            match drain width spare cancel (pulled + 1) accounting items with
            | (accounting, .error e) => (accounting, .error e)
            | (accounting, .ok rows) =>
              (accounting, .ok (b.rows.map (Batch.reserve · spare) ++ rows))

/-- All rows of the source, with `spare` reserved cells each. -/
def collect (s : Source) (width spare : Nat) (cancel : Cancellation) (accounting : Accounting) :
    Accounting × Except WindowError (List Row) :=
  drain width spare cancel 0 accounting s.items

end Source
end Windowing
