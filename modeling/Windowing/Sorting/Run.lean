import Windowing.Sorting.Short

/-!
Sorting by runs. The list is taken as a sequence of runs: those that stand in it already, ascending
or strictly descending, if they are long enough, and otherwise stretches that are sorted at once or
left for later. Neighbouring runs are merged in the order of a balanced tree over the whole list.
-/
namespace Windowing.Sorting

structure Run (α : Type) where
  items : List α
  sorted : Bool

/-- A run that waits for the one after it, and the power of the merge between the two. -/
structure Pending (α : Type) where
  run : Run α
  power : Nat

/-- The quotient rounded up. -/
def ceilDiv (n d : Nat) : Nat := (n + d - 1) / d

/-- The depth of the merge of two neighbouring runs in a balanced tree over `n` elements. The
middles of the runs are fractions of the list, here of 63 binary places, and the depth is the number
of leading places in which they agree. -/
def mergePower (n start middle stop : Nat) : Nat :=
  let scale := ceilDiv (Nat.pow 2 62) n
  63 - ((scale * (start + middle)) ^^^ (scale * (middle + stop))).log2

/-- Runs of this length are kept as they stand in a list of `n` elements: half of them, but at most
64 of a short list, and of a long one about the root. -/
def goodLength (n : Nat) : Nat :=
  if n ≤ 64 * 64 then min (n - n / 2) 64
  else
    let root := Nat.pow 2 ((1 + n.log2) / 2)
    (root + n / root) / 2

/-- Stretches left for later are put together as long as a list of `n` elements has room for
them. -/
def roomFor (n : Nat) : Nat := max (n - n / 2) (min n 333333)

variable {α ε : Type} (cmp : α → α → Except ε Ordering)

/-- How many elements go on with a run whose last one is `x`. -/
def continued (descending : Bool) (x : α) : List α → Except ε Nat
  | [] => .ok 0
  | y :: r => do
    if (← less cmp y x) = descending then return (← continued descending y r) + 1 else return 0

/-- The length of the run at the beginning, and whether it descends. -/
def leadingRun : List α → Except ε (Nat × Bool)
  | x :: y :: r => do
    let descending ← less cmp y x
    return ((← continued cmp descending y r) + 2, descending)
  | xs => .ok (xs.length, false)

/-! How to sort what is left for later; nothing is left if there is no such way. -/
variable (later : Option (List α → Except ε (List α)))

/-- The run to begin with, which has a good length or is a stretch out of order. -/
def nextRun (good : Nat) (xs : List α) : Except ε (Run α) := do
  let (length, descending) ← if good ≤ xs.length then leadingRun cmp xs else pure (0, false)
  if good ≤ length then
    let items := xs.take length
    return ⟨if descending then items.reverse else items, true⟩
  else if later.isSome then return ⟨xs.take good, false⟩
  else return ⟨← sortShort cmp (xs.take shortLength), true⟩

def Run.settle (run : Run α) : Except ε (List α) :=
  match run.sorted, later with
  | false, some sort => sort run.items
  | _, _ => .ok run.items

def joinRuns (room : Nat) (a b : Run α) : Except ε (Run α) := do
  if !a.sorted && !b.sorted && a.items.length + b.items.length ≤ room then
    return ⟨a.items ++ b.items, false⟩
  else
    let xs ← a.settle later
    let ys ← b.settle later
    return ⟨← merge cmp xs ys, true⟩

/-- Joins the run with the pending ones, latest first, whose power is at least the given one. -/
def collapse (room power : Nat) : List (Pending α) → Run α → Except ε (List (Pending α) × Run α)
  | [], run => .ok ([], run)
  | p :: rest, run =>
    if power ≤ p.power then do collapse room power rest (← joinRuns cmp later room p.run run)
    else .ok (p :: rest, run)

/-- Joins the pending runs, the run at `start` and those in what follows it, in a list of `n`
elements. -/
def joinFrom (n : Nat) (pending : List (Pending α)) (run : Run α) (start : Nat) :
    (rest : List α) → Except ε (Run α)
  | [] => (collapse cmp later (roomFor n) 0 pending run).map Prod.snd
  | x :: rest => do
    let next ← nextRun cmp later (goodLength n) (x :: rest)
    let middle := start + run.items.length
    let power := mergePower n start middle (middle + next.items.length)
    let (pending, run) ← collapse cmp later (roomFor n) power pending run
    joinFrom n (⟨run, power⟩ :: pending) next middle (rest.drop (next.items.length - 1))
termination_by rest => rest.length

def byRuns (xs : List α) : Except ε (List α) := do
  let first ← nextRun cmp later (goodLength xs.length) xs
  let run ← joinFrom cmp later xs.length [] first 0 (xs.drop first.items.length)
  run.settle later

end Windowing.Sorting
