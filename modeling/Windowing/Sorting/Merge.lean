import Windowing.Sorting.Insertion

/-!
Merging two sorted lists, with a comparison that may fail. An element of the second list goes before
one of the first only if it is less, so equal elements keep their order. Where merging starts makes
no difference to the result, but tells which elements meet.
-/
namespace Windowing.Sorting

variable {α ε : Type} (cmp : α → α → Except ε Ordering)

def mergeFront : List α → List α → Except ε (List α)
  | [], ys => .ok ys
  | x :: xs, [] => .ok (x :: xs)
  | x :: xs, y :: ys => do
    if ← less cmp y x then return y :: (← mergeFront (x :: xs) ys)
    else return x :: (← mergeFront xs (y :: ys))
termination_by xs ys => xs.length + ys.length

/-- Both lists and the result run from the last element back to the first. -/
def mergeBack : List α → List α → Except ε (List α)
  | [], ys => .ok ys
  | x :: xs, [] => .ok (x :: xs)
  | x :: xs, y :: ys => do
    if ← less cmp y x then return x :: (← mergeBack xs (y :: ys))
    else return y :: (← mergeBack (x :: xs) ys)
termination_by xs ys => xs.length + ys.length

/-- Starts at the back if the second list is the shorter one. -/
def merge (xs ys : List α) : Except ε (List α) :=
  if xs.length ≤ ys.length then mergeFront cmp xs ys
  else (mergeBack cmp xs.reverse ys.reverse).map List.reverse

/-- Takes the least element and the greatest one in turn. Of two lists of the lengths `m` and `n`,
the front has still to take from `xs` and `ys`, and the back from `us` and `vs`, which run from the
last element back to the first. After the given number of steps, what neither has taken stands
between. -/
def mergeEnds (m n : Nat) : (steps : Nat) → (xs ys us vs : List α) → Except ε (List α)
  | steps + 1, x :: xs, y :: ys, u :: us, v :: vs => do
    let early ← less cmp y x
    let late ← less cmp v u
    let between ← mergeEnds m n steps
      (if early then x :: xs else xs) (if early then ys else y :: ys)
      (if late then us else u :: us) (if late then v :: vs else vs)
    return (if early then y else x) :: between ++ [if late then u else v]
  | _, xs, ys, us, vs =>
    .ok (xs.take (xs.length + us.length - m) ++ ys.take (ys.length + vs.length - n))

/-- Merges a list with one that is as long or longer, from both ends at once. -/
def mergeBoth (xs ys : List α) : Except ε (List α) :=
  mergeEnds cmp xs.length ys.length xs.length xs ys xs.reverse ys.reverse

end Windowing.Sorting
