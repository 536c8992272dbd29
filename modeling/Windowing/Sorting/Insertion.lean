/-!
Sorting by insertion, with a comparison that may fail. What is sorted is held from its last element
back to its first: a new element meets the last one first and passes those that are greater, so
equal elements keep their order.
-/
namespace Windowing.Sorting

variable {α ε : Type} (cmp : α → α → Except ε Ordering)

def less (x y : α) : Except ε Bool := (cmp x y).map (· = .lt)

/-- Inserts into a list that is sorted from its last element back to its first. -/
def insertLast (x : α) : List α → Except ε (List α)
  | [] => .ok [x]
  | y :: ys => do
    if ← less cmp x y then return y :: (← insertLast x ys) else return x :: y :: ys

/-- Inserts the elements of the second list, one after the other, into the sorted first one. -/
def insertAll (sorted xs : List α) : Except ε (List α) := do
  let reversed ← xs.foldlM (fun done x => insertLast cmp x done) sorted.reverse
  return reversed.reverse

def byInsertion (xs : List α) : Except ε (List α) := insertAll cmp [] xs

end Windowing.Sorting
