import Windowing.Sorting.Run

/-!
Sorting by partition. What is less than a pivot goes before the rest, each part in its order, and
both parts are sorted. A pivot that nothing is less than, or that is no greater than the one before
it on the left, parts the elements equal to it from the greater ones; they are in their place. After
too many partitions the list is sorted by runs.
-/
namespace Windowing.Sorting

variable {α ε : Type} (cmp : α → α → Except ε Ordering)

def median (xs : List α) (a b c : Fin xs.length) : Except ε (Fin xs.length) := do
  let x ← less cmp xs[a] xs[b]
  let y ← less cmp xs[a] xs[c]
  if x = y then return if (← less cmp xs[b] xs[c]) = x then b else c
  else return a

/-- An element near the middle of the order: the median of three elements of the stretch, each of
which stands in the same way for an eighth of it, if that is long enough. -/
def representative (xs : List α) (start length : Nat) (enough : 8 ≤ length)
    (inside : start + length ≤ xs.length) : Except ε (Fin xs.length) :=
  if long : 64 ≤ length then do
    let a ← representative xs start (length / 8) (by omega) (by omega)
    let b ← representative xs (start + 4 * (length / 8)) (length / 8) (by omega) (by omega)
    let c ← representative xs (start + 7 * (length / 8)) (length / 8) (by omega) (by omega)
    median cmp xs a b c
  else
    median cmp xs ⟨start, by omega⟩ ⟨start + 4 * (length / 8), by omega⟩
      ⟨start + 7 * (length / 8), by omega⟩
termination_by length

/-- The elements that pass the test and those that do not, in order. -/
def sift (test : α → Except ε Bool) : List α → Except ε (List α × List α)
  | [] => .ok ([], [])
  | x :: r => do
    let passes ← test x
    let (kept, left) ← sift test r
    return if passes then (x :: kept, left) else (kept, x :: left)

/-- The same, but the element at a position is not tested and said to pass or not. -/
def siftAround (xs : List α) (pivot : Fin xs.length) (passes : Bool) (test : α → Except ε Bool) :
    Except ε (List α × List α) := do
  let (kept, left) ← sift test (xs.take pivot)
  let (laterKept, laterLeft) ← sift test (xs.drop (pivot + 1))
  return if passes then (kept ++ xs[pivot] :: laterKept, left ++ laterLeft)
    else (kept ++ laterKept, left ++ xs[pivot] :: laterLeft)

/-- Sorts elements that are not less than the bound, if there is one, with at most `limit`
partitions inside one another. -/
def byPartition : (limit : Nat) → (bound : Option α) → List α → Except ε (List α)
  | 0, _, xs => if xs.length ≤ shortLength then sortShort cmp xs else byRuns cmp none xs
  | limit + 1, bound, xs =>
    if short : xs.length ≤ shortLength then sortShort cmp xs
    else do
      have : 32 < xs.length := Nat.lt_of_not_le short
      let pivot ← representative cmp xs 0 xs.length (by omega) (by omega)
      let repeated ← match bound with
        | some b => (less cmp b xs[pivot]).map not
        | none => .ok false
      let (lesser, rest) ←
        if repeated then .ok ([], xs)
        else siftAround xs pivot false fun x => less cmp x xs[pivot]
      if lesser.isEmpty then
        let (equal, greater) ← siftAround xs pivot true fun x => (less cmp xs[pivot] x).map not
        return equal ++ (← byPartition limit none greater)
      else
        let rest ← byPartition limit (some xs[pivot]) rest
        return (← byPartition limit bound lesser) ++ rest

end Windowing.Sorting
