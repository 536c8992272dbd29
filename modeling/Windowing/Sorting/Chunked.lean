import Windowing.Sorting.Queue
import Windowing.Sorting.Stable

/-!
Sorting in chunks. The list is cut into contiguous chunks of one size, each chunk is sorted by
itself, and the sorted chunks are merged, the earliest one winning ties.
-/
namespace Windowing.Sorting

/-- How many chunks to sort at once: as many as there are workers, but none of them with fewer than
`minimum` elements. -/
def chunkCount (length minimum workers : Nat) : Nat :=
  if workers < 2 then 1
  else min workers (max 1 (length / max minimum 1))

def cutWithin (size : Nat) : (fuel : Nat) → List α → List (List α)
  | 0, _ => []
  | fuel + 1, xs =>
    if (xs.take size).isEmpty then []
    else xs.take size :: cutWithin size fuel (xs.drop size)

/-- Contiguous pieces of `size` elements, the last one possibly shorter. -/
def cut (size : Nat) (xs : List α) : List (List α) :=
  cutWithin size xs.length xs

theorem flatten_cutWithin {size fuel : Nat} {xs : List α} (progress : 0 < size)
    (enough : xs.length ≤ fuel) : (cutWithin size fuel xs).flatten = xs := by
  induction fuel generalizing xs with
  | zero => simp [List.length_eq_zero_iff.mp (Nat.le_zero.mp enough), cutWithin]
  | succ fuel ih =>
    unfold cutWithin
    split
    · rename_i empty
      have done := List.isEmpty_iff.mp empty
      rw [List.take_eq_nil_iff] at done
      rcases done with none | none
      · omega
      · simp [none]
    · rw [List.flatten_cons, ih (by rw [List.length_drop]; omega), List.take_append_drop]

/-- Nothing is lost by cutting. -/
theorem flatten_cut {size : Nat} (progress : 0 < size) (xs : List α) :
    (cut size xs).flatten = xs :=
  flatten_cutWithin progress (Nat.le_refl _)

variable {α ε : Type} (cmp : α → α → Except ε Ordering)

def chunked (chunks : Nat) (xs : List α) : Except ε (List α) := do
  let sorted ← (cut (ceilDiv xs.length chunks) xs).mapM (stable cmp)
  mergeAll cmp sorted

/-- Sorts in chunks if there is a pool and more than one chunk, else in one piece. -/
def sort (minimum workers : Nat) (pooled : Bool) (xs : List α) : Except ε (List α) :=
  let chunks := chunkCount xs.length minimum workers
  if pooled && decide (1 < chunks) then chunked cmp chunks xs
  else stable cmp xs

end Windowing.Sorting
