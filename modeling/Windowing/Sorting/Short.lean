import Windowing.Sorting.Merge

/-!
Sorting of short lists: each half begins with a few elements in order, the others are inserted, and
the halves are merged from both ends.
-/
namespace Windowing.Sorting

variable {α ε : Type} (cmp : α → α → Except ε Ordering)

/-- Two pairs are put in order, then the least and the greatest of all four are found, and last the
other two are compared. -/
def sortFour (a b c d : α) : Except ε (List α) := do
  let (a, b) := if ← less cmp b a then (b, a) else (a, b)
  let (c, d) := if ← less cmp d c then (d, c) else (c, d)
  let first ← less cmp c a
  let last ← less cmp d b
  let left := if first then a else if last then c else b
  let right := if last then d else if first then b else c
  let (left, right) := if ← less cmp right left then (right, left) else (left, right)
  return [if first then c else a, left, right, if last then b else d]

/-- The elements to begin with, sorted: four, or only one in a short list. -/
def sortBeginning (short : Bool) : List α → Except ε (List α)
  | a :: b :: c :: d :: _ => if short then .ok [a] else sortFour cmp a b c d
  | xs => .ok (xs.take 1)

def sortShort (xs : List α) : Except ε (List α) := do
  let short := decide (xs.length < 8)
  let left := xs.take (xs.length / 2)
  let right := xs.drop (xs.length / 2)
  let leftBeginning ← sortBeginning cmp short left
  let rightBeginning ← sortBeginning cmp short right
  let left ← insertAll cmp leftBeginning (left.drop leftBeginning.length)
  let right ← insertAll cmp rightBeginning (right.drop rightBeginning.length)
  mergeBoth cmp left right

/-- The greatest length of a list that is sorted so. -/
def shortLength : Nat := 32

end Windowing.Sorting
