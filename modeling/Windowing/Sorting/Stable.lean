import Windowing.Sorting.Quick

/-!
Stable sorting by a comparison that may fail. Equal elements keep their order. Which way a list is
sorted hangs on its length alone and makes no difference to the result; it tells which elements
meet, and so which failure comes first.
-/
namespace Windowing.Sorting

variable {α ε : Type} (cmp : α → α → Except ε Ordering)

/-- Lists up to this length are sorted by insertion. -/
def insertionLength : Nat := 20

/-- By insertion; else by runs, of which those out of order are sorted at once in a list of less
than two short ones, and later by partition in a longer one. -/
def stable (xs : List α) : Except ε (List α) :=
  if xs.length ≤ insertionLength then byInsertion cmp xs
  else if xs.length ≤ 2 * shortLength then byRuns cmp none xs
  else byRuns cmp (some fun ys => byPartition cmp (2 * ys.length.log2) none ys) xs

end Windowing.Sorting
