import Windowing.Defect
import Windowing.Schema

/-!
Batches: rows under a schema. A batch without columns still has its number of rows.
-/
namespace Windowing

structure Batch where
  schema : Schema
  rows : List Row
  deriving DecidableEq

namespace Batch

def width (b : Batch) : Nat := b.schema.width

/-- A row's cells followed by reserved ones. -/
def reserve (row : Row) (spare : Nat) : Row :=
  row ++ List.replicate spare Cell.untyped

@[simp] theorem length_reserve (row : Row) (spare : Nat) :
    (reserve row spare).length = row.length + spare := by
  simp [reserve]

/-- A column of the null type has a null at every position, so where all columns are of that type
there is no row to miss. -/
def materialize (b : Batch) (position spare : Nat) : Except Defect Row :=
  if b.schema.fields.all (·.type = .null) then
    .ok (reserve (List.replicate b.width Cell.untyped) spare)
  else
    match b.rows[position]? with
    | some row => .ok (reserve row spare)
    | none => .error (.rowOutOfRange position b.rows.length)

end Batch
end Windowing
