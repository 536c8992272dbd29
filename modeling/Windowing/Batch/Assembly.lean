import Windowing.Batch.Basic
import Windowing.Cell.Cast

/-!
Building a batch from rows of cells. All rows must be as wide as the schema; then column after
column is aligned to its field's type, and last the nulls are checked against the fields. No rows at
all make an empty batch of any schema.
-/
namespace Windowing

inductive AssemblyError
  | rowWidth (cells fields : Nat)
  | cast (e : CastError)
  | noColumns
  | unexpectedNull (field : String)
  deriving DecidableEq

def AssemblyError.message : AssemblyError → String
  | rowWidth cells fields =>
    s!"row has {cells} cells but output schema has {fields} fields"
  | cast e => "Arrow error: " ++ e.message
  | noColumns =>
    "Invalid argument error: must either specify a row count or at least one column"
  | unexpectedNull field =>
    "Invalid argument error: Column '" ++ field
      ++ "' is declared as non-nullable but contains null values"

/-- A cell of the type is kept, a null becomes the type's null, any other value is cast. -/
def Cell.align (target : DataType) (c : Cell) : Except CastError Cell :=
  if c.type = target then .ok c
  else
    match c with
    | .null _ => .ok (.null target)
    | .value v => (v.cast target).map .value

namespace Batch

def columnAt (rows : List Row) (position : Nat) : List Cell :=
  rows.map fun row => row[position]?.getD Cell.untyped

/-- Rows again from columns, all of length `count`. -/
def rowsOfColumns (count : Nat) (columns : List (List Cell)) : List Row :=
  columns.foldr (List.zipWith List.cons) (List.replicate count [])

/-- A field that takes no nulls but got one. A column of type `null` may hold nothing else. -/
def violates (field : Field) (column : List Cell) : Bool :=
  !field.nullable && field.type != .null && column.any Cell.isNull

def assemble (schema : Schema) (rows : List Row) : Except AssemblyError Batch :=
  if rows.isEmpty then .ok ⟨schema, []⟩
  else
    match rows.find? fun row => row.length != schema.width with
    | some row => .error (.rowWidth row.length schema.width)
    | none => do
      let columns ← schema.fields.zipIdx.mapM fun (field, position) =>
        ((columnAt rows position).mapM (Cell.align field.type)).mapError AssemblyError.cast
      if columns.isEmpty then .error .noColumns
      else
        match (schema.fields.zip columns).find? fun (field, column) => violates field column with
        | some (field, _) => .error (.unexpectedNull field.name)
        | none => .ok ⟨schema, rowsOfColumns rows.length columns⟩

end Batch
end Windowing
