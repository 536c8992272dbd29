import Windowing.Cell.Basic

/-!
Schemas: the named, typed fields of a batch, and free-form metadata that travels with them.
-/
namespace Windowing

structure Field where
  name : String
  type : DataType
  nullable : Bool := true
  deriving DecidableEq

structure Schema where
  fields : List Field
  metadata : List (String × String) := []
  deriving DecidableEq

namespace Schema

def width (s : Schema) : Nat := s.fields.length

/-- The input fields followed by more, with the metadata of the input. -/
def extend (s : Schema) (more : List Field) : Schema :=
  { s with fields := s.fields ++ more }

end Schema
end Windowing
