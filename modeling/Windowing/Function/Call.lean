import Windowing.Defect
import Windowing.Function.Error
import Windowing.Schema

/-!
Calls: a function with its arguments. From a schema alone a call has a result type or a reason why
it has none. `count` only looks at the number of its arguments, not at what they refer to.
-/
namespace Windowing

inductive Argument
  | column (position : Nat)
  | literal (cell : Cell)
  deriving DecidableEq

namespace Argument

def evaluate (row : Row) : Argument → Except Defect Cell
  | column position => row.cellAt position
  | literal cell => .ok cell

def type (schema : Schema) : Argument → Except SignatureError DataType
  | column position =>
    match schema.fields[position]? with
    | some field => .ok field.type
    | none => .error (.argumentColumn position schema.width)
  | literal cell => .ok cell.type

end Argument

/-- How numbers are added up: integers exactly, or floating-point numbers with rounding. -/
inductive Summation
  | exact
  | floating
  deriving DecidableEq

def Summation.type : Summation → DataType
  | exact => .int64
  | floating => .float64

/-- A column of nulls only counts as one of integers. -/
def Function.summation (f : Function) (t : DataType) : Except SignatureError Summation :=
  if t.isInteger ∨ t = .null then .ok .exact
  else if t.isFloating then .ok .floating
  else .error (.argumentType f t)

structure Call where
  function : Function
  arguments : List Argument
  deriving DecidableEq

namespace Call

def ofName (name : String) (arguments : List Argument) : Except SignatureError Call :=
  match Function.ofName? name with
  | some function => .ok ⟨function, arguments⟩
  | none => .error (.unknownFunction name)

def wrongCount (c : Call) (expected : Nat) : SignatureError :=
  .argumentCount c.function expected c.arguments.length

def noArgument (c : Call) : Except SignatureError Unit :=
  match c.arguments with
  | [] => .ok ()
  | _ => .error (c.wrongCount 0)

def oneArgument (c : Call) : Except SignatureError Argument :=
  match c.arguments with
  | [a] => .ok a
  | _ => .error (c.wrongCount 1)

def twoArguments (c : Call) : Except SignatureError (Argument × Argument) :=
  match c.arguments with
  | [a, b] => .ok (a, b)
  | _ => .error (c.wrongCount 2)

def resultType (c : Call) (schema : Schema) : Except SignatureError DataType :=
  match c.function with
  | .rowNumber | .rank | .denseRank => do
    c.noArgument
    return .int64
  | .count =>
    if 1 < c.arguments.length then .error (c.wrongCount 1) else .ok .int64
  | .sum => do
    let a ← c.oneArgument
    return (← c.function.summation (← a.type schema)).type
  | .avg => do
    let a ← c.oneArgument
    let _ ← c.function.summation (← a.type schema)
    return .float64
  | .min | .max | .firstValue | .lastValue => do
    let a ← c.oneArgument
    a.type schema
  | .nthValue => do
    let (a, position) ← c.twoArguments
    if (← position.type schema).isInteger then a.type schema
    else .error .positionType

/-- The column a call adds to the output; every result may be null. -/
def outputField (c : Call) (schema : Schema) : Except SignatureError Field := do
  return { name := c.function.name, type := ← c.resultType schema, nullable := true }

end Call
end Windowing
