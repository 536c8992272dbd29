import Windowing.Cell.Cast
import Windowing.Cell.Text
import Windowing.Function.Basic

/-!
What can be wrong with a call: its signature does not match, which can be told from a schema alone,
or the values it meets cannot be worked with.
-/
namespace Windowing

inductive SignatureError
  | unknownFunction (name : String)
  | argumentCount (f : Function) (expected found : Nat)
  | argumentColumn (column width : Nat)
  | argumentType (f : Function) (type : DataType)
  | positionType
  deriving DecidableEq

def SignatureError.message (e : SignatureError) : String :=
  "Error during planning: " ++
    match e with
    | unknownFunction name => "unknown window function: " ++ name
    | argumentCount f expected found =>
      f.name ++ s!" expects {expected} argument(s), got {found}"
    | argumentColumn column width =>
      s!"argument column {column} out of range for schema with {width} fields"
    | argumentType f type => f.name ++ " does not support argument type " ++ type.name
    | positionType => "nth_value position must be an integer"

inductive EvaluationError
  | signature (e : SignatureError)
  | cast (e : CastError)
  | sumOverflow
  | incomparable (f : Function) (candidate best : Value)
  | position (found : Cell)
  deriving DecidableEq

def EvaluationError.message : EvaluationError → String
  | signature e => e.message
  | cast e => "Arrow error: " ++ e.message
  | sumOverflow => "Execution error: integer overflow in sum"
  | incomparable f candidate best =>
    "Execution error: " ++ f.name ++ ": cannot compare " ++ candidate.text ++ " with " ++ best.text
  | position found =>
    "Execution error: nth_value position must be a positive integer, got " ++ found.text

end Windowing
