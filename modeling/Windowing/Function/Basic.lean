/-!
The window functions. Three of them rank the current row, the others look at nothing but the rows of
the frame, so that rows which share a frame share their result.
-/
namespace Windowing

inductive Function
  | rowNumber | rank | denseRank
  | count | sum | avg | min | max
  | firstValue | lastValue | nthValue
  deriving DecidableEq

namespace Function

def all : List Function :=
  [rowNumber, rank, denseRank, count, sum, avg, min, max, firstValue, lastValue, nthValue]

def name : Function → String
  | rowNumber => "row_number"
  | rank => "rank"
  | denseRank => "dense_rank"
  | count => "count"
  | sum => "sum"
  | avg => "avg"
  | min => "min"
  | max => "max"
  | firstValue => "first_value"
  | lastValue => "last_value"
  | nthValue => "nth_value"

/-- Whether the result depends on the rows of the frame alone. -/
def frameOnly : Function → Bool
  | rowNumber | rank | denseRank => false
  | _ => true

/-- The lower case of a letter, as far as it is ASCII: besides the ASCII capitals only the Kelvin
sign has an ASCII lower case of its own. -/
def lowerCase (c : Char) : Char :=
  if c = '\u212A' then 'k' else c.toLower

/-- Names are looked up without regard to case. -/
def ofName? (name : String) : Option Function :=
  let lower := name.toList.map lowerCase
  all.find? fun f => f.name.toList == lower

end Function
end Windowing
