import Windowing.FloatingPoint.Format

/-!
Addition and division of codes: the exact result in integer arithmetic, rounded once. The first NaN
operand decides a result that is not a number.
-/
namespace Windowing.FloatFormat

def signedSignificand (negative : Bool) (m : Nat) : Int :=
  if negative then -(m : Int) else m

/-- An exact sum of zero is negative only if both operands are. -/
def add (f : FloatFormat) (a b : Nat) : Nat :=
  match f.decode a, f.decode b with
  | .nan, _ => f.quiet a
  | _, .nan => f.quiet b
  | .infinite s, .infinite t => if s = t then a else f.invalid
  | .infinite _, .finite .. => a
  | .finite .., .infinite _ => b
  | .finite s m e, .finite t n g =>
    let low := min e g
    let sum := signedSignificand s m * (Nat.pow 2 (e - low).toNat : Nat)
      + signedSignificand t n * (Nat.pow 2 (g - low).toNat : Nat)
    if sum = 0 then f.withSign (s && t) 0
    else f.ofScaled (decide (sum < 0)) sum.natAbs low

/-- Division by zero is infinite, or invalid for zero by zero. -/
def div (f : FloatFormat) (a b : Nat) : Nat :=
  match f.decode a, f.decode b with
  | .nan, _ => f.quiet a
  | _, .nan => f.quiet b
  | .infinite _, .infinite _ => f.invalid
  | .infinite s, .finite t _ _ => f.withSign (s != t) f.infinity
  | .finite s _ _, .infinite t => f.withSign (s != t) 0
  | .finite s m e, .finite t n g =>
    if n = 0 then
      if m = 0 then f.invalid else f.withSign (s != t) f.infinity
    else
      f.withSign (s != t)
        (f.nearest (m * Nat.pow 2 (e - g).toNat) (n * Nat.pow 2 (g - e).toNat))

end Windowing.FloatFormat
