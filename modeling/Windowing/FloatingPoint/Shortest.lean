import Windowing.FloatingPoint.Format

/-!
The shortest decimal that reads back as a given finite number. The reals that round to the number
form an interval; on each power-of-ten grid only the two grid points around the number can be in it,
so the coarsest grid with a hit gives the fewest digits. Of two hits the nearer is taken; which one
of two equally near ones is a choice of the caller.
-/
namespace Windowing

/-- What to take of two equally near decimals. -/
inductive Tie
  | upper
  | even
  deriving DecidableEq

def Tie.pick (t : Tie) (below : Nat) : Nat :=
  match t with
  | upper => below + 1
  | even => if below % 2 = 0 then below else below + 1

/-- `digits * 10 ^ exponent`. -/
structure Decimal where
  digits : Nat
  exponent : Int
  deriving DecidableEq

namespace FloatFormat

/-- Ends of the interval around `m * 2 ^ e`, in quarters of the last place. Below a power of two the
numbers lie twice as close. -/
def roundingInterval (f : FloatFormat) (m : Nat) (e : Int) : Nat × Nat :=
  (if m = f.fractionPlace ∧ f.leastExponent < e then 4 * m - 1 else 4 * m - 2, 4 * m + 2)

/-- The point of the grid `10 ^ t` that reads back as `m * 2 ^ e`, if there is one. The ends of the
interval belong to it exactly when `m` is even. -/
def onGrid? (f : FloatFormat) (tie : Tie) (m : Nat) (e t : Int) : Option Nat :=
  let p := Nat.pow 2 (e - 2).toNat * Nat.pow 10 (-t).toNat
  let q := Nat.pow 2 (2 - e).toNat * Nat.pow 10 t.toNat
  let (low, high) := f.roundingInterval m e
  let inside (k : Nat) : Bool :=
    if m % 2 = 0 then decide (low * p ≤ k * q ∧ k * q ≤ high * p)
    else decide (low * p < k * q ∧ k * q < high * p)
  let below := 4 * m * p / q
  let nearer :=
    match compare (4 * m * p - below * q) ((below + 1) * q - 4 * m * p) with
    | .lt => below
    | .eq => tie.pick below
    | .gt => below + 1
  match inside below, inside (below + 1) with
  | true, true => some nearer
  | true, false => some below
  | false, true => some (below + 1)
  | false, false => none

/-- Grids are tried from the one above the leading digit down to the number's own last place. -/
def shortest (f : FloatFormat) (tie : Tie) (m : Nat) (e : Int) : Decimal :=
  if m = 0 then ⟨0, 0⟩
  else
    let whole := m * Nat.pow 2 e.toNat / Nat.pow 2 (-e).toNat
    let top : Int := (Nat.toDigits 10 whole).length
    let steps := (top - min e 0).toNat + 1
    let found := (List.range steps).findSome? fun (i : Nat) =>
      (f.onGrid? tie m e (top - i)).map fun k => Decimal.mk k (top - i)
    found.getD ⟨whole, 0⟩

end FloatFormat
end Windowing
