/-!
Unsigned 64-bit numbers written in a base up to sixteen, with digits of either case.
-/
namespace Windowing.Radix

/-- The value of a digit of base sixteen. -/
def digit? (c : Char) : Option Nat :=
  let n := c.toNat
  if '0' ≤ c ∧ c ≤ '9' then some (n - '0'.toNat)
  else if 'a' ≤ c ∧ c ≤ 'f' then some (n - 'a'.toNat + 10)
  else if 'A' ≤ c ∧ c ≤ 'F' then some (n - 'A'.toNat + 10)
  else none

/-- At least one digit, each below the base, and a number that has 64 bits. -/
def read? (base : Nat) (digits : List Char) : Option Nat := do
  if digits.isEmpty then none
  let n ← digits.foldlM (fun n c => do
    let d ← digit? c
    if d < base then some (base * n + d) else none) 0
  if n < 18446744073709551616 then some n else none

end Windowing.Radix
