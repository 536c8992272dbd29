import Windowing.Defect

/-!
Memory budgets. A breaker admits a charge only while its usage stays within its limit; a charge that
would cross the limit is refused and changes nothing. An account sums up what one execution was
charged for its rows, and gives all of it back when it is closed.
-/
namespace Windowing

/-- A refused charge: the usage it would have led to. -/
structure BudgetExceeded where
  breaker : String
  label : String
  wouldBe : Nat
  limit : Nat
  deriving DecidableEq

def BudgetExceeded.message (e : BudgetExceeded) : String :=
  s!"[{e.breaker}] data too large, data for [{e.label}] would be [{e.wouldBe}b], " ++
    s!"which is larger than the limit of [{e.limit}b]"

structure Breaker where
  name : String
  limit : Nat
  used : Nat := 0
  deriving DecidableEq

namespace Breaker

/-- Usage is a 64-bit count that stays at its largest value rather than wrap. -/
def largest : Nat := countLimit - 1

/-- Every breaker has room for at least one byte. -/
def ofLimit (name : String) (limit : Nat) : Breaker :=
  { name, limit := max limit 1 }

def unlimited (name : String) : Breaker := ofLimit name largest

/-- A charge of nothing is always admitted. -/
def charge (b : Breaker) (bytes : Nat) (label : String) : Except BudgetExceeded Breaker :=
  if bytes = 0 then .ok b
  else
    let wouldBe := min (b.used + bytes) largest
    if b.limit < wouldBe then .error ⟨b.name, label, wouldBe, b.limit⟩
    else .ok { b with used := wouldBe }

theorem charge_eq_ok_iff {b c : Breaker} {bytes : Nat} {label : String} :
    b.charge bytes label = .ok c ↔
      bytes = 0 ∧ c = b ∨ bytes ≠ 0 ∧ min (b.used + bytes) largest ≤ b.limit ∧
        c = { b with used := min (b.used + bytes) largest } := by
  unfold charge
  by_cases nothing : bytes = 0
  · simp [nothing, eq_comm]
  · by_cases refused : b.limit < min (b.used + bytes) largest
    · simp only [nothing, refused, if_true, if_false, reduceCtorEq, false_and, false_or, ne_eq,
        not_false_eq_true, true_and, false_iff, not_and]
      omega
    · simp [nothing, refused, eq_comm, Nat.not_lt.mp refused]

/-- Usage never falls below nothing. -/
def release (b : Breaker) (bytes : Nat) : Breaker :=
  { b with used := b.used - bytes }

end Breaker

structure Account where
  label : String
  bytes : Nat := 0
  deriving DecidableEq

namespace Account

def charge (a : Account) (b : Breaker) (row : Row) : Except BudgetExceeded (Account × Breaker) := do
  let size := row.estimatedSize
  let b ← b.charge size a.label
  return ({ a with bytes := a.bytes + size }, b)

def close (a : Account) (b : Breaker) : Breaker := b.release a.bytes

end Account

/-- Where the rows of an execution are charged, if anywhere. -/
inductive Accounting
  | unaccounted
  | accounted (account : Account) (breaker : Breaker)
  deriving DecidableEq

namespace Accounting

def charge (row : Row) : Accounting → Except BudgetExceeded Accounting
  | unaccounted => .ok unaccounted
  | accounted a b => do
    let (a, b) ← a.charge b row
    return accounted a b

/-- Charges rows until one is refused. -/
def chargeAll (x : Accounting) : List Row → Accounting × Except BudgetExceeded Unit
  | [] => (x, .ok ())
  | row :: rows =>
    match x.charge row with
    | .ok x => x.chargeAll rows
    | .error e => (x, .error e)

end Accounting
end Windowing
