import Windowing.Budget.Breaker

/-!
Ledgers: a breaker that is charged directly and through any number of accounts. Accounts are
numbered in the order in which they were opened, and the place of a closed one stays empty.
-/
namespace Windowing

structure Ledger where
  breaker : Breaker
  accounts : List (Option Account) := []
  deriving DecidableEq

namespace Ledger

/-- What is done with a breaker and its accounts, each entry at once. -/
inductive Entry
  | add (bytes : Nat) (label : String)
  | release (bytes : Nat)
  | «open» (label : String)
  | charge (number : Nat) (row : Row)
  | close (number : Nat)
  deriving DecidableEq

variable (l : Ledger)

/-- The account of a number, if it is open. -/
def account? (number : Nat) : Option Account := l.accounts[number]?.join

/-- An account that is not open can be neither charged nor closed again. -/
def enter : Entry → Ledger × Except BudgetExceeded Unit
  | .add bytes label =>
    match l.breaker.charge bytes label with
    | .ok b => ({ l with breaker := b }, .ok ())
    | .error e => (l, .error e)
  | .release bytes => ({ l with breaker := l.breaker.release bytes }, .ok ())
  | .open label => ({ l with accounts := l.accounts ++ [some { label }] }, .ok ())
  | .charge number row =>
    match l.account? number with
    | none => (l, .ok ())
    | some a =>
      match a.charge l.breaker row with
      | .ok (a, b) => (⟨b, l.accounts.set number (some a)⟩, .ok ())
      | .error e => (l, .error e)
  | .close number =>
    match l.account? number with
    | none => (l, .ok ())
    | some a => (⟨a.close l.breaker, l.accounts.set number none⟩, .ok ())

/-- The ledger after so many entries. -/
def enterAll (entries : List Entry) : Ledger := entries.foldl (fun l e => (l.enter e).1) l

end Ledger
end Windowing
