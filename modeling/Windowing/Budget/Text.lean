import Windowing.Budget.Breaker
import Windowing.Text.Quoted

/-!
The diagnostic text of an account.
-/
namespace Windowing

def Account.text (a : Account) (b : Breaker) : String :=
  "BreakingRowAccounting \x7b breaker: " ++ Quoted.encode b.name ++ ", label: " ++
    Quoted.encode a.label
    ++ ", accounted_bytes: " ++ toString a.bytes ++ " \x7d"

end Windowing
