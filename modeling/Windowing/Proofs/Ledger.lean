import Mathlib.Algebra.GroupWithZero.Nat
import Mathlib.Data.List.Infix
import Windowing.Budget.Ledger

/-!
Conservation of bytes on a shared breaker. As long as no more is released directly than was admitted
so, and the limit is not the largest count there is, the usage is what was added directly and not
released, and what the open accounts were charged, whatever the order of the entries.
-/
namespace Windowing

namespace Breaker

variable {b : Breaker}

/-- Below the largest limit a charge is decided by the exact sum; a charge of nothing leads to a sum
too. -/
theorem charge_eq (bounded : b.limit < largest) (within : b.used ≤ b.limit) (bytes : Nat)
    (label : String) :
    b.charge bytes label =
      if b.used + bytes ≤ b.limit then .ok { b with used := b.used + bytes }
      else .error ⟨b.name, label, min (b.used + bytes) largest, b.limit⟩ := by
  unfold charge
  by_cases nothing : bytes = 0
  · subst nothing
    rw [if_pos rfl, if_pos (by omega)]
    rfl
  · rw [if_neg nothing]
    by_cases fits : b.used + bytes ≤ b.limit
    · have exact_ : min (b.used + bytes) largest = b.used + bytes := by omega
      rw [if_pos fits, exact_]
      exact if_neg (Nat.not_lt.mpr fits)
    · rw [if_neg fits]
      exact if_pos (by omega)

end Breaker

theorem Account.charge_eq {a : Account} {b : Breaker} (bounded : b.limit < Breaker.largest)
    (within : b.used ≤ b.limit) (row : Row) :
    a.charge b row =
      if b.used + row.estimatedSize ≤ b.limit then
        .ok ({ a with bytes := a.bytes + row.estimatedSize },
          { b with used := b.used + row.estimatedSize })
      else .error ⟨b.name, a.label, min (b.used + row.estimatedSize) Breaker.largest, b.limit⟩ := by
  rw [charge, Breaker.charge_eq bounded within]
  split <;> rfl

namespace Ledger

def ofLimit (name : String) (limit : Nat) : Ledger := { breaker := .ofLimit name limit }

/-- What the open accounts were charged. -/
def accounted (l : Ledger) : Nat := (l.accounts.map fun a => (a.map Account.bytes).getD 0).sum

def Entry.released : Entry → Nat
  | .release bytes => bytes
  | _ => 0

def released (entries : List Entry) : Nat := (entries.map Entry.released).sum

def admits (l : Ledger) (e : Entry) : Nat :=
  match e with
  | .add bytes _ => if (l.enter e).2.isOk then bytes else 0
  | _ => 0

def admitted : Ledger → List Entry → Nat
  | _, [] => 0
  | l, e :: entries => l.admits e + admitted (l.enter e).1 entries

/-- The usage is a direct balance and what the open accounts were charged, and within the limit. -/
structure Balanced (l : Ledger) (limit direct : Nat) : Prop where
  limit_eq : l.breaker.limit = limit
  used_eq : l.breaker.used = direct + l.accounted
  used_le : l.breaker.used ≤ limit

section accounts

variable {l : Ledger} {number : Nat} {a : Account}

theorem account?_eq_some_iff :
    l.account? number = some a ↔ l.accounts[number]? = some (some a) := by
  rw [account?, Option.join_eq_some_iff]

/-- Another entry in the place of an account changes the sum by the difference of the two. -/
theorem accounted_set (found : l.account? number = some a) (place : Option Account) (b : Breaker) :
    accounted ⟨b, l.accounts.set number place⟩ + a.bytes =
      l.accounted + (place.map Account.bytes).getD 0 := by
  have at_ := account?_eq_some_iff.mp found
  clear found
  unfold accounted
  generalize l.accounts = accounts at at_
  induction accounts generalizing number with
  | nil => simp at at_
  | cons first accounts ih =>
    cases number with
    | zero =>
      obtain rfl := Option.some.inj at_
      simp only [List.set_cons_zero, List.map_cons, List.sum_cons, Option.map_some,
        Option.getD_some]
      omega
    | succ number =>
      have rest := ih at_
      simp only [List.set_cons_succ, List.map_cons, List.sum_cons]
      dsimp only at rest
      omega

theorem bytes_le_accounted (found : l.account? number = some a) : a.bytes ≤ l.accounted := by
  have emptied := accounted_set found none l.breaker
  simp only [Option.map_none, Option.getD_none] at emptied
  omega

theorem accounted_of_closed (closed : ∀ place ∈ l.accounts, place = none) : l.accounted = 0 := by
  refine List.sum_eq_zero_iff_forall_eq_nat.mpr fun bytes member => ?_
  obtain ⟨place, inside, rfl⟩ := List.mem_map.mp member
  rw [closed place inside]
  rfl

end accounts

namespace Balanced

variable {l : Ledger} {limit direct : Nat}

/-- What an entry does to a balanced ledger, if it releases no more than stands to be released. -/
theorem enter (balanced : l.Balanced limit direct) (bounded : limit < Breaker.largest) (e : Entry)
    (covered : e.released ≤ direct) :
    (l.enter e).1.Balanced limit (direct + l.admits e - e.released) := by
  obtain ⟨rfl, used, within⟩ := balanced
  cases e with
  | add bytes label =>
    rw [admits, Ledger.enter, Breaker.charge_eq bounded within]
    by_cases fits : l.breaker.used + bytes ≤ l.breaker.limit
    · rw [if_pos fits]
      refine ⟨rfl, ?_, fits⟩
      show l.breaker.used + bytes = direct + bytes - 0 + l.accounted
      omega
    · rw [if_neg fits]
      exact ⟨rfl, used, within⟩
  | release bytes =>
    have less : bytes ≤ direct := covered
    refine ⟨rfl, ?_, ?_⟩
    · show l.breaker.used - bytes = direct + 0 - bytes + l.accounted
      omega
    · show l.breaker.used - bytes ≤ l.breaker.limit
      omega
  | «open» label =>
    refine ⟨rfl, ?_, within⟩
    show l.breaker.used = direct + 0 - 0 + accounted ⟨_, l.accounts ++ [some ⟨label, 0⟩]⟩
    simpa [accounted] using used
  | charge number row =>
    rw [Ledger.enter]
    cases found : l.account? number with
    | none => exact ⟨rfl, used, within⟩
    | some a =>
      dsimp only
      rw [Account.charge_eq bounded within]
      by_cases fits : l.breaker.used + row.estimatedSize ≤ l.breaker.limit
      · rw [if_pos fits]
        have moved := accounted_set found (some { a with bytes := a.bytes + row.estimatedSize })
          { l.breaker with used := l.breaker.used + row.estimatedSize }
        simp only [Option.map_some, Option.getD_some] at moved
        refine ⟨rfl, ?_, fits⟩
        show l.breaker.used + row.estimatedSize =
          direct + 0 - 0 + accounted ⟨_, l.accounts.set number _⟩
        omega
      · rw [if_neg fits]
        exact ⟨rfl, used, within⟩
  | close number =>
    rw [Ledger.enter]
    cases found : l.account? number with
    | none => exact ⟨rfl, used, within⟩
    | some a =>
      have emptied := accounted_set found none (a.close l.breaker)
      have part := bytes_le_accounted found
      simp only [Option.map_none, Option.getD_none] at emptied
      refine ⟨rfl, ?_, ?_⟩
      · show l.breaker.used - a.bytes = direct + 0 - 0 + accounted ⟨_, l.accounts.set number none⟩
        omega
      · show l.breaker.used - a.bytes ≤ l.breaker.limit
        omega

/-- The balance of a run, none of whose beginnings releases more than stands to be released. -/
theorem enterAll (balanced : l.Balanced limit direct) (bounded : limit < Breaker.largest)
    {entries : List Entry}
    (covered : ∀ done, done <+: entries → released done ≤ direct + l.admitted done) :
    (l.enterAll entries).Balanced limit (direct + l.admitted entries - released entries) := by
  induction entries generalizing l direct with
  | nil => exact balanced
  | cons e entries ih =>
    have first := covered [e] ⟨entries, rfl⟩
    simp only [released, admitted, List.map_cons, List.map_nil, List.sum_cons,
      List.sum_nil] at first
    have here : e.released ≤ direct := by
      cases e with
      | release bytes => exact first
      | _ => exact Nat.zero_le _
    have rest := ih (balanced.enter bounded e here) fun done initial => by
      have longer := covered (e :: done) (List.cons_prefix_cons.mpr ⟨rfl, initial⟩)
      simp only [released, admitted, List.map_cons, List.sum_cons] at longer ⊢
      omega
    have whole := covered (e :: entries) (List.prefix_refl _)
    simp only [released, admitted, List.map_cons, List.sum_cons] at whole rest ⊢
    have exchange : direct + (l.admits e + admitted (l.enter e).1 entries) -
        (e.released + (entries.map Entry.released).sum) =
        direct + l.admits e - e.released + admitted (l.enter e).1 entries -
          (entries.map Entry.released).sum := by
      omega
    rw [exchange]
    exact rest

theorem add_refused_iff (balanced : l.Balanced limit direct) (bounded : limit < Breaker.largest)
    (bytes : Nat) (label : String) :
    (∃ refusal, (l.enter (.add bytes label)).2 = .error refusal) ↔
      limit < l.breaker.used + bytes := by
  obtain ⟨rfl, -, within⟩ := balanced
  rw [Ledger.enter, Breaker.charge_eq bounded within]
  by_cases fits : l.breaker.used + bytes ≤ l.breaker.limit
  · rw [if_pos fits]
    simpa using fits
  · rw [if_neg fits]
    simpa using fits

theorem charge_refused_iff (balanced : l.Balanced limit direct) (bounded : limit < Breaker.largest)
    {number : Nat} {a : Account} (opened : l.account? number = some a) (row : Row) :
    (∃ refusal, (l.enter (.charge number row)).2 = .error refusal) ↔
      limit < l.breaker.used + row.estimatedSize := by
  obtain ⟨rfl, -, within⟩ := balanced
  rw [Ledger.enter, opened]
  dsimp only
  rw [Account.charge_eq bounded within]
  by_cases fits : l.breaker.used + row.estimatedSize ≤ l.breaker.limit
  · rw [if_pos fits]
    simpa using fits
  · rw [if_neg fits]
    simpa using fits

end Balanced

/-- Only a charge can be refused, and a refusal leaves the breaker and all accounts as they were. -/
theorem enter_refused {l : Ledger} {e : Entry} {refusal : BudgetExceeded}
    (refused : (l.enter e).2 = .error refusal) : (l.enter e).1 = l := by
  cases e with
  | add bytes label =>
    rw [enter] at refused ⊢
    cases charged : l.breaker.charge bytes label with
    | error e => rfl
    | ok b =>
      rw [charged] at refused
      cases refused
  | release bytes => cases refused
  | «open» label => cases refused
  | charge number row =>
    rw [enter] at refused ⊢
    cases found : l.account? number with
    | none => rfl
    | some a =>
      rw [found] at refused
      dsimp only at refused ⊢
      cases charged : a.charge l.breaker row with
      | error e => rfl
      | ok after =>
        rw [charged] at refused
        cases refused
  | close number =>
    rw [enter] at refused
    cases found : l.account? number <;> rw [found] at refused <;> cases refused

/-- After every entry the bytes in use are those that were added directly and not released, and
those of the open accounts. What is added or charged is refused just if it would exceed the limit,
and then nothing changes; once all accounts are closed only the direct balance remains. -/
theorem enterAll_conserves (name : String) {limit : Nat} (bounded : limit < Breaker.largest)
    {entries : List Entry}
    (covered : ∀ done, done <+: entries → released done ≤ (ofLimit name limit).admitted done) :
    ∀ done, done <+: entries →
      let now := (ofLimit name limit).enterAll done
      let direct := (ofLimit name limit).admitted done - released done
      (now.breaker.used = direct + now.accounted ∧ now.breaker.used ≤ max limit 1) ∧
      (∀ e refusal, (now.enter e).2 = .error refusal → (now.enter e).1 = now) ∧
      (∀ bytes label, (∃ refusal, (now.enter (.add bytes label)).2 = .error refusal) ↔
        max limit 1 < now.breaker.used + bytes) ∧
      (∀ label, now.enter (.add 0 label) = (now, .ok ())) ∧
      (∀ number a row, now.account? number = some a →
        ((∃ refusal, (now.enter (.charge number row)).2 = .error refusal) ↔
          max limit 1 < now.breaker.used + row.estimatedSize)) ∧
      ((∀ place ∈ now.accounts, place = none) → now.breaker.used = direct) := by
  intro done initial now direct
  have large : max limit 1 < Breaker.largest := max_lt bounded (by decide)
  have fresh : (ofLimit name limit).Balanced (max limit 1) 0 := ⟨rfl, rfl, Nat.zero_le _⟩
  have balanced : now.Balanced (max limit 1) direct := by
    have each : ∀ earlier, earlier <+: done →
        released earlier ≤ 0 + (ofLimit name limit).admitted earlier := by
      intro earlier before
      rw [Nat.zero_add]
      exact covered earlier (before.trans initial)
    have whole := fresh.enterAll large each
    rwa [Nat.zero_add] at whole
  refine ⟨⟨balanced.used_eq, balanced.used_le⟩, fun e refusal refused => enter_refused refused,
    balanced.add_refused_iff large, fun label => rfl, fun number a row opened =>
      balanced.charge_refused_iff large opened row, fun closed => ?_⟩
  have used := balanced.used_eq
  rwa [accounted_of_closed closed, Nat.add_zero] at used

/-- Two accounts share a breaker with others; no second row fits, and the first account is closed
again. -/
theorem enterAll_conserves_shared :
    let entries : List Entry :=
      [.open "a", .add 30 "other", .charge 0 [.untyped], .open "b", .charge 1 [.untyped],
      .release 20, .close 0]
    let now := (ofLimit "q" 150).enterAll entries
    (∀ done, done <+: entries → released done ≤ (ofLimit "q" 150).admitted done) ∧
      now.breaker.used = 10 + now.accounted ∧ now.account? 1 = some ⟨"b", 0⟩ ∧
      ((∃ refusal, (now.enter (.charge 1 [.untyped, .untyped])).2 = .error refusal) ↔
        150 < now.breaker.used + 152) := by
  intro entries now
  have covered : ∀ done, done <+: entries → released done ≤ (ofLimit "q" 150).admitted done := by
    have each : ∀ done ∈ entries.inits, released done ≤ (ofLimit "q" 150).admitted done := by decide
    intro done initial
    exact each done ((List.mem_inits done entries).mpr initial)
  obtain ⟨⟨used, -⟩, -, -, -, charged, -⟩ :=
    enterAll_conserves "q" (show 150 < Breaker.largest by decide) covered entries
      (List.prefix_refl _)
  exact ⟨covered, used, rfl, charged 1 ⟨"b", 0⟩ [.untyped, .untyped] rfl⟩

end Ledger
end Windowing
