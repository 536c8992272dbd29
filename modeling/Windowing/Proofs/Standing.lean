import Mathlib.Algebra.BigOperators.Group.List.Basic
import Windowing.Proofs.Ledger

/-!
Charges of a breaker that are given back one for one. While their sum is a 64-bit count, or the
limit is not the largest one, the usage is the sum of the charges that stand, and by that sum a
charge is admitted or refused. A breaker of the largest limit refuses nothing. It stays at the
largest count where the sum goes beyond it, and from then on its usage may fall short of the sum.
-/
namespace Windowing

namespace Breaker

variable {b : Breaker}

/-- The largest limit refuses nothing. -/
theorem charge_unlimited (unlimited : largest ≤ b.limit) (counted : b.used ≤ largest) (bytes : Nat)
    (label : String) :
    b.charge bytes label = .ok { b with used := min (b.used + bytes) largest } := by
  rw [charge]
  split
  · rename_i nothing
    have same : min (b.used + bytes) largest = b.used := by omega
    rw [same]
  · exact if_neg (by omega)

/-- A charge is decided by the exact sum if that is a count, or if the limit is not the largest
one. -/
theorem charge_counted (within : b.used ≤ b.limit) (bytes : Nat)
    (counted : b.limit < largest ∨ b.used + bytes ≤ largest) (label : String) :
    b.charge bytes label =
      if b.used + bytes ≤ b.limit then .ok { b with used := b.used + bytes }
      else .error ⟨b.name, label, min (b.used + bytes) largest, b.limit⟩ := by
  by_cases bounded : b.limit < largest
  · exact charge_eq bounded within bytes label
  · have sum_counted : b.used + bytes ≤ largest := counted.resolve_left bounded
    have exact_ : min (b.used + bytes) largest = b.used + bytes := Nat.min_eq_left sum_counted
    rw [charge_unlimited (Nat.not_lt.mp bounded) (by omega), exact_, if_pos (by omega)]

theorem release_charged (b : Breaker) (bytes : Nat) :
    ({ b with used := b.used + bytes } : Breaker).release bytes = b := by
  rw [release, Nat.add_sub_cancel]

end Breaker

/-- A breaker, and the bytes of the charges it admitted that were not given back, the latest
first. -/
structure Tally where
  breaker : Breaker
  standing : List Nat := []
  deriving DecidableEq

namespace Tally

/-- What is done with a breaker. What is given back are the bytes of a charge that stands. -/
inductive Move
  | charge (bytes : Nat) (label : String)
  | giveBack (place : Nat)
  deriving DecidableEq

def ofLimit (name : String) (limit : Nat) : Tally := { breaker := .ofLimit name limit }

variable (t : Tally)

def total : Nat := t.standing.sum

def move : Move → Tally
  | .charge bytes label =>
    match t.breaker.charge bytes label with
    | .ok b => ⟨b, bytes :: t.standing⟩
    | .error _ => t
  | .giveBack place =>
    match t.standing[place]? with
    | some bytes => ⟨t.breaker.release bytes, t.standing.eraseIdx place⟩
    | none => t

def moveAll (moves : List Move) : Tally := moves.foldl move t

variable {t} {limit : Nat}

@[simp] theorem total_cons (b : Breaker) (bytes : Nat) (standing : List Nat) :
    (⟨b, bytes :: standing⟩ : Tally).total = bytes + (⟨b, standing⟩ : Tally).total := List.sum_cons

theorem total_eraseIdx {place bytes : Nat} (stands : t.standing[place]? = some bytes)
    (b : Breaker) :
    (⟨b, t.standing.eraseIdx place⟩ : Tally).total + bytes = t.total := by
  obtain ⟨inside, rfl⟩ := List.getElem?_eq_some_iff.mp stands
  rw [Nat.add_comm]
  exact List.CommMonoid.add_sum_eraseIdx inside

/-- A move changes nothing, or adds to the charges that stand, or takes one of them back. -/
theorem move_cases (counted : t.breaker.used ≤ Breaker.largest) (m : Move) :
    t.move m = t ∨
    (∃ bytes, min (t.breaker.used + bytes) Breaker.largest ≤ max t.breaker.used t.breaker.limit ∧
      t.move m = ⟨{ t.breaker with used := min (t.breaker.used + bytes) Breaker.largest },
        bytes :: t.standing⟩) ∨
    ∃ place bytes, t.standing[place]? = some bytes ∧
      t.move m = ⟨t.breaker.release bytes, t.standing.eraseIdx place⟩ := by
  cases m with
  | charge bytes label =>
    rw [move]
    cases charged : t.breaker.charge bytes label with
    | error e => exact .inl rfl
    | ok b =>
      refine .inr (.inl ⟨bytes, ?_⟩)
      rcases Breaker.charge_eq_ok_iff.mp charged with ⟨rfl, rfl⟩ | ⟨-, fits, rfl⟩
      · have same : min (t.breaker.used + 0) Breaker.largest = t.breaker.used :=
          Nat.min_eq_left counted
        rw [same]
        exact ⟨Nat.le_max_left .., rfl⟩
      · exact ⟨Nat.le_trans fits (Nat.le_max_right ..), rfl⟩
  | giveBack place =>
    rw [move]
    cases stands : t.standing[place]? with
    | none => exact .inl rfl
    | some bytes => exact .inr (.inr ⟨place, bytes, stands, rfl⟩)

/-- What every run keeps: the usage is a count within the limit, and no more than the sum. -/
structure Bounded (limit : Nat) (t : Tally) : Prop where
  limit_eq : t.breaker.limit = limit
  used_le_limit : t.breaker.used ≤ limit
  used_le_largest : t.breaker.used ≤ Breaker.largest
  used_le_total : t.breaker.used ≤ t.total

theorem Bounded.move (bounded : t.Bounded limit) (m : Move) : (t.move m).Bounded limit := by
  obtain ⟨rfl, within, counted, covered⟩ := bounded
  rcases move_cases counted m with same | ⟨bytes, fits, added⟩ | ⟨place, bytes, stands, taken⟩
  · rw [same]
    exact ⟨rfl, within, counted, covered⟩
  · rw [added]
    refine ⟨rfl, ?_, Nat.min_le_right .., ?_⟩
    · rwa [Nat.max_eq_right within] at fits
    · calc
        min (t.breaker.used + bytes) Breaker.largest ≤ t.breaker.used + bytes := Nat.min_le_left ..
        _ ≤ t.total + bytes := Nat.add_le_add_right covered bytes
        _ = _ := Nat.add_comm ..
  · have sum := total_eraseIdx stands (t.breaker.release bytes)
    rw [taken]
    refine ⟨rfl, Nat.le_trans (Nat.sub_le ..) within, Nat.le_trans (Nat.sub_le ..) counted, ?_⟩
    show t.breaker.used - bytes ≤ _
    omega

theorem Bounded.moveAll (bounded : t.Bounded limit) (moves : List Move) :
    (t.moveAll moves).Bounded limit := by
  induction moves generalizing t with
  | nil => exact bounded
  | cons m moves ih => exact ih (bounded.move m)

/-- A move keeps the usage the sum, unless a breaker of the largest limit admits more than can be
counted. -/
theorem Bounded.move_exact (bounded : t.Bounded limit) (exactly : t.breaker.used = t.total)
    {m : Move} (counted : limit < Breaker.largest ∨ (t.move m).total ≤ Breaker.largest) :
    (t.move m).breaker.used = (t.move m).total := by
  obtain ⟨rfl, within, small, -⟩ := bounded
  rcases move_cases small m with same | ⟨bytes, fits, added⟩ | ⟨place, bytes, stands, taken⟩
  · rw [same]
    exact exactly
  · rw [added, total_cons] at counted ⊢
    have sum :
        (⟨{ t.breaker with used := min (t.breaker.used + bytes) Breaker.largest }, t.standing⟩ :
          Tally).total =
        t.total := rfl
    rw [sum] at counted ⊢
    dsimp only
    omega
  · have sum := total_eraseIdx stands (t.breaker.release bytes)
    rw [taken]
    show t.breaker.used - bytes = _
    omega

theorem Bounded.moveAll_exact (bounded : t.Bounded limit) (exactly : t.breaker.used = t.total)
    {moves : List Move}
    (counted : limit < Breaker.largest ∨
      ∀ done, done <+: moves → (t.moveAll done).total ≤ Breaker.largest) :
    (t.moveAll moves).breaker.used = (t.moveAll moves).total := by
  induction moves generalizing t with
  | nil => exact exactly
  | cons m moves ih =>
    have first : limit < Breaker.largest ∨ (t.move m).total ≤ Breaker.largest :=
      counted.imp_right fun each => each [m] ⟨moves, rfl⟩
    refine ih (bounded.move m) (bounded.move_exact exactly first)
      (counted.imp_right fun each done initial => ?_)
    exact each (m :: done) (List.cons_prefix_cons.mpr ⟨rfl, initial⟩)

theorem bounded_ofLimit (name : String) (limit : Nat) :
    (ofLimit name limit).Bounded (max limit 1) :=
  ⟨rfl, Nat.zero_le _, Nat.zero_le _, Nat.zero_le _⟩

/-- Whatever is charged, and given back once at most, the usage is within the limit and no more than
the sum of the charges that stand. It is that sum as long as the limit is below the largest or the
sum never passes the largest count; then a charge is admitted just if the sum with it is within the
limit, it makes that the usage, and giving it back restores the usage before. A breaker of the
largest limit admits every charge, and its usage stays at the largest count where the sum passes
it. -/
theorem usage_of_moves (name : String) (limit : Nat) (moves : List Move) :
    let now := (ofLimit name limit).moveAll moves
    (now.breaker.used ≤ max limit 1 ∧ now.breaker.used ≤ now.total) ∧
    (limit < Breaker.largest ∨
        (∀ done, done <+: moves → ((ofLimit name limit).moveAll done).total ≤ Breaker.largest) →
      now.breaker.used = now.total ∧
      ∀ bytes label, limit < Breaker.largest ∨ now.total + bytes ≤ Breaker.largest →
        ((∃ b, now.breaker.charge bytes label = .ok b) ↔ now.total + bytes ≤ max limit 1) ∧
        ∀ b, now.breaker.charge bytes label = .ok b →
          b.used = now.total + bytes ∧ b.release bytes = now.breaker) ∧
    (Breaker.largest ≤ limit → ∀ bytes label, ∃ b, now.breaker.charge bytes label = .ok b ∧
      b.used = min (now.breaker.used + bytes) Breaker.largest) := by
  intro now
  have bounded : now.Bounded (max limit 1) := (bounded_ofLimit name limit).moveAll moves
  have least : limit < Breaker.largest → max limit 1 < Breaker.largest :=
    fun less => max_lt less (by decide)
  refine ⟨⟨bounded.used_le_limit, bounded.used_le_total⟩, fun counted => ?_,
    fun unlimited bytes label => ?_⟩
  · have exactly : now.breaker.used = now.total :=
      (bounded_ofLimit name limit).moveAll_exact rfl (counted.imp_left least)
    refine ⟨exactly, fun bytes label room => ?_⟩
    have decided := Breaker.charge_counted (bounded.limit_eq ▸ bounded.used_le_limit) bytes
      (by rw [bounded.limit_eq, exactly]; exact room.imp_left least) label
    rw [← exactly, ← bounded.limit_eq]
    by_cases fits : now.breaker.used + bytes ≤ now.breaker.limit
    · rw [if_pos fits] at decided
      refine ⟨⟨fun _ => fits, fun _ => ⟨_, decided⟩⟩, fun b admitted => ?_⟩
      obtain rfl := Except.ok.inj (decided.symm.trans admitted)
      exact ⟨rfl, Breaker.release_charged now.breaker bytes⟩
    · rw [if_neg fits] at decided
      simp only [decided, reduceCtorEq, exists_false, fits, false_implies, implies_true, and_self]
  · refine ⟨_, Breaker.charge_unlimited ?_ bounded.used_le_largest bytes label, rfl⟩
    rw [bounded.limit_eq]
    exact Nat.le_trans unlimited (Nat.le_max_left ..)

/-- A breaker of the largest limit, filled but for a few bytes, after which the first charge is
given back. -/
theorem usage_of_moves_unlimited :
    let moves : List Move := [.charge (Breaker.largest - 9) "a", .charge 7 "b", .giveBack 1]
    let now := (ofLimit "q" Breaker.largest).moveAll moves
    (∀ done, done <+: moves → ((ofLimit "q" Breaker.largest).moveAll done).total ≤
      Breaker.largest) ∧
      now.breaker.used = now.total ∧ now.total = 7 ∧
      ((∃ b, now.breaker.charge (Breaker.largest - 7) "c" = .ok b) ↔
        now.total + (Breaker.largest - 7) ≤ Breaker.largest) := by
  intro moves now
  have counted : ∀ done, done <+: moves → ((ofLimit "q" Breaker.largest).moveAll done).total ≤
      Breaker.largest := by
    have each : ∀ done ∈ moves.inits, ((ofLimit "q" Breaker.largest).moveAll done).total ≤
        Breaker.largest := by
      decide
    intro done initial
    exact each done ((List.mem_inits done moves).mpr initial)
  obtain ⟨-, exact_, -⟩ := usage_of_moves "q" Breaker.largest moves
  obtain ⟨same, decided⟩ := exact_ (.inr counted)
  exact ⟨counted, same, by decide, (decided (Breaker.largest - 7) "c" (.inr (by decide))).1⟩

/-- A breaker of the largest limit admits a charge that crosses it, does not count it, and is left
short by its release. -/
theorem charged_beyond_largest :
    let full := (ofLimit "q" Breaker.largest).moveAll [.charge Breaker.largest "a"]
    full.breaker.limit = Breaker.largest ∧ full.breaker.limit < full.total + 1 ∧
      ∃ b, full.breaker.charge 1 "b" = .ok b ∧ b.used ≠ full.total + 1 ∧
        b.release 1 ≠ full.breaker := by
  exact ⟨rfl,
    by decide, _, Breaker.charge_unlimited (by decide) (by decide) 1 "b", by decide, by decide⟩

end Tally
end Windowing
