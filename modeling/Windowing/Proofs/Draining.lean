import Mathlib.Algebra.GroupWithZero.Nat
import Windowing.Proofs.Failing
import Windowing.Proofs.Fault

/-!
What draining a source comes to, and what it has charged by then, told by the budget. Of the rows
that arrive a breaker refuses the first with which all rows so far cross its limit; an accounting
for it refuses just the same row, with the usage it would have led to.
-/
namespace Windowing

def totalSize (rows : List Row) : Nat := (rows.map Row.estimatedSize).sum

theorem totalSize_append (before after : List Row) :
    totalSize (before ++ after) = totalSize before + totalSize after := by
  rw [totalSize, List.map_append, List.sum_append]
  rfl

namespace Breaker

variable (b : Breaker)

/-- The usage with these rows on top; as a 64-bit count it stays at its largest value. -/
def usageWith (rows : List Row) : Nat := min (b.used + totalSize rows) largest

/-- There is room for the rows, one after the other. -/
def Admits (rows : List Row) : Prop := ∀ n < rows.length, b.usageWith (rows.take (n + 1)) ≤ b.limit

/-- Row number `n` is the first for which there is no room. -/
structure RefusesAt (rows : List Row) (n : Nat) : Prop where
  inside : n < rows.length
  fits : ∀ m < n, b.usageWith (rows.take (m + 1)) ≤ b.limit
  crosses : b.limit < b.usageWith (rows.take (n + 1))

def Refuses (label : String) (rows : List Row) (n : Nat) (e : BudgetExceeded) : Prop :=
  b.RefusesAt rows n ∧ e = ⟨b.name, label, b.usageWith (rows.take (n + 1)), b.limit⟩

/-- Rows on top of rows that are counted already. -/
theorem usageWith_append (before after : List Row) :
    ({ b with used := b.usageWith before } : Breaker).usageWith after =
      b.usageWith (before ++ after) := by
  simp only [usageWith, totalSize_append]
  omega

variable {b} {rows more : List Row} {n : Nat}

theorem usageWith_le (less : totalSize rows ≤ totalSize more) :
    b.usageWith rows ≤ b.usageWith more := by
  unfold usageWith
  omega

theorem admits_of_not_refusesAt (unrefused : ∀ n, ¬ b.RefusesAt rows n) : b.Admits rows := by
  intro n
  induction n using Nat.strongRecOn with
  | ind n earlier =>
    intro inside
    refine Nat.not_lt.mp fun crosses => unrefused n ⟨inside, fun m less => ?_, crosses⟩
    exact earlier m less (Nat.lt_trans less inside)

theorem Admits.take (admits : b.Admits rows) (m : Nat) : b.Admits (rows.take m) := by
  intro n inside
  rw [List.length_take] at inside
  rw [List.take_take, Nat.min_eq_left (by omega)]
  exact admits n (by omega)

/-- There is room for the rows in front of a refused one. -/
theorem RefusesAt.admits (refused : b.RefusesAt rows n) : b.Admits (rows.take n) := by
  intro m inside
  rw [List.length_take] at inside
  rw [List.take_take, Nat.min_eq_left (by omega)]
  exact refused.fits m (by omega)

/-- The first row without room lies behind rows for which there is room. -/
theorem RefusesAt.length_le (refused : b.RefusesAt (rows ++ more) n) (admits : b.Admits rows) :
    rows.length ≤ n := by
  refine Nat.not_lt.mp fun inside => ?_
  have crosses := refused.crosses
  rw [List.take_append_of_le_length inside] at crosses
  exact Nat.not_le.mpr crosses (admits n inside)

end Breaker

theorem Row.le_estimatedSize (row : Row) : 24 ≤ row.estimatedSize := by
  rw [estimatedSize]
  generalize 24 = size
  induction row generalizing size with
  | nil => exact Nat.le_refl size
  | cons c row ih => exact Nat.le_trans (Nat.le_add_right ..) (ih _)

namespace Accounting

variable {a : Account} {b : Breaker}

def charged (a : Account) (b : Breaker) (rows : List Row) : Accounting :=
  accounted { a with bytes := a.bytes + totalSize rows } { b with used := b.usageWith rows }

theorem charged_nil (counted : b.used ≤ Breaker.largest) : charged a b [] = accounted a b := by
  have same : b.usageWith [] = b.used := Nat.min_eq_left counted
  rw [charged, same]
  rfl

theorem charge_accounted (row : Row) : (accounted a b).charge row =
    if b.limit < b.usageWith [row] then .error ⟨b.name, a.label, b.usageWith [row], b.limit⟩
    else .ok (charged a b [row]) := by
  have counts : row.estimatedSize ≠ 0 :=
    Nat.ne_of_gt (Nat.lt_of_lt_of_le (by decide) row.le_estimatedSize)
  have alone : totalSize [row] = row.estimatedSize := List.sum_singleton
  have usage : min (b.used + row.estimatedSize) Breaker.largest = b.usageWith [row] := by
    rw [Breaker.usageWith, alone]
  rw [charge, Account.charge]
  simp only [Breaker.charge, if_neg counts, usage]
  split
  · rfl
  · rw [charged, alone]
    rfl

/-- One row more. -/
theorem charge_charged (before : List Row) (row : Row) : (charged a b before).charge row =
    if b.limit < b.usageWith (before ++ [row]) then
      .error ⟨b.name, a.label, b.usageWith (before ++ [row]), b.limit⟩
    else .ok (charged a b (before ++ [row])) := by
  rw [charged, charge_accounted, Breaker.usageWith_append]
  split
  · rfl
  · rw [charged, charged, Breaker.usageWith_append, totalSize_append, Nat.add_assoc]

variable {before rows : List Row}

theorem chargeAll_of_admits (admits : b.Admits (before ++ rows)) :
    (charged a b before).chargeAll rows = (charged a b (before ++ rows), .ok ()) := by
  induction rows generalizing before with
  | nil => rw [chargeAll, List.append_nil]
  | cons row rows ih =>
    rw [List.append_cons] at admits ⊢
    have room : b.usageWith (before ++ [row]) ≤ b.limit := by
      have until_ := admits before.length (by simp)
      rwa [List.take_append_of_le_length (by simp), List.take_of_length_le (by simp)] at until_
    rw [chargeAll, charge_charged, if_neg (Nat.not_lt.mpr room)]
    exact ih admits

variable {n : Nat}

theorem chargeAll_take_succ (inside : n < rows.length) (admits : b.Admits (rows.take n)) :
    ((charged a b []).chargeAll (rows.take (n + 1))).2 =
      if b.limit < b.usageWith (rows.take (n + 1)) then
        .error ⟨b.name, a.label, b.usageWith (rows.take (n + 1)), b.limit⟩
      else .ok () := by
  have room : (charged a b []).chargeAll (rows.take n) = (charged a b (rows.take n), .ok ()) :=
    chargeAll_of_admits admits
  rw [List.take_succ_eq_append_getElem inside, chargeAll_append _ _ _ (congrArg Prod.snd room),
    room, chargeAll, charge_charged]
  by_cases crosses : b.limit < b.usageWith (rows.take n ++ [rows[n]])
  · simp only [crosses, if_true]
  · simp only [crosses, if_false, chargeAll]

theorem refuses_of_refusesAt (refused : b.RefusesAt rows n) : (charged a b []).Refuses rows n
    ⟨b.name, a.label, b.usageWith (rows.take (n + 1)), b.limit⟩ := by
  refine ⟨congrArg Prod.snd (chargeAll_of_admits refused.admits), ?_⟩
  rw [chargeAll_take_succ refused.inside refused.admits, if_pos refused.crosses]

theorem admits_of_chargeAll (admitted : ((charged a b []).chargeAll rows).2 = .ok ()) :
    b.Admits rows := by
  refine Breaker.admits_of_not_refusesAt fun n refused => ?_
  rw [(refuses_of_refusesAt refused).chargeAll_eq] at admitted
  cases admitted

theorem refuses_charged : (charged a b []).Refuses = b.Refuses a.label := by
  funext rows n e
  refine propext ⟨fun ⟨admitted, refused⟩ => ?_,
    fun ⟨refused, answer⟩ => answer ▸ refuses_of_refusesAt refused⟩
  have inside : n < rows.length := by
    refine Nat.not_le.mp fun beyond => ?_
    rw [List.take_of_length_le beyond] at admitted
    rw [List.take_of_length_le (Nat.le_succ_of_le beyond), admitted] at refused
    cases refused
  have admits := admits_of_chargeAll admitted
  rw [chargeAll_take_succ inside admits] at refused
  split at refused
  case isTrue crosses =>
    refine ⟨⟨inside, fun m less => ?_, crosses⟩, (Except.error.inj refused).symm⟩
    have fits := admits m (by rw [List.length_take]; omega)
    rwa [List.take_take, Nat.min_eq_left less] at fits
  case isFalse => cases refused

/-- What an accounting refuses is just what its breaker has no room for. -/
theorem refuses_accounted (counted : b.used ≤ Breaker.largest) :
    (accounted a b).Refuses = b.Refuses a.label := by
  rw [← charged_nil counted, refuses_charged]

theorem charged_of_chargeAll (counted : b.used ≤ Breaker.largest)
    (admitted : ((accounted a b).chargeAll rows).2 = .ok ()) :
    ((accounted a b).chargeAll rows).1 = charged a b rows := by
  rw [← charged_nil counted] at admitted ⊢
  have admits : b.Admits ([] ++ rows) := admits_of_chargeAll admitted
  rw [chargeAll_of_admits admits, List.nil_append]

/-- Behind rows that are charged already, the rows in front of the refused one are charged too. -/
theorem chargeAll_of_refusesAt (refused : b.RefusesAt (before ++ rows) n)
    (own : before.length ≤ n) :
    (charged a b before).chargeAll rows =
      (charged a b ((before ++ rows).take n),
        .error ⟨b.name, a.label, b.usageWith ((before ++ rows).take (n + 1)), b.limit⟩) := by
  have room : b.Admits before := by
    have first := refused.admits.take before.length
    rwa [List.take_take, Nat.min_eq_left own, List.take_left] at first
  have earlier : (charged a b []).chargeAll before = (charged a b before, .ok ()) :=
    chargeAll_of_admits room
  have later : (charged a b []).chargeAll ((before ++ rows).take n) =
      (charged a b ((before ++ rows).take n), .ok ()) := chargeAll_of_admits refused.admits
  have whole := (refuses_of_refusesAt (a := a) refused).chargeAll_eq
  rwa [chargeAll_append _ _ _ (congrArg Prod.snd earlier), earlier, later] at whole

/-- Closing the account leads to this breaker, which is not one of the largest limit. -/
structure Returns (x : Accounting) (b : Breaker) : Prop where
  closed : ∃ a c, x = accounted a c ∧ a.close c = b
  bounded : b.limit < Breaker.largest

namespace Returns

variable {x : Accounting}

/-- What is admitted is charged to the breaker and to the account alike. -/
theorem charge (returns : x.Returns b) {row : Row} {y : Accounting}
    (charged : x.charge row = .ok y) :
    y.Returns b := by
  obtain ⟨⟨a, c, rfl, rfl⟩, bounded⟩ := returns
  obtain ⟨⟨a', c'⟩, admitted, made⟩ := bind_eq_ok_iff.mp charged
  obtain rfl := Except.ok.inj made
  obtain ⟨c'', granted, made⟩ := bind_eq_ok_iff.mp admitted
  obtain ⟨rfl, rfl⟩ := Prod.mk.inj (Except.ok.inj made)
  refine ⟨⟨_, _, rfl, ?_⟩, bounded⟩
  rcases Breaker.charge_eq_ok_iff.mp granted with ⟨nothing, rfl⟩ | ⟨-, room, rfl⟩
  · rw [nothing]
    rfl
  · have below : c.limit < Breaker.largest := bounded
    have same : min (c.used + row.estimatedSize) Breaker.largest - (a.bytes + row.estimatedSize) =
        c.used - a.bytes := by omega
    simp only [Account.close, Breaker.release, same]

theorem chargeAll (returns : x.Returns b) (rows : List Row) : (x.chargeAll rows).1.Returns b := by
  induction rows generalizing x with
  | nil => exact returns
  | cons row rows ih =>
    rw [Accounting.chargeAll]
    cases charged : x.charge row with
    | ok y => exact ih (returns.charge charged)
    | error e => exact returns

theorem drain (returns : x.Returns b) (width spare : Nat) (cancel : Cancellation) (pulled : Nat)
    (items : List Item) : (Source.drain width spare cancel pulled x items).1.Returns b := by
  induction items generalizing pulled x with
  | nil =>
    rw [Source.drain]
    split <;> exact returns
  | cons item items ih =>
    cases seen : cancel.seen pulled with
    | true =>
      rw [Source.drain_seen seen]
      exact returns
    | false =>
      cases item with
      | failure context =>
        rw [Source.drain, seen, if_neg Bool.false_ne_true]
        exact returns
      | batch c =>
        by_cases same : c.width = width
        · have after := returns.chargeAll c.rows
          rw [Source.drain_batch spare seen same]
          cases charged : x.chargeAll c.rows with
          | mk y answer =>
            rw [charged] at after
            cases answer with
            | error e => exact after
            | ok _ => exact ih after (pulled + 1)
        · rw [Source.drain, seen, if_neg Bool.false_ne_true, if_pos same]
          exact returns

end Returns
end Accounting

namespace Source

/-- What a draining comes to. Cancelled from the start it does nothing. Otherwise the first item
that fails by itself decides, if it is pulled at all; else a cancellation in the poll of an item
does, once that item is processed; and else all rows are there. What is charged is what was admitted
by then, and below the largest limit closing the account gives back just that. -/
theorem collect_outcome (s : Source) (width spare : Nat) (a : Account) (b : Breaker)
    (counted : b.used ≤ Breaker.largest) :
    s.collect width spare .fromStart (.accounted a b) = (.accounted a b, .error .cancelled) ∧
    (∀ cancel f admitted e, FirstFailure width (b.Refuses a.label) s.items f admitted e →
      cancel ≠ .fromStart → (∀ c, cancel = .during c → f ≤ c) →
      s.collect width spare cancel (.accounted a b) = (.charged a b admitted, .error e)) ∧
    (∀ c < s.items.length, Sound width (b.Refuses a.label) s.items (c + 1) →
      s.collect width spare (.during c) (.accounted a b) =
        (.charged a b (arrived s.items (c + 1)), .error .cancelled)) ∧
    (∀ cancel, Sound width (b.Refuses a.label) s.items s.items.length →
      cancel ≠ .fromStart → (∀ c, cancel = .during c → s.items.length ≤ c) →
      s.collect width spare cancel (.accounted a b) =
        (.charged a b (s.items.flatMap Item.rows),
          .ok ((s.items.flatMap Item.rows).map (Batch.reserve · spare)))) ∧
    (b.limit < Breaker.largest → ∀ cancel, ∃ account breaker,
      (s.collect width spare cancel (.accounted a b)).1 = .accounted account breaker ∧
        account.close breaker = a.close b) := by
  have refuses : (Accounting.accounted a b).Refuses = b.Refuses a.label :=
    Accounting.refuses_accounted counted
  rw [← refuses]
  refine ⟨drain_seen rfl _ _, fun cancel f admitted e first started late => ?_,
    fun c inside sound => ?_, fun cancel sound started late => ?_, fun bounded cancel => ?_⟩
  · have unseen := Cancellation.seen_eq_false_iff.mpr ⟨started, late⟩
    obtain ⟨charged, drained⟩ := first.drain_eq spare unseen
    rw [collect, drained, Accounting.charged_of_chargeAll counted charged]
  · have earlier : ∀ k < c + 1, (Cancellation.during c).seen k = false :=
      fun k less => Cancellation.unseen_during (Nat.le_of_lt_succ less)
    have seen := Cancellation.seen_during (Nat.lt_succ_self c)
    obtain ⟨charged, drained⟩ := sound.drain_eq spare inside earlier
    rw [collect, drained, drain_seen seen, Accounting.charged_of_chargeAll counted charged]
    rfl
  · have unseen := Cancellation.seen_eq_false_iff.mpr ⟨started, late⟩
    have earlier : ∀ k < s.items.length, cancel.seen k = false :=
      fun k less => Cancellation.seen_mono (Nat.le_of_lt less) unseen
    obtain ⟨charged, drained⟩ := sound.drain_eq spare (Nat.le_refl _) earlier
    rw [collect, drained, Accounting.charged_of_chargeAll counted charged,
      List.drop_length, arrived, List.take_length, drain, unseen]
    exact congrArg (fun rows => (_, Except.ok rows)) (List.append_nil _)
  · have returns : (Accounting.accounted a b).Returns (a.close b) := ⟨⟨a, b, rfl, rfl⟩, bounded⟩
    exact (returns.drain width spare cancel 0 s.items).closed

/-- The first row of the second batch is refused while a cancellation waits. -/
theorem collect_outcome_over_limit :
    let schema : Schema := ⟨[⟨"x", .int64, true⟩], []⟩
    let s : Source := .ofBatches [⟨schema, [[.ofCount 1]]⟩, ⟨schema, [[.ofCount 2], [.ofCount 3]]⟩]
    let b : Breaker := ⟨"q", 200, 100⟩
    b.used ≤ Breaker.largest ∧ s.collect 1 1 (.during 1) (.accounted ⟨"w", 0⟩ b) =
      (.accounted ⟨"w", 88⟩ ⟨"q", 200, 188⟩, .error (.budget ⟨"q", "w", 276, 200⟩)) := by
  intro schema s b
  have counted : b.used ≤ Breaker.largest := by decide
  have refused : b.RefusesAt [[.ofCount 1], [.ofCount 2], [.ofCount 3]] 1 :=
    ⟨by decide, by decide, by decide⟩
  have sound : Sound 1 (b.Refuses "w") s.items 1 := by
    rintro k first admitted e ⟨item, at_, fails⟩
    obtain rfl := Nat.lt_one_iff.mp first
    obtain rfl := Option.some.inj at_
    cases fails with
    | width differs => exact differs rfl
    | budget same refused own =>
      obtain ⟨refused, rfl⟩ := refused
      obtain rfl := Nat.lt_one_iff.mp refused.inside
      exact absurd refused.crosses (by decide)
  have fails : Item.Fails 1 (b.Refuses "w") 1 [[.ofCount 1]]
      (.batch ⟨schema, [[.ofCount 2], [.ofCount 3]]⟩)
      ([[.ofCount 1], [.ofCount 2], [.ofCount 3]].take 1)
      (.budget ⟨"q", "w", b.usageWith ([[.ofCount 1], [.ofCount 2], [.ofCount 3]].take 2), 200⟩) :=
    .budget rfl ⟨refused, rfl⟩ (by decide)
  have first : FirstFailure 1 (b.Refuses "w") s.items 1 [[.ofCount 1]]
      (.budget ⟨"q", "w", 276, 200⟩) := ⟨sound, _, rfl, fails⟩
  have pulled : ∀ c, Cancellation.during 1 = .during c → 1 ≤ c := by
    rintro c ⟨⟩
    exact Nat.le_refl 1
  exact ⟨counted,
    (collect_outcome s 1 1 ⟨"w", 0⟩ b counted).2.1 (.during 1) 1 _ _ first nofun pulled⟩

/-- The sums of a breaker are not the exact ones where these are no 64-bit counts: a row is admitted
although the sum exceeds the limit, and the usage a refusal names falls short of the sum. -/
theorem collect_beyond_largest :
    let schema : Schema := ⟨[⟨"x", .int64, true⟩], []⟩
    let row : Row := [.ofCount 1]
    let s : Source := .ofBatches [⟨schema, [row]⟩]
    let full : Breaker := { Breaker.unlimited "q" with used := Breaker.largest }
    let near : Breaker := ⟨"q", Breaker.largest - 1, Breaker.largest - 1⟩
    (full.limit < full.used + totalSize [row] ∧
      (s.collect 1 1 .never (.accounted ⟨"w", 0⟩ full)).2 = .ok [Batch.reserve row 1]) ∧
    near.limit < near.used + totalSize [row] ∧
      ∃ e, (s.collect 1 1 .never (.accounted ⟨"w", 0⟩ near)).2 = .error (.budget e) ∧
        e.wouldBe ≠ near.used + totalSize [row] := by
  exact ⟨⟨by decide, rfl⟩, by decide, _, rfl, by decide⟩

end Source
end Windowing
