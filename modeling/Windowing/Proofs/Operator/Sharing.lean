import Windowing.Operator
import Windowing.Proofs.Draining
import Windowing.Proofs.Ledger

/-!
Operators that share a breaker, with each other and with others who charge it. A flush charges the
first of its rows, one after the other, as far as they are admitted, and has given all of it back
when it answers, so that a breaker below the largest limit only tells of the others.
-/
namespace Windowing

namespace Breaker

variable {b : Breaker} {rows : List Row}

/-- Below the largest limit the rows that are admitted are counted exactly. -/
theorem Admits.fits (admits : b.Admits rows) (bounded : b.limit < largest)
    (within : b.used ≤ b.limit) :
    b.usageWith rows = b.used + totalSize rows ∧ b.used + totalSize rows ≤ b.limit := by
  have room : b.usageWith rows ≤ b.limit := by
    rcases Nat.eq_zero_or_pos rows.length with empty | several
    · rw [List.length_eq_zero_iff.mp empty]
      exact Nat.le_trans (Nat.min_le_left ..) within
    · have last := admits (rows.length - 1) (by omega)
      rwa [Nat.sub_add_cancel several, List.take_length] at last
  unfold usageWith at room ⊢
  omega

/-- What is admitted leaves the limit as it is, and the usage within it. -/
theorem charge_within {c : Breaker} {bytes : Nat} {label : String}
    (admitted : b.charge bytes label = .ok c) (within : b.used ≤ b.limit) :
    c.limit = b.limit ∧ c.used ≤ b.limit := by
  rcases charge_eq_ok_iff.mp admitted with ⟨-, rfl⟩ | ⟨-, room, rfl⟩
  · exact ⟨rfl, within⟩
  · exact ⟨rfl, room⟩

end Breaker

namespace Accounting

variable {a : Account} {b : Breaker} {before : List Row}

/-- All rows are charged, or those in front of the first that is refused. -/
theorem chargeAll_cases (admits : b.Admits before) (rows : List Row) :
    (b.Admits (before ++ rows) ∧
      (charged a b before).chargeAll rows = (charged a b (before ++ rows), .ok ())) ∨
    ∃ k e, b.Admits (before ++ rows.take k) ∧
      (charged a b before).chargeAll rows = (charged a b (before ++ rows.take k), .error e) := by
  by_cases room : b.Admits (before ++ rows)
  · exact .inl ⟨room, chargeAll_of_admits room⟩
  · obtain ⟨n, refused⟩ : ∃ n, b.RefusesAt (before ++ rows) n := by
      by_contra unrefused
      exact room (Breaker.admits_of_not_refusesAt (not_exists.mp unrefused))
    have own := refused.length_le admits
    have taken : (before ++ rows).take n = before ++ rows.take (n - before.length) := by
      rw [List.take_append, List.take_of_length_le own]
    refine .inr ⟨n - before.length, ?_⟩
    rw [← taken]
    exact ⟨_, refused.admits, chargeAll_of_refusesAt refused own⟩

end Accounting

namespace Source

variable {width spare pulled : Nat} {cancel : Cancellation} {a : Account} {b : Breaker}
  {before : List Row}

/-- Nothing is charged for an item that is not pulled or not a batch of the expected width, and it
ends the draining. -/
theorem drain_stops {item : Item}
    (stops : ∀ c : Batch, cancel.seen pulled = false → item = .batch c → c.width ≠ width)
    {x : Accounting} {items : List Item} :
    (drain width spare cancel pulled x (item :: items)).1 = x := by
  cases seen : cancel.seen pulled with
  | true => rw [drain_seen seen]
  | false =>
    cases item with
    | failure context => rw [drain, seen, if_neg Bool.false_ne_true]
    | batch c => rw [drain, seen, if_neg Bool.false_ne_true, if_pos (stops c seen rfl)]

/-- However a draining ends, it has charged the first of the rows to come, all of which are
admitted. -/
theorem drain_charges (width spare : Nat) (cancel : Cancellation) (pulled : Nat) (a : Account)
    (admits : b.Admits before) (items : List Item) :
    ∃ admitted, admitted <+: items.flatMap Item.rows ∧ b.Admits (before ++ admitted) ∧
      (drain width spare cancel pulled (.charged a b before) items).1 =
        .charged a b (before ++ admitted) := by
  induction items generalizing pulled before with
  | nil =>
    refine ⟨[], List.nil_prefix, ?_⟩
    rw [List.append_nil, drain]
    split <;> exact ⟨admits, rfl⟩
  | cons item items ih =>
    by_cases passes : cancel.seen pulled = false ∧ ∃ c : Batch, item = .batch c ∧ c.width = width
    · obtain ⟨unseen, c, rfl, same⟩ := passes
      rw [List.flatMap_cons, drain_batch spare unseen same]
      rcases Accounting.chargeAll_cases (a := a) admits c.rows with ⟨room, charged⟩ |
        ⟨k, e, room, refused⟩
      · obtain ⟨admitted, first, more, drained⟩ := ih (pulled + 1) room
        rw [List.append_assoc] at more drained
        refine ⟨c.rows ++ admitted, (List.prefix_append_right_inj _).mpr first, more, ?_⟩
        rw [charged, ← drained]
        rfl
      · refine ⟨c.rows.take k, (List.take_prefix ..).trans (List.prefix_append ..), room, ?_⟩
        rw [refused]
    · refine ⟨[], List.nil_prefix, ?_⟩
      rw [List.append_nil]
      refine ⟨admits, drain_stops fun c unseen batch same => ?_⟩
      exact passes ⟨unseen, c, batch, same⟩

end Source

/-- Only draining charges an execution's account. -/
theorem Executor.execute_accounting (x : Executor) (d : Definition) (source : Source)
    (cancel : Cancellation) (accounting : Accounting) :
    (x.execute d source cancel accounting).1 =
      (source.collect d.width d.calls.length cancel accounting).1 := by
  rw [execute]
  rcases source.collect d.width d.calls.length cancel accounting with ⟨after, e | rows⟩
  · rfl
  · dsimp only
    split <;> rfl

namespace Ledger

variable {l : Ledger} {limit : Nat}

structure Kept (limit : Nat) (l : Ledger) : Prop where
  limit_eq : l.breaker.limit = limit
  used_le : l.breaker.used ≤ limit

theorem Kept.enter (kept : l.Kept limit) (e : Entry) : (l.enter e).1.Kept limit := by
  obtain ⟨rfl, within⟩ := kept
  cases e with
  | add bytes label =>
    rw [Ledger.enter]
    cases charged : l.breaker.charge bytes label with
    | error e => exact ⟨rfl, within⟩
    | ok b =>
      obtain ⟨same, room⟩ := Breaker.charge_within charged within
      exact ⟨same, room⟩
  | release bytes => exact ⟨rfl, Nat.le_trans (Nat.sub_le ..) within⟩
  | «open» label => exact ⟨rfl, within⟩
  | charge number row =>
    rw [Ledger.enter]
    cases l.account? number with
    | none => exact ⟨rfl, within⟩
    | some a =>
      dsimp only
      cases charged : a.charge l.breaker row with
      | error e => exact ⟨rfl, within⟩
      | ok after =>
        obtain ⟨c, admitted, made⟩ := bind_eq_ok_iff.mp charged
        obtain rfl := Except.ok.inj made
        obtain ⟨same, room⟩ := Breaker.charge_within admitted within
        exact ⟨same, room⟩
  | close number =>
    rw [Ledger.enter]
    cases l.account? number with
    | none => exact ⟨rfl, within⟩
    | some a => exact ⟨rfl, Nat.le_trans (Nat.sub_le ..) within⟩

theorem Kept.enterAll (kept : l.Kept limit) (entries : List Entry) :
    (l.enterAll entries).Kept limit := by
  induction entries generalizing l with
  | nil => exact kept
  | cons e entries ih => exact ih (kept.enter e)

end Ledger

namespace Operator

variable {b : Breaker}

/-- What a flush has charged when it closes its account: the first of its rows, one after the other,
each within the limit. -/
structure Charges (op : Operator) (x : Executor) (b : Breaker) (admitted : List Row) : Prop where
  first : admitted <+: rowsOf op.buffered
  each : ∀ m ≤ admitted.length,
    (Accounting.accounted ⟨label, 0⟩ b).chargeAll (admitted.take m) =
        (.accounted ⟨label, totalSize (admitted.take m)⟩
          { b with used := b.used + totalSize (admitted.take m) },
          .ok ()) ∧
      b.used + totalSize (admitted.take m) ≤ b.limit
  all : (x.execute op.definition (.ofBatches op.buffered) .never (.accounted ⟨label, 0⟩ b)).1 =
    .accounted ⟨label, totalSize admitted⟩ { b with used := b.used + totalSize admitted }

theorem exists_charges (op : Operator) (x : Executor) (bounded : b.limit < Breaker.largest)
    (within : b.used ≤ b.limit) : ∃ admitted, op.Charges x b admitted := by
  have counted : b.used ≤ Breaker.largest := by omega
  have none_yet : b.Admits [] := nofun
  have arrived : (Source.ofBatches op.buffered).items.flatMap Item.rows = rowsOf op.buffered := by
    rw [Source.ofBatches, List.flatMap_map]
    rfl
  obtain ⟨admitted, first, admits, drained⟩ :=
    Source.drain_charges op.definition.width op.definition.calls.length
    .never 0 ⟨label, 0⟩ none_yet (Source.ofBatches op.buffered).items
  rw [List.nil_append] at admits drained
  rw [Accounting.charged_nil counted] at drained
  have stands : ∀ rows, b.Admits rows → Accounting.charged ⟨label, 0⟩ b rows =
      .accounted ⟨label, totalSize rows⟩ { b with used := b.used + totalSize rows } := by
    intro rows admits
    rw [Accounting.charged, (admits.fits bounded within).1, Nat.zero_add]
  refine ⟨admitted, arrived ▸ first, ?_, ?_⟩
  · intro m _
    have admits := admits.take m
    have charged : (Accounting.charged ⟨label, 0⟩ b []).chargeAll (admitted.take m) =
        (.charged ⟨label, 0⟩ b (admitted.take m), .ok ()) := Accounting.chargeAll_of_admits admits
    rw [Accounting.charged_nil counted, stands _ admits] at charged
    exact ⟨charged, (admits.fits bounded within).2⟩
  · rw [Executor.execute_accounting, Source.collect, drained, stands _ admits]

theorem run_breaker (op : Operator) (x : Executor) (bounded : b.limit < Breaker.largest) :
    (op.run x b).1 = b := by
  have returns : (Accounting.accounted ⟨label, 0⟩ b).Returns b := ⟨⟨_, _, rfl, rfl⟩, bounded⟩
  have after :=
    returns.drain op.definition.width op.definition.calls.length .never 0
      (Source.ofBatches op.buffered).items
  rw [← Source.collect, ← Executor.execute_accounting x] at after
  obtain ⟨⟨a, c, executed, closed⟩, -⟩ := after
  rw [run]
  generalize x.execute op.definition (.ofBatches op.buffered) .never (.accounted ⟨label, 0⟩ b) =
    outcome at executed
  obtain ⟨last, answer⟩ := outcome
  obtain rfl : last = .accounted a c := executed
  exact closed

/-- Whatever a flush comes to, the breaker is then what it was. -/
theorem flush_breaker (op : Operator) (bounded : b.limit < Breaker.largest) :
    (op.flush b).breaker = b := by
  rw [flush]
  cases op.executor with
  | none => rfl
  | some x => exact op.run_breaker x bounded

theorem receive_breaker (op : Operator) (bounded : b.limit < Breaker.largest) (m : Message) :
    (op.receive b m).breaker = b := by
  cases m with
  | regular sender batch => rfl
  | watermark sender value =>
    rw [receive]
    split
    · exact op.flush_breaker bounded
    · rfl

end Operator

/-- Operators on one breaker, on which others enter what they take and give back. -/
structure Group where
  ledger : Ledger
  operators : List Operator
  deriving DecidableEq

namespace Group

/-- Either others use the breaker, or one of the operators is opened, closed or sent a message. -/
inductive Turn
  | other (e : Ledger.Entry)
  | opened (number offered : Nat)
  | closed (number : Nat)
  | received (number : Nat) (message : Message)
  deriving DecidableEq

def Turn.other? : Turn → Option Ledger.Entry
  | .other e => some e
  | _ => none

def turn (g : Group) : Turn → Group
  | .other e => { g with ledger := (g.ledger.enter e).1 }
  | .opened number offered =>
    { g with operators := g.operators.modify number fun op => (op.open offered).1 }
  | .closed number => { g with operators := g.operators.modify number Operator.close }
  | .received number message =>
    match g.operators[number]? with
    | none => g
    | some op =>
      let reply := op.receive g.ledger.breaker message
      ⟨{ g.ledger with breaker := reply.breaker }, g.operators.set number reply.operator⟩

def through (g : Group) (turns : List Turn) : Group := turns.foldl turn g

variable {g : Group} {limit : Nat}

theorem turn_ledger (bounded : g.ledger.breaker.limit < Breaker.largest) (t : Turn) :
    (g.turn t).ledger = g.ledger.enterAll t.other?.toList := by
  cases t with
  | other e => rfl
  | opened number offered => rfl
  | closed number => rfl
  | received number message =>
    rw [turn]
    cases g.operators[number]? with
    | none => rfl
    | some op =>
      dsimp only
      rw [op.receive_breaker bounded]
      rfl

/-- After any turns the breaker is what the others alone make of it. -/
theorem through_ledger (kept : g.ledger.Kept limit) (bounded : limit < Breaker.largest)
    (turns : List Turn) :
    (g.through turns).ledger = g.ledger.enterAll (turns.filterMap Turn.other?) := by
  induction turns generalizing g with
  | nil => rfl
  | cons t turns ih =>
    have first := turn_ledger (kept.limit_eq ▸ bounded) t
    have rest := ih (first ▸ kept.enterAll _)
    rw [first] at rest
    rw [List.filterMap_cons]
    cases other : t.other? with
    | none =>
      rw [other] at rest
      exact rest
    | some e =>
      rw [other] at rest
      exact rest

/-- Whatever the operators are sent, and however their flushes end, the breaker is what the others
alone make of it, and only they can change it. A flush charges the first of its rows, one after the
other and each within the limit, and leaves the breaker as it was. -/
theorem through_neutral (g : Group) (bounded : g.ledger.breaker.limit < Breaker.largest)
    (within : g.ledger.breaker.used ≤ g.ledger.breaker.limit) (turns : List Turn) :
    let now := g.through turns
    let b := now.ledger.breaker
    now.ledger = g.ledger.enterAll (turns.filterMap Turn.other?) ∧
      ((∀ t ∈ turns, t.other? = none) → b = g.ledger.breaker) ∧
      (b.limit = g.ledger.breaker.limit ∧ b.used ≤ b.limit) ∧
      ∀ op : Operator, (op.flush b).breaker = b ∧ (∀ m, (op.receive b m).breaker = b) ∧
        ∀ x, op.executor = some x → ∃ admitted, op.Charges x b admitted := by
  intro now b
  have kept : g.ledger.Kept g.ledger.breaker.limit := ⟨rfl, within⟩
  have reached : now.ledger = g.ledger.enterAll (turns.filterMap Turn.other?) :=
    through_ledger kept bounded turns
  have still : now.ledger.Kept g.ledger.breaker.limit := reached ▸ kept.enterAll _
  have small : b.limit < Breaker.largest := still.limit_eq ▸ bounded
  have room : b.used ≤ b.limit := still.limit_eq ▸ still.used_le
  refine ⟨reached, ?_, ⟨still.limit_eq, room⟩, ?_⟩
  · intro own
    show now.ledger.breaker = _
    rw [reached, List.filterMap_eq_nil_iff.mpr own]
    rfl
  · intro op
    constructor
    · exact op.flush_breaker small
    · constructor
      · exact op.receive_breaker small
      · intro x _
        exact op.exists_charges x small room

/-- Two operators on a breaker that holds another's bytes: the third row of the first is refused,
and the row of the second fits, after others took more. -/
theorem through_neutral_two :
    let schema : Schema := ⟨[⟨"x", .int64, true⟩], []⟩
    let rows := fun n => Batch.mk schema (List.replicate n [.ofCount 1])
    let op : Operator :=
      ⟨schema, ⟨1, [⟨.rowNumber, []⟩], none, none⟩, {}, schema, some ⟨{}, none⟩, [], none⟩
    let g : Group := ⟨⟨⟨"q", 300, 100⟩, []⟩, [op, op]⟩
    let turns : List Turn :=
      [.received 0 (.regular none (rows 3)), .received 1 (.regular none (rows 1)),
      .received 0 (.watermark "u" Message.terminal), .other (.add 50 "other"),
      .received 1 (.watermark "u" Message.terminal)]
    g.ledger.breaker.limit < Breaker.largest ∧ g.ledger.breaker.used ≤ g.ledger.breaker.limit ∧
      ({ op with buffered := [rows 3] }.flush g.ledger.breaker).answer =
        .error (.error (.window (.budget ⟨"q", "window_agg", 364, 300⟩))) ∧
      (g.through turns).ledger = ⟨⟨"q", 300, 150⟩, []⟩ := by
  intro schema rows op g turns
  refine ⟨by decide, by decide, rfl, ?_⟩
  exact (through_neutral g (by decide) (by decide) turns).1

end Group
end Windowing
