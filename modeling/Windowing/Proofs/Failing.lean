import Mathlib.Data.Nat.Find
import Windowing.Proofs.Source

/-!
How an item of a source fails by itself: upstream does, a batch has the wrong width, or one of its
rows is refused after all rows before it. Which row is refused, and with what error, is left open,
so that it can be told from an accounting or from the budget behind it. Items that do not fail are
charged one after the other; the first that does ends the draining, unless a cancellation is seen
before.
-/
namespace Windowing

namespace Accounting

/-- Row number `n` is the first that is refused. -/
structure Refuses (x : Accounting) (rows : List Row) (n : Nat) (e : BudgetExceeded) : Prop where
  admitted : (x.chargeAll (rows.take n)).2 = .ok ()
  refused : (x.chargeAll (rows.take (n + 1))).2 = .error e

variable {x : Accounting} {rows before : List Row} {n : Nat} {e : BudgetExceeded}

/-- The rows in front of the refused one are charged, and nothing behind them. -/
theorem Refuses.chargeAll_eq (refuses : x.Refuses rows n e) :
    x.chargeAll rows = ((x.chargeAll (rows.take n)).1, .error e) := by
  induction rows generalizing x n with
  | nil => cases refuses.refused
  | cons row rows ih =>
    obtain ⟨admitted, refused⟩ := refuses
    rw [List.take_succ_cons, chargeAll] at refused
    cases n with
    | zero =>
      cases charged : x.charge row with
      | ok y =>
        rw [charged] at refused
        cases refused
      | error e' =>
        rw [charged] at refused
        obtain rfl := Except.error.inj refused
        rw [chargeAll, charged]
        rfl
    | succ n =>
      rw [List.take_succ_cons, chargeAll] at admitted ⊢
      rw [chargeAll]
      cases charged : x.charge row with
      | ok y =>
        rw [charged] at admitted refused
        exact ih ⟨admitted, refused⟩
      | error e' =>
        rw [charged] at admitted
        cases admitted

theorem exists_refuses (refused : (x.chargeAll rows).2 = .error e) : ∃ n, x.Refuses rows n e := by
  induction rows generalizing x with
  | nil => cases refused
  | cons row rows ih =>
    cases charged : x.charge row with
    | error e' =>
      refine ⟨0, rfl, ?_⟩
      rw [chargeAll, charged] at refused
      rw [List.take_succ_cons, chargeAll, charged]
      exact refused
    | ok y =>
      rw [chargeAll, charged] at refused
      obtain ⟨n, admitted, refused⟩ := ih refused
      refine ⟨n + 1, ?_, ?_⟩
      · rwa [List.take_succ_cons, chargeAll, charged]
      · rwa [List.take_succ_cons, chargeAll, charged]

/-- Behind rows that are all admitted the first refused one is found from there on. -/
theorem exists_refuses_append (admitted : (x.chargeAll before).2 = .ok ())
    (refused : (x.chargeAll (before ++ rows)).2 = .error e) :
    ∃ n, before.length ≤ n ∧ x.Refuses (before ++ rows) n e := by
  rw [x.chargeAll_append _ _ admitted] at refused
  obtain ⟨n, fits, refused⟩ := exists_refuses refused
  refine ⟨before.length + n, Nat.le_add_right .., ?_, ?_⟩
  · rwa [List.take_length_add_append, x.chargeAll_append _ _ admitted]
  · rwa [Nat.add_assoc, List.take_length_add_append, x.chargeAll_append _ _ admitted]

end Accounting

def Item.rows : Item → List Row
  | batch c => c.rows
  | failure _ => []

/-- How item number `number` fails by itself, coming after these rows: how far it gets, and with
what error. Of all rows so far the first refused one is told by `refuses`. -/
inductive Item.Fails (width : Nat) (refuses : List Row → Nat → BudgetExceeded → Prop) (number : Nat)
    (before : List Row) : Item → List Row → WindowError → Prop
  | upstream (context : List String) :
      Fails width refuses number before (.failure context) before (.sourceFailed context)
  | width {c : Batch} (differs : c.width ≠ width) :
      Fails width refuses number before (.batch c) before (.batchWidth number c.width width)
  | budget {c : Batch} {n : Nat} {e : BudgetExceeded} (same : c.width = width)
      (refused : refuses (before ++ c.rows) n e) (own : before.length ≤ n) :
      Fails width refuses number before (.batch c) ((before ++ c.rows).take n) (.budget e)

namespace Source

def arrived (items : List Item) (count : Nat) : List Row := (items.take count).flatMap Item.rows

section Notions

variable (width : Nat) (refuses : List Row → Nat → BudgetExceeded → Prop) (items : List Item)

/-- Item number `f` fails by itself; until then these rows were admitted. -/
def FailsAt (f : Nat) (admitted : List Row) (e : WindowError) : Prop :=
  ∃ item, items[f]? = some item ∧ item.Fails width refuses f (arrived items f) admitted e

def Sound (count : Nat) : Prop :=
  ∀ k < count, ∀ admitted e, ¬ FailsAt width refuses items k admitted e

structure FirstFailure (f : Nat) (admitted : List Row) (e : WindowError) : Prop where
  sound : Sound width refuses items f
  fails : FailsAt width refuses items f admitted e

end Notions

variable {width count f : Nat} {refuses : List Row → Nat → BudgetExceeded → Prop}
  {items : List Item} {admitted : List Row} {e : WindowError}

theorem arrived_succ {item : Item} (pulled : items[f]? = some item) :
    arrived items (f + 1) = arrived items f ++ item.rows := by
  obtain ⟨inside, rfl⟩ := List.getElem?_eq_some_iff.mp pulled
  rw [arrived, List.take_succ_eq_append_getElem inside, List.flatMap_append, List.flatMap_singleton]
  rfl

/-- An item that fails by itself is a source failure, a batch of the wrong width or a refused one,
never the fault of a call. -/
theorem FailsAt.not_evaluation (fails : FailsAt width refuses items f admitted e) (g : Function)
    (cause : EvaluationError) : e ≠ .evaluation g cause := by
  obtain ⟨item, -, fails⟩ := fails
  cases fails <;> exact nofun

theorem exists_firstFailure (unsound : ¬ Sound width refuses items count) :
    ∃ f < count, ∃ admitted e, FirstFailure width refuses items f admitted e := by
  classical
  have fails : ∃ f, f < count ∧ ∃ admitted e, FailsAt width refuses items f admitted e := by
    simpa only [Sound, not_forall, not_not, exists_prop] using unsound
  obtain ⟨less, admitted, e, first⟩ := Nat.find_spec fails
  refine ⟨Nat.find fails, less, admitted, e, fun k earlier admitted e failed => ?_, first⟩
  exact Nat.find_min fails earlier ⟨Nat.lt_trans earlier less, admitted, e, failed⟩

variable {cancel : Cancellation} {x : Accounting}

/-- Items that pass are charged one after the other, and their rows come before whatever is drained
after them. -/
theorem Sound.drain_eq (spare : Nat) (sound : Sound width x.Refuses items count)
    (inside : count ≤ items.length) (unseen : ∀ k < count, cancel.seen k = false) :
    (x.chargeAll (arrived items count)).2 = .ok () ∧
      drain width spare cancel 0 x items = preceded spare (arrived items count)
        (drain width spare cancel count (x.chargeAll (arrived items count)).1
          (items.drop count)) := by
  induction count with
  | zero => exact ⟨rfl, (preceded_nil ..).symm⟩
  | succ k ih =>
    obtain ⟨admitted, before⟩ := ih (fun j less => sound j (Nat.lt_succ_of_lt less))
      (Nat.le_of_lt inside) fun j less => unseen j (Nat.lt_succ_of_lt less)
    have pulled : items[k]? = some items[k] := List.getElem?_eq_getElem inside
    have passes := sound k (Nat.lt_succ_self k)
    rw [List.drop_eq_getElem_cons inside] at before
    cases item : items[k] with
    | failure context =>
      rw [item] at pulled
      exact absurd ⟨_, pulled, .upstream context⟩ (passes _ _)
    | batch c =>
      rw [item] at pulled before
      have same : c.width = width := by
        refine Decidable.of_not_not fun differs => ?_
        exact passes _ _ ⟨_, pulled, .width differs⟩
      have rows : arrived items (k + 1) = arrived items k ++ c.rows := arrived_succ pulled
      rw [before, drain_batch spare (unseen k (Nat.lt_succ_self k)) same, rows,
        x.chargeAll_append _ _ admitted, preceded_append]
      cases charged : (x.chargeAll (arrived items k)).1.chargeAll c.rows with
      | mk after answer =>
        cases answer with
        | ok _ => exact ⟨rfl, rfl⟩
        | error e =>
          have whole : (x.chargeAll (arrived items k ++ c.rows)).2 = .error e := by
            rw [x.chargeAll_append _ _ admitted, charged]
          obtain ⟨n, own, refused⟩ := Accounting.exists_refuses_append admitted whole
          exact absurd ⟨_, pulled, .budget same refused own⟩ (passes _ _)

/-- The first item that fails by itself ends the draining, if no cancellation is seen before it is
pulled; just the rows that were admitted until then are charged. -/
theorem FirstFailure.drain_eq (spare : Nat)
    (first : FirstFailure width x.Refuses items f admitted e) (unseen : cancel.seen f = false) :
    (x.chargeAll admitted).2 = .ok () ∧
      drain width spare cancel 0 x items = ((x.chargeAll admitted).1, .error e) := by
  obtain ⟨item, pulled, fails⟩ := first.fails
  obtain ⟨inside, found⟩ := List.getElem?_eq_some_iff.mp pulled
  have earlier : ∀ k < f, cancel.seen k = false :=
    fun k less => Cancellation.seen_mono (Nat.le_of_lt less) unseen
  obtain ⟨before, drained⟩ := first.sound.drain_eq spare (Nat.le_of_lt inside) earlier
  rw [List.drop_eq_getElem_cons inside, found] at drained
  rw [drained]
  cases fails with
  | upstream context =>
    rw [drain, unseen, if_neg Bool.false_ne_true]
    exact ⟨before, rfl⟩
  | width differs =>
    rw [drain, unseen, if_neg Bool.false_ne_true, if_pos differs]
    exact ⟨before, rfl⟩
  | budget same refused own =>
    have stops := refused.chargeAll_eq
    rw [x.chargeAll_append _ _ before] at stops
    rw [drain_batch spare unseen same, stops]
    exact ⟨refused.admitted, rfl⟩

end Source
end Windowing
