import Windowing.Proofs.Order
import Windowing.Source

/-!
Draining a source one item at a time. If all batches have the expected width and no cancellation is
seen, every row comes out in order of arrival, unless the budget refuses one.
-/
namespace Windowing

/-- Every column of a batch holds cells of its field's type. -/
def Batch.Valid (b : Batch) : Prop :=
  ∀ row ∈ b.rows, row.map Cell.type = b.schema.fields.map Field.type

instance (b : Batch) : Decidable b.Valid := inferInstanceAs (Decidable (∀ row ∈ b.rows, _ = _))

namespace Batch.Valid

variable {b : Batch}

theorem length_eq (valid : b.Valid) {row : Row} (member : row ∈ b.rows) : row.length = b.width := by
  have lengths := congrArg List.length (valid row member)
  rwa [List.length_map, List.length_map] at lengths

end Batch.Valid

def rowsOf (batches : List Batch) : List Row := batches.flatMap Batch.rows

theorem Cancellation.seen_during {item pulled : Nat} (behind : item < pulled) :
    (during item).seen pulled = true := decide_eq_true behind

theorem Cancellation.unseen_during {item pulled : Nat} (until_ : pulled ≤ item) :
    (during item).seen pulled = false := decide_eq_false (Nat.not_lt.mpr until_)

theorem Cancellation.seen_eq_false_iff {c : Cancellation} {pulled : Nat} : c.seen pulled = false ↔
    c ≠ .fromStart ∧ ∀ item, c = .during item → pulled ≤ item := by
  cases c <;> simp [seen]

theorem Cancellation.seen_mono {c : Cancellation} {early late : Nat} (le : early ≤ late)
    (unseen : c.seen late = false) : c.seen early = false := by
  cases c with
  | never => rfl
  | fromStart => cases unseen
  | during item =>
    simp only [seen, decide_eq_false_iff_not] at unseen ⊢
    omega

namespace Accounting

theorem chargeAll_append (x : Accounting) (rows more : List Row)
    (admitted : (x.chargeAll rows).2 = .ok ()) :
    x.chargeAll (rows ++ more) = (x.chargeAll rows).1.chargeAll more := by
  induction rows generalizing x with
  | nil => rfl
  | cons row rows ih =>
    simp only [List.cons_append, chargeAll] at admitted ⊢
    cases charged : x.charge row with
    | ok y =>
      rw [charged] at admitted
      exact ih y admitted
    | error e =>
      rw [charged] at admitted
      cases admitted

/-- Behind a refused row nothing is charged. -/
theorem chargeAll_append_error (x : Accounting) (rows more : List Row) {e : BudgetExceeded}
    (refused : (x.chargeAll rows).2 = .error e) :
    x.chargeAll (rows ++ more) = ((x.chargeAll rows).1, .error e) := by
  induction rows generalizing x with
  | nil => cases refused
  | cons row rows ih =>
    simp only [List.cons_append, chargeAll] at refused ⊢
    cases charged : x.charge row with
    | ok y =>
      rw [charged] at refused
      exact ih y refused
    | error e' =>
      rw [charged] at refused
      obtain rfl := Except.error.inj refused
      rfl

end Accounting

namespace Source

variable {width : Nat} {cancel : Cancellation}

theorem drain_seen {spare pulled : Nat} (seen : cancel.seen pulled = true) (x : Accounting)
    (items : List Item) :
    drain width spare cancel pulled x items = (x, .error .cancelled) := by
  cases items with
  | nil => rw [drain, if_pos seen]
  | cons item items => cases item <;> rw [drain, if_pos seen]

def preceded (spare : Nat) (rows : List Row)
    (outcome : Accounting × Except WindowError (List Row)) :
    Accounting × Except WindowError (List Row) :=
  (outcome.1, outcome.2.map (rows.map (Batch.reserve · spare) ++ ·))

@[simp] theorem preceded_nil (spare : Nat) (outcome : Accounting × Except WindowError (List Row)) :
    preceded spare [] outcome = outcome := by
  rcases outcome with ⟨after, e | rows⟩ <;> rfl

theorem preceded_append (spare : Nat) (rows more : List Row)
    (outcome : Accounting × Except WindowError (List Row)) :
    preceded spare (rows ++ more) outcome = preceded spare rows (preceded spare more outcome) := by
  rcases outcome with ⟨after, e | others⟩
  · rfl
  · simp only [preceded, Except.map, List.map_append, List.append_assoc]

/-- A batch of the expected width is charged row by row, and its rows come before those of the items
after it. -/
theorem drain_batch (spare : Nat) {pulled : Nat} (unseen : cancel.seen pulled = false) {b : Batch}
    (same : b.width = width) (x : Accounting) (items : List Item) :
    drain width spare cancel pulled x (.batch b :: items) =
      match x.chargeAll b.rows with
      | (after, .error e) => (after, .error (.budget e))
      | (after, .ok _) =>
        preceded spare b.rows (drain width spare cancel (pulled + 1) after items) := by
  rw [drain, unseen, if_neg Bool.false_ne_true, if_neg (not_not_intro same)]
  rcases x.chargeAll b.rows with ⟨after, e | _⟩
  · rfl
  · dsimp only
    rcases drain width spare cancel (pulled + 1) after items with ⟨last, e | rows⟩ <;> rfl

/-- Batches of the expected width are charged for their rows one after the other, wherever they are
cut. -/
theorem drain_eq (spare : Nat) {batches : List Batch} (widths : ∀ b ∈ batches, b.width = width)
    (pulled : Nat) (accounting : Accounting)
    (unseen : cancel.seen (pulled + batches.length) = false) :
    drain width spare cancel pulled accounting (batches.map .batch) =
      ((accounting.chargeAll (rowsOf batches)).1,
        ((accounting.chargeAll (rowsOf batches)).2.mapError WindowError.budget).map fun _ =>
          (rowsOf batches).map (Batch.reserve · spare)) := by
  induction batches generalizing pulled accounting with
  | nil =>
    rw [List.map_nil, drain, Cancellation.seen_mono (Nat.le_add_right ..) unseen]
    rfl
  | cons b batches ih =>
    obtain ⟨first, others⟩ := List.forall_mem_cons.mp widths
    have next : cancel.seen (pulled + 1 + batches.length) = false := by
      rw [Nat.add_assoc, Nat.add_comm 1]
      exact unseen
    have whole : rowsOf (b :: batches) = b.rows ++ rowsOf batches := List.flatMap_cons
    rw [List.map_cons,
      drain_batch spare (Cancellation.seen_mono (Nat.le_add_right ..) unseen) first, whole]
    cases charged : accounting.chargeAll b.rows with
    | mk after answer =>
      cases answer with
      | error e =>
        rw [accounting.chargeAll_append_error _ _ (congrArg Prod.snd charged), charged]
        rfl
      | ok _ =>
        rw [accounting.chargeAll_append _ _ (congrArg Prod.snd charged), charged]
        dsimp only
        rw [ih others (pulled + 1) after next, preceded]
        cases (after.chargeAll (rowsOf batches)).2 with
        | error e => rfl
        | ok _ =>
          rw [List.map_append]
          rfl

end Source
end Windowing
