import Windowing.Proofs.Sorting.Ties
import Windowing.Walk

/-!
What the results of a row are, said of a list of rows in their final order and without a walk over
it. The partition of a row is all rows that tie with it; its frame is what of the partition does not
come after it, its rank counts what comes before it, and its dense rank counts the different ones
among those.
-/
namespace Windowing

namespace Sorting

variable {α ε : Type}

def isBefore (cmp : α → α → Except ε Ordering) (x y : α) : Bool :=
  match cmp x y with
  | .ok .lt => true
  | _ => false

theorem isBefore_eq_true_iff {cmp : α → α → Except ε Ordering} {x y : α} :
    isBefore cmp x y = true ↔ Before cmp x y := by
  unfold isBefore Before
  split
  · rename_i h
    simp [h]
  · rename_i h
    simpa using h

/-- How many different elements a list has. -/
def classes (same : α → α → Bool) : List α → Nat
  | [] => 0
  | x :: xs => if xs.any (same x) then classes same xs else classes same xs + 1

theorem classes_map {β : Type} {same : α → α → Bool} {same' : β → β → Bool} {f : β → α}
    {xs : List β} (agree : ∀ x ∈ xs, ∀ y ∈ xs, same (f x) (f y) = same' x y) :
    classes same (xs.map f) = classes same' xs := by
  induction xs with
  | nil => rfl
  | cons x xs ih =>
    have rest :=
      ih fun y hy z hz => agree y (List.mem_cons_of_mem _ hy) z (List.mem_cons_of_mem _ hz)
    have head : (xs.map f).any (same (f x)) = xs.any (same' x) := by
      rw [List.any_map, Bool.eq_iff_iff, List.any_eq_true, List.any_eq_true]
      refine exists_congr fun y => and_congr_right fun hy => ?_
      rw [Function.comp_apply, agree x (List.mem_cons_self ..) y (List.mem_cons_of_mem _ hy)]
    rw [List.map_cons, classes, classes, head, rest]

theorem classes_le_length (same : α → α → Bool) (xs : List α) : classes same xs ≤ xs.length := by
  induction xs with
  | nil => exact Nat.le_refl 0
  | cons x xs ih =>
    rw [classes, List.length_cons]
    split <;> omega

/-- A run of one more class. -/
theorem classes_append_run {same : α → α → Bool} {xs ys : List α} (nonempty : ys ≠ [])
    (alike : ∀ x ∈ ys, ∀ y ∈ ys, same x y = true) (new : ∀ x ∈ xs, ∀ y ∈ ys, same x y = false) :
    classes same (xs ++ ys) = classes same xs + 1 := by
  induction xs with
  | nil =>
    rw [List.nil_append, classes, Nat.zero_add]
    induction ys with
    | nil => exact absurd rfl nonempty
    | cons y ys ih =>
      rw [classes]
      cases ys with
      | nil => rfl
      | cons z ys =>
        have again : (z :: ys).any (same y) = true :=
          List.any_eq_true.mpr ⟨z, by simp, alike y (by simp) z (by simp)⟩
        rw [if_pos again]
        exact ih (by simp) (fun a ha b hb =>
          alike a (List.mem_cons_of_mem _ ha) b (List.mem_cons_of_mem _ hb)) (by simp)
  | cons x xs ih =>
    obtain ⟨newX, newXs⟩ := List.forall_mem_cons.mp new
    have later : ys.any (same x) = false := List.any_eq_false.mpr fun y hy => by simp [newX y hy]
    rw [List.cons_append, classes, classes, List.any_append, later, Bool.or_false, ih newXs]
    split <;> rfl

end Sorting

namespace Definition

variable (d : Definition)

/-- An absent order finds all rows equal. -/
def partitionOrder : RowOrder := d.partitionBy.getD .equal

def peerOrder : RowOrder := d.orderBy.getD .equal

/-- The order of the walk: by partition, and in a partition by the order of peers. -/
def sortOrder : RowOrder := .andThen d.partitionOrder d.peerOrder

def mates (row other : Row) : Bool := Sorting.tied d.partitionOrder.compare row other

def peers (row other : Row) : Bool := Sorting.tied d.peerOrder.compare row other

def precedes (row other : Row) : Bool := Sorting.isBefore d.peerOrder.compare row other

/-- Rows of the same partition among those before position `i`. -/
def declaredIndex (rows : List Row) (i : Nat) (row : Row) : Nat :=
  (rows.take i).countP (d.mates row)

def earlierMates (rows : List Row) (row : Row) : List Row :=
  rows.filter fun other => d.mates row other && d.precedes other row

def frameMates (rows : List Row) (row : Row) : List Row :=
  rows.filter fun other => d.mates row other && (d.precedes other row || d.peers row other)

/-- The frame of a row, counted from the start of its partition. -/
def declaredFrame (rows : List Row) (i : Nat) (row : Row) : Frame where
  buffer := (d.frameMates rows row).toArray
  partitionStart := 0
  first := 0
  last := (d.frameMates rows row).length
  current := d.declaredIndex rows i row
  peerStart := (d.earlierMates rows row).length
  peerGroup := Sorting.classes d.peers (d.earlierMates rows row)

/-- What a call gives for the row at position `i`. -/
def declaredResult (rows : List Row) (i : Nat) (row : Row) (c : Call) :
    Guarded EvaluationError Cell :=
  c.evaluate (d.declaredIndex rows i row) (d.declaredFrame rows i row)

def declaredRow (rows : List Row) (i : Nat) (row : Row) : Guarded WindowError (List Cell) :=
  d.calls.mapM fun c =>
    Guarded.mapError (WindowError.evaluation c.function) (d.declaredResult rows i row c)

def declaredResults (rows : List Row) : Guarded WindowError (List (List Cell)) :=
  rows.zipIdx.mapM fun r => d.declaredRow rows r.2 r.1

end Definition
end Windowing
