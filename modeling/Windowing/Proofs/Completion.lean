import Mathlib.Algebra.Order.BigOperators.Group.List
import Mathlib.Algebra.Order.Group.Nat
import Windowing.Proofs.Draining
import Windowing.Proofs.Execution

/-!
What an execution over batches comes to, told from any stable sort of their rows. Either there is
room for all rows together and each of them is put out with its results behind it, or the budget
refuses them.
-/
namespace Windowing

namespace Accounting

def Room (rows : List Row) : Accounting → Prop
  | unaccounted => True
  | accounted _ b => rows = [] ∨ b.usageWith rows ≤ b.limit

theorem chargeAll_eq_ok_iff {x : Accounting} {rows : List Row} :
    (x.chargeAll rows).2 = .ok () ↔ x.Room rows := by
  induction rows generalizing x with
  | nil => cases x <;> simp [chargeAll, Room]
  | cons row rows ih =>
    cases x with
    | unaccounted => exact ih
    | accounted a b =>
      have grows : b.usageWith [row] ≤ b.usageWith (row :: rows) := by
        refine Breaker.usageWith_le ?_
        rw [← List.singleton_append, totalSize_append]
        exact Nat.le_add_right ..
      rw [chargeAll, charge_accounted]
      by_cases refused : b.limit < b.usageWith [row]
      · rw [if_pos refused]
        simp only [Room, reduceCtorEq, false_or, false_iff]
        omega
      · rw [if_neg refused]
        dsimp only
        rw [ih, charged]
        simp only [Room, Breaker.usageWith_append, List.singleton_append, reduceCtorEq, false_or,
          or_iff_right_iff_imp]
        rintro rfl
        exact Nat.not_lt.mp refused

/-- Some of the rows find room where all do, in whatever order they come. -/
theorem Room.of_subperm {x : Accounting} {rows more : List Row} (part : rows.Subperm more)
    (room : x.Room more) :
    x.Room rows := by
  cases x with
  | unaccounted => trivial
  | accounted a b =>
    have less : totalSize rows ≤ totalSize more := by
      obtain ⟨inner, same, within⟩ := part
      rw [totalSize, ← (same.map Row.estimatedSize).sum_eq]
      exact (within.map Row.estimatedSize).sum_le_sum fun _ _ => Nat.zero_le _
    rcases room with rfl | fits
    · exact .inl (List.subperm_nil.mp part)
    · exact .inr (Nat.le_trans (Breaker.usageWith_le less) fits)

end Accounting

namespace Definition

variable (d : Definition)

def completedRow (rows : List Row) (i : Nat) (row : Row) : Guarded WindowError Row :=
  (d.declaredRow rows i row).map (row ++ ·)

def completedFrom (rows : List Row) : (i : Nat) → List Row → Guarded WindowError (List Row)
  | _, [] => .ok []
  | i, row :: rest => do
    let complete ← d.completedRow rows i row
    return complete :: (← completedFrom rows (i + 1) rest)

def completed (rows : List Row) : Guarded WindowError (List Row) := d.completedFrom rows 0 rows

theorem completedFrom_eq (rows : List Row) (i : Nat) (rest : List Row) :
    d.completedFrom rows i rest =
    ((rest.zipIdx i).mapM fun r => d.declaredRow rows r.2 r.1).map
      (List.zipWith (· ++ ·) rest) := by
  induction rest generalizing i with
  | nil => rfl
  | cons row rest ih =>
    rw [completedFrom, completedRow, ih, List.zipIdx_cons, List.mapM_cons]
    cases d.declaredRow rows i row with
    | error e => rfl
    | ok cells => cases (rest.zipIdx (i + 1)).mapM fun r => d.declaredRow rows r.2 r.1 <;> rfl

theorem completed_eq (rows : List Row) :
    d.completed rows = (d.declaredResults rows).map (List.zipWith (· ++ ·) rows) :=
  d.completedFrom_eq rows 0 rows

variable {d} {rows : List Row}

theorem completedFrom_ok {i : Nat} {rest out : List Row}
    (done : d.completedFrom rows i rest = .ok out) :
    out.length = rest.length ∧ ∀ (j : Nat) complete, out[j]? = some complete →
      ∃ row, rest[j]? = some row ∧ d.completedRow rows (i + j) row = .ok complete := by
  induction rest generalizing i out with
  | nil =>
    cases done
    exact ⟨rfl, fun j complete absent => by cases absent⟩
  | cons row rest ih =>
    obtain ⟨first, here, done⟩ := bind_eq_ok_iff.mp done
    obtain ⟨more, later, done⟩ := bind_eq_ok_iff.mp done
    obtain rfl := Except.ok.inj done
    obtain ⟨length, each⟩ := ih later
    refine ⟨congrArg (· + 1) length, fun j complete found => ?_⟩
    cases j with
    | zero =>
      obtain rfl := Option.some.inj found
      exact ⟨row, rfl, here⟩
    | succ j =>
      obtain ⟨source, place, computed⟩ := each j complete found
      exact ⟨source, place, by rwa [Nat.add_right_comm, Nat.add_assoc] at computed⟩

/-- Row by row, what a completion puts out. -/
theorem completed_ok {out : List Row} (done : d.completed rows = .ok out) :
    out.length = rows.length ∧ ∀ (i : Nat) complete, out[i]? = some complete →
      ∃ row, rows[i]? = some row ∧ d.completedRow rows i row = .ok complete := by
  obtain ⟨length, each⟩ := completedFrom_ok done
  refine ⟨length, fun i complete found => ?_⟩
  obtain ⟨row, place, computed⟩ := each i complete found
  exact ⟨row, place, by rwa [Nat.zero_add] at computed⟩

end Definition

namespace Executor

variable {d : Definition} {types : List DataType} {batches : List Batch}

theorem exists_sorts (width : d.width = types.length) (compares : d.ComparesSource)
    (delivers : Delivers types batches) :
    ∃ sorted, Sorting.Sorts d.sortOrder.compare (Row.HasTypes types) (rowsOf batches) sorted := by
  obtain ⟨sorted, -, sorts⟩ := sort_ok (x := ⟨{}, none⟩) width compares delivers.hasTypes
  exact ⟨sorted, sorts⟩

/-- An execution over batches that nothing interrupts. -/
theorem execute_of_sorts (x : Executor) (blocking : Bool) (accounting : Accounting)
    (delivers : Delivers types batches) (width : d.width = types.length) (reads : d.ReadsSource)
    {sorted : List Row}
    (sorts : Sorting.Sorts d.sortOrder.compare (Row.HasTypes types) (rowsOf batches) sorted) :
    (x.execute d ⟨batches.map .batch, blocking⟩ .never accounting).2 =
      match (accounting.chargeAll (rowsOf batches)).2 with
      | .error e => .error (.error (.budget e))
      | .ok _ => (d.completed sorted).map (⟨·, blocking⟩) := by
  have laws := d.sortOrder_total width reads.toComparesSource
  have widths : ∀ b ∈ batches, b.width = d.width := by
    intro b member
    exact (delivers.width_eq b member).trans width.symm
  obtain ⟨other, sorts', computed⟩ := x.compute_reserved width reads delivers.row_types
  obtain rfl := sorts.unique laws delivers.hasTypes sorts'
  rw [execute_eq widths rfl, d.completed_eq]
  cases (accounting.chargeAll (rowsOf batches)).2 with
  | error e => rfl
  | ok _ =>
    dsimp only
    rw [computed]

theorem execute_eq_ok_iff (x : Executor) (blocking : Bool) (accounting : Accounting)
    (delivers : Delivers types batches) (width : d.width = types.length) (reads : d.ReadsSource)
    {sorted : List Row}
    (sorts : Sorting.Sorts d.sortOrder.compare (Row.HasTypes types) (rowsOf batches) sorted)
    {r : ResultRows} :
    (x.execute d ⟨batches.map .batch, blocking⟩ .never accounting).2 = .ok r ↔
      accounting.Room (rowsOf batches) ∧
      ∃ out, d.completed sorted = .ok out ∧ ⟨out, blocking⟩ = r := by
  rw [x.execute_of_sorts blocking accounting delivers width reads sorts,
    ← Accounting.chargeAll_eq_ok_iff]
  cases (accounting.chargeAll (rowsOf batches)).2 with
  | error e => simp only [reduceCtorEq, false_and]
  | ok _ =>
    dsimp only
    rw [map_eq_ok_iff, and_iff_right rfl]

end Executor
end Windowing
