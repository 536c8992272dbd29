import Mathlib.Data.List.Forall2
import Windowing.Proofs.Sorting.Queue
import Windowing.Proofs.Sorting.Quick
import Windowing.Sorting.Chunked

/-!
Every way to sort a list, in one piece or in chunks, ends with the stable sort of the list or with
the failure of a comparison of two of its elements.
-/
namespace Windowing.Sorting

variable {α ε : Type} {cmp : α → α → Except ε Ordering} {on : α → Prop}

theorem stable_ends (laws : Consistent cmp on) {xs : List α} (inside : ∀ x ∈ xs, on x) :
    Ends cmp on (Sorts cmp on xs) (stable cmp xs) := by
  rw [stable]
  split
  · exact byInsertion_ends laws inside
  split
  · exact byRuns_ends laws sorter_none inside
  · refine byRuns_ends laws (fun sort present ys onYs => ?_) inside
    obtain rfl := Option.some.inj present
    exact byPartition_ends laws _ onYs bounds_none

theorem sortEach_ends (laws : Consistent cmp on) {lists : List (List α)}
    (inside : ∀ xs ∈ lists, ∀ x ∈ xs, on x) :
    Ends cmp on (List.Forall₂ (Sorts cmp on) lists) (lists.mapM (stable cmp)) := by
  induction lists with
  | nil => exact .nil
  | cons xs lists ih =>
    obtain ⟨first, others⟩ := List.forall_mem_cons.mp inside
    rw [List.mapM_cons]
    apply (stable_ends laws first).bind
    intro ys sorted
    apply (ih others).bind
    intro r rest
    exact .cons sorted rest

/-- Lists that are sorted one by one are a rearrangement of all elements into sorted lists. -/
theorem Arranges.of_sorted {lists sorted : List (List α)}
    (each : List.Forall₂ (Sorts cmp on) lists sorted) :
    Arranges cmp on lists.flatten sorted.flatten ∧ ∀ ys ∈ sorted, Sorted cmp ys := by
  induction each with
  | nil => exact ⟨.refl [], nofun⟩
  | cons first _ ih =>
    exact ⟨first.arranges.append ih.1, List.forall_mem_cons.mpr ⟨first.sorted, ih.2⟩⟩

/-- The chunks of a list make up the list. -/
theorem flatten_chunks {chunks : Nat} (some : 0 < chunks) (xs : List α) :
    (cut (ceilDiv xs.length chunks) xs).flatten = xs := by
  cases xs with
  | nil => rfl
  | cons x xs => exact flatten_cut (Nat.div_pos (by simp only [List.length_cons]; omega) some) _

theorem chunked_ends (laws : Consistent cmp on) {chunks : Nat} (some : 0 < chunks) {xs : List α}
    (inside : ∀ x ∈ xs, on x) : Ends cmp on (Sorts cmp on xs) (chunked cmp chunks xs) := by
  have whole := flatten_chunks some xs
  have inside' : ∀ c ∈ cut (ceilDiv xs.length chunks) xs, ∀ x ∈ c, on x := by
    intro c hc x hx
    exact inside x (whole ▸ List.mem_flatten_of_mem hc hx)
  rw [chunked]
  apply (sortEach_ends laws inside').bind
  intro sorted each
  obtain ⟨moved, each⟩ := Arranges.of_sorted each
  rw [whole] at moved
  have onSorted : ∀ c ∈ sorted, ∀ x ∈ c, on x := by
    intro c hc x hx
    exact moved.on_right inside x (List.mem_flatten_of_mem hc hx)
  exact (mergeAll_ends laws onSorted each).weaken fun r merged => .of_arranges moved merged

theorem sort_ends (laws : Consistent cmp on) {minimum workers : Nat} {pooled : Bool} {xs : List α}
    (inside : ∀ x ∈ xs, on x) :
    Ends cmp on (Sorts cmp on xs) (sort cmp minimum workers pooled xs) := by
  unfold sort
  dsimp only
  split
  · rename_i several
    simp only [Bool.and_eq_true, decide_eq_true_eq] at several
    exact chunked_ends laws (Nat.lt_trans Nat.zero_lt_one several.2) inside
  · exact stable_ends laws inside

end Windowing.Sorting
