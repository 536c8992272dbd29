import Windowing.Proofs.Sorting.Arrangement

/-!
Insertion sorts. What is already sorted is read from its last element back to its first, so the
statements reverse it.
-/
namespace Windowing.Sorting

variable {α ε : Type} {cmp : α → α → Except ε Ordering} {on : α → Prop}

/-- An element that is not before the last one of a sorted list may follow it. -/
theorem Sorted.concat (laws : Consistent cmp on) {xs : List α} {x y : α} (hx : on x) (hy : on y)
    (inside : ∀ z ∈ xs, on z) (sorted : Sorted cmp (xs ++ [y])) (after : NotAfter cmp y x) :
    Sorted cmp (xs ++ [y] ++ [x]) := by
  obtain ⟨_, _, last⟩ := List.pairwise_append.mp sorted
  refine List.pairwise_append.mpr ⟨sorted, List.pairwise_singleton _ _, ?_⟩
  intro z hz w hw
  obtain rfl := List.mem_singleton.mp hw
  rcases List.mem_append.mp hz with hz | hz
  · exact laws.trans (inside z hz) hy hx (last z hz y (by simp)) after
  · obtain rfl := List.mem_singleton.mp hz
    exact after

theorem insertLast_ends (laws : Consistent cmp on) {x : α} {done : List α} (hx : on x)
    (inside : ∀ y ∈ done, on y) (sorted : Sorted cmp done.reverse) :
    Ends cmp on (fun r => Sorts cmp on (done.reverse ++ [x]) r.reverse)
      (insertLast cmp x done) := by
  induction done with
  | nil => exact ⟨.refl [x], List.pairwise_singleton _ _⟩
  | cons y ys ih =>
    obtain ⟨hy, inside⟩ := List.forall_mem_cons.mp inside
    have insideReverse : ∀ z ∈ ys.reverse, on z := by simpa using inside
    rw [List.reverse_cons] at sorted ⊢
    obtain ⟨front, _, last⟩ := List.pairwise_append.mp sorted
    rw [insertLast]
    apply (Ends.less laws hx hy).bind
    intro b decided
    cases b with
    | false =>
      simp only [Bool.false_eq_true, if_false, pure, Except.pure, Ends.ok_iff, List.reverse_cons]
      exact ⟨.refl _, Sorted.concat laws hx hy insideReverse sorted decided⟩
    | true =>
      simp only [if_true]
      apply (ih inside front).bind
      intro r placed
      simp only [pure, Except.pure, Ends.ok_iff, List.reverse_cons]
      have moved : Arranges cmp on ([y] ++ [x]) ([x] ++ [y]) :=
        .swap laws (by simpa using hy) (by simpa using hx) (by simpa using decided)
      refine ⟨?_, ?_⟩
      · have whole := moved.append_left ys.reverse
        simp only [← List.append_assoc] at whole
        exact whole.trans (placed.arranges.append_right [y])
      · refine List.pairwise_append.mpr ⟨placed.sorted, List.pairwise_singleton _ _, ?_⟩
        intro z hz w hw
        obtain rfl := List.mem_singleton.mp hw
        rcases List.mem_append.mp (placed.mem_iff.mpr hz) with hz | hz
        · exact last z hz w (by simp)
        · obtain rfl := List.mem_singleton.mp hz
          exact decided.notAfter

theorem insertEach_ends (laws : Consistent cmp on) {xs : List α} (done : List α)
    (inside : ∀ x ∈ xs, on x) (insideDone : ∀ x ∈ done, on x) (sorted : Sorted cmp done.reverse) :
    Ends cmp on (fun r => Sorts cmp on (done.reverse ++ xs) r.reverse)
      (xs.foldlM (fun done x => insertLast cmp x done) done) := by
  induction xs generalizing done with
  | nil =>
    simp only [List.foldlM_nil, pure, Except.pure, Ends.ok_iff, List.append_nil]
    exact ⟨.refl _, sorted⟩
  | cons x xs ih =>
    obtain ⟨hx, inside⟩ := List.forall_mem_cons.mp inside
    rw [List.foldlM_cons]
    apply (insertLast_ends laws hx insideDone sorted).bind
    intro next placed
    have insideNext : ∀ y ∈ next, on y := by
      intro y hy
      rcases List.mem_append.mp (placed.mem_iff.mpr (List.mem_reverse.mpr hy)) with hy | hy
      · exact insideDone y (List.mem_reverse.mp hy)
      · exact List.mem_singleton.mp hy ▸ hx
    apply (ih next inside insideNext placed.sorted).weaken
    intro r whole
    have moved := placed.arranges.append_right xs
    rw [List.append_assoc, List.singleton_append] at moved
    exact .of_arranges moved whole

theorem insertAll_ends (laws : Consistent cmp on) (sorted : List α) {xs : List α}
    (insideSorted : ∀ x ∈ sorted, on x) (inside : ∀ x ∈ xs, on x) (already : Sorted cmp sorted) :
    Ends cmp on (Sorts cmp on (sorted ++ xs)) (insertAll cmp sorted xs) := by
  rw [insertAll]
  refine (insertEach_ends laws sorted.reverse inside (by simpa using insideSorted)
    (by simpa using already)).bind fun r whole => ?_
  simpa only [List.reverse_reverse, pure, Except.pure, Ends.ok_iff] using whole

theorem byInsertion_ends (laws : Consistent cmp on) {xs : List α} (inside : ∀ x ∈ xs, on x) :
    Ends cmp on (Sorts cmp on xs) (byInsertion cmp xs) :=
  insertAll_ends laws [] (by simp) inside .nil

end Windowing.Sorting
