import Windowing.Proofs.Sorting.Short
import Windowing.Sorting.Run

/-!
Sorting by runs. A run is a sorted piece or one left for later, and neither where the runs end nor
in which order they are joined matters to the result: at every time the pending runs, the current
one and the rest of the list, read in this order, rearrange the whole list.
-/
namespace Windowing.Sorting

variable {α ε : Type} {cmp : α → α → Except ε Ordering} {on : α → Prop}

/-- How an element of a run stands to a later one. -/
def Continues (cmp : α → α → Except ε Ordering) (descending : Bool) (x y : α) : Prop :=
  if descending then Before cmp y x else NotAfter cmp x y

theorem Continues.trans (laws : Consistent cmp on) {descending : Bool} {x y z : α} (hx : on x)
    (hy : on y) (hz : on z) (first : Continues cmp descending x y)
    (second : Continues cmp descending y z) : Continues cmp descending x z := by
  cases descending with
  | true =>
    simp only [Continues, if_true] at first second ⊢
    exact laws.before_of_before_of_notAfter hz hy hx second first.notAfter
  | false =>
    simp only [Continues, Bool.false_eq_true, if_false] at first second ⊢
    exact laws.trans hx hy hz first second

theorem continued_ends (laws : Consistent cmp on) (descending : Bool) {x : α} {xs : List α}
    (hx : on x) (inside : ∀ y ∈ xs, on y) :
    Ends cmp on (fun k => k ≤ xs.length ∧ (x :: xs.take k).Pairwise (Continues cmp descending))
      (continued cmp descending x xs) := by
  induction xs generalizing x with
  | nil => exact ⟨Nat.le_refl 0, List.pairwise_singleton _ _⟩
  | cons y r ih =>
    obtain ⟨hy, inside⟩ := List.forall_mem_cons.mp inside
    rw [continued]
    apply (Ends.less laws hy hx).bind
    intro b decided
    split
    · rename_i same
      subst same
      apply (ih hy inside).bind
      intro k run
      obtain ⟨bound, run⟩ := run
      refine ⟨by simpa using bound, ?_⟩
      rw [List.take_succ_cons]
      refine List.pairwise_cons.mpr ⟨fun z hz => ?_, run⟩
      rcases List.mem_cons.mp hz with rfl | hz
      · exact decided
      · exact .trans laws hx hy (inside z (List.mem_of_mem_take hz)) decided
          (List.rel_of_pairwise_cons run hz)
    · exact ⟨Nat.zero_le _, List.pairwise_singleton _ _⟩

theorem leadingRun_ends (laws : Consistent cmp on) {xs : List α} (inside : ∀ x ∈ xs, on x) :
    Ends cmp on (fun p => p.1 ≤ xs.length ∧ (xs ≠ [] → 0 < p.1) ∧
      (xs.take p.1).Pairwise (Continues cmp p.2)) (leadingRun cmp xs) := by
  unfold leadingRun
  split
  · rename_i x y r
    obtain ⟨hx, inside⟩ := List.forall_mem_cons.mp inside
    obtain ⟨hy, inside⟩ := List.forall_mem_cons.mp inside
    apply (Ends.less laws hy hx).bind
    intro descending decided
    apply (continued_ends laws descending hy inside).bind
    intro k run
    obtain ⟨bound, run⟩ := run
    refine ⟨by simpa using bound, fun _ => Nat.succ_pos _, ?_⟩
    simp only [List.take_succ_cons]
    refine List.pairwise_cons.mpr ⟨fun z hz => ?_, run⟩
    rcases List.mem_cons.mp hz with rfl | hz
    · exact decided
    · exact .trans laws hx hy (inside z (List.mem_of_mem_take hz)) decided
        (List.rel_of_pairwise_cons run hz)
  · rename_i short
    refine ⟨Nat.le_refl _, fun some => List.length_pos_iff.mpr some, ?_⟩
    match xs, short with
    | [], _ => exact .nil
    | [_], _ => exact List.pairwise_singleton _ _
    | x :: y :: r, short => exact absurd rfl (short x y r)

variable {later : Option (List α → Except ε (List α))}

def Sorter (cmp : α → α → Except ε Ordering) (on : α → Prop)
    (later : Option (List α → Except ε (List α))) : Prop :=
  ∀ sort, later = some sort → ∀ xs, (∀ x ∈ xs, on x) → Ends cmp on (Sorts cmp on xs) (sort xs)

/-- A run is sorted, or there is a way to sort it later. -/
structure Run.Usable (cmp : α → α → Except ε Ordering) (on : α → Prop)
    (later : Option (List α → Except ε (List α))) (run : Run α) : Prop where
  on_items : ∀ x ∈ run.items, on x
  sorted : run.sorted = true → Sorted cmp run.items
  later : run.sorted = false → later.isSome

structure Run.Begins (cmp : α → α → Except ε Ordering) (on : α → Prop)
    (later : Option (List α → Except ε (List α))) (xs : List α) (run : Run α) : Prop where
  usable : run.Usable cmp on later
  nonempty : xs ≠ [] → run.items ≠ []
  taken : Arranges cmp on (xs.take run.items.length) run.items

/-- The leading run as a sorted one. -/
theorem Run.usable_leading (laws : Consistent cmp on) {xs : List α} {descending : Bool}
    (inside : ∀ x ∈ xs, on x) (run : xs.Pairwise (Continues cmp descending)) :
    Sorts cmp on xs (if descending then xs.reverse else xs) := by
  cases descending with
  | true =>
    simp only [if_true]
    refine ⟨.reverse laws inside (run.imp fun before => by simpa [Continues] using before), ?_⟩
    exact List.pairwise_reverse.mpr
      (run.imp fun before => Before.notAfter (by simpa [Continues] using before))
  | false =>
    simp only [Bool.false_eq_true, if_false]
    exact ⟨.refl _, run.imp fun notAfter => by simpa [Continues] using notAfter⟩

theorem nextRun_ends (laws : Consistent cmp on) (later : Option (List α → Except ε (List α)))
    (good : Nat) {xs : List α} (inside : ∀ x ∈ xs, on x) :
    Ends cmp on (Run.Begins cmp on later xs) (nextRun cmp later good xs) := by
  have insideTake : ∀ k, ∀ x ∈ xs.take k, on x := by
    intro k x hx
    exact inside x (List.mem_of_mem_take hx)
  have choose : ∀ p : Nat × Bool, p.1 ≤ xs.length → (good ≤ p.1 → xs ≠ [] → 0 < p.1) →
      (xs.take p.1).Pairwise (Continues cmp p.2) →
      Ends cmp on (Run.Begins cmp on later xs)
        (if good ≤ p.1 then
          .ok ⟨if p.2 then (xs.take p.1).reverse else xs.take p.1, true⟩
        else if later.isSome then .ok ⟨xs.take good, false⟩
        else do return ⟨← sortShort cmp (xs.take shortLength), true⟩) := by
    intro p bound positive run
    split
    · rename_i long
      have sorted := Run.usable_leading laws (insideTake p.1) run
      have length := sorted.length_eq
      rw [List.length_take_of_le bound] at length
      refine ⟨⟨sorted.arranges.on_right (insideTake p.1), fun _ => sorted.sorted, by simp⟩,
        fun nonempty => ?_, ?_⟩
      · have := positive long nonempty
        exact List.ne_nil_of_length_pos (by simp only; omega)
      · simp only [← length]
        exact sorted.arranges
    · split
      · rename_i short postponed
        refine ⟨⟨insideTake good, by simp, fun _ => postponed⟩, fun nonempty => ?_, ?_⟩
        · simp only [ne_eq, List.take_eq_nil_iff, not_or]
          exact ⟨by omega, nonempty⟩
        · simp only [List.length_take, List.take_eq_take_min, Nat.min_assoc, Nat.min_self]
          exact .refl _
      · apply (sortShort_ends laws (insideTake shortLength)).bind
        intro r sorted
        have length := sorted.length_eq
        refine ⟨⟨sorted.arranges.on_right (insideTake shortLength),
          fun _ => sorted.sorted, by simp⟩,
          fun nonempty => ?_, ?_⟩
        · have := List.length_pos_iff.mpr nonempty
          rw [List.length_take, shortLength] at length
          exact List.ne_nil_of_length_pos (by simp only; omega)
        · simp only [← length, List.length_take]
          rw [← List.take_eq_take_min]
          exact sorted.arranges
  rw [nextRun]
  by_cases long : good ≤ xs.length
  · simp only [if_pos long]
    apply (leadingRun_ends laws inside).bind
    intro p run
    exact choose p run.1 (fun _ => run.2.1) run.2.2
  · simp only [if_neg long]
    exact choose (0, false) (Nat.zero_le _)
      (fun none => absurd none (by simp only; omega)) (by simp)

theorem settle_ends (laws : Sorter cmp on later) {run : Run α} (usable : run.Usable cmp on later) :
    Ends cmp on (Sorts cmp on run.items) (run.settle later) := by
  unfold Run.settle
  split
  · exact laws _ rfl _ usable.on_items
  · rename_i other
    refine ⟨.refl _, ?_⟩
    cases state : run.sorted with
    | true => exact usable.sorted state
    | false =>
      obtain ⟨sort, present⟩ := Option.isSome_iff_exists.mp (usable.later state)
      exact absurd present (other sort state)

theorem joinRuns_ends (laws : Consistent cmp on) (sorter : Sorter cmp on later) (room : Nat)
    {a b : Run α} (ha : a.Usable cmp on later) (hb : b.Usable cmp on later) :
    Ends cmp on (fun run => run.Usable cmp on later ∧
      Arranges cmp on (a.items ++ b.items) run.items)
      (joinRuns cmp later room a b) := by
  rw [joinRuns]
  split
  · rename_i postponed
    simp only [Bool.and_eq_true, Bool.not_eq_true', decide_eq_true_eq] at postponed
    refine ⟨⟨?_, by simp, fun _ => ha.later postponed.1.1⟩, .refl _⟩
    exact List.forall_mem_append.mpr ⟨ha.on_items, hb.on_items⟩
  · apply (settle_ends sorter ha).bind
    intro xs first
    apply (settle_ends sorter hb).bind
    intro ys second
    have insideXs := first.arranges.on_right ha.on_items
    have insideYs := second.arranges.on_right hb.on_items
    apply (merge_ends laws insideXs insideYs first.sorted second.sorted).bind
    intro zs merged
    have both : ∀ x ∈ xs ++ ys, on x := List.forall_mem_append.mpr ⟨insideXs, insideYs⟩
    exact ⟨⟨merged.arranges.on_right both, fun _ => merged.sorted, by simp⟩,
      (first.arranges.append second.arranges).trans merged.arranges⟩

def waiting : List (Pending α) → List α
  | [] => []
  | p :: rest => waiting rest ++ p.run.items

theorem collapse_ends (laws : Consistent cmp on) (sorter : Sorter cmp on later) (room power : Nat)
    {pending : List (Pending α)} {run : Run α} (hp : ∀ p ∈ pending, p.run.Usable cmp on later)
    (hr : run.Usable cmp on later) :
    Ends cmp on (fun q => (∀ p ∈ q.1, p.run.Usable cmp on later) ∧ q.2.Usable cmp on later ∧
      (power = 0 → q.1 = []) ∧
      Arranges cmp on (waiting pending ++ run.items) (waiting q.1 ++ q.2.items))
      (collapse cmp later room power pending run) := by
  induction pending generalizing run with
  | nil => exact ⟨by simp, hr, fun _ => rfl, .refl _⟩
  | cons p rest ih =>
    obtain ⟨first, others⟩ := List.forall_mem_cons.mp hp
    rw [collapse]
    split
    · apply (joinRuns_ends laws sorter room first hr).bind
      intro joined done
      apply (ih others done.1).weaken
      intro q whole
      refine ⟨whole.1, whole.2.1, whole.2.2.1, ?_⟩
      have moved := done.2.append_left (waiting rest)
      rw [← List.append_assoc] at moved
      exact moved.trans whole.2.2.2
    · rename_i high
      exact ⟨hp, hr, by omega, .refl _⟩

theorem joinFrom_ends (laws : Consistent cmp on) (sorter : Sorter cmp on later) (n : Nat)
    (pending : List (Pending α)) {run : Run α} (start : Nat) {rest : List α}
    (hp : ∀ p ∈ pending, p.run.Usable cmp on later) (hr : run.Usable cmp on later)
    (inside : ∀ x ∈ rest, on x) :
    Ends cmp on (fun r => r.Usable cmp on later ∧
      Arranges cmp on (waiting pending ++ run.items ++ rest) r.items)
      (joinFrom cmp later n pending run start rest) := by
  induction pending, run, start, rest using joinFrom.induct (n := n) with
  | case1 pending run start =>
    rw [joinFrom]
    refine .map ((collapse_ends laws sorter (roomFor n) 0 hp hr).weaken fun q whole => ?_)
    obtain ⟨-, usable, empty, moved⟩ := whole
    simp only [empty rfl, waiting, List.nil_append] at moved
    exact ⟨usable, by simpa using moved⟩
  | case2 pending run start x rest ih =>
    rw [joinFrom]
    apply (nextRun_ends laws later (goodLength n) inside).bind
    intro next found
    obtain ⟨usable, nonempty, taken⟩ := found
    apply (collapse_ends laws sorter (roomFor n) _ hp hr).bind
    intro q collapsed
    obtain ⟨others, current, -, moved⟩ := collapsed
    have length := List.length_pos_iff.mpr (nonempty (by simp))
    have dropped : (x :: rest).drop next.items.length = rest.drop (next.items.length - 1) := by
      obtain ⟨k, hk⟩ := Nat.exists_eq_succ_of_ne_zero (Nat.ne_of_gt length)
      rw [hk]
      rfl
    refine (ih next q.1 q.2 (List.forall_mem_cons.mpr ⟨current, others⟩) usable fun y hy =>
      inside y (List.mem_cons_of_mem _ (List.mem_of_mem_drop hy))).weaken fun r whole => ?_
    refine ⟨whole.1, .trans ?_ whole.2⟩
    have split := taken.append_right ((x :: rest).drop next.items.length)
    rw [List.take_append_drop, dropped] at split
    simpa only [waiting, List.append_assoc] using moved.append split

theorem byRuns_ends (laws : Consistent cmp on) (sorter : Sorter cmp on later) {xs : List α}
    (inside : ∀ x ∈ xs, on x) : Ends cmp on (Sorts cmp on xs) (byRuns cmp later xs) := by
  rw [byRuns]
  apply (nextRun_ends laws later _ inside).bind
  intro first found
  obtain ⟨usable, -, taken⟩ := found
  refine (joinFrom_ends laws sorter xs.length [] 0 (by simp) usable fun x hx =>
    inside x (List.mem_of_mem_drop hx)).bind fun run whole => ?_
  apply (settle_ends sorter whole.1).weaken
  intro r sorted
  have moved := taken.append_right (xs.drop first.items.length)
  rw [List.take_append_drop] at moved
  exact .of_arranges (moved.trans (by simpa [waiting] using whole.2)) sorted

end Windowing.Sorting
