import Windowing.Proofs.Order
import Windowing.Proofs.Sorting.Stable

/-!
Sorting in chunks is stable sorting. However contiguous chunks are sorted stably, and however their
heads are taken as long as no other head goes before the one taken, what comes out is the one stable
sort of the whole list; so the number of workers and the size of their chunks make no difference.
-/
namespace Windowing.Sorting

variable {α ε : Type} {cmp : α → α → Except ε Ordering} {on : α → Prop}

/-- The head `y` of list number `j` goes before the head `x` of list number `k`. -/
def HeadBefore (cmp : α → α → Except ε Ordering) (j : Nat) (y : α) (k : Nat) (x : α) : Prop :=
  cmp y x = .ok .lt ∨ cmp y x = .ok .eq ∧ j < k

instance [DecidableEq ε] (cmp : α → α → Except ε Ordering) (j : Nat) (y : α) (k : Nat) (x : α) :
    Decidable (HeadBefore cmp j y k x) := inferInstanceAs (Decidable (_ ∨ _))

/-- The lists are emptied by taking a head that no other one goes before, again and again. -/
inductive ByHeads (cmp : α → α → Except ε Ordering) : List (List α) → List α → Prop
  | done {lists : List (List α)} (empty : lists.flatten = []) : ByHeads cmp lists []
  | take {lists : List (List α)} {k : Nat} {x : α} {rest out : List α}
      (head : lists[k]? = some (x :: rest))
      (first : ∀ (j : Nat) y ys, j ≠ k → lists[j]? = some (y :: ys) → ¬ HeadBefore cmp j y k x)
      (others : ByHeads cmp (lists.set k rest) out) : ByHeads cmp lists (x :: out)

namespace Total

variable {x y : α} {j k : Nat}

theorem before_of_not_headBefore (laws : Total cmp on) (hx : on x) (hy : on y) (earlier : j < k)
    (not : ¬ HeadBefore cmp j y k x) : Before cmp x y := by
  obtain ⟨o, answer⟩ := laws.answers hy hx
  have back := laws.consistent.swap hy hx answer
  cases o with
  | lt => exact absurd (.inl answer) not
  | eq => exact absurd (.inr ⟨answer, earlier⟩) not
  | gt => exact back

theorem notAfter_of_not_headBefore (laws : Total cmp on) (hx : on x) (hy : on y)
    (not : ¬ HeadBefore cmp j y k x) : NotAfter cmp x y := by
  obtain ⟨o, answer⟩ := laws.answers hy hx
  have back := laws.consistent.swap hy hx answer
  cases o with
  | lt => exact absurd (.inl answer) not
  | eq => exact .of_eq back
  | gt => exact Before.notAfter back

end Total

/-- A head that may be taken goes strictly before the lists with smaller numbers and stands behind
nothing in the others. -/
theorem Sorts.takeFirst (laws : Total cmp on) {before after : List (List α)} {x : α}
    {rest out : List α} (inside : ∀ xs ∈ before ++ (x :: rest) :: after, ∀ z ∈ xs, on z)
    (sorted : ∀ xs ∈ before ++ (x :: rest) :: after, Sorted cmp xs)
    (first : ∀ (j : Nat) y ys, j ≠ before.length →
      (before ++ (x :: rest) :: after)[j]? = some (y :: ys) →
      ¬ HeadBefore cmp j y before.length x)
    (others : Sorts cmp on (before ++ rest :: after).flatten out) :
    Sorts cmp on (before ++ (x :: rest) :: after).flatten (x :: out) := by
  have here : (x :: rest) ∈ before ++ (x :: rest) :: after := by simp
  have hx : on x := inside _ here x (by simp)
  have strictly : ∀ z ∈ before.flatten, Before cmp x z := by
    intro z member
    obtain ⟨xs, listed, member⟩ := List.mem_flatten.mp member
    have place : xs ∈ before ++ (x :: rest) :: after := List.mem_append_left _ listed
    cases xs with
    | nil => cases member
    | cons y ys =>
      obtain ⟨j, small, found⟩ := List.getElem_of_mem listed
      have at_ : (before ++ (x :: rest) :: after)[j]? = some (y :: ys) := by
        rw [List.getElem?_append_left small, List.getElem?_eq_getElem small, found]
      have strict := laws.before_of_not_headBefore hx (inside _ place y (by simp)) small
        (first j y ys (Nat.ne_of_lt small) at_)
      exact laws.consistent.before_all hx (inside _ place) (sorted _ place) strict z member
  have behind : ∀ z ∈ after.flatten, NotAfter cmp x z := by
    intro z member
    obtain ⟨xs, listed, member⟩ := List.mem_flatten.mp member
    have place : xs ∈ before ++ (x :: rest) :: after := by simp [listed]
    cases xs with
    | nil => cases member
    | cons y ys =>
      obtain ⟨j, small, found⟩ := List.getElem_of_mem listed
      have at_ : (before ++ (x :: rest) :: after)[before.length + (j + 1)]? = some (y :: ys) := by
        rw [List.getElem?_append_right (Nat.le_add_right ..), Nat.add_sub_cancel_left,
          List.getElem?_cons_succ, List.getElem?_eq_getElem small, found]
      have notAfter := laws.notAfter_of_not_headBefore hx (inside _ place y (by simp))
        (first _ y ys (by omega) at_)
      exact laws.consistent.notAfter_all hx (inside _ place) (sorted _ place) notAfter z member
  have onBefore : ∀ z ∈ before.flatten, on z := by
    intro z member
    obtain ⟨xs, listed, member⟩ := List.mem_flatten.mp member
    exact inside xs (List.mem_append_left _ listed) z member
  rw [List.flatten_append, List.flatten_cons] at others ⊢
  refine .cons (.takeLater laws.consistent onBefore hx strictly) (fun z member => ?_) others
  rcases List.mem_append.mp member with member | member
  · exact (strictly z member).notAfter
  rcases List.mem_append.mp member with member | member
  · exact List.rel_of_pairwise_cons (sorted _ here) member
  · exact behind z member

/-- Whichever of the possible heads is taken each time, sorted lists come out as the stable sort of
their concatenation. -/
theorem ByHeads.sorts (laws : Total cmp on) {lists : List (List α)} {out : List α}
    (taken : ByHeads cmp lists out) (inside : ∀ xs ∈ lists, ∀ z ∈ xs, on z)
    (sorted : ∀ xs ∈ lists, Sorted cmp xs) : Sorts cmp on lists.flatten out := by
  induction taken with
  | done empty =>
    rw [empty]
    exact ⟨.refl [], .nil⟩
  | @take lists k x rest out head first others ih =>
    obtain ⟨bound, found⟩ := List.getElem?_eq_some_iff.mp head
    obtain ⟨before, after, whole, length, replaced⟩ : ∃ before after,
      lists = before ++ lists[k] :: after ∧
        before.length = k ∧ lists.set k rest = before ++ rest :: after := List.exists_of_set bound
    rw [found] at whole
    subst whole length
    have left : ∀ xs ∈ before ++ rest :: after, (∀ z ∈ xs, on z) ∧ Sorted cmp xs := by
      intro xs member
      rcases List.mem_append.mp member with member | member
      · exact ⟨inside xs (by simp [member]), sorted xs (by simp [member])⟩
      rcases List.mem_cons.mp member with rfl | member
      · exact ⟨fun z hz => inside (x :: xs) (by simp) z (List.mem_cons_of_mem _ hz),
          (sorted (x :: xs) (by simp)).tail⟩
      · exact ⟨inside xs (by simp [member]), sorted xs (by simp [member])⟩
    rw [replaced] at ih
    exact .takeFirst laws inside sorted first
      (ih (fun xs member => (left xs member).1) fun xs member => (left xs member).2)

theorem Total.mono {on' : α → Prop} (laws : Total cmp on) (within : ∀ x, on' x → on x) :
    Total cmp on' :=
  ⟨⟨fun hx hy => laws.consistent.swap (within _ hx) (within _ hy), fun hx hy hz =>
      laws.consistent.trans (within _ hx) (within _ hy) (within _ hz)⟩,
    fun hx hy => laws.answers (within _ hx) (within _ hy)⟩

/-- A list on which the comparison is a total preorder has one stable sort, and every way to sort it
gives that: in one piece or in chunks, with any number of workers, and by any merge that takes heads
in turn. -/
theorem sort_eq_unique_stable {xs : List α} (laws : Total cmp (· ∈ xs)) :
    ∃ sorted, (∀ other, Sorts cmp (· ∈ xs) xs other ↔ other = sorted) ∧
      (∀ minimum workers pooled, sort cmp minimum workers pooled xs = .ok sorted) ∧
      stable cmp xs = .ok sorted ∧
      ∀ chunks, 0 < chunks → chunked cmp chunks xs = .ok sorted ∧
        ∀ pieces out, List.Forall₂ (Sorts cmp (· ∈ xs)) (cut (ceilDiv xs.length chunks) xs) pieces →
          ByHeads cmp pieces out → out = sorted := by
  have inside : ∀ x ∈ xs, x ∈ xs := fun _ member => member
  obtain ⟨sorted, done, sorts⟩ := (stable_ends laws.consistent inside).ok_of_total laws
  have unique : ∀ other, Sorts cmp (· ∈ xs) xs other ↔ other = sorted := fun other =>
    ⟨fun h => h.unique laws inside sorts, fun same => same ▸ sorts⟩
  refine ⟨sorted, unique, fun minimum workers pooled => ?_, done, fun chunks some => ⟨?_, ?_⟩⟩
  · obtain ⟨other, done, sorts⟩ :=
      (sort_ends laws.consistent inside :
        Ends _ _ _ (sort cmp minimum workers pooled xs)).ok_of_total laws
    rw [done, (unique other).mp sorts]
  · obtain ⟨other, done, sorts⟩ := (chunked_ends laws.consistent some inside).ok_of_total laws
    rw [done, (unique other).mp sorts]
  · intro pieces out each taken
    obtain ⟨moved, each⟩ := Arranges.of_sorted each
    rw [flatten_chunks some] at moved
    have onPieces : ∀ c ∈ pieces, ∀ x ∈ c, x ∈ xs := by
      intro c hc x hx
      exact moved.on_right inside x (List.mem_flatten_of_mem hc hx)
    exact (unique out).mp (.of_arranges moved (taken.sorts laws onPieces each))

/-- Two chunks of two rows each, with ties within and across them. -/
theorem sort_eq_unique_stable_ties :
    let row (key place : Nat) : Row := [.ofCount key, .ofCount place]
    let cmp := (RowOrder.ascending 0).compare
    let xs := [row 1 0, row 0 1, row 1 2, row 0 3]
    let pieces := [[row 0 1, row 1 0], [row 0 3, row 1 2]]
    let sorted := [row 0 1, row 0 3, row 1 0, row 1 2]
    Total cmp (· ∈ xs) ∧ List.Forall₂ (Sorts cmp (· ∈ xs)) (cut (ceilDiv xs.length 2) xs) pieces ∧
      ByHeads cmp pieces sorted ∧ sort cmp 1 2 true xs = .ok sorted ∧
      sort cmp 1 2 false xs = .ok sorted := by
  intro row cmp xs pieces sorted
  have typed : ∀ x ∈ xs, Row.HasTypes [.int64, .int64] x := by
    unfold Row.HasTypes
    decide
  have order : (RowOrder.ascending 0).Within [DataType.int64, .int64].length := Nat.zero_lt_two
  have laws : Total cmp (· ∈ xs) := (RowOrder.total order).mono typed
  have left : Sorts cmp (· ∈ xs) [row 1 0, row 0 1] [row 0 1, row 1 0] :=
    ⟨⟨by decide, by decide⟩, List.pairwise_pair.mpr (.inr (.inl rfl))⟩
  have right : Sorts cmp (· ∈ xs) [row 1 2, row 0 3] [row 0 3, row 1 2] :=
    ⟨⟨by decide, by decide⟩, List.pairwise_pair.mpr (.inr (.inl rfl))⟩
  have halves : cut (ceilDiv xs.length 2) xs = [[row 1 0, row 0 1], [row 1 2, row 0 3]] := by decide
  have each : List.Forall₂ (Sorts cmp (· ∈ xs)) (cut (ceilDiv xs.length 2) xs) pieces := by
    rw [halves]
    exact .cons left (.cons right .nil)
  have taken : ByHeads cmp pieces sorted := by
    have other : ∀ {lists : List (List Row)} {k : Nat} {x : Row}, lists.length = 2 → k < 2 →
        (∀ y ys, lists[1 - k]? = some (y :: ys) → ¬ HeadBefore cmp (1 - k) y k x) →
        ∀ (j : Nat) y ys, j ≠ k → lists[j]? = some (y :: ys) → ¬ HeadBefore cmp j y k x := by
      intro lists k x two small alone j y ys apart found
      have inside := (List.getElem?_eq_some_iff.mp found).1
      obtain rfl : j = 1 - k := by omega
      exact alone y ys found
    refine .take (k := 0) rfl (other rfl Nat.zero_lt_two ?_)
      (.take (k := 1) rfl (other rfl Nat.one_lt_two ?_)
      (.take (k := 0) rfl (other rfl Nat.zero_lt_two ?_)
        (.take (k := 1) rfl (other rfl Nat.one_lt_two ?_) (.done rfl))))
    · rintro y ys ⟨⟩
      decide
    · rintro y ys ⟨⟩
      decide
    · rintro y ys ⟨⟩
      decide
    · nofun
  obtain ⟨result, -, sorts, -, chunked⟩ := sort_eq_unique_stable laws
  obtain rfl := (chunked 2 Nat.zero_lt_two).2 pieces sorted each taken
  exact ⟨laws, each, taken, sorts 1 2 true, sorts 1 2 false⟩

end Windowing.Sorting
