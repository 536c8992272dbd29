import Windowing.Proofs.Sorting.Arrangement
import Windowing.Sorting.Merge

/-!
Merging two sorted lists, from the front, from the back, and from both ends at once. All three sort
the concatenation stably; the last one needs lists of about one length, so that what neither end has
taken is at most one element.
-/
namespace Windowing.Sorting

variable {α ε : Type} {cmp : α → α → Except ε Ordering} {on : α → Prop}

theorem Sorts.cons {xs ys zs : List α} {z : α} (moved : Arranges cmp on xs (z :: ys))
    (least : ∀ y ∈ ys, NotAfter cmp z y) (rest : Sorts cmp on ys zs) : Sorts cmp on xs (z :: zs) :=
  ⟨moved.trans (rest.arranges.cons z),
    List.pairwise_cons.mpr ⟨fun y hy => least y (rest.mem_iff.mpr hy), rest.sorted⟩⟩

theorem Sorts.concat {xs ys zs : List α} {z : α} (moved : Arranges cmp on xs (ys ++ [z]))
    (greatest : ∀ y ∈ ys, NotAfter cmp y z) (rest : Sorts cmp on ys zs) :
    Sorts cmp on xs (zs ++ [z]) := by
  refine ⟨moved.trans (rest.arranges.append_right [z]),
    List.pairwise_append.mpr ⟨rest.sorted, List.pairwise_singleton _ _, ?_⟩⟩
  intro y hy w hw
  obtain rfl := List.mem_singleton.mp hw
  exact greatest y (rest.mem_iff.mpr hy)

/-- An element that goes strictly before a whole block may be taken from behind it. -/
theorem Arranges.takeLater (laws : Consistent cmp on) {xs ys : List α} {y : α}
    (hx : ∀ x ∈ xs, on x) (hy : on y) (before : ∀ x ∈ xs, Before cmp y x) :
    Arranges cmp on (xs ++ y :: ys) (y :: (xs ++ ys)) := by
  have moved : Arranges cmp on (xs ++ [y]) ([y] ++ xs) :=
    swap laws hx (by simpa using hy) (by simpa using before)
  simpa using moved.append_right ys

/-- An element that goes strictly after a whole block may be left behind it. -/
theorem Arranges.leaveEarlier (laws : Consistent cmp on) {xs ys : List α} {x : α}
    (hx : on x) (hy : ∀ y ∈ ys, on y) (before : ∀ y ∈ ys, Before cmp y x) :
    Arranges cmp on (xs ++ [x] ++ ys) (xs ++ ys ++ [x]) := by
  have moved : Arranges cmp on ([x] ++ ys) (ys ++ [x]) :=
    swap laws (by simpa using hx) hy (by simpa using before)
  simpa only [List.append_assoc] using moved.append_left xs

theorem Consistent.before_all (laws : Consistent cmp on) {x y : α} {xs : List α} (hy : on y)
    (inside : ∀ z ∈ x :: xs, on z) (sorted : Sorted cmp (x :: xs)) (before : Before cmp y x) :
    ∀ z ∈ x :: xs, Before cmp y z := by
  obtain ⟨hx, inside⟩ := List.forall_mem_cons.mp inside
  intro z hz
  rcases List.mem_cons.mp hz with rfl | hz
  · exact before
  · exact laws.before_of_before_of_notAfter hy hx (inside z hz) before
      (List.rel_of_pairwise_cons sorted hz)

theorem Consistent.notAfter_all (laws : Consistent cmp on) {x y : α} {xs : List α} (hy : on y)
    (inside : ∀ z ∈ x :: xs, on z) (sorted : Sorted cmp (x :: xs)) (notAfter : NotAfter cmp y x) :
    ∀ z ∈ x :: xs, NotAfter cmp y z := by
  obtain ⟨hx, inside⟩ := List.forall_mem_cons.mp inside
  intro z hz
  rcases List.mem_cons.mp hz with rfl | hz
  · exact notAfter
  · exact laws.trans hy hx (inside z hz) notAfter (List.rel_of_pairwise_cons sorted hz)

theorem Consistent.all_before (laws : Consistent cmp on) {x y : α} {xs : List α} (hy : on y)
    (inside : ∀ z ∈ xs ++ [x], on z) (sorted : Sorted cmp (xs ++ [x])) (before : Before cmp x y) :
    ∀ z ∈ xs ++ [x], Before cmp z y := by
  obtain ⟨_, _, last⟩ := List.pairwise_append.mp sorted
  intro z hz
  rcases List.mem_append.mp hz with member | hz
  · exact laws.before_of_notAfter_of_before (inside z (by simp [member])) (inside x (by simp)) hy
      (last z member x (by simp)) before
  · exact List.mem_singleton.mp hz ▸ before

theorem Consistent.all_notAfter (laws : Consistent cmp on) {x y : α} {xs : List α} (hy : on y)
    (inside : ∀ z ∈ xs ++ [x], on z) (sorted : Sorted cmp (xs ++ [x]))
    (notAfter : NotAfter cmp x y) :
    ∀ z ∈ xs ++ [x], NotAfter cmp z y := by
  obtain ⟨_, _, last⟩ := List.pairwise_append.mp sorted
  intro z hz
  rcases List.mem_append.mp hz with member | hz
  · exact laws.trans (inside z (by simp [member])) (inside x (by simp)) hy
      (last z member x (by simp)) notAfter
  · exact List.mem_singleton.mp hz ▸ notAfter

theorem mergeFront_ends (laws : Consistent cmp on) {xs ys : List α} (hx : ∀ x ∈ xs, on x)
    (hy : ∀ y ∈ ys, on y) (sortedXs : Sorted cmp xs) (sortedYs : Sorted cmp ys) :
    Ends cmp on (Sorts cmp on (xs ++ ys)) (mergeFront cmp xs ys) := by
  induction xs, ys using mergeFront.induct with
  | case1 ys =>
    rw [mergeFront]
    exact ⟨.refl ys, sortedYs⟩
  | case2 x xs =>
    rw [mergeFront, Ends.ok_iff, List.append_nil]
    exact ⟨.refl _, sortedXs⟩
  | case3 x xs y ys takeY takeX =>
    have insideX := List.forall_mem_cons.mp hx
    have insideY := List.forall_mem_cons.mp hy
    rw [mergeFront]
    apply (Ends.less laws insideY.1 insideX.1).bind
    intro b decided
    cases b with
    | true =>
      have before := laws.before_all insideY.1 hx sortedXs decided
      simp only [if_true]
      apply (takeY hx insideY.2 sortedXs sortedYs.tail).bind
      intro r merged
      refine .cons (.takeLater laws hx insideY.1 before) ?_ merged
      intro z hz
      rcases List.mem_append.mp hz with hz | hz
      · exact (before z hz).notAfter
      · exact List.rel_of_pairwise_cons sortedYs hz
    | false =>
      have after := laws.notAfter_all insideX.1 hy sortedYs decided
      simp only [Bool.false_eq_true, if_false]
      apply (takeX insideX.2 hy sortedXs.tail sortedYs).bind
      intro r merged
      refine .cons (.refl _) ?_ merged
      intro z hz
      rcases List.mem_append.mp hz with hz | hz
      · exact List.rel_of_pairwise_cons sortedXs hz
      · exact after z hz

/-- All lists run from their last element back to the first. -/
theorem mergeBack_ends (laws : Consistent cmp on) {xs ys : List α} (hx : ∀ x ∈ xs, on x)
    (hy : ∀ y ∈ ys, on y) (sortedXs : Sorted cmp xs.reverse) (sortedYs : Sorted cmp ys.reverse) :
    Ends cmp on (fun r => Sorts cmp on (xs.reverse ++ ys.reverse) r.reverse)
      (mergeBack cmp xs ys) := by
  induction xs, ys using mergeBack.induct with
  | case1 ys =>
    rw [mergeBack, Ends.ok_iff, List.reverse_nil, List.nil_append]
    exact ⟨.refl _, sortedYs⟩
  | case2 x xs =>
    rw [mergeBack, Ends.ok_iff, List.reverse_nil, List.append_nil]
    exact ⟨.refl _, sortedXs⟩
  | case3 x xs y ys takeX takeY =>
    have insideX := List.forall_mem_cons.mp hx
    have insideY := List.forall_mem_cons.mp hy
    have hx' : ∀ z ∈ xs.reverse ++ [x], on z := by simpa [or_comm] using hx
    have hy' : ∀ z ∈ ys.reverse ++ [y], on z := by simpa [or_comm] using hy
    have sortedX := sortedXs
    have sortedY := sortedYs
    rw [List.reverse_cons] at sortedX sortedY
    obtain ⟨frontX, _, lastX⟩ := List.pairwise_append.mp sortedX
    obtain ⟨frontY, _, lastY⟩ := List.pairwise_append.mp sortedY
    rw [mergeBack]
    apply (Ends.less laws insideY.1 insideX.1).bind
    intro b decided
    cases b with
    | true =>
      have before := laws.all_before insideX.1 hy' sortedY decided
      simp only [if_true]
      apply (takeX insideX.2 hy frontX sortedYs).bind
      intro r merged
      simp only [pure, Except.pure, Ends.ok_iff, List.reverse_cons] at merged ⊢
      refine .concat (.leaveEarlier laws insideX.1 hy' before) ?_ merged
      intro z hz
      rcases List.mem_append.mp hz with hz | hz
      · exact lastX z hz x (by simp)
      · exact (before z hz).notAfter
    | false =>
      have after := laws.all_notAfter insideY.1 hx' sortedX decided
      simp only [Bool.false_eq_true, if_false]
      apply (takeY hx insideY.2 sortedXs frontY).bind
      intro r merged
      simp only [pure, Except.pure, Ends.ok_iff, List.reverse_cons] at merged ⊢
      refine .concat (by rw [List.append_assoc _ ys.reverse]; exact .refl _) ?_ merged
      intro z hz
      rcases List.mem_append.mp hz with hz | hz
      · exact after z hz
      · exact lastY z hz y (by simp)

theorem merge_ends (laws : Consistent cmp on) {xs ys : List α} (hx : ∀ x ∈ xs, on x)
    (hy : ∀ y ∈ ys, on y) (sortedXs : Sorted cmp xs) (sortedYs : Sorted cmp ys) :
    Ends cmp on (Sorts cmp on (xs ++ ys)) (merge cmp xs ys) := by
  rw [merge]
  split
  · exact mergeFront_ends laws hx hy sortedXs sortedYs
  · apply Ends.map
    have onX : ∀ x ∈ xs.reverse, on x := by simpa using hx
    have onY : ∀ y ∈ ys.reverse, on y := by simpa using hy
    simpa using mergeBack_ends laws onX onY (by simpa using sortedXs) (by simpa using sortedYs)

/-- What two sorted lists hold, taken apart: `xs₁` and `ys₁` have been taken from the front, `xs₃`
and `ys₃` from the back, and `xs` and `ys` stand between. -/
structure Between (cmp : α → α → Except ε Ordering) (on : α → Prop)
    (xs₁ xs xs₃ ys₁ ys ys₃ : List α) : Prop where
  on_xs : ∀ x ∈ xs₁ ++ xs ++ xs₃, on x
  on_ys : ∀ y ∈ ys₁ ++ ys ++ ys₃, on y
  sorted_xs : Sorted cmp (xs₁ ++ xs ++ xs₃)
  sorted_ys : Sorted cmp (ys₁ ++ ys ++ ys₃)
  front_xs : ∀ x ∈ xs₁, ∀ y ∈ ys ++ ys₃, NotAfter cmp x y
  front_ys : ∀ y ∈ ys₁, ∀ x ∈ xs ++ xs₃, Before cmp y x
  back_xs : ∀ x ∈ xs₃, ∀ y ∈ ys₁ ++ ys, Before cmp y x
  back_ys : ∀ y ∈ ys₃, ∀ x ∈ xs₁ ++ xs, NotAfter cmp x y

namespace Between

variable {xs₁ xs xs₃ ys₁ ys ys₃ : List α}

/-- The front takes from the first list what goes after nothing that is left of the second. -/
theorem frontOfFirst {x : α} (h : Between cmp on xs₁ (x :: xs) xs₃ ys₁ ys ys₃)
    (after : ∀ y ∈ ys ++ ys₃, NotAfter cmp x y) :
    Between cmp on (xs₁ ++ [x]) xs xs₃ ys₁ ys ys₃ := by
  have taken : xs₁ ++ [x] ++ xs = xs₁ ++ x :: xs := by simp
  refine ⟨taken ▸ h.on_xs, h.on_ys, taken ▸ h.sorted_xs, h.sorted_ys, ?_, ?_, h.back_xs,
    taken ▸ h.back_ys⟩
  · intro a ha b hb
    rcases List.mem_append.mp ha with ha | ha
    · exact h.front_xs a ha b hb
    · exact List.mem_singleton.mp ha ▸ after b hb
  · intro b hb a ha
    exact h.front_ys b hb a (List.mem_cons_of_mem _ ha)

/-- The front takes from the second list what goes before all that is left of the first. -/
theorem frontOfSecond {y : α} (h : Between cmp on xs₁ xs xs₃ ys₁ (y :: ys) ys₃)
    (before : ∀ x ∈ xs ++ xs₃, Before cmp y x) : Between cmp on xs₁ xs xs₃ (ys₁ ++ [y]) ys ys₃ := by
  have taken : ys₁ ++ [y] ++ ys = ys₁ ++ y :: ys := by simp
  refine ⟨h.on_xs, taken ▸ h.on_ys, h.sorted_xs, taken ▸ h.sorted_ys, ?_, ?_,
    taken ▸ h.back_xs, h.back_ys⟩
  · intro a ha b hb
    exact h.front_xs a ha b (List.mem_cons_of_mem _ hb)
  · intro b hb a ha
    rcases List.mem_append.mp hb with hb | hb
    · exact h.front_ys b hb a ha
    · exact List.mem_singleton.mp hb ▸ before a ha

/-- The back takes from the first list what goes after all that is left of the second. -/
theorem backOfFirst {u : α} (h : Between cmp on xs₁ (xs ++ [u]) xs₃ ys₁ ys ys₃)
    (before : ∀ y ∈ ys₁ ++ ys, Before cmp y u) : Between cmp on xs₁ xs (u :: xs₃) ys₁ ys ys₃ := by
  have left : xs₁ ++ xs ++ u :: xs₃ = xs₁ ++ (xs ++ [u]) ++ xs₃ := by simp
  refine ⟨left ▸ h.on_xs, h.on_ys, left ▸ h.sorted_xs, h.sorted_ys, h.front_xs, ?_, ?_, ?_⟩
  · intro b hb a ha
    exact h.front_ys b hb a (by simpa using ha)
  · intro a ha b hb
    rcases List.mem_cons.mp ha with rfl | ha
    · exact before b hb
    · exact h.back_xs a ha b hb
  · intro b hb a ha
    exact h.back_ys b hb a (by rw [← List.append_assoc]; exact List.mem_append_left _ ha)

/-- The back takes from the second list what goes before nothing that is left of the first. -/
theorem backOfSecond {v : α} (h : Between cmp on xs₁ xs xs₃ ys₁ (ys ++ [v]) ys₃)
    (after : ∀ x ∈ xs₁ ++ xs, NotAfter cmp x v) : Between cmp on xs₁ xs xs₃ ys₁ ys (v :: ys₃) := by
  have left : ys₁ ++ ys ++ v :: ys₃ = ys₁ ++ (ys ++ [v]) ++ ys₃ := by simp
  refine ⟨h.on_xs, left ▸ h.on_ys, h.sorted_xs, left ▸ h.sorted_ys, ?_, h.front_ys, ?_, ?_⟩
  · intro a ha b hb
    exact h.front_xs a ha b (by simpa using hb)
  · intro a ha b hb
    exact h.back_xs a ha b (by rw [← List.append_assoc]; exact List.mem_append_left _ hb)
  · intro b hb a ha
    rcases List.mem_cons.mp hb with rfl | hb
    · exact after a ha
    · exact h.back_ys b hb a ha

/-- As long as something stands between, the front takes none of what the back has taken. -/
theorem takeFront (laws : Consistent cmp on) (h : Between cmp on xs₁ xs xs₃ ys₁ ys ys₃)
    (something : xs ≠ [] ∨ ys ≠ []) {x y : α} {xr yr : List α} (hx : xs ++ xs₃ = x :: xr)
    (hy : ys ++ ys₃ = y :: yr) {early : Bool}
    (decided : if early then Before cmp y x else NotAfter cmp x y) :
    ∃ xs₁' xs' ys₁' ys', Between cmp on xs₁' xs' xs₃ ys₁' ys' ys₃ ∧
      xs₁' ++ xs' = xs₁ ++ xs ∧ ys₁' ++ ys' = ys₁ ++ ys ∧
      (if early then x :: xr else xr) = xs' ++ xs₃ ∧ (if early then yr else y :: yr) = ys' ++ ys₃ ∧
      xs'.length + ys'.length + 1 = xs.length + ys.length ∧
      Arranges cmp on (xs ++ ys) ((if early then y else x) :: (xs' ++ ys')) ∧
      ∀ z ∈ xs' ++ ys', NotAfter cmp (if early then y else x) z := by
  have restX : ∀ z ∈ x :: xr, on z := fun z hz => h.on_xs z (by
    rw [List.append_assoc, hx]; exact List.mem_append_right _ hz)
  have restY : ∀ z ∈ y :: yr, on z := fun z hz => h.on_ys z (by
    rw [List.append_assoc, hy]; exact List.mem_append_right _ hz)
  have sortedX : Sorted cmp (x :: xr) := by
    have sorted := h.sorted_xs
    rw [List.append_assoc, hx] at sorted
    exact (List.pairwise_append.mp sorted).2.1
  have sortedY : Sorted cmp (y :: yr) := by
    have sorted := h.sorted_ys
    rw [List.append_assoc, hy] at sorted
    exact (List.pairwise_append.mp sorted).2.1
  have onX := restX x (by simp)
  have onY := restY y (by simp)
  cases early with
  | true =>
    simp only [if_true] at decided ⊢
    have before := laws.before_all onY restX sortedX decided
    cases ys with
    | nil =>
      obtain ⟨w, xs, rfl⟩ := List.exists_cons_of_ne_nil (something.resolve_right (by simp))
      obtain ⟨rfl, -⟩ := List.cons.inj hx
      exact absurd decided (laws.not_before onX onY (h.back_ys y (by simp_all) w (by simp)))
    | cons w ys' =>
      obtain ⟨rfl, rfl⟩ := List.cons.inj hy
      refine ⟨xs₁, xs, ys₁ ++ [w], ys', h.frontOfSecond fun a ha => before a (hx ▸ ha), rfl,
        by simp, hx.symm,
        rfl, by simp only [List.length_cons]; omega, ?_, ?_⟩
      · exact .takeLater laws (fun z hz => restX z (hx ▸ List.mem_append_left _ hz)) onY
          fun z hz => before z (hx ▸ List.mem_append_left _ hz)
      · intro z hz
        rcases List.mem_append.mp hz with hz | hz
        · exact (before z (hx ▸ List.mem_append_left _ hz)).notAfter
        · exact List.rel_of_pairwise_cons sortedY (List.mem_append_left _ hz)
  | false =>
    simp only [Bool.false_eq_true, if_false] at decided ⊢
    have after := laws.notAfter_all onX restY sortedY decided
    cases xs with
    | nil =>
      obtain ⟨w, ys, rfl⟩ := List.exists_cons_of_ne_nil (something.resolve_left (by simp))
      obtain ⟨rfl, -⟩ := List.cons.inj hy
      exact absurd (h.back_xs x (by simp_all) w (by simp)) (laws.not_before onX onY decided)
    | cons w xs' =>
      obtain ⟨rfl, rfl⟩ := List.cons.inj hx
      refine ⟨xs₁ ++ [w], xs', ys₁, ys, h.frontOfFirst fun b hb => after b (hy ▸ hb),
        by simp, rfl, rfl, hy.symm,
        by simp only [List.length_cons]; omega, .refl _, ?_⟩
      intro z hz
      rcases List.mem_append.mp hz with hz | hz
      · exact List.rel_of_pairwise_cons sortedX (List.mem_append_left _ hz)
      · exact after z (hy ▸ List.mem_append_left _ hz)

/-- As long as something stands between, the back takes none of what the front has taken. -/
theorem takeBack (laws : Consistent cmp on) (h : Between cmp on xs₁ xs xs₃ ys₁ ys ys₃)
    (something : xs ≠ [] ∨ ys ≠ []) {u v : α} {ur vr : List α} (hu : xs₁ ++ xs = ur ++ [u])
    (hv : ys₁ ++ ys = vr ++ [v]) {late : Bool}
    (decided : if late then Before cmp v u else NotAfter cmp u v) :
    ∃ xs' xs₃' ys' ys₃', Between cmp on xs₁ xs' xs₃' ys₁ ys' ys₃' ∧
      xs' ++ xs₃' = xs ++ xs₃ ∧ ys' ++ ys₃' = ys ++ ys₃ ∧
      (if late then ur else ur ++ [u]) = xs₁ ++ xs' ∧
      (if late then vr ++ [v] else vr) = ys₁ ++ ys' ∧
      xs'.length + ys'.length + 1 = xs.length + ys.length ∧
      Arranges cmp on (xs ++ ys) (xs' ++ ys' ++ [if late then u else v]) ∧
      ∀ z ∈ xs' ++ ys', NotAfter cmp z (if late then u else v) := by
  have restX : ∀ z ∈ ur ++ [u], on z := by
    intro z hz
    exact h.on_xs z (List.mem_append_left _ (hu ▸ hz))
  have restY : ∀ z ∈ vr ++ [v], on z := by
    intro z hz
    exact h.on_ys z (List.mem_append_left _ (hv ▸ hz))
  have sortedX : Sorted cmp (ur ++ [u]) := hu ▸ (List.pairwise_append.mp h.sorted_xs).1
  have sortedY : Sorted cmp (vr ++ [v]) := hv ▸ (List.pairwise_append.mp h.sorted_ys).1
  have lastX := (List.pairwise_append.mp sortedX).2.2
  have lastY := (List.pairwise_append.mp sortedY).2.2
  have onX := restX u (by simp)
  have onY := restY v (by simp)
  cases late with
  | true =>
    simp only [if_true] at decided ⊢
    have before := laws.all_before onX restY sortedY decided
    rcases List.eq_nil_or_concat xs with rfl | ⟨xs', w, rfl⟩
    · obtain ⟨w, hw⟩ := List.exists_mem_of_ne_nil _ (something.resolve_left (by simp))
      have member : u ∈ xs₁ := by
        rw [List.append_nil] at hu
        simp [hu]
      exact absurd (before w (hv ▸ List.mem_append_right _ hw))
        (laws.not_before onX (h.on_ys w (by simp [hw])) (h.front_xs u member w (by simp [hw])))
    · rw [List.concat_eq_append] at *
      rw [← List.append_assoc] at hu
      obtain ⟨rfl, one⟩ := List.append_inj' hu rfl
      obtain rfl := List.singleton_inj.mp one
      refine ⟨xs', w :: xs₃, ys, ys₃, h.backOfFirst fun b hb => before b (hv ▸ hb),
        by simp, rfl, rfl, hv.symm,
        by simp only [List.length_append, List.length_singleton]; omega, ?_, ?_⟩
      · exact .leaveEarlier laws onX (fun z hz => restY z (hv ▸ List.mem_append_right _ hz))
          fun z hz => before z (hv ▸ List.mem_append_right _ hz)
      · intro z hz
        rcases List.mem_append.mp hz with hz | hz
        · exact lastX z (List.mem_append_right _ hz) w (by simp)
        · exact (before z (hv ▸ List.mem_append_right _ hz)).notAfter
  | false =>
    simp only [Bool.false_eq_true, if_false] at decided ⊢
    have after := laws.all_notAfter onY restX sortedX decided
    rcases List.eq_nil_or_concat ys with rfl | ⟨ys', w, rfl⟩
    · obtain ⟨w, hw⟩ := List.exists_mem_of_ne_nil _ (something.resolve_right (by simp))
      have member : v ∈ ys₁ := by
        rw [List.append_nil] at hv
        simp [hv]
      exact absurd (h.front_ys v member w (by simp [hw]))
        (laws.not_before (h.on_xs w (by simp [hw])) onY (after w (hu ▸ List.mem_append_right _ hw)))
    · rw [List.concat_eq_append] at *
      rw [← List.append_assoc] at hv
      obtain ⟨rfl, one⟩ := List.append_inj' hv rfl
      obtain rfl := List.singleton_inj.mp one
      refine ⟨xs, xs₃, ys', w :: ys₃, h.backOfSecond fun a ha => after a (hu ▸ ha), rfl,
        by simp, hu.symm, rfl,
        by simp only [List.length_append, List.length_singleton]; omega, ?_, ?_⟩
      · rw [List.append_assoc]
        exact .refl _
      · intro z hz
        rcases List.mem_append.mp hz with hz | hz
        · exact after z (hu ▸ List.mem_append_right _ hz)
        · exact lastY z (List.mem_append_right _ hz) w (by simp)

end Between

/-- What stands between is at most one element more than the steps left take from the two ends. -/
theorem mergeEnds_ends (laws : Consistent cmp on) (steps : Nat) {m n : Nat}
    {xs₁ xs xs₃ ys₁ ys ys₃ : List α} (h : Between cmp on xs₁ xs xs₃ ys₁ ys ys₃)
    (hm : m = (xs₁ ++ xs ++ xs₃).length) (hn : n = (ys₁ ++ ys ++ ys₃).length)
    (enough : 2 * steps ≤ xs.length + ys.length) (few : xs.length + ys.length ≤ 2 * steps + 1)
    (frontX : steps ≤ (xs ++ xs₃).length) (frontY : steps ≤ (ys ++ ys₃).length)
    (backX : steps ≤ (xs₁ ++ xs).length) (backY : steps ≤ (ys₁ ++ ys).length) :
    Ends cmp on (Sorts cmp on (xs ++ ys))
      (mergeEnds cmp m n steps (xs ++ xs₃) (ys ++ ys₃) (xs₁ ++ xs).reverse
        (ys₁ ++ ys).reverse) := by
  induction steps generalizing xs₁ xs xs₃ ys₁ ys ys₃ with
  | zero =>
    rw [mergeEnds]
    · have takeX : (xs ++ xs₃).length + (xs₁ ++ xs).reverse.length - m = xs.length := by
        simp only [hm, List.length_append, List.length_reverse]
        omega
      have takeY : (ys ++ ys₃).length + (ys₁ ++ ys).reverse.length - n = ys.length := by
        simp only [hn, List.length_append, List.length_reverse]
        omega
      rw [takeX, takeY, List.take_left, List.take_left]
      refine ⟨.refl _, ?_⟩
      match both : xs ++ ys with
      | [] => exact .nil
      | [z] => exact List.pairwise_singleton _ _
      | _ :: _ :: _ =>
        have := congrArg List.length both
        simp only [List.length_append, List.length_cons] at this
        omega
    · simp
  | succ steps ih =>
    obtain ⟨x, xr, hx⟩ := List.exists_cons_of_length_pos (l := xs ++ xs₃) (by omega)
    obtain ⟨y, yr, hy⟩ := List.exists_cons_of_length_pos (l := ys ++ ys₃) (by omega)
    obtain ⟨u, us, hu⟩ := List.exists_cons_of_length_pos (l := (xs₁ ++ xs).reverse)
      (by rw [List.length_reverse]; omega)
    obtain ⟨v, vs, hv⟩ := List.exists_cons_of_length_pos (l := (ys₁ ++ ys).reverse)
      (by rw [List.length_reverse]; omega)
    have lastU : xs₁ ++ xs = us.reverse ++ [u] := by simpa using congrArg List.reverse hu
    have lastV : ys₁ ++ ys = vs.reverse ++ [v] := by simpa using congrArg List.reverse hv
    have onX : on x := h.on_xs x (by simp [List.append_assoc, hx])
    have onY : on y := h.on_ys y (by simp [List.append_assoc, hy])
    have onU : on u := h.on_xs u (by simp [lastU])
    have onV : on v := h.on_ys v (by simp [lastV])
    have nonempty : ∀ {as bs : List α}, 0 < as.length + bs.length → as ≠ [] ∨ bs ≠ [] := by
      rintro (_ | _) (_ | _) <;> simp
    rw [hx, hy, hu, hv, mergeEnds]
    apply (Ends.less laws onY onX).bind
    intro early first
    apply (Ends.less laws onV onU).bind
    intro late last
    obtain ⟨xs₁', xs', ys₁', ys', h', sameX, sameY, nextX, nextY, count, moved, least⟩ :=
      h.takeFront laws (nonempty (by omega)) hx hy first
    obtain ⟨xs'', xs₃', ys'', ys₃', h'', sameX', sameY', nextU, nextV, count', moved', greatest⟩ :=
      h'.takeBack laws (nonempty (by omega)) (sameX.trans lastU) (sameY.trans lastV) last
    have restU : (if late = true then us else u :: us) = (xs₁' ++ xs'').reverse := by
      rw [← nextU]
      cases late <;> simp
    have restV : (if late = true then v :: vs else vs) = (ys₁' ++ ys'').reverse := by
      rw [← nextV]
      cases late <;> simp
    have frontX' : (xs ++ xs₃).length ≤ (xs' ++ xs₃).length + 1 := by
      rw [← nextX, hx]
      cases early <;> simp
    have frontY' : (ys ++ ys₃).length ≤ (ys' ++ ys₃).length + 1 := by
      rw [← nextY, hy]
      cases early <;> simp
    have backX' : (xs₁ ++ xs).length ≤ (xs₁' ++ xs'').length + 1 := by
      rw [← nextU, lastU]
      cases late <;> simp
    have backY' : (ys₁ ++ ys).length ≤ (ys₁' ++ ys'').length + 1 := by
      rw [← nextV, lastV]
      cases late <;> simp
    have totalX : (xs₁' ++ xs'' ++ xs₃').length = (xs₁ ++ xs ++ xs₃).length := by
      rw [List.append_assoc, sameX', ← List.append_assoc, sameX]
    have totalY : (ys₁' ++ ys'' ++ ys₃').length = (ys₁ ++ ys ++ ys₃).length := by
      rw [List.append_assoc, sameY', ← List.append_assoc, sameY]
    rw [nextX, nextY, restU, restV, ← sameX', ← sameY']
    rw [← sameX'] at frontX'
    rw [← sameY'] at frontY'
    refine (ih h'' (hm.trans totalX.symm) (hn.trans totalY.symm) (by omega) (by omega) (by omega)
      (by omega) (by omega) (by omega)).bind fun between placed => ?_
    exact .cons moved least (.concat moved' greatest placed)

theorem mergeBoth_ends (laws : Consistent cmp on) {xs ys : List α} (hx : ∀ x ∈ xs, on x)
    (hy : ∀ y ∈ ys, on y) (sortedXs : Sorted cmp xs) (sortedYs : Sorted cmp ys)
    (shorter : xs.length ≤ ys.length) (byOne : ys.length ≤ xs.length + 1) :
    Ends cmp on (Sorts cmp on (xs ++ ys)) (mergeBoth cmp xs ys) := by
  rw [mergeBoth]
  have untouched : Between cmp on [] xs [] [] ys [] :=
    ⟨by simpa using hx, by simpa using hy, by simpa using sortedXs, by simpa using sortedYs,
      by simp, by simp, by simp, by simp⟩
  have ends :=
    @mergeEnds_ends α ε cmp on laws xs.length xs.length ys.length [] xs [] [] ys [] untouched
    (by simp) (by simp) (by omega) (by omega) (by simp) (by simpa using shorter) (by simp)
    (by simpa using shorter)
  simpa only [List.append_nil, List.nil_append] using ends

end Windowing.Sorting
