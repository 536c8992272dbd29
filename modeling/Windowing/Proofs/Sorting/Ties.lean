import Windowing.Proofs.Sorting.Arrangement

/-!
Ties under a comparison that always answers. They are an equivalence, a sorted list keeps tied
elements together, and so a list has only one stable sort.
-/
namespace Windowing.Sorting

variable {α ε : Type}

structure Total (cmp : α → α → Except ε Ordering) (on : α → Prop) : Prop where
  consistent : Consistent cmp on
  answers : ∀ {x y}, on x → on y → ∃ o, cmp x y = .ok o

variable {cmp : α → α → Except ε Ordering} {on : α → Prop}

theorem Consistent.tied_symm (laws : Consistent cmp on) {x y : α} (hx : on x) (hy : on y)
    (h : tied cmp x y = true) : tied cmp y x = true :=
  tied_eq_true_iff.mpr (laws.swap hx hy (tied_eq_true_iff.mp h))

theorem Consistent.tied_comm (laws : Consistent cmp on) {x y : α} (hx : on x) (hy : on y) :
    tied cmp x y = tied cmp y x :=
  Bool.eq_iff_iff.mpr ⟨laws.tied_symm hx hy, laws.tied_symm hy hx⟩

theorem Sorted.notAfter {xs : List α} (sorted : Sorted cmp xs) {i j : Nat} (le : i ≤ j)
    (inside : j < xs.length) : NotAfter cmp xs[i] xs[j] := by
  rcases Nat.lt_or_eq_of_le le with lt | rfl
  · exact List.pairwise_iff_getElem.mp sorted i j (Nat.lt_trans lt inside) inside lt
  · exact .refl _

namespace Total

theorem tied_refl (laws : Total cmp on) {x : α} (hx : on x) : tied cmp x x = true := by
  obtain ⟨o, h⟩ := laws.answers hx hx
  have back := laws.consistent.swap hx hx h
  rw [h] at back
  apply tied_eq_true_iff.mpr
  rw [h]
  cases o <;> cases back
  rfl

theorem notAfter_iff (laws : Total cmp on) {x y : α} (hx : on x) :
    NotAfter cmp x y ↔ Before cmp x y ∨ tied cmp x y = true := by
  rw [tied_eq_true_iff]
  constructor
  · rintro (rfl | h)
    · exact .inr (tied_eq_true_iff.mp (laws.tied_refl hx))
    · exact h
  · exact .inr

theorem tied_of_notAfter (laws : Total cmp on) {x y : α} (hx : on x) (hy : on y)
    (first : NotAfter cmp x y) (second : NotAfter cmp y x) : tied cmp x y = true := by
  rcases (laws.notAfter_iff hx).mp first with before | tie
  · exact absurd before (laws.consistent.not_before hy hx second)
  · exact tie

theorem tied_trans (laws : Total cmp on) {x y z : α} (hx : on x) (hy : on y) (hz : on z)
    (first : tied cmp x y = true) (second : tied cmp y z = true) : tied cmp x z = true := by
  have back := laws.consistent.tied_symm hx hy first
  have back' := laws.consistent.tied_symm hy hz second
  have notAfter : ∀ {a b}, tied cmp a b = true → NotAfter cmp a b :=
    fun h => .of_eq (tied_eq_true_iff.mp h)
  exact laws.tied_of_notAfter hx hz
    (laws.consistent.trans hx hy hz (notAfter first) (notAfter second))
    (laws.consistent.trans hz hy hx (notAfter back') (notAfter back))

theorem tied_congr (laws : Total cmp on) {x y z : α} (hx : on x) (hy : on y) (hz : on z)
    (tie : tied cmp x y = true) : tied cmp x z = tied cmp y z := by
  apply Bool.eq_iff_iff.mpr
  exact ⟨laws.tied_trans hy hx hz (laws.consistent.tied_symm hx hy tie),
    laws.tied_trans hx hy hz tie⟩

/-- What stands between two tied elements of a sorted list is tied to them. -/
theorem tied_between (laws : Total cmp on) {xs : List α} (inside : ∀ x ∈ xs, on x)
    (sorted : Sorted cmp xs) {i j k : Nat} (hij : i ≤ j) (hjk : j ≤ k) (hk : k < xs.length)
    (tie : tied cmp xs[i] xs[k] = true) : tied cmp xs[i] xs[j] = true := by
  have at_ : ∀ (l : Nat) (hl : l < xs.length), on xs[l] := by
    intro l hl
    exact inside _ (List.getElem_mem hl)
  have back : NotAfter cmp xs[k] xs[i] :=
    .of_eq (laws.consistent.swap (at_ i (by omega)) (at_ k hk) (tied_eq_true_iff.mp tie))
  exact laws.tied_of_notAfter (at_ i (by omega)) (at_ j (by omega)) (sorted.notAfter hij (by omega))
    (laws.consistent.trans (at_ j (by omega)) (at_ k hk) (at_ i (by omega))
      (sorted.notAfter hjk hk) back)

theorem eq_of_sorted (laws : Total cmp on) {xs ys : List α} (inside : ∀ x ∈ xs, on x)
    (same : Arranges cmp on xs ys) (first : Sorted cmp xs) (second : Sorted cmp ys) : xs = ys := by
  induction xs generalizing ys with
  | nil => exact (List.nil_perm.mp same.perm).symm
  | cons x xs ih =>
    cases ys with
    | nil => cases List.perm_nil.mp same.perm
    | cons y ys =>
      obtain ⟨hx, inside'⟩ := List.forall_mem_cons.mp inside
      have hy : on y := inside y (same.mem_iff.mpr (by simp))
      have tie : tied cmp x y = true := by
        refine laws.tied_of_notAfter hx hy ?_ ?_
        · rcases List.mem_cons.mp (same.mem_iff.mpr (List.mem_cons_self ..)) with rfl | later
          · exact .refl _
          · exact List.rel_of_pairwise_cons first later
        · rcases List.mem_cons.mp (same.mem_iff.mp (List.mem_cons_self ..)) with rfl | later
          · exact .refl _
          · exact List.rel_of_pairwise_cons second later
      have head := same.stable x hx
      rw [List.filter_cons_of_pos tie, List.filter_cons_of_pos (laws.tied_refl hx)] at head
      obtain rfl := (List.cons.inj head).1
      have rest : Arranges cmp on xs ys := by
        refine ⟨List.Perm.cons_inv same.perm, fun z hz => ?_⟩
        have whole := same.stable z hz
        by_cases member : tied cmp z y = true
        · rw [List.filter_cons_of_pos member, List.filter_cons_of_pos member] at whole
          exact (List.cons.inj whole).2
        · rwa [List.filter_cons_of_neg member, List.filter_cons_of_neg member] at whole
      rw [ih inside' rest (List.pairwise_cons.mp first).2 (List.pairwise_cons.mp second).2]

end Total

theorem Ends.ok_of_total (laws : Total cmp on) {β : Type} {wanted : β → Prop} {m : Except ε β}
    (h : Ends cmp on wanted m) : ∃ b, m = .ok b ∧ wanted b := by
  cases m with
  | ok b => exact ⟨b, rfl, h⟩
  | error e =>
    obtain ⟨x, y, hx, hy, fails⟩ := h
    obtain ⟨o, answer⟩ := laws.answers hx hy
    rw [answer] at fails
    cases fails

/-- Sorting the images of a list sorts the list, if comparing images is comparing the originals. -/
theorem Sorts.of_map {β : Type} {cmp' : β → β → Except ε Ordering} {on' : β → Prop} {f : β → α}
    {g : α → β} {xs : List β} {ys : List α} (left : ∀ x ∈ xs, g (f x) = x)
    (inside : ∀ x ∈ xs, on' x) (onImage : ∀ x, on' x → on (f x))
    (agree : ∀ x y, on' x → on' y → cmp (f x) (f y) = cmp' x y) (h : Sorts cmp on (xs.map f) ys) :
    (ys.map g).map f = ys ∧ Sorts cmp' on' xs (ys.map g) := by
  have images : ∀ y ∈ ys, ∃ x ∈ xs, f x = y := by
    intro y hy
    exact List.mem_map.mp (h.mem_iff.mpr hy)
  have right : ∀ y ∈ ys, f (g y) = y := by
    intro y hy
    obtain ⟨x, hx, rfl⟩ := images y hy
    rw [left x hx]
  have back : ∀ y ∈ ys, on' (g y) := by
    intro y hy
    obtain ⟨x, hx, rfl⟩ := images y hy
    rw [left x hx]
    exact inside x hx
  have originals : (xs.map f).map g = xs := by
    rw [List.map_map]
    exact (List.map_congr_left left).trans (List.map_id xs)
  have same : ∀ {x y}, on' x → on' y → tied cmp' x y = tied cmp (f x) (f y) := by
    intro x y hx hy
    unfold tied
    rw [agree x y hx hy]
  refine ⟨?_, ⟨?_, fun x hx => ?_⟩, ?_⟩
  · rw [List.map_map]
    exact (List.map_congr_left right).trans (List.map_id ys)
  · have moved := h.arranges.perm.map g
    rwa [originals] at moved
  · have whole := congrArg (List.map g) (h.arranges.stable (f x) (onImage x hx))
    rw [List.filter_map, List.map_map] at whole
    have first : (xs.filter (tied cmp (f x) ∘ f)) = xs.filter (tied cmp' x) :=
      List.filter_congr fun y hy => (same hx (inside y hy)).symm
    have second : (ys.map g).filter (tied cmp' x) = (ys.filter (tied cmp (f x))).map g := by
      rw [List.filter_map]
      congr 1
      apply List.filter_congr
      intro y hy
      rw [Function.comp_apply, same hx (back y hy), right y hy]
    rw [second, whole, first]
    exact (List.map_congr_left fun y hy => left y (List.mem_filter.mp hy).1).trans (List.map_id _)
  · refine List.pairwise_map.mpr (h.sorted.imp_of_mem fun hx hy notAfter => ?_)
    have answer := agree _ _ (back _ hx) (back _ hy)
    rw [right _ hx, right _ hy] at answer
    rw [NotAfter, ← answer]
    rcases notAfter with rfl | less
    · exact .inl rfl
    · exact .inr less

/-- A list has one stable sort. -/
theorem Sorts.unique (laws : Total cmp on) {xs ys zs : List α} (inside : ∀ x ∈ xs, on x)
    (first : Sorts cmp on xs ys) (second : Sorts cmp on xs zs) : ys = zs := by
  have same : Arranges cmp on ys zs :=
    ⟨first.arranges.perm.symm.trans second.arranges.perm, fun x hx =>
      (second.arranges.stable x hx).trans (first.arranges.stable x hx).symm⟩
  exact laws.eq_of_sorted (first.arranges.on_right inside) same first.sorted second.sorted

end Windowing.Sorting
