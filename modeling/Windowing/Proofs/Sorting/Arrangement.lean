import Windowing.Sorting.Insertion

/-!
Stable rearrangements under a comparison that may fail. A rearrangement moves an element past
another only if the two compare as strictly less, so elements found equal keep their order; `Ends`
carries one statement about a computation and both its ways to end, a result or the failure of a
comparison.
-/
namespace Windowing.Sorting

variable {α β γ ε : Type}

def Before (cmp : α → α → Except ε Ordering) (x y : α) : Prop := cmp x y = .ok .lt

/-- The same element, or one that compares as less or equal; an element need not compare to
itself. -/
def NotAfter (cmp : α → α → Except ε Ordering) (x y : α) : Prop :=
  x = y ∨ cmp x y = .ok .lt ∨ cmp x y = .ok .eq

def tied (cmp : α → α → Except ε Ordering) (x y : α) : Bool :=
  match cmp x y with
  | .ok .eq => true
  | _ => false

/-- On elements that satisfy `on` the comparison is a total preorder as far as it answers at all. -/
structure Consistent (cmp : α → α → Except ε Ordering) (on : α → Prop) : Prop where
  swap : ∀ {x y o}, on x → on y → cmp x y = .ok o → cmp y x = .ok o.swap
  trans : ∀ {x y z}, on x → on y → on z →
    NotAfter cmp x y → NotAfter cmp y z → NotAfter cmp x z

/-- A result as wanted, or the failure of a comparison of two elements that satisfy `on`. -/
def Ends (cmp : α → α → Except ε Ordering) (on : α → Prop) (wanted : β → Prop) : Except ε β → Prop
  | .ok b => wanted b
  | .error e => ∃ x y, on x ∧ on y ∧ cmp x y = .error e

/-- The second list holds the elements of the first, and those found equal in the same order. -/
structure Arranges (cmp : α → α → Except ε Ordering) (on : α → Prop) (xs ys : List α) : Prop where
  perm : xs.Perm ys
  stable : ∀ x, on x → ys.filter (tied cmp x) = xs.filter (tied cmp x)

abbrev Sorted (cmp : α → α → Except ε Ordering) (xs : List α) : Prop :=
  xs.Pairwise (NotAfter cmp)

structure Sorts (cmp : α → α → Except ε Ordering) (on : α → Prop) (xs ys : List α) : Prop where
  arranges : Arranges cmp on xs ys
  sorted : Sorted cmp ys

variable {cmp : α → α → Except ε Ordering} {on : α → Prop}

theorem Before.notAfter {x y : α} (h : Before cmp x y) : NotAfter cmp x y := .inr (.inl h)

theorem NotAfter.refl (x : α) : NotAfter cmp x x := .inl rfl

theorem NotAfter.of_eq {x y : α} (h : cmp x y = .ok .eq) : NotAfter cmp x y := .inr (.inr h)

theorem tied_eq_true_iff {x y : α} : tied cmp x y = true ↔ cmp x y = .ok .eq := by
  rw [tied]
  split
  · rename_i h
    simp [h]
  · rename_i h
    simpa using h

namespace Consistent

theorem not_before (laws : Consistent cmp on) {x y : α} (hx : on x) (hy : on y)
    (h : NotAfter cmp x y) : ¬ Before cmp y x := by
  intro before
  have back := laws.swap hy hx before
  rcases h with rfl | h | h
  · rw [before] at back
    cases back
  · rw [h] at back
    cases back
  · rw [h] at back
    cases back

theorem before_of_before_of_notAfter (laws : Consistent cmp on) {x y z : α} (hx : on x) (hy : on y)
    (hz : on z) (first : Before cmp x y) (second : NotAfter cmp y z) : Before cmp x z := by
  rcases laws.trans hx hy hz first.notAfter second with rfl | h | h
  · exact absurd first (laws.not_before hy hx second)
  · exact h
  · have back : NotAfter cmp z x := .of_eq (laws.swap hx hz h)
    exact absurd first (laws.not_before hy hx (laws.trans hy hz hx second back))

theorem before_of_notAfter_of_before (laws : Consistent cmp on) {x y z : α} (hx : on x) (hy : on y)
    (hz : on z) (first : NotAfter cmp x y) (second : Before cmp y z) : Before cmp x z := by
  rcases laws.trans hx hy hz first second.notAfter with rfl | h | h
  · exact absurd second (laws.not_before hx hy first)
  · exact h
  · have back : NotAfter cmp z x := .of_eq (laws.swap hx hz h)
    exact absurd second (laws.not_before hz hy (laws.trans hz hx hy back first))

theorem not_tied_of_before (laws : Consistent cmp on) {x y z : α} (hx : on x) (hy : on y)
    (hz : on z) (before : Before cmp y x) (first : tied cmp z x = true) : tied cmp z y = false := by
  apply Bool.eq_false_iff.mpr
  intro second
  have below : NotAfter cmp x z := .of_eq (laws.swap hz hx (tied_eq_true_iff.mp first))
  have above : NotAfter cmp z y := .of_eq (tied_eq_true_iff.mp second)
  exact laws.not_before hx hy (laws.trans hx hz hy below above) before

end Consistent

namespace Ends

@[simp] theorem ok_iff {wanted : β → Prop} {b : β} :
    Ends cmp on wanted (.ok b) ↔ wanted b := Iff.rfl

theorem error_iff {wanted : β → Prop} {e : ε} :
    Ends cmp on wanted (.error e) ↔ ∃ x y, on x ∧ on y ∧ cmp x y = .error e := Iff.rfl

theorem weaken {wanted enough : β → Prop} {m : Except ε β} (h : Ends cmp on wanted m)
    (weaker : ∀ b, wanted b → enough b) : Ends cmp on enough m := by
  cases m with
  | ok b => exact weaker b h
  | error e => exact h

theorem bind {wanted : β → Prop} {next : γ → Prop} {m : Except ε β} {f : β → Except ε γ}
    (first : Ends cmp on wanted m) (rest : ∀ b, wanted b → Ends cmp on next (f b)) :
    Ends cmp on next (m >>= f) := by
  cases m with
  | ok b => exact rest b first
  | error e => exact first

theorem map {wanted : γ → Prop} {m : Except ε β} {f : β → γ}
    (h : Ends cmp on (fun b => wanted (f b)) m) : Ends cmp on wanted (m.map f) := by
  cases m with
  | ok b => exact h
  | error e => exact h

/-- The two sides of every comparison made: strictly less, or not after the other way round. -/
theorem less (laws : Consistent cmp on) {x y : α} (hx : on x) (hy : on y) :
    Ends cmp on (fun b => if b then Before cmp x y else NotAfter cmp y x)
      (Sorting.less cmp x y) := by
  cases h : cmp x y with
  | error e =>
    simp only [Sorting.less, h, Except.map, error_iff]
    exact ⟨x, y, hx, hy, h⟩
  | ok o =>
    have back := laws.swap hx hy h
    simp only [Sorting.less, h, Except.map, ok_iff]
    cases o with
    | lt => exact h
    | eq => exact .of_eq back
    | gt => exact Before.notAfter back

end Ends

namespace Arranges

theorem refl (xs : List α) : Arranges cmp on xs xs := ⟨.refl xs, fun _ _ => rfl⟩

theorem trans {xs ys zs : List α} (first : Arranges cmp on xs ys) (second : Arranges cmp on ys zs) :
    Arranges cmp on xs zs :=
  ⟨first.perm.trans second.perm, fun x hx => (second.stable x hx).trans (first.stable x hx)⟩

theorem append {xs xs' ys ys' : List α} (left : Arranges cmp on xs xs')
    (right : Arranges cmp on ys ys') : Arranges cmp on (xs ++ ys) (xs' ++ ys') :=
  ⟨left.perm.append right.perm, fun x hx => by
    rw [List.filter_append, List.filter_append, left.stable x hx, right.stable x hx]⟩

theorem append_left (xs : List α) {ys ys' : List α} (h : Arranges cmp on ys ys') :
    Arranges cmp on (xs ++ ys) (xs ++ ys') := (refl xs).append h

theorem append_right {xs xs' : List α} (h : Arranges cmp on xs xs') (ys : List α) :
    Arranges cmp on (xs ++ ys) (xs' ++ ys) := h.append (refl ys)

theorem cons (x : α) {ys ys' : List α} (h : Arranges cmp on ys ys') :
    Arranges cmp on (x :: ys) (x :: ys') := h.append_left [x]

theorem mem_iff {xs ys : List α} (h : Arranges cmp on xs ys) {x : α} : x ∈ xs ↔ x ∈ ys :=
  h.perm.mem_iff

theorem length_eq {xs ys : List α} (h : Arranges cmp on xs ys) : xs.length = ys.length :=
  h.perm.length_eq

theorem on_right {xs ys : List α} (h : Arranges cmp on xs ys) (inside : ∀ x ∈ xs, on x) :
    ∀ y ∈ ys, on y := fun y hy => inside y (h.mem_iff.mpr hy)

/-- Elements selected from both lists. -/
theorem filter {xs ys : List α} (p : α → Bool) (h : Arranges cmp on xs ys) :
    Arranges cmp on (xs.filter p) (ys.filter p) := by
  refine ⟨h.perm.filter p, fun x hx => ?_⟩
  have turned : ∀ zs : List α, (zs.filter p).filter (tied cmp x) =
      (zs.filter (tied cmp x)).filter p :=
    fun zs => by simp only [List.filter_filter, Bool.and_comm]
  rw [turned, turned, h.stable x hx]

/-- Neighbouring blocks may change places if all of the later one goes strictly first. -/
theorem swap (laws : Consistent cmp on) {xs ys : List α} (hx : ∀ x ∈ xs, on x) (hy : ∀ y ∈ ys, on y)
    (before : ∀ x ∈ xs, ∀ y ∈ ys, Before cmp y x) : Arranges cmp on (xs ++ ys) (ys ++ xs) := by
  refine ⟨List.perm_append_comm, fun z hz => ?_⟩
  rw [List.filter_append, List.filter_append]
  by_cases none : xs.filter (tied cmp z) = []
  · simp [none]
  · obtain ⟨x, member⟩ := List.exists_mem_of_ne_nil _ none
    obtain ⟨hx', tie⟩ := List.mem_filter.mp member
    have empty : ys.filter (tied cmp z) = [] := by
      apply List.filter_eq_nil_iff.mpr
      intro y hy'
      simp [laws.not_tied_of_before (hx x hx') (hy y hy') hz (before x hx' y hy') tie]
    simp [empty]

/-- A strictly descending run is sorted by reversing it. -/
theorem reverse (laws : Consistent cmp on) {xs : List α} (inside : ∀ x ∈ xs, on x)
    (descends : xs.Pairwise fun x y => Before cmp y x) : Arranges cmp on xs xs.reverse := by
  induction xs with
  | nil => exact refl []
  | cons x xs ih =>
    obtain ⟨less, descends⟩ := List.pairwise_cons.mp descends
    obtain ⟨hx, inside⟩ := List.forall_mem_cons.mp inside
    have moved : Arranges cmp on ([x] ++ xs) (xs ++ [x]) :=
      swap laws (by simpa using hx) inside (by simpa using less)
    rw [List.reverse_cons]
    exact moved.trans ((ih inside descends).append_right [x])

end Arranges

namespace Sorts

theorem mem_iff {xs ys : List α} (h : Sorts cmp on xs ys) {x : α} : x ∈ xs ↔ x ∈ ys :=
  h.arranges.mem_iff

theorem length_eq {xs ys : List α} (h : Sorts cmp on xs ys) : xs.length = ys.length :=
  h.arranges.length_eq

theorem of_arranges {xs ys zs : List α} (first : Arranges cmp on xs ys) (h : Sorts cmp on ys zs) :
    Sorts cmp on xs zs := ⟨first.trans h.arranges, h.sorted⟩

/-- What is selected from a list is sorted by selecting it from the sorted list. -/
theorem filter {xs ys : List α} (p : α → Bool) (h : Sorts cmp on xs ys) :
    Sorts cmp on (xs.filter p) (ys.filter p) := ⟨h.arranges.filter p, h.sorted.filter p⟩

end Sorts

end Windowing.Sorting
