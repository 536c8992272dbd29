import Windowing.Proofs.Sorting.Run
import Windowing.Sorting.Quick

/-!
Sorting by partition. Which element becomes the pivot is irrelevant: parting a list by any test that
puts the elements of one part strictly before those of the other is a stable rearrangement.
-/
namespace Windowing.Sorting

variable {α ε : Type} {cmp : α → α → Except ε Ordering} {on : α → Prop}

theorem median_ends (laws : Consistent cmp on) {xs : List α} (inside : ∀ x ∈ xs, on x)
    (a b c : Fin xs.length) : Ends cmp on (fun _ => True) (median cmp xs a b c) := by
  have at_ : ∀ i : Fin xs.length, on xs[i] := by
    intro i
    exact inside _ (List.getElem_mem i.isLt)
  rw [median]
  apply (Ends.less laws (at_ a) (at_ b)).bind
  intro x _
  apply (Ends.less laws (at_ a) (at_ c)).bind
  intro y _
  split
  · exact (Ends.less laws (at_ b) (at_ c)).bind fun _ _ => trivial
  · exact trivial

theorem representative_ends (laws : Consistent cmp on) {xs : List α} (inside : ∀ x ∈ xs, on x)
    (start length : Nat) (enough : 8 ≤ length) (within : start + length ≤ xs.length) :
    Ends cmp on (fun _ => True) (representative cmp xs start length enough within) := by
  induction length using Nat.strongRecOn generalizing start with
  | ind length ih =>
    rw [representative]
    split
    · apply (ih _ (by omega) _ _ _).bind
      intro a _
      apply (ih _ (by omega) _ _ _).bind
      intro b _
      apply (ih _ (by omega) _ _ _).bind
      intro c _
      exact median_ends laws inside a b c
    · exact median_ends laws inside _ _ _

/-- The parts of a list: what is low and what is high, each in order. -/
structure Parts (cmp : α → α → Except ε Ordering) (on low high : α → Prop) (xs : List α)
    (p : List α × List α) : Prop where
  kept : ∀ x ∈ p.1, low x
  left : ∀ x ∈ p.2, high x
  arranges : Arranges cmp on xs (p.1 ++ p.2)

namespace Parts

variable {low high : α → Prop}

theorem append (laws : Consistent cmp on)
    (apart : ∀ x y, on x → on y → low x → high y → Before cmp x y) {xs ys : List α}
    {p q : List α × List α} (hx : ∀ x ∈ xs, on x) (hy : ∀ y ∈ ys, on y)
    (first : Parts cmp on low high xs p) (second : Parts cmp on low high ys q) :
    Parts cmp on low high (xs ++ ys) (p.1 ++ q.1, p.2 ++ q.2) := by
  refine ⟨List.forall_mem_append.mpr ⟨first.kept, second.kept⟩,
    List.forall_mem_append.mpr ⟨first.left, second.left⟩, ?_⟩
  have on_left : ∀ x ∈ p.2, on x := by
    intro x member
    exact first.arranges.on_right hx x (List.mem_append_right _ member)
  have on_kept : ∀ x ∈ q.1, on x := by
    intro x member
    exact second.arranges.on_right hy x (List.mem_append_left _ member)
  have moved : Arranges cmp on (p.2 ++ q.1) (q.1 ++ p.2) :=
    .swap laws on_left on_kept fun x hx' y hy' =>
      apart y x (on_kept y hy') (on_left x hx') (second.kept y hy') (first.left x hx')
  apply (first.arranges.append second.arranges).trans
  simpa only [List.append_assoc] using (moved.append_left p.1).append_right q.2

theorem singleton {x : α} {b : Bool} (decided : if b then low x else high x) :
    Parts cmp on low high [x] (if b then ([x], []) else ([], [x])) := by
  cases b with
  | true => exact ⟨by simpa using decided, by simp, by simpa using .refl _⟩
  | false => exact ⟨by simp, by simpa using decided, by simpa using .refl _⟩

end Parts

variable {low high : α → Prop}

theorem sift_ends (laws : Consistent cmp on)
    (apart : ∀ x y, on x → on y → low x → high y → Before cmp x y) {test : α → Except ε Bool}
    {xs : List α} (inside : ∀ x ∈ xs, on x)
    (decides : ∀ x, on x → Ends cmp on (fun b => if b then low x else high x) (test x)) :
    Ends cmp on (Parts cmp on low high xs) (sift test xs) := by
  induction xs with
  | nil => exact ⟨by simp, by simp, .refl _⟩
  | cons x xs ih =>
    obtain ⟨hx, inside⟩ := List.forall_mem_cons.mp inside
    rw [sift]
    apply (decides x hx).bind
    intro passes decided
    apply (ih inside).bind
    intro p parts
    have one : Parts cmp on low high [x] (if passes then ([x], []) else ([], [x])) :=
      .singleton decided
    have whole := one.append laws apart (by simpa using hx) inside parts
    cases passes <;> exact whole

theorem siftAround_ends (laws : Consistent cmp on)
    (apart : ∀ x y, on x → on y → low x → high y → Before cmp x y) {test : α → Except ε Bool}
    {xs : List α} (inside : ∀ x ∈ xs, on x) {pivot : Fin xs.length} {passes : Bool}
    (side : if passes then low (xs.get pivot) else high (xs.get pivot))
    (decides : ∀ x, on x → Ends cmp on (fun b => if b then low x else high x) (test x)) :
    Ends cmp on (Parts cmp on low high xs) (siftAround xs pivot passes test) := by
  have before : ∀ x ∈ xs.take pivot, on x := by
    intro x hx
    exact inside x (List.mem_of_mem_take hx)
  have after : ∀ x ∈ xs.drop (pivot + 1), on x := by
    intro x hx
    exact inside x (List.mem_of_mem_drop hx)
  have at_ : ∀ x ∈ [xs.get pivot], on x := by simpa using inside _ (List.getElem_mem pivot.isLt)
  have whole : xs.take pivot ++ ([xs.get pivot] ++ xs.drop (pivot + 1)) = xs := by simp
  rw [siftAround]
  apply (sift_ends laws apart before decides).bind
  intro p first
  apply (sift_ends laws apart after decides).bind
  intro q second
  have one : Parts cmp on low high [xs.get pivot]
      (if passes then ([xs.get pivot], []) else ([], [xs.get pivot])) :=
    .singleton side
  have rest := one.append laws apart at_ after second
  have parts := first.append laws apart before (List.forall_mem_append.mpr ⟨at_, after⟩) rest
  rw [whole] at parts
  cases passes <;> exact parts

theorem sorter_none : Sorter cmp on none := fun _ absent => by cases absent

/-- Sorting both parts sorts the whole. -/
theorem Sorts.parts {xs lower higher lower' higher' : List α}
    (parts : Arranges cmp on xs (lower ++ higher)) (first : Sorts cmp on lower lower')
    (second : Sorts cmp on higher higher') (apart : ∀ x ∈ lower, ∀ y ∈ higher, NotAfter cmp x y) :
    Sorts cmp on xs (lower' ++ higher') := by
  refine ⟨parts.trans (first.arranges.append second.arranges),
    List.pairwise_append.mpr ⟨first.sorted, second.sorted, fun x hx y hy => ?_⟩⟩
  exact apart x (first.mem_iff.mpr hx) y (second.mem_iff.mpr hy)

/-- With nothing less than the pivot, what is not greater is equal to it and in its place. -/
theorem partEqual_ends (laws : Consistent cmp on) {xs : List α} (inside : ∀ x ∈ xs, on x)
    {pivot : Fin xs.length} (least : ∀ x ∈ xs, NotAfter cmp (xs.get pivot) x)
    {sort : List α → Except ε (List α)}
    (sorts : ∀ ys, (∀ y ∈ ys, on y) → Ends cmp on (Sorts cmp on ys) (sort ys)) :
    Ends cmp on (Sorts cmp on xs) (do
      let (equal, greater) ← siftAround xs pivot true fun x => (less cmp (xs.get pivot) x).map not
      return equal ++ (← sort greater)) := by
  have onPivot : on (xs.get pivot) := inside _ (List.getElem_mem pivot.isLt)
  have sifted :
      Ends cmp on (Parts cmp on (NotAfter cmp · (xs.get pivot)) (Before cmp (xs.get pivot)) xs)
      (siftAround xs pivot true fun x => (less cmp (xs.get pivot) x).map not) := by
    refine siftAround_ends laws
      (fun x y hx hy low high => laws.before_of_notAfter_of_before hx onPivot hy low high) inside
      (by simpa using least _ (List.getElem_mem pivot.isLt)) fun x hx => ?_
    refine .map ((Ends.less laws onPivot hx).weaken fun b decided => ?_)
    cases b <;> exact decided
  apply sifted.bind
  intro p parts
  have inside' := parts.arranges.on_right inside
  have onEqual : ∀ x ∈ p.1, on x := by
    intro x hx
    exact inside' x (List.mem_append_left _ hx)
  have onGreater : ∀ x ∈ p.2, on x := by
    intro x hx
    exact inside' x (List.mem_append_right _ hx)
  have equal : Sorted cmp p.1 := List.pairwise_of_forall_mem_list fun x hx y hy =>
    laws.trans (onEqual x hx) onPivot (onEqual y hy) (parts.kept x hx)
      (least y (parts.arranges.mem_iff.mpr (List.mem_append_left _ hy)))
  apply (sorts p.2 onGreater).bind
  intro greater sorted
  exact .parts parts.arranges ⟨.refl _, equal⟩ sorted fun x hx y hy =>
    laws.trans (onEqual x hx) onPivot (onGreater y hy) (parts.kept x hx) (parts.left y hy).notAfter

def Bounds (cmp : α → α → Except ε Ordering) (on : α → Prop) (bound : Option α) (xs : List α) :
    Prop :=
  ∀ b, bound = some b → on b ∧ ∀ x ∈ xs, NotAfter cmp b x

theorem bounds_none {xs : List α} : Bounds cmp on none xs := fun _ absent => by cases absent

/-- The elements less than the pivot and the others are sorted apart, unless there are none less. -/
theorem sortParts_ends (laws : Consistent cmp on) {xs : List α} (inside : ∀ x ∈ xs, on x)
    {pivot : Fin xs.length} {bound : Option α} (least : Bounds cmp on bound xs)
    {sort : Option α → List α → Except ε (List α)}
    (sorts : ∀ bound ys, (∀ y ∈ ys, on y) → Bounds cmp on bound ys →
      Ends cmp on (Sorts cmp on ys) (sort bound ys)) {p : List α × List α}
    (parts : Parts cmp on (Before cmp · (xs.get pivot)) (NotAfter cmp (xs.get pivot)) xs p) :
    Ends cmp on (Sorts cmp on xs)
      (if p.1.isEmpty then do
        let (equal, greater) ← siftAround xs pivot true fun x => (less cmp (xs.get pivot) x).map not
        return equal ++ (← sort none greater)
      else do
        let rest ← sort (some (xs.get pivot)) p.2
        return (← sort bound p.1) ++ rest) := by
  have onPivot : on (xs.get pivot) := inside _ (List.getElem_mem pivot.isLt)
  have inside' := parts.arranges.on_right inside
  split
  · rename_i empty
    refine partEqual_ends laws inside (fun x hx => ?_) fun ys onYs => sorts none ys onYs bounds_none
    have member := parts.arranges.mem_iff.mp hx
    rw [List.isEmpty_iff.mp empty] at member
    exact parts.left x member
  · have onLesser : ∀ x ∈ p.1, on x := fun x hx => inside' x (List.mem_append_left _ hx)
    have onRest : ∀ x ∈ p.2, on x := by
      intro x hx
      exact inside' x (List.mem_append_right _ hx)
    have boundRest : Bounds cmp on (some (xs.get pivot)) p.2 := by
      intro b hb
      obtain rfl := Option.some.inj hb
      exact ⟨onPivot, parts.left⟩
    have boundLesser : Bounds cmp on bound p.1 := by
      intro b hb
      exact ⟨(least b hb).1,
        fun x hx => (least b hb).2 x (parts.arranges.mem_iff.mpr (List.mem_append_left _ hx))⟩
    apply (sorts _ _ onRest boundRest).bind
    intro higher second
    apply (sorts _ _ onLesser boundLesser).bind
    intro lower first
    exact .parts parts.arranges first second fun x hx y hy =>
      (laws.before_of_before_of_notAfter (onLesser x hx) onPivot (onRest y hy) (parts.kept x hx)
        (parts.left y hy)).notAfter

theorem byPartition_ends (laws : Consistent cmp on) (limit : Nat) {bound : Option α} {xs : List α}
    (inside : ∀ x ∈ xs, on x) (least : Bounds cmp on bound xs) :
    Ends cmp on (Sorts cmp on xs) (byPartition cmp limit bound xs) := by
  induction limit generalizing bound xs with
  | zero =>
    rw [byPartition]
    split
    · exact sortShort_ends laws inside
    · exact byRuns_ends laws sorter_none inside
  | succ limit ih =>
    rw [byPartition]
    split
    · exact sortShort_ends laws inside
    apply (representative_ends laws inside _ _ _ _).bind
    intro pivot _
    have onPivot : on (xs.get pivot) := inside _ (List.getElem_mem pivot.isLt)
    have finish :=
      @sortParts_ends α ε cmp on laws xs inside pivot bound least (byPartition cmp limit)
      fun _ _ => ih
    have sifted :
        Ends cmp on (Parts cmp on (Before cmp · (xs.get pivot)) (NotAfter cmp (xs.get pivot)) xs)
        (siftAround xs pivot false fun x => less cmp x (xs.get pivot)) :=
      siftAround_ends laws
        (fun x y hx hy low high => laws.before_of_before_of_notAfter hx onPivot hy low high) inside
        (NotAfter.refl _) fun x hx => Ends.less laws hx onPivot
    have fresh := sifted.bind fun p parts => finish parts
    have again : (∀ x ∈ xs, NotAfter cmp (xs.get pivot) x) →
        Parts cmp on (Before cmp · (xs.get pivot)) (NotAfter cmp (xs.get pivot)) xs ([], xs) :=
      fun least => ⟨by simp, least, .refl _⟩
    cases bound with
    | none => exact fresh
    | some b =>
      obtain ⟨onBound, below⟩ := least b rfl
      have compared : Ends cmp on
          (fun repeated => repeated = true → ∀ x ∈ xs, NotAfter cmp (xs.get pivot) x)
          ((less cmp b (xs.get pivot)).map not) := by
        refine .map ((Ends.less laws onBound onPivot).weaken fun less decided => ?_)
        cases less with
        | true => simp
        | false => exact fun _ x hx => laws.trans onPivot onBound (inside x hx) decided (below x hx)
      apply compared.bind
      intro repeated same
      cases repeated with
      | true => exact finish (again (same rfl))
      | false => exact fresh

end Windowing.Sorting
