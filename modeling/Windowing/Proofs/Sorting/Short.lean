import Windowing.Proofs.Sorting.Insertion
import Windowing.Proofs.Sorting.Merge
import Windowing.Sorting.Short

/-!
Short lists: four elements are put in order by five comparisons, the rest of each half is inserted
behind them, and the halves, which differ by at most one in length, are merged from both ends.
-/
namespace Windowing.Sorting

variable {α ε : Type} {cmp : α → α → Except ε Ordering} {on : α → Prop}

/-- The pair in order, given which of the two goes first. -/
theorem Sorts.pair (laws : Consistent cmp on) {x y : α} (hx : on x) (hy : on y) {exchange : Bool}
    (decided : if exchange then Before cmp y x else NotAfter cmp x y) {p : α × α}
    (hp : (if exchange = true then (y, x) else (x, y)) = p) : Sorts cmp on [x, y] [p.1, p.2] := by
  subst hp
  cases exchange with
  | true =>
    have moved : Arranges cmp on ([x] ++ [y]) ([y] ++ [x]) :=
      .swap laws (by simpa using hx) (by simpa using hy) (by simpa using decided)
    refine ⟨moved, ?_⟩
    simpa using Before.notAfter decided
  | false => exact ⟨.refl _, by simpa using decided⟩

/-- The least and the greatest of two pairs in order enclose what is left. -/
theorem Arranges.enclose (laws : Consistent cmp on) {a b c d : α}
    (inside : ∀ x ∈ [a, b, c, d], on x) (low : NotAfter cmp a b) (high : NotAfter cmp c d)
    {first last : Bool} (least : if first then Before cmp c a else NotAfter cmp a c)
    (greatest : if last then Before cmp d b else NotAfter cmp b d) {left right : α}
    (hl : (if first = true then a else if last = true then c else b) = left)
    (hr : (if last = true then d else if first = true then b else c) = right) :
    Arranges cmp on [a, b, c, d] [if first then c else a, left, right, if last then b else d] ∧
      (∀ x ∈ [left, right], NotAfter cmp (if first then c else a) x) ∧
      (∀ x ∈ [left, right], NotAfter cmp x (if last then b else d)) ∧
      NotAfter cmp (if first then c else a) (if last then b else d) := by
  subst hl hr
  simp only [List.forall_mem_cons, List.not_mem_nil, false_imp_iff, implies_true,
    and_true] at inside
  obtain ⟨ha, hb, hc, hd⟩ := inside
  have below : ∀ {x y z}, on x → on y → on z → NotAfter cmp x y → NotAfter cmp y z →
      NotAfter cmp x z :=
    laws.trans
  cases first with
  | false =>
    cases last with
    | false =>
      simp only [Bool.false_eq_true, if_false] at least greatest ⊢
      refine ⟨.refl _, ?_, ?_, below ha hb hd low greatest⟩
      · simpa using ⟨low, least⟩
      · simpa using ⟨greatest, high⟩
    | true =>
      simp only [Bool.false_eq_true, if_false, if_true] at least greatest ⊢
      have moved : Arranges cmp on ([b] ++ [c, d]) ([c, d] ++ [b]) :=
        .swap laws (by simpa using hb) (by simpa using ⟨hc, hd⟩)
          (by simpa using ⟨laws.before_of_notAfter_of_before hc hd hb high greatest, greatest⟩)
      refine ⟨moved.cons a, ?_, ?_, low⟩
      · simpa using ⟨least, below ha hc hd least high⟩
      · simpa using ⟨below hc hd hb high greatest.notAfter, greatest.notAfter⟩
  | true =>
    have moved : Before cmp c b → Arranges cmp on ([a, b] ++ [c, d]) (c :: ([a, b] ++ [d])) :=
      fun before => .takeLater laws (by simpa using ⟨ha, hb⟩) hc (by simpa using ⟨least, before⟩)
    have before := laws.before_of_before_of_notAfter hc ha hb least low
    cases last with
    | false =>
      simp only [Bool.false_eq_true, if_false, if_true] at least greatest ⊢
      refine ⟨moved before, ?_, ?_, high⟩
      · simpa using ⟨least.notAfter, before.notAfter⟩
      · simpa using ⟨below ha hb hd low greatest, greatest⟩
    | true =>
      simp only [if_true] at least greatest ⊢
      have exchanged : Arranges cmp on ([b] ++ [d]) ([d] ++ [b]) :=
        .swap laws (by simpa using hb) (by simpa using hd)
          (by simpa using greatest)
      refine ⟨(moved before).trans ((exchanged.cons a).cons c), ?_, ?_, before.notAfter⟩
      · simpa using ⟨least.notAfter, high⟩
      · simpa using ⟨low, greatest.notAfter⟩

theorem sortFour_ends (laws : Consistent cmp on) {a b c d : α} (inside : ∀ x ∈ [a, b, c, d], on x) :
    Ends cmp on (Sorts cmp on [a, b, c, d]) (sortFour cmp a b c d) := by
  have ha := inside a (by simp)
  have hb := inside b (by simp)
  have hc := inside c (by simp)
  have hd := inside d (by simp)
  rw [sortFour]
  apply (Ends.less laws hb ha).bind
  intro exchange decided
  obtain ⟨⟨a', b'⟩, hp⟩ : ∃ p, (if exchange = true then (b, a) else (a, b)) = p := ⟨_, rfl⟩
  have low := Sorts.pair laws ha hb decided hp
  rw [hp]
  apply (Ends.less laws hd hc).bind
  intro exchange decided
  obtain ⟨⟨c', d'⟩, hq⟩ : ∃ p, (if exchange = true then (d, c) else (c, d)) = p := ⟨_, rfl⟩
  have high := Sorts.pair laws hc hd decided hq
  rw [hq]
  have pairs := low.arranges.append high.arranges
  have inside' := pairs.on_right inside
  have ha' := inside' a' (by simp)
  have hb' := inside' b' (by simp)
  have hc' := inside' c' (by simp)
  have hd' := inside' d' (by simp)
  apply (Ends.less laws hc' ha').bind
  intro first least
  apply (Ends.less laws hd' hb').bind
  intro last greatest
  obtain ⟨left, hl⟩ : ∃ x, (if first = true then a' else if last = true then c' else b') = x :=
    ⟨_, rfl⟩
  obtain ⟨right, hr⟩ : ∃ x, (if last = true then d' else if first = true then b' else c') = x :=
    ⟨_, rfl⟩
  obtain ⟨moved, above, below, ends⟩ := Arranges.enclose laws inside' (by simpa using low.sorted)
    (by simpa using high.sorted) least greatest hl hr
  have inside'' := moved.on_right inside'
  dsimp only
  rw [hl, hr]
  refine (Ends.less laws (inside'' right (by simp)) (inside'' left (by simp))).bind
    fun exchange decided => ?_
  obtain ⟨⟨left', right'⟩, hs⟩ : ∃ p,
      (if exchange = true then (right, left) else (left, right)) = p :=
    ⟨_, rfl⟩
  have middle := Sorts.pair laws (inside'' left (by simp)) (inside'' right (by simp)) decided hs
  rw [hs]
  have enclosed : Sorts cmp on ([left, right] ++ [if last then b' else d'])
      ([left', right'] ++ [if last then b' else d']) := .concat (.refl _) below middle
  refine .of_arranges (pairs.trans moved) (.cons (.refl _) ?_ enclosed)
  simpa using ⟨above left (by simp), above right (by simp), ends⟩

theorem sortBeginning_ends (laws : Consistent cmp on) (short : Bool) {xs : List α}
    (inside : ∀ x ∈ xs, on x) :
    Ends cmp on (fun r => r.length ≤ xs.length ∧ Sorts cmp on (xs.take r.length) r)
      (sortBeginning cmp short xs) := by
  unfold sortBeginning
  split
  · rename_i a b c d rest
    split
    · exact ⟨by simp, .refl _, List.pairwise_singleton _ _⟩
    · refine (sortFour_ends laws fun x hx => inside x (List.mem_append_left rest hx)).weaken
        fun r sorted => ?_
      have four : r.length = 4 := sorted.length_eq.symm
      rw [four]
      exact ⟨by simp, sorted⟩
  · cases xs with
    | nil => exact ⟨Nat.le_refl 0, .refl _, .nil⟩
    | cons x rest => exact ⟨by simp, .refl _, List.pairwise_singleton _ _⟩

theorem sortHalf_ends (laws : Consistent cmp on) {xs : List α}
    (inside : ∀ x ∈ xs, on x) {start : List α}
    (begun : start.length ≤ xs.length ∧ Sorts cmp on (xs.take start.length) start) :
    Ends cmp on (Sorts cmp on xs) (insertAll cmp start (xs.drop start.length)) := by
  obtain ⟨-, sorted⟩ := begun
  have insideStart : ∀ x ∈ start, on x := sorted.arranges.on_right fun x hx =>
    inside x (List.mem_of_mem_take hx)
  refine (insertAll_ends laws _ insideStart (fun x hx => inside x (List.mem_of_mem_drop hx))
    sorted.sorted).weaken fun r whole => ?_
  have moved := sorted.arranges.append_right (xs.drop start.length)
  rw [List.take_append_drop] at moved
  exact .of_arranges moved whole

theorem sortShort_ends (laws : Consistent cmp on) {xs : List α} (inside : ∀ x ∈ xs, on x) :
    Ends cmp on (Sorts cmp on xs) (sortShort cmp xs) := by
  have insideLeft : ∀ x ∈ xs.take (xs.length / 2), on x := by
    intro x hx
    exact inside x (List.mem_of_mem_take hx)
  have insideRight : ∀ x ∈ xs.drop (xs.length / 2), on x := by
    intro x hx
    exact inside x (List.mem_of_mem_drop hx)
  rw [sortShort]
  apply (sortBeginning_ends laws _ insideLeft).bind
  intro leftStart leftBegun
  apply (sortBeginning_ends laws _ insideRight).bind
  intro rightStart rightBegun
  apply (sortHalf_ends laws insideLeft leftBegun).bind
  intro left leftSorted
  apply (sortHalf_ends laws insideRight rightBegun).bind
  intro right rightSorted
  have leftLength := leftSorted.length_eq
  have rightLength := rightSorted.length_eq
  rw [List.length_take] at leftLength
  rw [List.length_drop] at rightLength
  have halves := leftSorted.arranges.append rightSorted.arranges
  rw [List.take_append_drop] at halves
  exact (mergeBoth_ends laws (leftSorted.arranges.on_right insideLeft)
    (rightSorted.arranges.on_right insideRight) leftSorted.sorted rightSorted.sorted
    (by omega) (by omega)).weaken fun r merged => .of_arranges halves merged

end Windowing.Sorting
