import Windowing.Proofs.Peers
import Windowing.Proofs.Sorting.Joining

/-!
The search for the end of a run of peers against a scan of its range, row by row. Where the rows
that compare equal to the first one stand in front of the others, as they do in a sorted range, both
find the same end. Whatever is compared, the search looks at no row outside its range.
-/
namespace Windowing.Peers

variable {α ε : Type} {cmp : α → α → Except Defect Ordering} {rows : Array α} {start stop : Nat}

def equalAt (cmp : α → α → Except Defect Ordering) (rows : Array α) (start k : Nat) : Bool :=
  match rows[start]?, rows[k]? with
  | some first, some row => Sorting.tied cmp first row
  | _, _ => false

/-- The first position after `start` whose row does not compare equal to row `start`, and `stop` if
there is none before. -/
def scanEnd (cmp : α → α → Except Defect Ordering) (rows : Array α) (start stop : Nat) : Nat :=
  ((List.range' (start + 1) (stop - (start + 1))).find?
    fun k => !equalAt cmp rows start k).getD stop

def Answers (cmp : α → α → Except Defect Ordering) (rows : Array α) (start stop : Nat) : Prop :=
  ∀ first, rows[start]? = some first → ∀ k row, start < k → k < stop → rows[k]? = some row →
    ∃ o, cmp first row = .ok o

/-- After its first row, those that compare equal to it stand in front of the others. -/
def Leads (cmp : α → α → Except Defect Ordering) (rows : Array α) (start stop : Nat) : Prop :=
  ∀ j k, start < j → j ≤ k → k < stop → equalAt cmp rows start k = true →
    equalAt cmp rows start j = true

theorem equalAt_eq (apart : start < rows.size) {k : Nat} (inside : k < rows.size) :
    equalAt cmp rows start k = Sorting.tied cmp rows[start] rows[k] := by
  rw [equalAt, Array.getElem?_eq_getElem apart, Array.getElem?_eq_getElem inside]

theorem isPeerOf_eq (within : stop ≤ rows.size) (answers : Answers cmp rows start stop) {k : Nat}
    (above : start < k) (below : k < stop) :
    isPeerOf cmp rows rows[start] k = .ok (equalAt cmp rows start k) := by
  have inside : k < rows.size := by omega
  obtain ⟨o, answer⟩ := answers _ (Array.getElem?_eq_getElem (by omega)) k _ above below
    (Array.getElem?_eq_getElem inside)
  rw [isPeerOf, rowAt_of_lt inside, ok_bind, answer, ok_bind, equalAt_eq (by omega) inside,
    Sorting.tied, answer]
  cases o <;> rfl

theorem scanEnd_eq {e : Nat} (after : start < e) (inside : e ≤ stop)
    (peers : ∀ k, start < k → k < stop → (equalAt cmp rows start k = true ↔ k < e)) :
    scanEnd cmp rows start stop = e := by
  rcases Nat.lt_or_eq_of_le inside with before | rfl
  · have found : (List.range' (start + 1) (stop - (start + 1))).find?
        (fun k => !equalAt cmp rows start k) =
        some e := by
      refine List.find?_range'_eq_some.mpr ⟨?_, ?_, fun k above below => ?_⟩
      · have := peers e after before
        simpa using this
      · exact List.mem_range'_1.mpr (by omega)
      · simpa using (peers k above (by omega)).mpr below
    rw [scanEnd, found, Option.getD_some]
  · have absent : (List.range' (start + 1) (e - (start + 1))).find?
        (fun k => !equalAt cmp rows start k) =
        none := by
      refine List.find?_eq_none.mpr fun k member => ?_
      obtain ⟨above, below⟩ := List.mem_range'_1.mp member
      simpa using (peers k above (by omega)).mpr (by omega)
    rw [scanEnd, absent, Option.getD_none]

/-- The search asks about rows inside its range only. -/
theorem search_congr {isPeer other : Nat → Except ε Bool} {low high : Nat}
    (same : ∀ k, low < k → k < high → isPeer k = other k) :
    search isPeer low high = search other low high := by
  induction length : high - low using Nat.strongRecOn generalizing low high with
  | ind length ih =>
    rw [search, search]
    split
    · have middle : low < low + (high - low) / 2 ∧ low + (high - low) / 2 < high := by omega
      generalize low + (high - low) / 2 = m at middle
      dsimp only
      have right :=
        ih (high - (m + 1)) (by omega) (fun k above below => same k (by omega) below) rfl
      have left := ih (m - low) (by omega) (fun k above below => same k above (by omega)) rfl
      rw [same m middle.1 middle.2, left]
      cases other m with
      | error e => rfl
      | ok hit =>
        cases hit with
        | false => rfl
        | true =>
          simp only [ok_bind, if_true]
          split
          · rfl
          · rw [same (m + 1) (by omega) (by omega), right]
    · rfl

theorem runEnd_local {order : Option (α → α → Except Defect Ordering)} {others : Array α}
    (apart : start < stop) (within : stop ≤ rows.size)
    (same : ∀ k, start ≤ k → k < stop → others[k]? = rows[k]?) :
    runEnd order others start stop = runEnd order rows start stop := by
  have found : ∀ k, start ≤ k → k < stop → rowAt others k = rowAt rows k := by
    intro k above below
    have inside : rows[k]? = some rows[k] := Array.getElem?_eq_getElem (by omega)
    rw [rowAt, rowAt, same k above below, inside]
  cases order with
  | none => rfl
  | some cmp =>
    have peers : ∀ first k, start < k → k < stop →
        isPeerOf cmp others first k = isPeerOf cmp rows first k := by
      intro first k above below
      rw [isPeerOf, isPeerOf, found k (by omega) below]
    simp only [runEnd]
    split
    · rfl
    · split
      · rfl
      · rw [found start (Nat.le_refl start) apart]
        refine congrArg (rowAt rows start >>= ·) (funext fun first => ?_)
        rw [peers first (start + 1) (by omega) (by omega),
          search_congr fun k above below => peers first k (by omega) below]

/-- Whatever the comparison answers, the search finds an end. -/
theorem exists_runEnd (apart : start < stop) (within : stop ≤ rows.size)
    (answers : Answers cmp rows start stop) :
    ∃ e, runEnd (some cmp) rows start stop = .ok e := by
  have settled :
      Settles (isPeerOf cmp rows rows[start]) start stop (runEnd (some cmp) rows start stop) :=
    runEnd_settles (Array.getElem?_eq_getElem (by omega)) apart
  generalize runEnd (some cmp) rows start stop = found at settled ⊢
  cases settled with
  | ends => exact ⟨_, rfl⟩
  | stops above below fails =>
    rw [isPeerOf_eq within answers above below] at fails
    cases fails

/-- Where all rows can be compared, the search ends inside its range. -/
theorem runEnd_ok {order : Option (α → α → Except Defect Ordering)} (apart : start < stop)
    (within : stop ≤ rows.size)
    (answers : ∀ a ∈ rows.toList, ∀ b ∈ rows.toList, ∃ o, (order.getD Sorting.ties) a b = .ok o) :
    ∃ e, runEnd order rows start stop = .ok e ∧ start < e ∧ e ≤ stop := by
  have ends : ∃ e, runEnd order rows start stop = .ok e := by
    cases order with
    | none => exact ⟨stop, rfl⟩
    | some cmp =>
      refine exists_runEnd apart within fun first here k row _ _ there => ?_
      exact answers first (Array.mem_toList_iff.mpr (Array.mem_of_getElem? here)) row
        (Array.mem_toList_iff.mpr (Array.mem_of_getElem? there))
  obtain ⟨e, ends⟩ := ends
  exact ⟨e, ends, runEnd_bounds apart ends⟩

/-- A range sorted by a total preorder can be searched. -/
theorem leads_of_sorted {on : α → Prop} (laws : Sorting.Total cmp on) (within : stop ≤ rows.size)
    (inside : ∀ row ∈ (rows.extract start stop).toList, on row)
    (sorted : Sorting.Sorted cmp (rows.extract start stop).toList) :
    Answers cmp rows start stop ∧ Leads cmp rows start stop := by
  have length : (rows.extract start stop).toList.length = stop - start := by
    rw [Array.length_toList, Array.size_extract, Nat.min_eq_left within]
  have shown : ∀ k (_ : start ≤ k)
      (_ : k < stop), (rows.extract start stop).toList[k - start] = rows[k] := by
    intro k above below
    simp only [Array.getElem_toList, Array.getElem_extract, Nat.add_sub_cancel' above]
  constructor
  · intro first here k row above below there
    have member : ∀ j other, start ≤ j → j < stop → rows[j]? = some other → on other := by
      intro j other above below at_
      obtain ⟨bound, rfl⟩ := Array.getElem?_eq_some_iff.mp at_
      rw [← shown j above below]
      exact inside _ (List.getElem_mem _)
    exact laws.answers (member start first (Nat.le_refl start) (by omega) here)
      (member k row (by omega) below there)
  · intro j k after later below equal
    rw [equalAt_eq (by omega) (by omega), ← shown k (by omega) below,
      ← shown start (by omega) (by omega)] at equal
    rw [equalAt_eq (by omega) (by omega), ← shown j (by omega) (by omega),
      ← shown start (by omega) (by omega)]
    exact laws.tied_between inside sorted (by omega) (by omega) (by omega) equal

/-- In a range that is not empty the search ends where a scan does: at the first row that does not
compare equal to the first of the range, or at the end of the range. It does so in every sorted
range, without an order it ends with the range, and it never looks at a row outside. -/
theorem runEnd_eq_scanEnd {α : Type} {rows : Array α} {start stop : Nat} (apart : start < stop)
    (within : stop ≤ rows.size) :
    runEnd none rows start stop = .ok stop ∧ ∀ cmp : α → α → Except Defect Ordering,
      (Answers cmp rows start stop → Leads cmp rows start stop →
        runEnd (some cmp) rows start stop = .ok (scanEnd cmp rows start stop)) ∧
      (∀ on, Sorting.Total cmp on → (∀ row ∈ (rows.extract start stop).toList, on row) →
        Sorting.Sorted cmp (rows.extract start stop).toList →
          Answers cmp rows start stop ∧ Leads cmp rows start stop) ∧
      ∀ others : Array α, (∀ k, start ≤ k → k < stop → others[k]? = rows[k]?) →
        runEnd (some cmp) others start stop = runEnd (some cmp) rows start stop := by
  refine ⟨rfl, fun cmp =>
    ⟨fun answers leads => ?_, fun on laws inside sorted => ?_, fun others same => ?_⟩⟩
  · -- The first row counts as its own peer, whatever it compares to itself.
    let peer : Nat → Bool := fun k => k == start || equalAt cmp rows start k
    have peer_eq : ∀ k, start < k → peer k = equalAt cmp rows start k := by
      intro k above
      have other : (k == start) = false := by simpa using Nat.ne_of_gt above
      simp only [peer, other, Bool.false_or]
    have first : rows[start]? = some rows[start] := Array.getElem?_eq_getElem (by omega)
    have own : peer start = true := by simp [peer]
    have asked : ∀ k, start < k → k < stop → isPeerOf cmp rows rows[start] k = .ok (peer k) := by
      intro k above below
      rw [peer_eq k above, isPeerOf_eq within answers above below]
    obtain ⟨e, ends, boundary⟩ := runEnd_boundary first apart own asked
    have gathered : ∀ j k, start ≤ j → j ≤ k → k < stop → peer k = true → peer j = true := by
      intro j k above later below hit
      rcases Nat.eq_or_lt_of_le above with rfl | after
      · exact own
      · rw [peer_eq j after]
        rw [peer_eq k (by omega)] at hit
        exact leads j k after later below hit
    rw [ends, scanEnd_eq boundary.after boundary.inside fun k above below => ?_]
    rw [← peer_eq k above]
    exact boundary.peer_iff gathered (Nat.le_of_lt above) below
  · exact leads_of_sorted laws within inside sorted
  · exact runEnd_local apart within same

/-- A range inside a longer list, not sorted behind its run, with another equal row beyond its
end. -/
theorem runEnd_eq_scanEnd_inner :
    let rows : Array Nat := #[7, 2, 2, 5, 3, 2]
    let cmp : Nat → Nat → Except Defect Ordering := fun a b => .ok (compare a b)
    (1 < 5 ∧ 5 ≤ rows.size) ∧ Answers cmp rows 1 5 ∧ Leads cmp rows 1 5 ∧
      runEnd (some cmp) rows 1 5 = .ok 3 := by
  intro rows cmp
  have leads : Leads cmp rows 1 5 := by
    intro j k after later below equal
    have last : k = 2 ∨ k = 3 ∨ k = 4 := by omega
    rcases last with rfl | rfl | rfl
    · obtain rfl : j = 2 := by omega
      exact equal
    · cases equal
    · cases equal
  have answers : Answers cmp rows 1 5 := fun first _ k row _ _ _ => ⟨_, rfl⟩
  refine ⟨by decide, answers, leads, ?_⟩
  obtain ⟨-, searches⟩ := @runEnd_eq_scanEnd Nat rows 1 5 (by decide) (by decide)
  exact (searches cmp).1 answers leads

end Windowing.Peers
