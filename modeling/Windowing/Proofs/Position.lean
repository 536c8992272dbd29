import Windowing.Proofs.Declared
import Windowing.Proofs.Peers
import Windowing.Proofs.Walk

/-!
Positions found by the walk over sorted rows, against what they are meant to say. A sorted list
keeps the rows of a partition together, and in it those of a group of peers, so that every bound
which the walk carries from row to row delimits just the rows it stands for.
-/
namespace Windowing

/-- What a test selects if it holds at consecutive positions. -/
theorem filter_eq_drop_take {α : Type} {p : α → Bool} {xs : List α} {a b : Nat}
    (h : ∀ j (hj : j < xs.length), p xs[j] = true ↔ a ≤ j ∧ j < b) :
    xs.filter p = (xs.take b).drop a := by
  induction xs generalizing a b with
  | nil => simp
  | cons x xs ih =>
    have head : p x = true ↔ a ≤ 0 ∧ 0 < b := h 0 (by simp)
    have tail := ih (a := a - 1) (b := b - 1) fun j hj => by
      have := h (j + 1) (by simpa using hj)
      simp only [List.getElem_cons_succ] at this
      rw [this]
      omega
    cases b with
    | zero =>
      rw [List.filter_cons_of_neg (by simp [head]), tail]
      simp
    | succ b =>
      cases a with
      | zero =>
        rw [List.filter_cons_of_pos (by simp [head]), tail]
        simp
      | succ a =>
        rw [List.filter_cons_of_neg (by simp [head]), tail]
        simp

theorem mem_drop_take {α : Type} {xs : List α} {a b : Nat} {x : α} (h : x ∈ (xs.take b).drop a) :
    ∃ j, ∃ _ : j < xs.length, a ≤ j ∧ j < b ∧ x = xs[j] := by
  obtain ⟨k, hk, rfl⟩ := List.mem_iff_getElem.mp h
  rw [List.length_drop, List.length_take] at hk
  exact ⟨a + k, by omega, by omega, by omega, by rw [List.getElem_drop, List.getElem_take]⟩

/-- The end of a run found in a range whose peers stand in front; without an order all rows are
peers. -/
theorem Peers.runEnd_exact {α : Type} {order : Option (α → α → Except Defect Ordering)}
    {on : α → Prop} (laws : Sorting.Total (order.getD Sorting.ties) on) {rows : List α}
    (inside : ∀ row ∈ rows, on row) {start stop : Nat} (apart : start < stop)
    (within : stop ≤ rows.length) (together : ∀ j k (_ : start ≤ j) (_ : j ≤ k) (_ : k < stop),
      Sorting.tied (order.getD Sorting.ties) rows[start] rows[k] = true →
        Sorting.tied (order.getD Sorting.ties) rows[start] rows[j] = true) :
    ∃ e, runEnd order rows.toArray start stop = .ok e ∧ start < e ∧ e ≤ stop ∧
      ∀ k (_ : start ≤ k) (_ : k < stop),
        Sorting.tied (order.getD Sorting.ties) rows[start] rows[k] = true ↔ k < e := by
  cases order with
  | none => exact ⟨stop, rfl, apart, Nat.le_refl _, fun k _ below => ⟨fun _ => below, fun _ => rfl⟩⟩
  | some cmp =>
    simp only [Option.getD_some] at laws together ⊢
    have on_row : ∀ k (hk : k < rows.length), on rows[k] := by
      intro k hk
      exact inside _ (List.getElem_mem hk)
    let peer : Nat → Bool := fun k => (rows[k]?.map (Sorting.tied cmp rows[start])).getD false
    have peer_eq : ∀ k (hk : k < rows.length), peer k = Sorting.tied cmp rows[start] rows[k] :=
      fun k hk => by
        simp only [peer, List.getElem?_eq_getElem hk, Option.map_some, Option.getD_some]
    have answers : ∀ k, start < k → k < stop →
        isPeerOf cmp rows.toArray rows[start] k = .ok (peer k) := by
      intro k above below
      obtain ⟨o, h⟩ := laws.answers (on_row start (by omega)) (on_row k (by omega))
      have found : rowAt rows.toArray k = .ok rows[k] :=
        rowAt_eq_ok_iff.mpr (by rw [List.getElem?_toArray, List.getElem?_eq_getElem])
      rw [peer_eq k (by omega), isPeerOf, found, ok_bind, h, ok_bind, Sorting.tied, h]
      cases o <;> rfl
    have ends : ∃ e, runEnd (some cmp) rows.toArray start stop = .ok e ∧
        Boundary peer start stop e :=
      runEnd_boundary (by rw [List.getElem?_toArray, List.getElem?_eq_getElem]) apart
        ((peer_eq start (by omega)).trans (laws.tied_refl (on_row start (by omega)))) answers
    obtain ⟨e, ends, boundary⟩ := ends
    refine ⟨e, ends, boundary.after, boundary.inside, fun k above below => ?_⟩
    rw [← peer_eq k (by omega)]
    refine boundary.peer_iff (fun i j low le high hit => ?_) above below
    rw [peer_eq i (by omega)]
    rw [peer_eq j (by omega)] at hit
    exact together i j low le high hit

/-- An absent order compares like the one that finds all rows equal. -/
theorem RowOrder.compare_getD (order : Option RowOrder) :
    (order.map compare).getD Sorting.ties = (order.getD .equal).compare := by
  cases order <;> rfl

theorem Definition.runEnd_exact {order : Option RowOrder} {on : Row → Prop}
    (laws : Sorting.Total (order.getD .equal).compare on) {rows : List Row}
    (inside : ∀ row ∈ rows, on row) {start stop : Nat} (apart : start < stop)
    (within : stop ≤ rows.length) (together : ∀ j k (_ : start ≤ j) (_ : j ≤ k) (_ : k < stop),
      Sorting.tied (order.getD .equal).compare rows[start] rows[k] = true →
        Sorting.tied (order.getD .equal).compare rows[start] rows[j] = true) :
    ∃ e, runEnd order rows.toArray start stop = .ok e ∧ start < e ∧ e ≤ stop ∧
      ∀ k (_ : start ≤ k) (_ : k < stop),
        Sorting.tied (order.getD .equal).compare rows[start] rows[k] = true ↔ k < e := by
  rw [← RowOrder.compare_getD] at laws
  simp only [← RowOrder.compare_getD] at together ⊢
  exact Peers.runEnd_exact laws inside apart within together

namespace Definition

variable {d : Definition} {types : List DataType} {rows : List Row}

theorem ComparesSource.partitionOrder (compares : d.ComparesSource) :
    d.partitionOrder.Within d.width := by
  rw [Definition.partitionOrder]
  cases order : d.partitionBy with
  | none => trivial
  | some o => exact compares.partitionBy o order

theorem ComparesSource.peerOrder (compares : d.ComparesSource) : d.peerOrder.Within d.width := by
  rw [Definition.peerOrder]
  cases order : d.orderBy with
  | none => trivial
  | some o => exact compares.orderBy o order

/-- Rows of the same types, which the definition can compare, in its order. -/
structure Arranged (d : Definition) (types : List DataType) (rows : List Row) : Prop where
  width : d.width = types.length
  compares : d.ComparesSource
  typed : ∀ row ∈ rows, row.HasTypes types
  sorted : Sorting.Sorted d.sortOrder.compare rows

namespace Arranged

theorem partitionOrder (arranged : Arranged d types rows) :
    Sorting.Total d.partitionOrder.compare (Row.HasTypes types) :=
  RowOrder.total (arranged.width ▸ arranged.compares.partitionOrder)

theorem peerOrder (arranged : Arranged d types rows) :
    Sorting.Total d.peerOrder.compare (Row.HasTypes types) :=
  RowOrder.total (arranged.width ▸ arranged.compares.peerOrder)

theorem typed_at (arranged : Arranged d types rows) (i : Nat) (hi : i < rows.length) :
    rows[i].HasTypes types := arranged.typed _ (List.getElem_mem hi)

theorem mates_symm (arranged : Arranged d types rows) {i j : Nat} (hi : i < rows.length)
    (hj : j < rows.length) (h : d.mates rows[i] rows[j] = true) : d.mates rows[j] rows[i] = true :=
  arranged.partitionOrder.consistent.tied_symm (arranged.typed_at i hi) (arranged.typed_at j hj) h

theorem peers_symm (arranged : Arranged d types rows) {i j : Nat} (hi : i < rows.length)
    (hj : j < rows.length) (h : d.peers rows[i] rows[j] = true) : d.peers rows[j] rows[i] = true :=
  arranged.peerOrder.consistent.tied_symm (arranged.typed_at i hi) (arranged.typed_at j hj) h

theorem mates_congr (arranged : Arranged d types rows) {i j k : Nat} (hi : i < rows.length)
    (hj : j < rows.length) (hk : k < rows.length) (h : d.mates rows[i] rows[j] = true) :
    d.mates rows[i] rows[k] = d.mates rows[j] rows[k] :=
  arranged.partitionOrder.tied_congr (arranged.typed_at i hi) (arranged.typed_at j hj)
    (arranged.typed_at k hk) h

theorem peers_congr (arranged : Arranged d types rows) {i j k : Nat} (hi : i < rows.length)
    (hj : j < rows.length) (hk : k < rows.length) (h : d.peers rows[i] rows[j] = true) :
    d.peers rows[i] rows[k] = d.peers rows[j] rows[k] :=
  arranged.peerOrder.tied_congr (arranged.typed_at i hi) (arranged.typed_at j hj)
    (arranged.typed_at k hk) h

theorem mates_between (arranged : Arranged d types rows) {i j k : Nat} (hij : i ≤ j) (hjk : j ≤ k)
    (hk : k < rows.length) (h : d.mates rows[i] rows[k] = true) : d.mates rows[i] rows[j] = true :=
  arranged.partitionOrder.tied_between arranged.typed
    (Sorting.Sorted.of_thenBy arranged.sorted) hij hjk hk h

/-- In a partition the rows are in the order of peers. -/
theorem peers_notAfter (arranged : Arranged d types rows) {i j : Nat} (hij : i ≤ j)
    (hj : j < rows.length) (h : d.mates rows[i] rows[j] = true) :
    Sorting.NotAfter d.peerOrder.compare rows[i] rows[j] :=
  Sorting.notAfter_minor (arranged.sorted.notAfter hij hj) h

theorem peers_between (arranged : Arranged d types rows) {i j k : Nat} (hij : i ≤ j) (hjk : j ≤ k)
    (hk : k < rows.length) (mates : d.mates rows[i] rows[k] = true)
    (h : d.peers rows[i] rows[k] = true) :
    d.peers rows[i] rows[j] = true := by
  have near := arranged.mates_between hij hjk hk mates
  have rest : d.mates rows[j] rows[k] = true :=
    (arranged.mates_congr (by omega) (by omega) hk near).symm.trans mates
  have back : Sorting.NotAfter d.peerOrder.compare rows[k] rows[i] :=
    .of_eq (Sorting.tied_eq_true_iff.mp (arranged.peers_symm (by omega) hk h))
  exact arranged.peerOrder.tied_of_notAfter (arranged.typed_at i (by omega))
    (arranged.typed_at j (by omega))
    (arranged.peers_notAfter hij (by omega) near)
    (arranged.peerOrder.consistent.trans (arranged.typed_at j (by omega)) (arranged.typed_at k hk)
      (arranged.typed_at i (by omega)) (arranged.peers_notAfter hjk hk rest) back)

/-- Where a partition starts, no row before belongs to it. -/
theorem not_mates_before (arranged : Arranged d types rows) {i j : Nat} (hij : j < i)
    (hi : i < rows.length) (first : d.mates rows[i - 1] rows[i] = false) :
    d.mates rows[i] rows[j] = false := by
  apply Bool.eq_false_iff.mpr
  intro h
  have ahead := arranged.mates_symm hi (by omega) h
  have near : d.mates rows[j] rows[i - 1] = true :=
    arranged.mates_between (by omega) (by omega) hi ahead
  rw [arranged.mates_congr (by omega) (by omega) hi near, first] at ahead
  cases ahead

theorem not_peers_before (arranged : Arranged d types rows) {i j : Nat} (hij : j < i)
    (hi : i < rows.length) (mates : d.mates rows[i] rows[j] = true)
    (first : d.peers rows[i - 1] rows[i] = false) :
    d.peers rows[i] rows[j] = false := by
  apply Bool.eq_false_iff.mpr
  intro h
  have ahead := arranged.peers_symm hi (by omega) h
  have near : d.peers rows[j] rows[i - 1] = true :=
    arranged.peers_between (by omega) (by omega) hi (arranged.mates_symm hi (by omega) mates) ahead
  rw [arranged.peers_congr (by omega) (by omega) hi near, first] at ahead
  cases ahead

/-- The rows from `middle` on, all peers of row `k`, are one run more than the rows before them. -/
theorem classes_run (arranged : Arranged d types rows) {start middle stop k : Nat}
    (hsm : start ≤ middle) (hms : middle < stop) (within : stop ≤ rows.length)
    (hk : k < rows.length)
    (run : ∀ j (_ : middle ≤ j) (_ : j < stop), d.peers rows[k] rows[j] = true)
    (new : ∀ j (_ : start ≤ j) (_ : j < middle), d.peers rows[k] rows[j] = false) :
    Sorting.classes d.peers ((rows.take stop).drop start) =
      Sorting.classes d.peers ((rows.take middle).drop start) + 1 := by
  have parts : (rows.take stop).drop start =
      (rows.take middle).drop start ++ (rows.take stop).drop middle := by
    have front : rows.take middle = (rows.take stop).take middle := by
      rw [List.take_take, Nat.min_eq_left (by omega)]
    rw [front, ← List.drop_append_of_le_length (by simp only [List.length_take]; omega),
      List.take_append_drop]
  rw [parts]
  refine Sorting.classes_append_run ?_ (fun x hx y hy => ?_) fun x hx y hy => ?_
  · apply List.ne_nil_of_length_pos
    rw [List.length_drop, List.length_take]
    omega
  · obtain ⟨a, ha, above, below, rfl⟩ := mem_drop_take hx
    obtain ⟨b, hb, above', below', rfl⟩ := mem_drop_take hy
    rw [← arranged.peers_congr hk ha hb (run a above below)]
    exact run b above' below'
  · obtain ⟨a, ha, above, below, rfl⟩ := mem_drop_take hx
    obtain ⟨b, hb, above', below', rfl⟩ := mem_drop_take hy
    apply Bool.eq_false_iff.mpr
    intro h
    have old := new a above below
    rw [arranged.peers_congr hk hb ha (run b above' below'), arranged.peers_symm ha hb h] at old
    cases old

end Arranged
end Definition

structure Position.Exact (d : Definition) (rows : List Row) (i : Nat) (p : Position) : Prop where
  inside : i < rows.length
  start_le : p.partitionStart ≤ p.peerStart
  peerStart_le : p.peerStart ≤ i
  lt_frameEnd : i < p.frameEnd
  frameEnd_le : p.frameEnd ≤ p.partitionEnd
  partitionEnd_le : p.partitionEnd ≤ rows.length
  index : p.partitionStart + p.index = i
  mates : ∀ j (_ : j < rows.length),
    d.mates rows[i] rows[j] = true ↔ p.partitionStart ≤ j ∧ j < p.partitionEnd
  peers : ∀ j (_ : p.partitionStart ≤ j) (_ : j < p.partitionEnd),
    d.peers rows[i] rows[j] = true ↔ p.peerStart ≤ j ∧ j < p.frameEnd
  group : p.peerGroup = Sorting.classes d.peers ((rows.take p.peerStart).drop p.partitionStart)

namespace Definition

variable {d : Definition} {types : List DataType} {rows : List Row}

theorem opening_exact (arranged : Arranged d types rows) {i : Nat} (hi : i < rows.length)
    (first : ∀ j (_ : j < i), d.mates rows[i] rows[j] = false) :
    ∃ p, d.opening rows.toArray i = .ok p ∧ p.Exact d rows i := by
  obtain ⟨partitionEnd, partition, above, below, mates⟩ :=
    runEnd_exact arranged.partitionOrder arranged.typed hi (Nat.le_refl rows.length)
      fun j k hij hjk hk => arranged.mates_between hij hjk hk
  obtain ⟨frameEnd, run, above', below', peers⟩ :=
    runEnd_exact arranged.peerOrder arranged.typed above below fun j k hij hjk hk =>
      arranged.peers_between hij hjk (by omega) ((mates k (by omega) (by omega)).mpr hk)
  have size : rows.toArray.size = rows.length := List.size_toArray ..
  refine ⟨⟨i, partitionEnd, 0, i, 0, frameEnd, false⟩, ?_, hi, Nat.le_refl i, Nat.le_refl i,
    above', below',
    below, rfl, fun j hj => ?_, fun j above below => ?_, ?_⟩
  · rw [opening, size, partition, ok_bind, run, ok_bind]
    rfl
  · by_cases before : j < i
    · rw [first j before]
      simp only [Bool.false_eq_true, false_iff]
      omega
    · exact (mates j (by omega) hj).trans (by simp only; omega)
  · exact (peers j above below).trans (by simp only at above below ⊢; omega)
  · simp [Sorting.classes]

/-- The row after one of the same partition is a peer of it, or starts a run of its own. -/
theorem following_exact (arranged : Arranged d types rows) {i : Nat} {p : Position}
    (positive : 0 < i) (hi : i < rows.length) (exact : p.Exact d rows (i - 1))
    (more : i ≠ p.partitionEnd) :
    ∃ q, d.following rows.toArray i p = .ok q ∧ q.Exact d rows i := by
  obtain ⟨_, start_le, peerStart_le, lt_frameEnd, frameEnd_le, partitionEnd_le, index, mates,
      peers, group⟩ :=
    exact
  have mate : d.mates rows[i - 1] rows[i] = true := (mates i hi).mpr (by omega)
  have mates' : ∀ j (_ : j < rows.length),
      d.mates rows[i] rows[j] = true ↔ p.partitionStart ≤ j ∧ j < p.partitionEnd := fun j hj => by
    rw [← arranged.mates_congr (by omega) hi hj mate]
    exact mates j hj
  by_cases peer : i < p.frameEnd
  · refine ⟨{ p with index := p.index + 1, sharesFrame := true }, if_pos peer, hi,
      start_le, ?_, peer,
      frameEnd_le, partitionEnd_le, ?_, mates', fun j above below => ?_, group⟩
    · simp only
      omega
    · simp only
      omega
    · have tie : d.peers rows[i - 1] rows[i] = true :=
        (peers i (by omega) (by omega)).mpr (by omega)
      rw [← arranged.peers_congr (by omega) hi (Nat.lt_of_lt_of_le below partitionEnd_le) tie]
      exact peers j above below
  · have new : d.peers rows[i - 1] rows[i] = false :=
      Bool.eq_false_iff.mpr fun h => peer ((peers i (by omega) (by omega)).mp h).2
    have inside : i < p.partitionEnd := by omega
    obtain ⟨frameEnd, run, above, below, ahead⟩ :=
      runEnd_exact arranged.peerOrder arranged.typed inside partitionEnd_le fun j k hij hjk hk =>
        arranged.peers_between hij hjk (by omega) ((mates' k (by omega)).mpr (by omega))
    refine ⟨⟨p.partitionStart, p.partitionEnd, p.index + 1, i, p.peerGroup + 1, frameEnd, false⟩,
      ?_, hi, ?_,
      Nat.le_refl i, above, below, partitionEnd_le, ?_, mates', fun j above' below' => ?_, ?_⟩
    · rw [following, if_neg peer, run]
      rfl
    · simp only
      omega
    · simp only
      omega
    · by_cases before : j < i
      · rw [arranged.not_peers_before before hi ((mates' j (by omega)).mpr ⟨above', below'⟩) new]
        simp only [Bool.false_eq_true, false_iff]
        omega
      · exact (ahead j (by omega) below').trans (by simp only at below' ⊢; omega)
    · simp only [group]
      refine (arranged.classes_run start_le (by omega) (by omega) (k := i - 1) (by omega)
        (fun j above below => ?_) fun j above below => ?_).symm
      · exact (peers j (by omega) (by omega)).mpr (by omega)
      · apply Bool.eq_false_iff.mpr
        intro h
        have := (peers j above (by omega)).mp h
        omega

def Located (d : Definition) (rows : List Row) (i : Nat) : Option Position → Prop
  | none => i = 0
  | some p => 0 < i ∧ p.Exact d rows (i - 1)

theorem locate_exact (arranged : Arranged d types rows) {i : Nat} (hi : i < rows.length)
    {before : Option Position} (located : Located d rows i before) :
    ∃ p, d.locate rows.toArray i before = .ok p ∧ p.Exact d rows i := by
  cases before with
  | none =>
    obtain rfl : i = 0 := located
    exact opening_exact arranged hi fun j before => absurd before (Nat.not_lt_zero j)
  | some q =>
    obtain ⟨positive, exact⟩ := located
    by_cases last : i = q.partitionEnd
    · have first : d.mates rows[i - 1] rows[i] = false :=
        Bool.eq_false_iff.mpr fun h => by
          have := (exact.mates i hi).mp h
          omega
      rw [locate, if_pos last]
      exact opening_exact arranged hi fun j before => arranged.not_mates_before before hi first
    · rw [locate, if_neg last]
      exact following_exact arranged positive hi exact last

end Definition
end Windowing
