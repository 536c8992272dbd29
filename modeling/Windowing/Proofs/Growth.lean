import Windowing.Proofs.Ranking

/-!
How frames and results develop along a partition. All its frames begin with its first row and end
behind the last peer of their row, so that each is an initial part of the next, and that of the last
row is all of the partition.
-/
namespace Windowing

/-- Up to a later position a stretch has more rows. -/
theorem drop_take_grow {α : Type} (xs : List α) (start : Nat) {stop more : Nat} (le : stop ≤ more) :
    (xs.take stop).drop start <+: (xs.take more).drop start := by
  rw [List.drop_take, List.drop_take]
  exact List.take_prefix_take_left (Nat.sub_le_sub_right le start)

/-- More rows have more present values. -/
theorem Argument.presents_grow (a : Argument) {rows more : List Row} (part : rows <+: more) :
    a.presents rows <+: a.presents more := part.filterMap _

namespace Definition.Arranged

variable {d : Definition} {types : List DataType} {rows : List Row}
  (arranged : d.Arranged types rows)

include arranged

/-- Row after row, the walk finds positions whose bounds are exact. -/
theorem exists_exact {i : Nat} (inside : i < rows.length) : ∃ p : Position, p.Exact d rows i := by
  induction i with
  | zero =>
    have start : Located d rows 0 none := rfl
    obtain ⟨p, -, exact⟩ := locate_exact arranged inside start
    exact ⟨p, exact⟩
  | succ i ih =>
    obtain ⟨p, exact⟩ := ih (Nat.lt_of_succ_lt inside)
    have found : Located d rows (i + 1) (some p) := ⟨Nat.succ_pos i, exact⟩
    obtain ⟨q, -, exact'⟩ := locate_exact arranged inside found
    exact ⟨q, exact'⟩

omit arranged in
theorem mates_filter_eq {i : Nat} {p : Position} (exact : p.Exact d rows i)
    (inside : i < rows.length) :
    rows.filter (d.mates rows[i]) = (rows.take p.partitionEnd).drop p.partitionStart :=
  filter_eq_drop_take exact.mates

section Two

variable {i j : Nat} {p q : Position} (exact : p.Exact d rows i) (exact' : q.Exact d rows j)
  {inside : i < rows.length} {inside' : j < rows.length} (mate : d.mates rows[i] rows[j] = true)

include exact exact' mate

/-- Rows of a partition agree on where it starts and ends. -/
theorem partition_eq : p.partitionStart = q.partitionStart ∧ p.partitionEnd = q.partitionEnd := by
  have same : ∀ k, k < rows.length →
      (p.partitionStart ≤ k ∧ k < p.partitionEnd ↔ q.partitionStart ≤ k ∧ k < q.partitionEnd) := by
    intro k bound
    rw [← exact.mates k bound, ← exact'.mates k bound,
      arranged.mates_congr inside inside' bound mate]
  obtain ⟨_, start_le, peerStart_le, lt_frameEnd, frameEnd_le, partitionEnd_le, -⟩ := exact
  obtain ⟨_, start_le', peerStart_le', lt_frameEnd', frameEnd_le', partitionEnd_le', -⟩ := exact'
  have first := same p.partitionStart (by omega)
  have first' := same q.partitionStart (by omega)
  have last := same (p.partitionEnd - 1) (by omega)
  have last' := same (q.partitionEnd - 1) (by omega)
  omega

/-- A peer is in the frame of the row, and its frame is the same. -/
theorem frameEnd_eq (peer : d.peers rows[i] rows[j] = true) : p.frameEnd = q.frameEnd := by
  obtain ⟨start, stop⟩ := partition_eq arranged exact exact' mate
  have own : ∀ k, q.partitionStart ≤ k → k < q.partitionEnd →
      (p.peerStart ≤ k ∧ k < p.frameEnd ↔ q.peerStart ≤ k ∧ k < q.frameEnd) := by
    intro k above below
    have := exact'.partitionEnd_le
    rw [← exact.peers k (by omega) (by omega), ← exact'.peers k above below,
      arranged.peers_congr inside inside' (by omega) peer]
  obtain ⟨_, start_le, peerStart_le, lt_frameEnd, frameEnd_le, -⟩ := exact
  obtain ⟨_, start_le', peerStart_le', lt_frameEnd', frameEnd_le', -⟩ := exact'
  have last := own (p.frameEnd - 1) (by omega) (by omega)
  have last' := own (q.frameEnd - 1) (by omega) (by omega)
  omega

/-- A frame does not end before those of the rows before. -/
theorem frameEnd_le (order : i ≤ j) : p.frameEnd ≤ q.frameEnd := by
  obtain ⟨start, stop⟩ := partition_eq arranged exact exact' mate
  rcases Nat.lt_or_ge j p.frameEnd with inFrame | beyond
  · have := exact.start_le
    have := exact.peerStart_le
    have := exact'.lt_frameEnd
    have := exact'.frameEnd_le
    have peer := (exact.peers j (by omega) (by omega)).mpr (by omega)
    exact Nat.le_of_eq (frameEnd_eq arranged exact exact' mate peer)
  · exact Nat.le_of_lt (Nat.lt_of_le_of_lt beyond exact'.lt_frameEnd)

end Two

section Frames

variable {i j : Nat} (inside : i < rows.length) (inside' : j < rows.length)
  (mate : d.mates rows[i] rows[j] = true)

include mate

/-- Along a partition frames only grow. -/
theorem frameMates_grow (order : i ≤ j) :
    d.frameMates rows rows[i] <+: d.frameMates rows rows[j] := by
  obtain ⟨p, exact⟩ := exists_exact arranged inside
  obtain ⟨q, exact'⟩ := exists_exact arranged inside'
  rw [exact.frameMates_eq arranged inside, exact'.frameMates_eq arranged inside',
    (partition_eq arranged exact exact' mate).1]
  exact drop_take_grow rows _ (frameEnd_le arranged exact exact' mate order)

theorem frameMates_eq_of_peers (peer : d.peers rows[i] rows[j] = true) :
    d.frameMates rows rows[i] = d.frameMates rows rows[j] := by
  obtain ⟨p, exact⟩ := exists_exact arranged inside
  obtain ⟨q, exact'⟩ := exists_exact arranged inside'
  rw [exact.frameMates_eq arranged inside, exact'.frameMates_eq arranged inside',
    (partition_eq arranged exact exact' mate).1, frameEnd_eq arranged exact exact' mate peer]

end Frames

/-- A frame begins its partition. -/
theorem frameMates_prefix_partition {row : Row} (member : row ∈ rows) :
    d.frameMates rows row <+: rows.filter (d.mates row) := by
  obtain ⟨i, inside, rfl⟩ := List.mem_iff_getElem.mp member
  obtain ⟨p, exact⟩ := exists_exact arranged inside
  rw [exact.frameMates_eq arranged inside, mates_filter_eq exact inside]
  exact drop_take_grow rows _ exact.frameEnd_le

/-- One frame is all of the partition. -/
theorem exists_frameMates_eq_partition {row : Row} (member : row ∈ rows) :
    ∃ last ∈ rows, d.frameMates rows last = rows.filter (d.mates row) := by
  obtain ⟨i, inside, rfl⟩ := List.mem_iff_getElem.mp member
  obtain ⟨p, exact⟩ := exists_exact arranged inside
  have bounds : i ≤ p.partitionEnd - 1 ∧ p.partitionEnd - 1 < rows.length ∧
      p.partitionStart ≤ i := by
    obtain ⟨_, start_le, peerStart_le, lt_frameEnd, frameEnd_le, partitionEnd_le, -⟩ := exact
    omega
  obtain ⟨order, within, start_le⟩ := bounds
  obtain ⟨q, exact'⟩ := exists_exact arranged within
  have nonempty : p.partitionStart < p.partitionEnd :=
    (start_le.trans_lt exact.lt_frameEnd).trans_le exact.frameEnd_le
  have mate := (exact.mates _ within).mpr ⟨by omega, by omega⟩
  obtain ⟨start, stop⟩ := partition_eq arranged exact exact' mate
  have whole : q.frameEnd = p.partitionEnd := by
    have := exact'.lt_frameEnd
    have := exact'.frameEnd_le
    omega
  refine ⟨_, List.getElem_mem within, ?_⟩
  rw [exact'.frameMates_eq arranged within, mates_filter_eq exact inside, whole, start]

end Definition.Arranged
end Windowing
