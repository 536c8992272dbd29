import Windowing.Proofs.Position
import Windowing.Proofs.Stopping

/-!
Over sorted rows the walk computes what is declared of each row. The bounds of a position give the
very lists that the declaration selects, and calls only see those.
-/
namespace Windowing

variable {d : Definition} {types : List DataType} {rows : List Row}

namespace Definition

theorem rows_declaredFrame (d : Definition) (rows : List Row) (i : Nat) (row : Row) :
    (d.declaredFrame rows i row).rows = d.frameMates rows row := by
  simp [Frame.rows, declaredFrame]

theorem declaredFrame_valid (d : Definition) (rows : List Row) (i : Nat) (row : Row) :
    (d.declaredFrame rows i row).Valid :=
  ⟨Nat.le_refl _, Nat.zero_le _, by simp [declaredFrame]⟩

end Definition

namespace Position.Exact

variable {i : Nat} {p : Position}

theorem declaredIndex_eq (exact : p.Exact d rows i) (hi : i < rows.length) :
    d.declaredIndex rows i rows[i] = p.index := by
  have inside : (rows.take i).length = i := by rw [List.length_take]; omega
  have := exact.index
  have := exact.lt_frameEnd
  have := exact.frameEnd_le
  have := exact.start_le
  have := exact.peerStart_le
  have selected : (rows.take i).filter (d.mates rows[i]) =
      ((rows.take i).take i).drop p.partitionStart :=
    filter_eq_drop_take fun j hj => by
      rw [List.getElem_take]
      exact (exact.mates j (by omega)).trans (by omega)
  rw [Definition.declaredIndex, List.countP_eq_length_filter, selected, List.length_drop,
    List.take_take, Nat.min_self, inside]
  omega

/-- Of the rows of a partition those before row `i` are the ones in front of its peers. -/
theorem precedes_iff (arranged : d.Arranged types rows) (exact : p.Exact d rows i)
    (hi : i < rows.length) {j : Nat} (above : p.partitionStart ≤ j) (below : j < p.partitionEnd)
    (hj : j < rows.length) :
    d.precedes rows[j] rows[i] = true ↔ j < p.peerStart := by
  have laws := arranged.peerOrder
  have typed := arranged.typed_at
  have peer := exact.peers j above below
  have mate := (exact.mates j hj).mpr ⟨above, below⟩
  have := exact.peerStart_le
  rw [Definition.precedes, Sorting.isBefore_eq_true_iff]
  constructor
  · intro before
    apply Nat.lt_of_not_le
    intro beyond
    have notAfter : Sorting.NotAfter d.peerOrder.compare rows[i] rows[j] := by
      by_cases inFrame : j < p.frameEnd
      · exact .of_eq (Sorting.tied_eq_true_iff.mp (peer.mpr ⟨beyond, inFrame⟩))
      · have := exact.lt_frameEnd
        exact arranged.peers_notAfter (by omega) hj mate
    exact laws.consistent.not_before (typed i hi) (typed j hj) notAfter before
  · intro before
    have notAfter :=
      arranged.peers_notAfter (Nat.le_of_lt (Nat.lt_of_lt_of_le before exact.peerStart_le)) hi
      (arranged.mates_symm hi hj mate)
    rcases (laws.notAfter_iff (typed j hj)).mp notAfter with less | tie
    · exact less
    · have := (peer.mp (arranged.peers_symm hj hi tie)).1
      omega

theorem earlierMates_eq (arranged : d.Arranged types rows) (exact : p.Exact d rows i)
    (hi : i < rows.length) :
    d.earlierMates rows rows[i] = (rows.take p.peerStart).drop p.partitionStart := by
  apply filter_eq_drop_take
  intro j hj
  have := exact.peerStart_le
  have := exact.lt_frameEnd
  have := exact.frameEnd_le
  rw [Bool.and_eq_true, exact.mates j hj]
  constructor
  · rintro ⟨⟨above, below⟩, before⟩
    exact ⟨above, (exact.precedes_iff arranged hi above below hj).mp before⟩
  · rintro ⟨above, before⟩
    have below : j < p.partitionEnd := by omega
    exact ⟨⟨above, below⟩, (exact.precedes_iff arranged hi above below hj).mpr before⟩

theorem frameMates_eq (arranged : d.Arranged types rows) (exact : p.Exact d rows i)
    (hi : i < rows.length) :
    d.frameMates rows rows[i] = (rows.take p.frameEnd).drop p.partitionStart := by
  apply filter_eq_drop_take
  intro j hj
  have := exact.peerStart_le
  have := exact.lt_frameEnd
  have := exact.frameEnd_le
  rw [Bool.and_eq_true, Bool.or_eq_true, exact.mates j hj]
  constructor
  · rintro ⟨⟨above, below⟩, before | peer⟩
    · have := (exact.precedes_iff arranged hi above below hj).mp before
      exact ⟨above, by omega⟩
    · exact ⟨above, ((exact.peers j above below).mp peer).2⟩
  · rintro ⟨above, inFrame⟩
    have below : j < p.partitionEnd := by omega
    refine ⟨⟨above, below⟩, ?_⟩
    rw [exact.precedes_iff arranged hi above below hj, exact.peers j above below]
    omega

theorem frame_eq (exact : p.Exact d rows i) : p.frame rows.toArray i =
    .ok ⟨rows.toArray, p.partitionStart, p.partitionStart, p.frameEnd, i, p.peerStart,
      p.peerGroup⟩ := by
  have := exact.start_le
  have := exact.peerStart_le
  have := exact.lt_frameEnd
  have := exact.frameEnd_le
  have := exact.partitionEnd_le
  exact frame_eq_ok_iff.mpr ⟨⟨by omega, by rw [List.size_toArray]; omega, by omega, by omega⟩, rfl⟩

/-- The frame at an exact position holds the rows of the declared one and ranks its row the same. -/
theorem frame_alike (arranged : d.Arranged types rows) (exact : p.Exact d rows i)
    (hi : i < rows.length) {f : Frame} (framed : p.frame rows.toArray i = .ok f) :
    f.rows = (d.declaredFrame rows i rows[i]).rows ∧ f.Valid ∧
      f.RankedAlike (d.declaredFrame rows i rows[i]) := by
  obtain ⟨⟨nonempty, within, start, current⟩, rfl⟩ := frame_eq_ok_iff.mp framed
  refine ⟨?_, ⟨Nat.le_refl _, nonempty, within⟩, start, Nat.zero_le _, ?_, ?_⟩
  · rw [d.rows_declaredFrame, exact.frameMates_eq arranged hi]
    simp [Frame.rows, List.drop_take]
  · have := exact.peerStart_le
    simp only [Definition.declaredFrame, exact.earlierMates_eq arranged hi, List.length_drop,
      List.length_take]
    omega
  · simp only [Definition.declaredFrame, exact.earlierMates_eq arranged hi, exact.group]

end Position.Exact
namespace Definition

theorem plainVisit_eq (arranged : d.Arranged types rows) {i : Nat}
    (hi : i < rows.length) {before : Option Position} (located : Located d rows i before) :
    ∃ p, p.Exact d rows i ∧
      d.plainVisit rows.toArray i before = (d.declaredRow rows i rows[i]).map fun results =>
        (p, results) := by
  obtain ⟨p, found, exact⟩ := locate_exact arranged hi located
  refine ⟨p, exact, ?_⟩
  obtain ⟨f, framed⟩ : ∃ f, p.frame rows.toArray i = .ok f := ⟨_, exact.frame_eq⟩
  obtain ⟨same, valid, ranked⟩ := exact.frame_alike arranged hi framed
  have results : ∀ c ∈ d.calls,
      plainResult p f c = Guarded.mapError (WindowError.evaluation c.function)
      (d.declaredResult rows i rows[i] c) := by
    intro c _
    unfold plainResult declaredResult
    rw [exact.declaredIndex_eq hi,
      Call.evaluate_of_rows_eq valid (d.declaredFrame_valid rows i _) same ranked]
  rw [plainVisit, found]
  simp only [Guarded.lift_eq, Guarded.ofDefect_ok, ok_bind]
  rw [framed]
  simp only [Guarded.ofDefect_ok, ok_bind]
  rw [mapM_congr results, declaredRow]
  cases d.calls.mapM fun c => Guarded.mapError (WindowError.evaluation c.function)
    (d.declaredResult rows i rows[i] c) <;> rfl

theorem plainFrom_eq (arranged : d.Arranged types rows) (remaining : Nat) {i : Nat}
    {before : Option Position} (located : Located d rows i before)
    (rest : i + remaining = rows.length) :
    d.plainFrom rows.toArray remaining i before =
      ((rows.drop i).zipIdx i).mapM fun r => d.declaredRow rows r.2 r.1 := by
  induction remaining generalizing i before with
  | zero =>
    rw [List.drop_of_length_le (by omega)]
    rfl
  | succ remaining ih =>
    have hi : i < rows.length := by omega
    obtain ⟨p, exact, visited⟩ := plainVisit_eq arranged hi located
    have next : Located d rows (i + 1) (some p) := ⟨Nat.succ_pos i, exact⟩
    rw [plainFrom, visited, List.drop_eq_getElem_cons hi, List.zipIdx_cons, List.mapM_cons]
    cases d.declaredRow rows i rows[i] with
    | error e => rfl
    | ok results =>
      simp only [Except.map, ok_bind]
      rw [ih next (by omega)]

theorem declaredResults_ok {rows : List Row} {results : List (List Cell)}
    (h : d.declaredResults rows = .ok results) : results.length = rows.length ∧
      ∀ (i : Nat) row, rows[i]? = some row → ∃ cells, d.declaredRow rows i row = .ok cells ∧
        results[i]? = some cells := by
  obtain ⟨length, each⟩ := mapM_eq_ok h
  refine ⟨by rw [length, List.length_zipIdx], fun i row found => ?_⟩
  exact each i (row, i) (by simp [found])

theorem declaredRow_ok {rows : List Row} {i : Nat} {row : Row} {cells : List Cell}
    (h : d.declaredRow rows i row = .ok cells) : cells.length = d.calls.length ∧
      ∀ (k : Nat) c, d.calls[k]? = some c → ∃ cell, d.declaredResult rows i row c = .ok cell ∧
        cells[k]? = some cell := by
  obtain ⟨length, each⟩ := mapM_eq_ok h
  refine ⟨length, fun k c found => ?_⟩
  obtain ⟨cell, value, place⟩ := each k c found
  exact ⟨cell, Guarded.mapError_eq_ok_iff.mp value, place⟩

/-- Every row has a result of every call. -/
theorem length_of_declaredResults {rows : List Row} {results : List (List Cell)}
    (h : d.declaredResults rows = .ok results) :
    ∀ cells ∈ results, cells.length = d.calls.length := by
  obtain ⟨length, each⟩ := declaredResults_ok h
  intro cells member
  obtain ⟨i, hi, rfl⟩ := List.mem_iff_getElem.mp member
  obtain ⟨cells, computed, place⟩ := each i rows[i] (List.getElem?_eq_getElem (length ▸ hi))
  rw [List.getElem?_eq_getElem hi] at place
  rw [Option.some.inj place]
  exact (declaredRow_ok computed).1

theorem not_precedes_self (d : Definition) (row : Row) : ¬ d.precedes row row = true := by
  intro before
  exact (d.peerOrder.consistent fun _ => True).not_before trivial trivial (.refl row)
    (Sorting.isBefore_eq_true_iff.mp before)

/-- What a call gives for one of the rows is a cell or an error, unless there are too many rows to
count. -/
theorem declaredResult_stops {width : Nat} (wide : ∀ row ∈ rows, width ≤ row.length) {c : Call}
    (within : c.Within width) {i : Nat} {row : Row} (found : rows[i]? = some row) :
    Guarded.StopsOnly (Overflow rows.length) (d.declaredResult rows i row c) := by
  have inside := (List.getElem?_eq_some_iff.mp found).1
  have itself : ¬ (d.mates row row && d.precedes row row) = true := by
    intro h
    exact d.not_precedes_self row (Bool.and_eq_true_iff.mp h).2
  have earlier : (d.earlierMates rows row).length < rows.length :=
    List.length_filter_lt_length_iff_exists.mpr ⟨row, List.mem_of_getElem? found, itself⟩
  refine Call.evaluate_stops within ⟨d.declaredFrame_valid rows i row, fun other inFrame => ?_⟩
    ⟨?_, Nat.zero_le _, earlier, Nat.lt_of_le_of_lt (Sorting.classes_le_length _ _) earlier⟩
  · rw [rows_declaredFrame] at inFrame
    exact wide other (List.mem_filter.mp inFrame).1
  · have count := @List.countP_le_length _ (d.mates row) (rows.take i)
    rw [List.length_take] at count
    rw [declaredIndex]
    omega

/-- Walking over sorted rows appends to each row what is declared of it. -/
theorem walk_declared (arranged : d.Arranged types rows) (reads : d.ReadsSource)
    (wide : ∀ row ∈ rows, d.width + d.calls.length ≤ row.length) :
    outcome (d.walk rows.toArray) =
      (d.declaredResults rows).map (List.zipWith (Row.overwrite d.width) rows) := by
  have start : Located d rows 0 none := rfl
  rw [walk, walkFrom_outcome reads rows.toArray.size (.start d rows.toArray) (Nat.zero_add _) wide,
    List.size_toArray, plainFrom_eq arranged rows.length start (Nat.zero_add _)]
  rfl

section Reading

variable (compares : d.ComparesSource) {a a' b b' : Row} (left : a.take d.width = a'.take d.width)
  (right : b.take d.width = b'.take d.width)

include compares left right

theorem mates_congr : d.mates a b = d.mates a' b' := by
  unfold mates Sorting.tied
  rw [RowOrder.compare_congr compares.partitionOrder left right]

theorem peers_congr : d.peers a b = d.peers a' b' := by
  unfold peers Sorting.tied
  rw [RowOrder.compare_congr compares.peerOrder left right]

theorem precedes_congr : d.precedes a b = d.precedes a' b' := by
  unfold precedes Sorting.isBefore
  rw [RowOrder.compare_congr compares.peerOrder left right]

end Reading

theorem take_twice {α : Type} (n : Nat) (xs : List α) : (xs.take n).take n = xs.take n := by
  rw [List.take_take, Nat.min_self]

theorem mates_take (compares : d.ComparesSource) (a b : Row) :
    d.mates a (b.take d.width) = d.mates a b :=
  mates_congr compares rfl (take_twice _ b)

theorem peers_take (compares : d.ComparesSource) (a b : Row) :
    d.peers a (b.take d.width) = d.peers a b :=
  peers_congr compares rfl (take_twice _ b)

section Extension

variable {f : Row → Row} (same : ∀ row ∈ rows, (f row).take d.width = row.take d.width)
  (compares : d.ComparesSource)

include same compares

theorem mates_map {row other : Row} (first : row ∈ rows) (second : other ∈ rows) :
    d.mates (f row) (f other) = d.mates row other :=
  mates_congr compares (same row first) (same other second)

theorem peers_map {row other : Row} (first : row ∈ rows) (second : other ∈ rows) :
    d.peers (f row) (f other) = d.peers row other :=
  peers_congr compares (same row first) (same other second)

theorem precedes_map {row other : Row} (first : row ∈ rows) (second : other ∈ rows) :
    d.precedes (f row) (f other) = d.precedes row other :=
  precedes_congr compares (same row first) (same other second)

theorem declaredIndex_map (i : Nat) {row : Row} (member : row ∈ rows) :
    d.declaredIndex (rows.map f) i (f row) = d.declaredIndex rows i row := by
  rw [declaredIndex, ← List.map_take, List.countP_map]
  apply List.countP_congr
  intro other inside
  rw [Function.comp_apply, mates_map same compares member (List.mem_of_mem_take inside)]

theorem earlierMates_map {row : Row} (member : row ∈ rows) :
    d.earlierMates (rows.map f) (f row) = (d.earlierMates rows row).map f := by
  rw [earlierMates, List.filter_map]
  congr 1
  apply List.filter_congr
  intro other inside
  rw [Function.comp_apply, mates_map same compares member inside,
    precedes_map same compares inside member]

theorem frameMates_map {row : Row} (member : row ∈ rows) :
    d.frameMates (rows.map f) (f row) = (d.frameMates rows row).map f := by
  rw [frameMates, List.filter_map]
  congr 1
  apply List.filter_congr
  intro other inside
  rw [Function.comp_apply, mates_map same compares member inside,
    precedes_map same compares inside member, peers_map same compares member inside]

theorem declaredFrame_map (i : Nat) {row : Row} (member : row ∈ rows) :
    Frame.Alike d.width (d.declaredFrame (rows.map f) i (f row)) (d.declaredFrame rows i row) ∧
      Frame.RankedAlike (d.declaredFrame (rows.map f) i (f row)) (d.declaredFrame rows i row) := by
  have earlier := earlierMates_map same compares member
  refine ⟨⟨d.declaredFrame_valid _ i _, d.declaredFrame_valid _ i _, ?_⟩, Nat.zero_le _,
    Nat.zero_le _, ?_, ?_⟩
  · rw [rows_declaredFrame, rows_declaredFrame, frameMates_map same compares member, List.map_map]
    exact List.map_congr_left fun other inside => same other (List.mem_filter.mp inside).1
  · simp only [declaredFrame, earlier, List.length_map]
  · simp only [declaredFrame, earlier]
    exact Sorting.classes_map fun a ha b hb =>
      peers_map same compares (List.mem_filter.mp ha).1 (List.mem_filter.mp hb).1

omit compares in
/-- What is declared of rows depends on their source cells. -/
theorem declaredResult_map (reads : d.ReadsSource) (i : Nat) {row : Row} (member : row ∈ rows)
    {c : Call} (call : c ∈ d.calls) :
    d.declaredResult (rows.map f) i (f row) c = d.declaredResult rows i row c := by
  obtain ⟨alike, ranked⟩ := declaredFrame_map same reads.toComparesSource i member
  rw [declaredResult, declaredIndex_map same reads.toComparesSource i member]
  exact Call.evaluate_congr (reads.calls c call) alike fun _ => ⟨rfl, ranked⟩

omit compares in
theorem declaredResults_map (reads : d.ReadsSource) :
    d.declaredResults (rows.map f) = d.declaredResults rows := by
  rw [declaredResults, List.zipIdx_map, List.mapM_map]
  refine mapM_congr fun r member => mapM_congr fun c call => ?_
  have result := declaredResult_map same reads r.2 (List.fst_mem_of_mem_zipIdx member) call
  exact congrArg (Guarded.mapError (WindowError.evaluation c.function)) result

end Extension

end Definition
end Windowing
