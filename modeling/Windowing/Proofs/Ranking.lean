import Windowing.Proofs.Arrival
import Windowing.Proofs.Isolation

/-!
Ranking numbers and frame sizes as counts over the rows that came in. They are declared of the
sorted rows, where a row is counted among those of its partition. Sorting only permutes these, and
the results behind its source cells do not change how a row compares, so each row put out can be
compared with the input itself.
-/
namespace Windowing

def Row.Shows (row : Row) (column number : Nat) : Prop :=
  ∃ fits, row[column]? = some (.value (.integer .int64 number fits))

/-- Smaller counts do not wrap. -/
theorem Cell.ofCount_exact {n : Nat} (few : n < countLimit / 2) :
    ∃ fits, Cell.ofCount n = .value (.integer .int64 n fits) := by
  have exact := Call.bmod_countLimit few
  have fits := Cell.bmod_fits_int64 n
  rw [exact] at fits
  refine ⟨fits, ?_⟩
  unfold Cell.ofCount
  congr

namespace Call

variable {cell : Cell}

theorem ordinal_exact {position : Nat} (few : position < countLimit / 2)
    (done : ordinal position = .ok cell) :
    ∃ fits, cell = .value (.integer .int64 (position + 1 : Nat) fits) := by
  rw [ordinal, bmod_countLimit few, successor] at done
  split at done
  · rename_i next found
    obtain rfl := Except.ok.inj done
    have value := IntKind.carrier?_eq_some_iff.mp found
    obtain ⟨n, fits⟩ := next
    obtain rfl : n = position + 1 := value
    exact ⟨fits, rfl⟩
  · cases done

theorem rankOf_exact {f : Frame} (few : f.peerStart - f.partitionStart + 1 < countLimit / 2)
    (done : rankOf f = .ok cell) :
    ∃ fits, cell = .value (.integer .int64 (f.peerStart - f.partitionStart + 1 : Nat) fits) := by
  unfold rankOf at done
  split at done
  · cases done
  · dsimp only at done
    split at done
    · obtain rfl := Except.ok.inj done
      exact Cell.ofCount_exact few
    · cases done

end Call

namespace Definition

/-- The ranks and the frame size that a row shows, counted over the rows of its partition that came
in: those less than it, the different ones among these, and those not greater than it. -/
structure Counts (d : Definition) (input : List Row) (row : Row) : Prop where
  rank : ∀ (k : Nat) c, d.calls[k]? = some c → c.function = .rank →
    row.Shows (d.width + k) (input.countP (fun x => d.mates x row && d.precedes x row) + 1)
  denseRank : ∀ (k : Nat) c, d.calls[k]? = some c → c.function = .denseRank →
    row.Shows (d.width + k)
      (Sorting.classes d.peers (input.filter fun x => d.mates x row && d.precedes x row) + 1)
  frameSize : ∀ (k : Nat) c, d.calls[k]? = some c → c.function = .count → c.arguments = [] →
    row.Shows (d.width + k)
      (input.countP fun x => d.mates x row && (d.precedes x row || d.peers x row))

/-- The partition of a row that came in is put out in full and numbered from one on, its peers in
their order of arrival. -/
structure Numbers (d : Definition) (input output : List Row) (row : Row) : Prop where
  size : (output.filter (d.mates row)).length = input.countP (d.mates row)
  rowNumber : ∀ (k : Nat) c, d.calls[k]? = some c → c.function = .rowNumber →
    ∀ (j : Nat) mate, (output.filter (d.mates row))[j]? = some mate →
      mate.Shows (d.width + k) (j + 1)
  arrival : (output.filter fun x => d.mates row x && d.peers row x).map (List.take d.width) =
    input.filter fun x => d.mates row x && d.peers row x

variable {d : Definition} {types : List DataType} {rows : List Row}

section Results

variable {row complete : Row} {i k : Nat} {c : Call} (exact : row.length = d.width)
  (done : d.completedRow rows i row = .ok complete)

include exact done

theorem completedRow_take : complete.take d.width = row := by
  obtain ⟨cells, -, rfl⟩ := map_eq_ok_iff.mp done
  rw [← exact, List.take_left]

variable (call : d.calls[k]? = some c)

include call

theorem completedRow_call :
    ∃ cell, d.declaredResult rows i row c = .ok cell ∧ complete[d.width + k]? = some cell := by
  obtain ⟨cells, computed, rfl⟩ := map_eq_ok_iff.mp done
  obtain ⟨cell, value, place⟩ := (declaredRow_ok computed).2 k c call
  refine ⟨cell, value, ?_⟩
  rw [← exact, List.getElem?_append_right (Nat.le_add_right _ k), Nat.add_sub_cancel_left, place]

theorem shows_rank (function : c.function = .rank)
    (few : (d.earlierMates rows row).length + 1 < countLimit / 2) :
    complete.Shows (d.width + k) ((d.earlierMates rows row).length + 1) := by
  obtain ⟨cell, value, place⟩ := completedRow_call exact done call
  rw [declaredResult, Call.evaluate, function] at value
  obtain ⟨fits, rfl⟩ :=
    Call.rankOf_exact (f := d.declaredFrame rows i row) few (Guarded.ofDefect_eq_ok_iff.mp value)
  exact ⟨fits, place⟩

theorem shows_denseRank (function : c.function = .denseRank)
    (few : Sorting.classes d.peers (d.earlierMates rows row) < countLimit / 2) :
    complete.Shows (d.width + k) (Sorting.classes d.peers (d.earlierMates rows row) + 1) := by
  obtain ⟨cell, value, place⟩ := completedRow_call exact done call
  rw [declaredResult, Call.evaluate, function] at value
  obtain ⟨fits, rfl⟩ := Call.ordinal_exact few (Guarded.ofDefect_eq_ok_iff.mp value)
  exact ⟨fits, place⟩

theorem shows_frameSize (function : c.function = .count) (plain : c.arguments = [])
    (few : (d.frameMates rows row).length < countLimit / 2) :
    complete.Shows (d.width + k) (d.frameMates rows row).length := by
  obtain ⟨cell, value, place⟩ := completedRow_call exact done call
  rw [declaredResult, Call.evaluate, function] at value
  simp only [plain] at value
  obtain rfl := Except.ok.inj value
  obtain ⟨fits, shown⟩ := Cell.ofCount_exact few
  exact ⟨fits, place.trans (congrArg some shown)⟩

end Results

theorem selected_eq (d : Definition) (rows : List Row) (row : Row) (q : Row → Bool) :
    (rows.filter fun x => d.mates row x && q x) = (rows.filter (d.mates row)).filter q := by
  simp only [List.filter_filter, Bool.and_comm]

theorem earlierMates_lt (laws : Sorting.Total d.partitionOrder.compare (Row.HasTypes types))
    {row : Row} (known : row.HasTypes types) (member : row ∈ rows) :
    (d.earlierMates rows row).length < (rows.filter (d.mates row)).length := by
  rw [earlierMates, selected_eq]
  have itself : row ∈ rows.filter (d.mates row) :=
    List.mem_filter.mpr ⟨member, laws.tied_refl known⟩
  exact List.length_filter_lt_length_iff_exists.mpr ⟨row, itself, d.not_precedes_self row⟩

theorem frameMates_le (d : Definition) (rows : List Row) (row : Row) :
    (d.frameMates rows row).length ≤ (rows.filter (d.mates row)).length := by
  rw [frameMates, selected_eq]
  exact List.length_filter_le _ _

section Partition

variable (laws : Sorting.Total d.partitionOrder.compare (Row.HasTypes types))
  (each : ∀ row ∈ rows, row.HasTypes types ∧ row.length = d.width)

include laws each

/-- In a partition on its own each row comes behind as many of its mates as rows. -/
theorem declaredIndex_partition {first row : Row} (inside : first ∈ rows) {j : Nat}
    (found : (rows.filter (d.mates first))[j]? = some row) :
    d.declaredIndex (rows.filter (d.mates first)) j row = j := by
  obtain ⟨member, mate⟩ := List.mem_filter.mp (List.mem_of_getElem? found)
  have all : ∀ other ∈ (rows.filter (d.mates first)).take j, d.mates row other = true := by
    intro other earlier
    obtain ⟨there, mate'⟩ := List.mem_filter.mp (List.mem_of_mem_take earlier)
    have turned : d.mates first other = d.mates row other :=
      laws.tied_congr (each first inside).1 (each row member).1 (each other there).1 mate
    rw [← turned, mate']
  have short : j ≤ (rows.filter (d.mates first)).length :=
    Nat.le_of_lt (List.getElem?_eq_some_iff.mp found).1
  rw [declaredIndex, List.countP_eq_length.mpr all, List.length_take, Nat.min_eq_left short]

variable (width : d.width = types.length) (compares : d.ComparesSource)

include width compares

/-- The rows of a partition are numbered as they stand in it. -/
theorem partition_ordinal {first : Row} (inside : first ∈ rows) {out : List Row}
    (done : d.completed rows = .ok out) {k : Nat} {c : Call} (call : d.calls[k]? = some c)
    (function : c.function = .rowNumber) {j : Nat} {mate : Row}
    (found : (out.filter (d.mates first))[j]? = some mate) :
    ∃ cell, Call.ordinal j = .ok cell ∧ mate[d.width + k]? = some cell := by
  have typed : ∀ row ∈ rows, row.HasTypes types := fun row there => (each row there).1
  have part := completed_filter laws typed width compares inside done
  obtain ⟨row, place, computed⟩ := (completed_ok part).2 j mate found
  have member := (List.mem_filter.mp (List.mem_of_getElem? place)).1
  obtain ⟨cell, value, shown⟩ := completedRow_call (each row member).2 computed call
  rw [declaredResult, Call.evaluate, function,
    declaredIndex_partition laws each inside place] at value
  exact ⟨cell, Guarded.ofDefect_eq_ok_iff.mp value, shown⟩

/-- A partition with too many rows to number them is not completed. -/
theorem partition_few {first : Row} (inside : first ∈ rows) {out : List Row}
    (done : d.completed rows = .ok out) (numbered : ∃ c ∈ d.calls, c.function = .rowNumber) :
    (rows.filter (d.mates first)).length < countLimit / 2 := by
  obtain ⟨c, member, function⟩ := numbered
  obtain ⟨k, call⟩ := List.mem_iff_getElem?.mp member
  have typed : ∀ row ∈ rows, row.HasTypes types := fun row there => (each row there).1
  obtain ⟨length, -⟩ := completed_ok (completed_filter laws typed width compares inside done)
  by_contra many
  have last : countLimit / 2 - 1 < (out.filter (d.mates first)).length := by
    rw [length]
    simp only [countLimit] at many ⊢
    omega
  obtain ⟨cell, value, -⟩ := partition_ordinal laws each width compares inside done call function
    (List.getElem?_eq_getElem last)
  obtain ⟨fits, -⟩ := Call.ordinal_exact (by decide) value
  exact absurd fits (by decide)

end Partition

theorem tied_sortOrder (d : Definition) (row : Row) :
    Sorting.tied d.sortOrder.compare row = fun other => d.mates row other && d.peers row other := by
  funext other
  rw [Bool.eq_iff_iff, Bool.and_eq_true_iff, mates, peers, Sorting.tied_eq_true_iff,
    Sorting.tied_eq_true_iff, Sorting.tied_eq_true_iff, sortOrder,
    RowOrder.compare_andThen_eq_ok_iff]
  simp only [ne_eq, not_true_eq_false, false_and, or_false]

section Input

variable {input out : List Row} (width : d.width = types.length) (compares : d.ComparesSource)
  (typed : ∀ row ∈ input, row.map Cell.type = types)
  (sorts : Sorting.Sorts d.sortOrder.compare (Row.HasTypes types) input rows)

include width compares typed sorts

section Alike

variable {row source : Row} (known : source.HasTypes types)
  (same : row.take d.width = source.take d.width)

include known same

theorem selected_perm {q q' : Row → Bool} (agree : ∀ x ∈ input, q x = q' x) :
    (rows.filter fun x => d.mates source x && q x).Perm
      (input.filter fun x => d.mates x row && q' x) := by
  have laws := d.partitionOrder_total width compares
  have alike : ∀ x ∈ input, (d.mates source x && q x) = (d.mates x row && q' x) := by
    intro x member
    have turned : d.mates source x = d.mates x source :=
      laws.consistent.tied_comm known (.of_map_eq (typed x member))
    rw [turned, mates_congr compares rfl same.symm, agree x member]
  rw [← List.filter_congr alike]
  exact (sorts.arranges.perm.filter _).symm

/-- With its results a row still has the same rows of the input before it. -/
theorem earlierMates_perm :
    (d.earlierMates rows source).Perm (input.filter fun x => d.mates x row && d.precedes x row) :=
  selected_perm width compares typed sorts known same fun _ _ =>
    precedes_congr compares rfl same.symm

theorem frameMates_perm : (d.frameMates rows source).Perm
    (input.filter fun x => d.mates x row && (d.precedes x row || d.peers x row)) := by
  have laws := d.peerOrder_total width compares
  refine selected_perm width compares typed sorts known same fun x member => ?_
  have turned : d.peers source x = d.peers x source :=
    laws.consistent.tied_comm known (.of_map_eq (typed x member))
  rw [turned, precedes_congr compares rfl same.symm, peers_congr compares rfl same.symm]

end Alike

omit compares in
theorem sorted_rows : ∀ row ∈ rows, row.HasTypes types ∧ row.length = d.width := by
  intro row member
  have known := typed row (sorts.mem_iff.mpr member)
  exact ⟨.of_map_eq known, by rw [width, ← known, List.length_map]⟩

variable (done : d.completed rows = .ok out)

include done

omit compares in
/-- What a row put out was before its results. -/
theorem completed_source {row : Row} (member : row ∈ out) :
    ∃ i source, source ∈ rows ∧ row.take d.width = source.take d.width ∧
      d.completedRow rows i source = .ok row := by
  obtain ⟨i, found⟩ := List.mem_iff_getElem?.mp member
  obtain ⟨source, place, computed⟩ := (completed_ok done).2 i row found
  have inside := List.mem_of_getElem? place
  have exact := (sorted_rows width typed sorts source inside).2
  refine ⟨i, source, inside, ?_, computed⟩
  rw [completedRow_take exact computed, ← exact, List.take_length]

omit compares in
/-- Selecting rows by their source cells is the same before and after their results are known. -/
theorem map_take_filter {p : Row → Bool} (reads : ∀ x, p (x.take d.width) = p x) :
    (out.filter p).map (List.take d.width) = rows.filter p := by
  have whole : out.map (List.take d.width) = rows := by
    obtain ⟨length, each⟩ := completed_ok done
    refine List.ext_getElem? fun i => ?_
    rw [List.getElem?_map]
    cases found : out[i]? with
    | none =>
      have beyond : rows.length ≤ i := length ▸ List.getElem?_eq_none_iff.mp found
      rw [List.getElem?_eq_none beyond]
      rfl
    | some complete =>
      obtain ⟨source, place, computed⟩ := each i complete found
      have exact := (sorted_rows width typed sorts source (List.mem_of_getElem? place)).2
      rw [place, Option.map_some, completedRow_take exact computed]
  rw [← whole, List.filter_map]
  exact congrArg (List.map _) (List.filter_congr fun x _ => (reads x).symm)

variable (numbered : ∃ c ∈ d.calls, c.function = .rowNumber)

include numbered

theorem counts_of_completed : ∀ row ∈ out, d.Counts input row := by
  intro row member
  obtain ⟨i, source, inside, same, computed⟩ := completed_source width typed sorts done member
  have each := sorted_rows width typed sorts
  obtain ⟨known, exact⟩ := each source inside
  have partitions := d.partitionOrder_total width compares
  have few := partition_few partitions each width compares inside done numbered
  have earlier := earlierMates_perm width compares typed sorts known same
  have inFrame := frameMates_perm width compares typed sorts known same
  have before := earlierMates_lt partitions known inside
  constructor
  · intro k c call function
    rw [List.countP_eq_length_filter, ← earlier.length_eq]
    exact shows_rank exact computed call function (by omega)
  · intro k c call function
    have alike : Sorting.classes d.peers (d.earlierMates rows source) = Sorting.classes d.peers _ :=
      Sorting.classes_perm (d.peerOrder_total width compares)
        (fun x there => (each x (List.mem_filter.mp there).1).1) earlier
    have fewer := Sorting.classes_le_length d.peers (d.earlierMates rows source)
    rw [← alike]
    exact shows_denseRank exact computed call function (by omega)
  · intro k c call function plain
    have most := d.frameMates_le rows source
    rw [List.countP_eq_length_filter, ← inFrame.length_eq]
    exact shows_frameSize exact computed call function plain (by omega)

theorem numbers_of_completed : ∀ row ∈ input, d.Numbers input out row := by
  intro row member
  have inside := sorts.mem_iff.mp member
  have each := sorted_rows width typed sorts
  have partitions := d.partitionOrder_total width compares
  have kept :=
    congrArg List.length (map_take_filter width typed sorts done (mates_take compares row))
  rw [List.length_map] at kept
  constructor
  · rw [kept, List.countP_eq_length_filter]
    exact (sorts.arranges.perm.filter _).length_eq.symm
  · intro k c call function j mate found
    have few := partition_few partitions each width compares inside done numbered
    have place := (List.getElem?_eq_some_iff.mp found).1
    obtain ⟨cell, value, shown⟩ :=
      partition_ordinal partitions each width compares inside done call function found
    obtain ⟨fits, rfl⟩ := Call.ordinal_exact (by omega) value
    exact ⟨fits, shown⟩
  · have stable := sorts.arranges.stable row (each row inside).1
    rw [tied_sortOrder] at stable
    rw [map_take_filter width typed sorts done
      fun x => by rw [mates_take compares, peers_take compares]]
    exact stable

end Input

end Definition

namespace Executor

/-- What an execution that numbers its rows puts out agrees with the rows that came in: each row
shows its ranks and the size of its frame as counted over the input, and each partition is numbered
from one on, with peers in their order of arrival. -/
theorem execute_ranks (x : Executor) (d : Definition) (types : List DataType) (batches : List Batch)
    (blocking : Bool) (accounting : Accounting) (delivers : Delivers types batches)
    (width : d.width = types.length) (reads : d.ReadsSource)
    (numbered : ∃ c ∈ d.calls, c.function = .rowNumber) {r : ResultRows}
    (done : (x.execute d ⟨batches.map .batch, blocking⟩ .never accounting).2 = .ok r) :
    (∀ row ∈ r.rows, d.Counts (rowsOf batches) row) ∧
      ∀ row ∈ rowsOf batches, d.Numbers (rowsOf batches) r.rows row := by
  have compares := reads.toComparesSource
  obtain ⟨sorted, sorts⟩ := exists_sorts width compares delivers
  obtain ⟨-, out, completed, rfl⟩ :=
    (x.execute_eq_ok_iff blocking accounting delivers width reads sorts).mp done
  constructor
  · exact d.counts_of_completed width compares delivers.row_types sorts completed numbered
  · exact d.numbers_of_completed width compares delivers.row_types sorts completed numbered

/-- Two peers that other rows came between, and nulls in both columns. -/
theorem execute_ranks_ties :
    let d : Definition := ⟨3, [⟨.rowNumber, []⟩, ⟨.rank, []⟩, ⟨.denseRank, []⟩, ⟨.count, []⟩],
      some (.ascending 0), some (.ascending 1)⟩
    let schema : Schema := ⟨[⟨"k", .int64, true⟩, ⟨"v", .int64, true⟩, ⟨"n", .int64, true⟩], []⟩
    let first : Row := [.ofCount 1, .ofCount 5, .ofCount 10]
    let peer : Row := [.ofCount 1, .ofCount 5, .ofCount 12]
    let later : Row := [.ofCount 1, .ofCount 7, .ofCount 14]
    let last : Row := [.ofCount 1, .null .int64, .ofCount 13]
    let other : Row := [.null .int64, .ofCount 9, .ofCount 11]
    let batches : List Batch := [⟨schema, [first, other]⟩, ⟨schema, [peer, last, later]⟩]
    let results : List (List Nat) :=
      [[1, 1, 1, 2], [2, 1, 1, 2], [3, 3, 2, 3], [4, 4, 3, 4], [1, 1, 1, 1]]
    let rows :=
      [first, peer, later, last, other].zipWith (fun row shown => row ++ shown.map .ofCount) results
    let shown : Row := later ++ [3, 3, 2, 3].map .ofCount
    (execute ⟨{}, none⟩ d ⟨batches.map .batch, false⟩ .never .unaccounted).2 = .ok ⟨rows, false⟩ ∧
      shown.Shows 4 3 ∧ shown.Shows 5 2 ∧ shown.Shows 6 3 ∧
      (rows.filter fun x => d.mates peer x && d.peers peer x).map (List.take 3) =
        [first, peer] := by
  intro d schema first peer later last other batches results rows shown
  have delivers : Delivers [.int64, .int64, .int64] batches := by decide
  have reads : d.ReadsSource := by decide
  have done : (execute ⟨{}, none⟩ d ⟨batches.map .batch, false⟩ .never .unaccounted).2 =
      .ok ⟨rows, false⟩ := by
    decide +kernel
  obtain ⟨shows, numbers⟩ :=
    execute_ranks ⟨{}, none⟩ d _ batches false .unaccounted delivers rfl reads
    ⟨_, List.mem_cons_self .., rfl⟩ done
  have counts := shows shown (by decide)
  have less : (rowsOf batches).countP (fun x => d.mates x shown && d.precedes x shown) = 2 := by
    decide
  have groups : Sorting.classes d.peers
      ((rowsOf batches).filter fun x => d.mates x shown && d.precedes x shown) = 1 := by decide
  have inFrame : (rowsOf batches).countP
      (fun x => d.mates x shown && (d.precedes x shown || d.peers x shown)) = 3 := by decide
  have rank := counts.rank 1 _ rfl rfl
  have denseRank := counts.denseRank 2 _ rfl rfl
  have frameSize := counts.frameSize 3 _ rfl rfl rfl
  rw [less] at rank
  rw [groups] at denseRank
  rw [inFrame] at frameSize
  exact ⟨done, rank, denseRank, frameSize, (numbers peer (by decide)).arrival⟩

end Executor
end Windowing
