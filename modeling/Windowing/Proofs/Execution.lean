import Windowing.Execution
import Windowing.Proofs.Results
import Windowing.Proofs.Sorting.Stable
import Windowing.Proofs.Source

/-!
An execution from the batches of its source to its rows. Whatever way the rows are sorted and
whether or not results are copied between peers, it answers with what is declared of the stably
sorted rows.
-/
namespace Windowing

namespace RowOrder

theorem map_join (partitionBy orderBy : Option RowOrder) :
    (join partitionBy orderBy).map compare =
      Sorting.join (partitionBy.map compare) (orderBy.map compare) := by
  cases partitionBy <;> cases orderBy <;> rfl

/-- Joined, two orders compare as the one that refines the first by the second. -/
theorem compare_join {first second order : RowOrder} {partitionBy orderBy : Option RowOrder}
    (hp : partitionBy.getD .equal = first) (ho : orderBy.getD .equal = second)
    (joined : join partitionBy orderBy = some order) :
    order.compare = (andThen first second).compare := by
  have both := Sorting.join_getD (partitionBy.map compare) (orderBy.map compare)
  simp only [← map_join, joined, compare_getD, hp, ho, Option.getD_some, ← compare_andThen] at both
  exact both

theorem join_eq_none_iff {partitionBy orderBy : Option RowOrder} :
    join partitionBy orderBy = none ↔ partitionBy = none ∧ orderBy = none := by
  cases partitionBy <;> cases orderBy <;> simp [join]

end RowOrder

variable {x : Executor} {d : Definition} {types : List DataType}

theorem Definition.partitionOrder_total (width : d.width = types.length)
    (compares : d.ComparesSource) :
    Sorting.Total d.partitionOrder.compare (Row.HasTypes types) :=
  RowOrder.total (width ▸ compares.partitionOrder)

theorem Definition.peerOrder_total (width : d.width = types.length) (compares : d.ComparesSource) :
    Sorting.Total d.peerOrder.compare (Row.HasTypes types) :=
  RowOrder.total (width ▸ compares.peerOrder)

theorem Definition.sortOrder_total (width : d.width = types.length) (compares : d.ComparesSource) :
    Sorting.Total d.sortOrder.compare (Row.HasTypes types) :=
  RowOrder.total ⟨width ▸ compares.partitionOrder, width ▸ compares.peerOrder⟩

namespace Executor

/-- Rows that both orders can compare are stably sorted. Without any order they keep that of their
arrival, which is their stable sort then. -/
theorem sort_total {on : Row → Prop} (partitions : Sorting.Total d.partitionOrder.compare on)
    (peers : Sorting.Total d.peerOrder.compare on) {rows : List Row}
    (inside : ∀ row ∈ rows, on row) :
    ∃ sorted, x.sort (RowOrder.join d.partitionBy d.orderBy) rows = .ok sorted ∧
      Sorting.Sorts d.sortOrder.compare on rows sorted := by
  cases joined : RowOrder.join d.partitionBy d.orderBy with
  | none =>
    obtain ⟨noPartition, noOrder⟩ := RowOrder.join_eq_none_iff.mp joined
    refine ⟨rows, rfl, .refl rows, List.pairwise_of_forall fun a b => .of_eq ?_⟩
    rw [Definition.sortOrder, Definition.partitionOrder, Definition.peerOrder, noPartition, noOrder]
    rfl
  | some order =>
    have same : order.compare = d.sortOrder.compare := RowOrder.compare_join rfl rfl joined
    have laws : Sorting.Total d.sortOrder.compare on := partitions.thenBy peers
    rw [← same] at laws ⊢
    exact (Sorting.sort_ends laws.consistent inside).ok_of_total laws

theorem sort_ok (width : d.width = types.length) (compares : d.ComparesSource) {rows : List Row}
    (typed : ∀ row ∈ rows, row.HasTypes types) :
    ∃ sorted, x.sort (RowOrder.join d.partitionBy d.orderBy) rows = .ok sorted ∧
      Sorting.Sorts d.sortOrder.compare (Row.HasTypes types) rows sorted :=
  sort_total (d.partitionOrder_total width compares) (d.peerOrder_total width compares) typed

theorem compute_eq {rows sorted : List Row}
    (done : x.sort (RowOrder.join d.partitionBy d.orderBy) rows = .ok sorted) :
    x.compute d rows = Definition.outcome (d.walk sorted.toArray) := by
  rw [compute, done]
  simp only [Guarded.lift_eq, Guarded.ofDefect_ok, ok_bind]
  cases h : d.walk sorted.toArray with
  | mk buffer ending => cases ending <;> rfl

theorem sort_perm {order : Option RowOrder} {rows sorted : List Row}
    (done : x.sort order rows = .ok sorted) :
    rows.Perm sorted := by
  cases order with
  | none =>
    obtain rfl := Except.ok.inj done
    exact .refl rows
  | some order =>
    have ends :
        Sorting.Ends order.compare (fun _ => True)
          (Sorting.Sorts order.compare (fun _ => True) rows)
        (x.sort (some order) rows) := Sorting.sort_ends (order.consistent _) fun _ _ => trivial
    rw [done] at ends
    exact ends.arranges.perm

/-- However rows are ordered, and whatever is computed for them, none is lost or made up. -/
theorem compute_perm {rows computed : List Row} (done : x.compute d rows = .ok computed) :
    (computed.map (List.take d.width)).Perm (rows.map (List.take d.width)) := by
  obtain ⟨sorted, ordered, -⟩ := bind_eq_ok_iff.mp done
  have ordered' : x.sort (RowOrder.join d.partitionBy d.orderBy) rows = .ok sorted :=
    Guarded.ofDefect_eq_ok_iff.mp ordered
  rw [compute_eq ordered'] at done
  obtain ⟨-, rfl⟩ := Definition.outcome_eq_ok_iff.mp done
  have kept : ((d.walk sorted.toArray).1.toList).map (List.take d.width) =
      sorted.map (List.take d.width) :=
    (d.walkFrom_agree _ (.refl d.width sorted.toArray)).map_take
  rw [kept]
  exact ((sort_perm ordered').map _).symm

end Executor

/-- What the batches of a source are meant to be: valid, and of columns of the given types. -/
structure Delivers (types : List DataType) (batches : List Batch) : Prop where
  valid : ∀ b ∈ batches, b.Valid
  types_eq : ∀ b ∈ batches, b.schema.fields.map Field.type = types

instance (types : List DataType) (batches : List Batch) : Decidable (Delivers types batches) :=
  decidable_of_iff ((∀ b ∈ batches, b.Valid) ∧
    ∀ b ∈ batches, b.schema.fields.map Field.type = types)
    ⟨fun h => ⟨h.1, h.2⟩, fun h => ⟨h.valid, h.types_eq⟩⟩

namespace Delivers

variable {batches : List Batch}

theorem width_eq (delivers : Delivers types batches) : ∀ b ∈ batches, b.width = types.length := by
  intro b member
  rw [← delivers.types_eq b member, List.length_map]
  rfl

theorem row_types (delivers : Delivers types batches) :
    ∀ row ∈ rowsOf batches, row.map Cell.type = types := by
  intro row member
  obtain ⟨b, member, inside⟩ := List.mem_flatMap.mp member
  exact (delivers.valid b member row inside).trans (delivers.types_eq b member)

theorem row_length (delivers : Delivers types batches) :
    ∀ row ∈ rowsOf batches, row.length = types.length := by
  intro row member
  rw [← delivers.row_types row member, List.length_map]

end Delivers

theorem Row.HasTypes.of_map_eq {row : Row} (typed : row.map Cell.type = types) :
    row.HasTypes types := by
  have length : row.length = types.length := by rw [← typed, List.length_map]
  rw [HasTypes, List.take_of_length_le (Nat.le_of_eq length), typed]

theorem Delivers.hasTypes {batches : List Batch} (delivers : Delivers types batches) :
    ∀ row ∈ rowsOf batches, row.HasTypes types := by
  intro row member
  exact .of_map_eq (delivers.row_types row member)

namespace Batch

variable {row : Row} {spare : Nat}

theorem take_reserve {width : Nat} (inside : width ≤ row.length) :
    (reserve row spare).take width = row.take width := by
  rw [reserve, List.take_append_of_le_length inside]

theorem hasTypes_reserve (typed : row.HasTypes types) : (reserve row spare).HasTypes types := by
  rw [Row.HasTypes, take_reserve typed.length_le]
  exact typed

/-- Rows with cells reserved still begin with their own. -/
theorem reserve_rows {rows : List Row} (typed : ∀ row ∈ rows, row.map Cell.type = types) :
    ∀ row ∈ rows.map (reserve · spare), row.HasTypes types ∧ row.length = types.length + spare := by
  intro row member
  obtain ⟨source, inside, rfl⟩ := List.mem_map.mp member
  refine ⟨hasTypes_reserve (.of_map_eq (typed source inside)), ?_⟩
  rw [length_reserve, ← typed source inside, List.length_map]

/-- Without their reserved cells rows are what they were. -/
theorem map_take_reserve {rows : List Row} {width : Nat} (length : ∀ row ∈ rows, row.length = width)
    (spare : Nat) :
    (rows.map (reserve · spare)).map (List.take width) = rows := by
  rw [List.map_map]
  refine (List.map_congr_left fun row member => ?_).trans (List.map_id _)
  rw [Function.comp_apply, take_reserve (Nat.le_of_eq (length row member).symm),
    List.take_of_length_le (Nat.le_of_eq (length row member)), id]

/-- Results that fill the reserved cells follow the cells of the row. -/
theorem overwrite_reserve {results : List Cell} (fill : results.length = spare) :
    (reserve row spare).overwrite row.length results = row ++ results := by
  simp [reserve, Row.overwrite, fill]

/-- Results that fill the cells reserved in every row follow the cells of the rows. -/
theorem zipWith_overwrite_reserve {rows : List Row} {results : List (List Cell)} {width spare : Nat}
    (length : ∀ row ∈ rows, row.length = width) (fill : ∀ cells ∈ results, cells.length = spare) :
    List.zipWith (Row.overwrite width) (rows.map (reserve · spare)) results =
      List.zipWith (· ++ ·) rows results := by
  rw [List.zipWith_map_left, ← List.map_uncurry_zip_eq_zipWith, ← List.map_uncurry_zip_eq_zipWith]
  apply List.map_congr_left
  rintro ⟨row, cells⟩ member
  obtain ⟨inside, place⟩ := List.of_mem_zip member
  show (reserve row spare).overwrite width cells = row ++ cells
  rw [← length row inside]
  exact overwrite_reserve (fill cells place)

end Batch

namespace Definition

/-- How an execution over sorted rows answers: with the rows and the results of all calls, or with
the failure of the first call that fails, row by row and in each row in the order of the calls. -/
inductive Answers (d : Definition) (sorted : List Row) (blocking : Bool) :
    Guarded WindowError ResultRows → Prop
  | computed {results : List (List Cell)} (count : results.length = sorted.length)
      (each : ∀ (i : Nat) row, sorted[i]? = some row → ∃ cells, results[i]? = some cells ∧
        cells.length = d.calls.length ∧ ∀ (k : Nat) c, d.calls[k]? = some c →
          ∃ cell, cells[k]? = some cell ∧ d.declaredResult sorted i row c = .ok cell) :
      Answers d sorted blocking (.ok ⟨List.zipWith (· ++ ·) sorted results, blocking⟩)
  | failed {i k : Nat} {row : Row} {c : Call} {e : EvaluationError} (found : sorted[i]? = some row)
      (call : d.calls[k]? = some c) (fails : d.declaredResult sorted i row c = .error (.error e))
      (first : ∀ (j l : Nat) row' c', j < i ∨ j = i ∧ l < k → sorted[j]? = some row' →
        d.calls[l]? = some c' →
        ∃ cell, d.declaredResult sorted j row' c' = .ok cell) :
      Answers d sorted blocking (.error (.error (.evaluation c.function e)))
  /-- A rank that is out of range takes `2 ^ 63` rows. -/
  | overflowed {i k : Nat} {row : Row} {c : Call} (found : sorted[i]? = some row)
      (call : d.calls[k]? = some c)
      (fails : d.declaredResult sorted i row c = .error (.defect .countOutOfRange))
      (first : ∀ (j l : Nat) row' c', j < i ∨ j = i ∧ l < k → sorted[j]? = some row' →
        d.calls[l]? = some c' →
        ∃ cell, d.declaredResult sorted j row' c' = .ok cell)
      (many : countLimit / 2 ≤ sorted.length) :
      Answers d sorted blocking (.error (.defect .countOutOfRange))

theorem declaredResults_answers (width : d.width = types.length) (reads : d.ReadsSource)
    {sorted : List Row} (typed : ∀ row ∈ sorted, row.HasTypes types) (blocking : Bool) :
    d.Answers sorted blocking
      ((d.declaredResults sorted).map fun results =>
        ⟨List.zipWith (· ++ ·) sorted results, blocking⟩) := by
  cases results : d.declaredResults sorted with
  | ok results =>
    obtain ⟨count, each⟩ := declaredResults_ok results
    refine .computed count ?_
    intro i row found
    obtain ⟨cells, computed, place⟩ := each i row found
    obtain ⟨length, each⟩ := declaredRow_ok computed
    refine ⟨cells, place, length, fun k c call => ?_⟩
    obtain ⟨cell, value, place⟩ := each k c call
    exact ⟨cell, place, value⟩
  | error e =>
    obtain ⟨i, ⟨row, j⟩, numbered, fails, before⟩ := mapM_eq_error results
    obtain ⟨row, found, rfl, rfl⟩ : ∃ a, sorted[i]? = some a ∧ a = row ∧ i = j := by
      simpa using numbered
    obtain ⟨k, c, call, fails, ahead⟩ := mapM_eq_error fails
    have first : ∀ (j l : Nat) row' c', j < i ∨ j = i ∧ l < k → sorted[j]? = some row' →
        d.calls[l]? = some c' → ∃ cell, d.declaredResult sorted j row' c' = .ok cell := by
      rintro j l row' c' (earlier | ⟨rfl, earlier⟩) found' call'
      · obtain ⟨cells, computed⟩ := before j earlier (row', j) (by simp [found'])
        obtain ⟨cell, value, -⟩ := (declaredRow_ok computed).2 l c' call'
        exact ⟨cell, value⟩
      · obtain rfl := Option.some.inj (found.symm.trans found')
        obtain ⟨cell, value⟩ := ahead l earlier c' call'
        exact ⟨cell, Guarded.mapError_eq_ok_iff.mp value⟩
    have wide : ∀ row ∈ sorted, d.width ≤ row.length := by
      intro row member
      exact width ▸ (typed row member).length_le
    have stops : Guarded.StopsOnly (Overflow sorted.length) (d.declaredResult sorted i row c) :=
      declaredResult_stops wide (reads.calls c (List.mem_of_getElem? call)) found
    cases result : d.declaredResult sorted i row c with
    | ok cell =>
      rw [result] at fails
      cases fails
    | error fault =>
      rw [result] at fails
      obtain rfl := Except.error.inj fails
      cases fault with
      | error e => exact .failed found call result first
      | defect defect =>
        obtain ⟨rfl, many⟩ := stops defect result
        exact .overflowed found call result first many

end Definition

namespace Executor

variable {batches : List Batch} {blocking : Bool} {cancel : Cancellation} {accounting : Accounting}

/-- Cells reserved for results make no difference to the order of rows. -/
theorem sort_reserved (width : d.width = types.length) (compares : d.ComparesSource)
    {rows : List Row} (typed : ∀ row ∈ rows, row.map Cell.type = types) (spare : Nat) :
    ∃ sorted, Sorting.Sorts d.sortOrder.compare (Row.HasTypes types) rows sorted ∧
      d.Arranged types (sorted.map (Batch.reserve · spare)) ∧
      x.sort (RowOrder.join d.partitionBy d.orderBy) (rows.map (Batch.reserve · spare)) =
        .ok (sorted.map (Batch.reserve · spare)) := by
  have within : d.sortOrder.Within d.width := ⟨compares.partitionOrder, compares.peerOrder⟩
  have hasTypes : ∀ row ∈ rows, row.HasTypes types := by
    intro row member
    exact .of_map_eq (typed row member)
  have back : ∀ row ∈ rows, (Batch.reserve row spare).take d.width = row := by
    intro row member
    have length : row.length = d.width := by rw [width, ← typed row member, List.length_map]
    rw [Batch.take_reserve (Nat.le_of_eq length.symm), List.take_of_length_le (Nat.le_of_eq length)]
  have reserved : ∀ row ∈ rows.map (Batch.reserve · spare), row.HasTypes types := by
    intro row member
    exact (Batch.reserve_rows typed row member).1
  obtain ⟨walked, done, sorts⟩ := x.sort_ok width compares reserved
  obtain ⟨image, sorts'⟩ :=
    sorts.of_map back hasTypes (fun row typed => Batch.hasTypes_reserve typed)
    (fun a b left right => RowOrder.compare_congr within
      (Batch.take_reserve (width ▸ left.length_le)) (Batch.take_reserve (width ▸ right.length_le)))
  refine ⟨walked.map (List.take d.width), sorts', ?_⟩
  generalize walked.map (List.take d.width) = sorted at image sorts'
  subst image
  exact ⟨⟨width, compares, sorts.arranges.on_right reserved, sorts.sorted⟩, done⟩

theorem compute_reserved (width : d.width = types.length) (reads : d.ReadsSource) {rows : List Row}
    (typed : ∀ row ∈ rows, row.map Cell.type = types) :
    ∃ sorted, Sorting.Sorts d.sortOrder.compare (Row.HasTypes types) rows sorted ∧
      x.compute d (rows.map (Batch.reserve · d.calls.length)) =
        (d.declaredResults sorted).map (List.zipWith (· ++ ·) sorted) := by
  obtain ⟨sorted, sorts, arranged, done⟩ :=
    x.sort_reserved width reads.toComparesSource typed d.calls.length
  refine ⟨sorted, sorts, ?_⟩
  have length : ∀ row ∈ sorted, row.length = d.width := by
    intro row member
    rw [width, ← typed row (sorts.mem_iff.mpr member), List.length_map]
  have wide : ∀ row ∈ sorted.map (Batch.reserve · d.calls.length),
      d.width + d.calls.length ≤ row.length := by
    intro row member
    obtain ⟨source, inside, rfl⟩ := List.mem_map.mp member
    exact Nat.le_of_eq (by rw [Batch.length_reserve, length source inside])
  rw [compute_eq done, Definition.walk_declared arranged reads wide,
    Definition.declaredResults_map (fun row member => Batch.take_reserve
      (Nat.le_of_eq (length row member).symm)) reads]
  cases results : d.declaredResults sorted with
  | error e => rfl
  | ok results =>
    exact congrArg Except.ok
      (Batch.zipWith_overwrite_reserve length (Definition.length_of_declaredResults results))

/-- An execution over batches that is not cancelled in time charges all rows in their order, and
computes on them if the budget admits them. -/
theorem execute_batches (widths : ∀ b ∈ batches, b.width = d.width)
    (undisturbed : cancel.seen (batches.length + 1) = false) :
    x.execute d ⟨batches.map .batch, blocking⟩ cancel accounting =
      ((accounting.chargeAll (rowsOf batches)).1,
        match (accounting.chargeAll (rowsOf batches)).2 with
        | .error e => .error (.error (.budget e))
        | .ok _ =>
          (x.compute d ((rowsOf batches).map (Batch.reserve · d.calls.length))).map fun rows =>
          ⟨rows, blocking⟩) := by
  have drained := Source.drain_eq d.calls.length widths 0 accounting
    (Cancellation.seen_mono (by omega) undisturbed)
  simp only [execute, Source.collect, List.length_map, undisturbed]
  rw [drained]
  cases (accounting.chargeAll (rowsOf batches)).2 <;> rfl

theorem execute_eq (widths : ∀ b ∈ batches, b.width = d.width)
    (undisturbed : cancel.seen (batches.length + 1) = false) :
    (x.execute d ⟨batches.map .batch, blocking⟩ cancel accounting).2 =
      match (accounting.chargeAll (rowsOf batches)).2 with
      | .error e => .error (.error (.budget e))
      | .ok _ =>
        (x.compute d ((rowsOf batches).map (Batch.reserve · d.calls.length))).map fun rows =>
        ⟨rows, blocking⟩ := congrArg Prod.snd (execute_batches widths undisturbed)

/-- From batches of the same column types, when nothing interferes and only source cells are looked
at, an execution answers for the stable sort of all rows as declared, whatever the executor. -/
theorem execute_answers (x : Executor) (d : Definition) (types : List DataType)
    (batches : List Batch) (blocking : Bool) (cancel : Cancellation) (accounting : Accounting)
    (delivers : Delivers types batches) (width : d.width = types.length) (reads : d.ReadsSource)
    (undisturbed : cancel.seen (batches.length + 1) = false)
    (admitted : (accounting.chargeAll (rowsOf batches)).2 = .ok ()) :
    ∃ sorted,
      (∀ other, Sorting.Sorts d.sortOrder.compare (Row.HasTypes types) (rowsOf batches) other ↔
        other = sorted) ∧
      (d.partitionBy = none → d.orderBy = none → sorted = rowsOf batches) ∧
      d.Answers sorted blocking
        (x.execute d ⟨batches.map .batch, blocking⟩ cancel accounting).2 := by
  obtain ⟨sorted, sorts, computed⟩ := x.compute_reserved width reads delivers.row_types
  have laws := d.sortOrder_total width reads.toComparesSource
  have typed : ∀ row ∈ rowsOf batches, row.HasTypes types := by
    intro row member
    exact .of_map_eq (delivers.row_types row member)
  have unique : ∀ other,
      Sorting.Sorts d.sortOrder.compare (Row.HasTypes types) (rowsOf batches) other ↔
      other = sorted := fun other =>
    ⟨fun h => h.unique laws typed sorts, fun same => same ▸ sorts⟩
  refine ⟨sorted, unique, fun noPartition noOrder => ?_, ?_⟩
  · refine ((unique _).mp ⟨.refl _, List.pairwise_of_forall fun a b => .of_eq ?_⟩).symm
    rw [Definition.sortOrder, Definition.partitionOrder, Definition.peerOrder, noPartition, noOrder]
    rfl
  · have answers := d.declaredResults_answers width reads (sorts.arranges.on_right typed) blocking
    have widths : ∀ b ∈ batches, b.width = d.width := by
      intro b member
      exact (delivers.width_eq b member).trans width.symm
    rw [execute_eq widths undisturbed, admitted]
    dsimp only
    rw [computed]
    cases results : d.declaredResults sorted with
    | error e =>
      rw [results] at answers
      exact answers
    | ok results' =>
      rw [results] at answers
      exact answers

/-- Two batches, with a tie and a null among the rows. -/
theorem execute_answers_two_batches :
    let d : Definition :=
      ⟨2, [⟨.rank, []⟩, ⟨.sum, [.column 1]⟩], some (.ascending 0), some (.descending 1)⟩
    let schema : Schema := ⟨[⟨"k", .int64, true⟩, ⟨"v", .int64, true⟩], []⟩
    let batches : List Batch := [⟨schema, [[.ofCount 1, .ofCount 5], [.ofCount 0, .null .int64]]⟩,
      ⟨schema, [[.ofCount 1, .ofCount 5], [.ofCount 1, .ofCount 9]]⟩]
    ∃ sorted,
      (∀ other, Sorting.Sorts d.sortOrder.compare (Row.HasTypes [.int64, .int64]) (rowsOf batches)
        other ↔ other = sorted) ∧
      (d.partitionBy = none → d.orderBy = none → sorted = rowsOf batches) ∧
      d.Answers sorted true
        (execute ⟨{}, none⟩ d ⟨batches.map .batch, true⟩ (.during 4) .unaccounted).2 := by
  intro d schema batches
  have delivers : Delivers [.int64, .int64] batches := by decide
  have reads : d.ReadsSource := by decide
  exact execute_answers ⟨{}, none⟩ d [.int64, .int64] batches true (.during 4) .unaccounted delivers
    rfl reads rfl rfl

end Executor
end Windowing
