import Windowing.Proofs.Completion

/-!
The calls of a definition do not influence each other. A definition with some of the calls of
another one, in whatever order and as often as one likes, completes the same rows in the same order,
and behind them stand the results that these calls have among all. So an execution succeeds just if
it does with each of its calls alone.
-/
namespace Windowing

/-- What a function gives for the elements at some places of a list. -/
theorem mapM_filterMap_places {α β ε : Type} {f : α → Except ε β} {xs : List α} {ys : List β}
    (done : xs.mapM f = .ok ys) (places : List Nat) :
    (places.filterMap (xs[·]?)).mapM f = .ok (places.filterMap (ys[·]?)) := by
  obtain ⟨length, each⟩ := mapM_eq_ok done
  induction places with
  | nil => rfl
  | cons k places ih =>
    rcases Nat.lt_or_ge k xs.length with inside | beyond
    · obtain ⟨y, value, place⟩ := each k xs[k] (List.getElem?_eq_getElem inside)
      rw [List.filterMap_cons_some (List.getElem?_eq_getElem inside),
        List.filterMap_cons_some place, List.mapM_cons, value, ok_bind, ih]
      rfl
    · rw [List.filterMap_cons_none (List.getElem?_eq_none beyond),
        List.filterMap_cons_none (List.getElem?_eq_none (length ▸ beyond)), ih]

namespace Definition

variable (d : Definition)

def alone (c : Call) : Definition := { d with calls := [c] }

def select (places : List Nat) : Definition := { d with calls := places.filterMap (d.calls[·]?) }

/-- The source cells of a completed row, and its results at these places. -/
def pick (places : List Nat) (row : Row) : Row :=
  row.take d.width ++ places.filterMap fun k => row[d.width + k]?

variable {d} {rows : List Row}

theorem select_singleton {k : Nat} {c : Call} (found : d.calls[k]? = some c) :
    d.select [k] = d.alone c := by
  rw [select, List.filterMap_cons_some found]
  rfl

theorem declaredRow_select {i : Nat} {row : Row} {cells : List Cell}
    (computed : d.declaredRow rows i row = .ok cells) (places : List Nat) :
    (d.select places).declaredRow rows i row = .ok (places.filterMap (cells[·]?)) :=
  mapM_filterMap_places computed places

theorem ReadsSource.of_calls (reads : d.ReadsSource) {calls : List Call}
    (some_ : ∀ c ∈ calls, c ∈ d.calls) :
    ReadsSource { d with calls } :=
  ⟨⟨reads.partitionBy, reads.orderBy⟩, fun c member => reads.calls c (some_ c member)⟩

theorem ReadsSource.alone (reads : d.ReadsSource) {c : Call} (call : c ∈ d.calls) :
    (d.alone c).ReadsSource :=
  reads.of_calls (List.forall_mem_singleton.mpr call)

theorem ReadsSource.select (reads : d.ReadsSource) (places : List Nat) :
    (d.select places).ReadsSource := by
  refine reads.of_calls fun c member => ?_
  obtain ⟨k, -, found⟩ := List.mem_filterMap.mp member
  exact List.mem_of_getElem? found

section Columns

variable {complete : List Row} (wide : ∀ row ∈ complete, d.width ≤ row.length)

include wide

theorem map_take_pick (places : List Nat) :
    (complete.map (d.pick places)).map (List.take d.width) = complete.map (List.take d.width) := by
  rw [List.map_map]
  refine List.map_congr_left fun row member => ?_
  have own : d.width ≤ (row.take d.width).length := by
    rw [List.length_take]
    exact Nat.le_min.mpr ⟨Nat.le_refl _, wide row member⟩
  rw [Function.comp_apply, pick, List.take_append_of_le_length own, List.take_take, Nat.min_self]

/-- A column picked alone is the first one behind the source cells. -/
theorem map_getElem?_pick (k : Nat) :
    (complete.map (d.pick [k])).map (·[d.width]?) = complete.map (·[d.width + k]?) := by
  rw [List.map_map]
  refine List.map_congr_left fun row member => ?_
  have own : (row.take d.width).length = d.width := List.length_take_of_le (wide row member)
  show (d.pick [k] row)[d.width]? = row[d.width + k]?
  rw [pick, List.getElem?_append_right (Nat.le_of_eq own), own, Nat.sub_self]
  cases found : row[d.width + k]? <;> simp only [List.filterMap_cons, List.filterMap_nil, found] <;>
    rfl

end Columns

theorem pick_append {row : Row} (length : row.length = d.width) (cells : List Cell)
    (places : List Nat) :
    d.pick places (row ++ cells) = row ++ places.filterMap (cells[·]?) := by
  have own : (row ++ cells).take d.width = row := by rw [← length, List.take_left]
  rw [pick, own]
  congr 2
  funext k
  rw [List.getElem?_append_right (by omega), length, Nat.add_sub_cancel_left]

/-- Whatever calls are selected, they are completed as among all. -/
theorem completed_select (length : ∀ row ∈ rows, row.length = d.width) {out : List Row}
    (done : d.completed rows = .ok out) (places : List Nat) :
    (d.select places).completed rows = .ok (out.map (d.pick places)) := by
  rw [completed_eq] at done ⊢
  obtain ⟨results, computed, rfl⟩ := map_eq_ok_iff.mp done
  have selected : (d.select places).declaredResults rows =
      .ok (results.map fun cells => places.filterMap (cells[·]?)) :=
    mapM_of_ok computed fun _ _ here => declaredRow_select here places
  rw [selected, List.map_zipWith]
  refine congrArg Except.ok ?_
  rw [List.zipWith_map_right, ← List.map_uncurry_zip_eq_zipWith, ← List.map_uncurry_zip_eq_zipWith]
  apply List.map_congr_left
  rintro ⟨row, cells⟩ member
  exact (pick_append (length row (List.of_mem_zip member).1) cells places).symm

theorem length_completed (length : ∀ row ∈ rows, row.length = d.width) {out : List Row}
    (done : d.completed rows = .ok out) : ∀ row ∈ out, row.length = d.width + d.calls.length := by
  intro complete member
  obtain ⟨i, found⟩ := List.mem_iff_getElem?.mp member
  obtain ⟨row, place, computed⟩ := (completed_ok done).2 i complete found
  obtain ⟨cells, here, rfl⟩ := map_eq_ok_iff.mp computed
  rw [List.length_append, length row (List.mem_of_getElem? place), (declaredRow_ok here).1]

/-- All rows are completed just if each call has a result for each of them. -/
theorem exists_completed_iff : (∃ out, d.completed rows = .ok out) ↔
    ∀ c ∈ d.calls, ∀ r ∈ rows.zipIdx, ∃ cell, d.declaredResult rows r.2 r.1 c = .ok cell := by
  have results : (∃ out, d.completed rows = .ok out) ↔
      ∃ results, d.declaredResults rows = .ok results := by
    rw [completed_eq]
    cases d.declaredResults rows <;> simp [Except.map]
  rw [results, declaredResults, exists_mapM_eq_ok_iff]
  simp only [declaredRow, exists_mapM_eq_ok_iff, Guarded.mapError_eq_ok_iff]
  constructor
  · intro each c call r member
    exact each r member c call
  · intro each r member c call
    exact each c call r member

theorem exists_completed_iff_alone : (∃ out, d.completed rows = .ok out) ↔
    ∀ c ∈ d.calls, ∃ out, (d.alone c).completed rows = .ok out := by
  rw [exists_completed_iff]
  refine forall₂_congr fun c call => ?_
  rw [exists_completed_iff, alone, List.forall_mem_singleton]
  rfl

end Definition

namespace Executor

section Sorted

variable {d : Definition} {types : List DataType} {batches : List Batch} (blocking : Bool)
  (accounting : Accounting) (delivers : Delivers types batches) (width : d.width = types.length)
  (reads : d.ReadsSource)

include delivers width reads

theorem exists_execute_iff (x : Executor) {sorted : List Row}
    (sorts : Sorting.Sorts d.sortOrder.compare (Row.HasTypes types) (rowsOf batches) sorted) :
    (∃ r, (x.execute d ⟨batches.map .batch, blocking⟩ .never accounting).2 = .ok r) ↔
      accounting.Room (rowsOf batches) ∧ ∃ out, d.completed sorted = .ok out := by
  simp only [x.execute_eq_ok_iff blocking accounting delivers width reads sorts]
  constructor
  · rintro ⟨r, room, out, completed, -⟩
    exact ⟨room, out, completed⟩
  · rintro ⟨room, out, completed⟩
    exact ⟨_, room, out, completed, rfl⟩

/-- Without any call nothing but the room for the rows decides. -/
theorem succeeds_iff_alone (x y : Executor)
    (given : d.calls ≠ [] ∨ accounting.Room (rowsOf batches)) :
    (∃ r, (x.execute d ⟨batches.map .batch, blocking⟩ .never accounting).2 = .ok r) ↔
      ∀ c ∈ d.calls, ∃ r,
        (y.execute (d.alone c) ⟨batches.map .batch, blocking⟩ .never accounting).2 = .ok r := by
  -- No call is asked for its order: with any of them the rows are sorted the same.
  obtain ⟨sorted, sorts⟩ := exists_sorts width reads.toComparesSource delivers
  have single := fun c (call : c ∈ d.calls) =>
    y.exists_execute_iff (d := d.alone c) blocking accounting delivers width
      (reads.alone call) sorts
  rw [x.exists_execute_iff blocking accounting delivers width reads sorts]
  constructor
  · rintro ⟨room, completed⟩ c call
    exact (single c call).mpr ⟨room, Definition.exists_completed_iff_alone.mp completed c call⟩
  · intro each
    have parts := fun c call => (single c call).mp (each c call)
    constructor
    · refine given.elim (fun nonempty => ?_) id
      obtain ⟨c, call⟩ := List.exists_mem_of_ne_nil _ nonempty
      exact (parts c call).1
    · exact Definition.exists_completed_iff_alone.mpr fun c call => (parts c call).2

/-- With other calls of the definition, what comes out are other columns of the same rows. -/
theorem execute_select (x y : Executor) {r : ResultRows}
    (done : (x.execute d ⟨batches.map .batch, blocking⟩ .never accounting).2 = .ok r) :
    (∀ row ∈ r.rows, row.length = d.width + d.calls.length) ∧
      ∀ places, (y.execute (d.select places) ⟨batches.map .batch, blocking⟩ .never accounting).2 =
        .ok ⟨r.rows.map (d.pick places), r.blocking⟩ := by
  obtain ⟨sorted, sorts⟩ := exists_sorts width reads.toComparesSource delivers
  have length : ∀ row ∈ sorted, row.length = d.width := by
    intro row member
    rw [width, delivers.row_length row (sorts.mem_iff.mpr member)]
  obtain ⟨room, out, completed, rfl⟩ :=
    (x.execute_eq_ok_iff blocking accounting delivers width reads sorts).mp done
  constructor
  · exact Definition.length_completed length completed
  · intro places
    have reads' := reads.select places
    refine (y.execute_eq_ok_iff (d := d.select places) blocking accounting delivers width reads'
      sorts).mpr ?_
    exact ⟨room, _, Definition.completed_select length completed places, rfl⟩

end Sorted

/-- An execution succeeds just if it does with each of its calls alone, where without any call there
must at least be room for the rows. Then a call has the results that it has alone, behind the same
source cells in the same order, and with calls left out, repeated or moved only the columns of
results are. -/
theorem execute_alone (x y : Executor) (d : Definition) (types : List DataType)
    (batches : List Batch) (blocking : Bool) (accounting : Accounting)
    (delivers : Delivers types batches) (width : d.width = types.length) (reads : d.ReadsSource) :
    let run := fun (x : Executor) (d : Definition) =>
      (x.execute d ⟨batches.map .batch, blocking⟩ .never accounting).2
    (d.calls ≠ [] ∨ accounting.Room (rowsOf batches) →
      ((∃ r, run x d = .ok r) ↔ ∀ c ∈ d.calls, ∃ r, run y (d.alone c) = .ok r)) ∧
    ∀ r, run x d = .ok r →
      (∀ row ∈ r.rows, row.length = d.width + d.calls.length) ∧
      (∀ (k : Nat) c, d.calls[k]? = some c → ∃ r', run y (d.alone c) = .ok r' ∧
        r'.blocking = r.blocking ∧
        r'.rows.map (List.take d.width) = r.rows.map (List.take d.width) ∧
        r'.rows.map (·[d.width]?) = r.rows.map (·[d.width + k]?)) ∧
      ∀ places, run y (d.select places) = .ok ⟨r.rows.map (d.pick places), r.blocking⟩ := by
  intro run
  constructor
  · exact succeeds_iff_alone blocking accounting delivers width reads x y
  · intro r done
    obtain ⟨lengths, selected⟩ := execute_select blocking accounting delivers width reads x y done
    have wide : ∀ row ∈ r.rows, d.width ≤ row.length := by
      intro row member
      rw [lengths row member]
      exact Nat.le_add_right ..
    refine ⟨lengths, fun k c call => ?_, selected⟩
    have own : run y (d.alone c) = .ok ⟨r.rows.map (d.pick [k]), r.blocking⟩ :=
      Definition.select_singleton call ▸ selected [k]
    exact ⟨_, own, rfl, Definition.map_take_pick wide [k], Definition.map_getElem?_pick wide k⟩

/-- A call that is there twice, and one between them whose results are copied to peers. -/
theorem execute_alone_repeated :
    let d : Definition :=
      ⟨2, [⟨.rowNumber, []⟩, ⟨.sum, [.column 1]⟩, ⟨.rowNumber, []⟩], none, some (.ascending 0)⟩
    let schema : Schema := ⟨[⟨"k", .int64, true⟩, ⟨"v", .int64, true⟩], []⟩
    let batches : List Batch := [⟨schema, [[.ofCount 2, .ofCount 9], [.ofCount 1, .ofCount 5]]⟩,
      ⟨schema, [[.ofCount 1, .ofCount 7]]⟩]
    let run := fun d => (execute ⟨{}, none⟩ d ⟨batches.map .batch, false⟩ .never .unaccounted).2
    (Delivers [.int64, .int64] batches ∧ d.ReadsSource) ∧
    run d = .ok ⟨[[.ofCount 1, .ofCount 5, .ofCount 1, .ofCount 12, .ofCount 1],
        [.ofCount 1, .ofCount 7, .ofCount 2, .ofCount 12, .ofCount 2],
        [.ofCount 2, .ofCount 9, .ofCount 3, .ofCount 21, .ofCount 3]], false⟩ ∧
      run (d.select [1, 0]) = .ok ⟨[[.ofCount 1, .ofCount 5, .ofCount 12, .ofCount 1],
        [.ofCount 1, .ofCount 7, .ofCount 12, .ofCount 2],
        [.ofCount 2, .ofCount 9, .ofCount 21, .ofCount 3]], false⟩ := by
  intro d schema batches run
  have delivers : Delivers [.int64, .int64] batches := by decide
  have reads : d.ReadsSource := by decide
  have done : run d = .ok ⟨[[.ofCount 1, .ofCount 5, .ofCount 1, .ofCount 12, .ofCount 1],
      [.ofCount 1, .ofCount 7, .ofCount 2, .ofCount 12, .ofCount 2],
      [.ofCount 2, .ofCount 9, .ofCount 3, .ofCount 21, .ofCount 3]], false⟩ := by decide +kernel
  obtain ⟨-, parts⟩ :=
    execute_alone ⟨{}, none⟩ ⟨{}, none⟩ d _ batches false .unaccounted delivers rfl reads
  exact ⟨⟨delivers, reads⟩, done, (parts _ done).2.2 [1, 0]⟩

end Executor
end Windowing
