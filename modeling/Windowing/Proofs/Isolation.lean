import Windowing.Proofs.Completion

/-!
Partitions do not see each other. What is declared of a row depends on the rows of its partition and
on how many of them come before it, and sorting only the rows of a partition leaves these in the
order that they have among all rows. So executing over a partition on its own gives its part of what
the whole input gives.
-/
namespace Windowing

namespace Definition

variable {d : Definition} {types : List DataType} {rows : List Row}

section Selection

variable {p : Row → Bool} {row : Row}
  (covers : ∀ other ∈ rows, d.mates row other = true → p other = true)

include covers

/-- Selecting rows that include a partition loses none of those that are looked for in it. -/
theorem filter_mates (q : Row → Bool) :
    ((rows.filter p).filter fun other => d.mates row other && q other) =
      rows.filter fun other => d.mates row other && q other := by
  rw [List.filter_filter]
  refine List.filter_congr fun other member => ?_
  cases mate : d.mates row other with
  | false => rfl
  | true => rw [covers other member mate, Bool.and_true]

theorem declaredRow_filter {before after : List Row} (split : rows = before ++ row :: after) :
    d.declaredRow (rows.filter p) (before.filter p).length row =
      d.declaredRow rows before.length row := by
  have index : d.declaredIndex (rows.filter p) (before.filter p).length row =
      d.declaredIndex rows before.length row := by
    have inside : ∀ other ∈ before, (d.mates row other && p other) = d.mates row other := by
      intro other member
      cases mate : d.mates row other with
      | false => rfl
      | true => rw [covers other (by simp [split, member]) mate, Bool.and_true]
    rw [declaredIndex, declaredIndex, split, List.filter_append, List.take_left, List.take_left,
      List.countP_filter]
    exact List.countP_congr fun other member => by rw [inside other member]
  have earlier : d.earlierMates (rows.filter p) row = d.earlierMates rows row :=
    filter_mates covers _
  have inFrame : d.frameMates (rows.filter p) row = d.frameMates rows row := filter_mates covers _
  have frame : d.declaredFrame (rows.filter p) (before.filter p).length row =
      d.declaredFrame rows before.length row := by
    rw [declaredFrame, declaredFrame, index, earlier, inFrame]
  simp only [declaredRow, declaredResult, index, frame]

end Selection

section Partition

variable (laws : Sorting.Total d.partitionOrder.compare (Row.HasTypes types))
  (typed : ∀ row ∈ rows, row.HasTypes types)

include laws typed

/-- A partition covers the partition of each of its rows. -/
theorem mates_covers {first row : Row} (inside : first ∈ rows) (member : row ∈ rows)
    (mate : d.mates first row = true) :
    ∀ other ∈ rows, d.mates row other = true → d.mates first other = true :=
  fun other there =>
    laws.tied_trans (typed first inside) (typed row member) (typed other there) mate

/-- One row of the whole: its own partition completes it just so, any other passes over it. -/
theorem completedFrom_filter_cons {before rest : List Row} (split : rows = before ++ row :: rest)
    {first : Row} (inside : first ∈ rows) {later : Guarded WindowError (List Row)}
    (tail :
      d.completedFrom (rows.filter (d.mates first))
        ((before ++ [row]).filter (d.mates first)).length
      (rest.filter (d.mates first)) = later) :
    d.completedFrom (rows.filter (d.mates first)) (before.filter (d.mates first)).length
        ((row :: rest).filter (d.mates first)) =
      if d.mates first row then do
        let complete ← d.completedRow rows before.length row
        return complete :: (← later)
      else later := by
  have member : row ∈ rows := by simp [split]
  rw [List.filter_append] at tail
  subst later
  cases mate : d.mates first row with
  | true =>
    rw [List.filter_cons_of_pos mate, List.filter_cons_of_pos mate, List.filter_nil,
      List.length_append, List.length_singleton, completedFrom, completedRow,
      declaredRow_filter (mates_covers laws typed inside member mate) split, ← completedRow]
    rfl
  | false =>
    have other : ¬ d.mates first row = true := by simp [mate]
    rw [List.filter_cons_of_neg other, List.filter_cons_of_neg other, List.filter_nil,
      List.append_nil]
    rfl

variable {rest before : List Row}

/-- The failure of the whole is that of a partition on its own. -/
theorem completedFrom_filter_error (split : rows = before ++ rest) {e : Fault WindowError}
    (fails : d.completedFrom rows before.length rest = .error e) :
    ∃ first ∈ rest,
      d.completedFrom (rows.filter (d.mates first)) (before.filter (d.mates first)).length
      (rest.filter (d.mates first)) = .error e := by
  induction rest generalizing before with
  | nil => cases fails
  | cons row rest ih =>
    have member : row ∈ rows := by simp [split]
    rw [completedFrom] at fails
    cases here : d.completedRow rows before.length row with
    | error e' =>
      rw [here] at fails
      obtain rfl := Except.error.inj fails
      have itself : d.mates row row = true := laws.tied_refl (typed row member)
      refine ⟨row, List.mem_cons_self .., ?_⟩
      rw [completedFrom_filter_cons laws typed split member rfl, if_pos itself, here, error_bind]
    | ok complete =>
      have later : d.completedFrom rows (before ++ [row]).length rest = .error e := by
        rw [List.length_append, List.length_singleton]
        rw [here, ok_bind] at fails
        cases others : d.completedFrom rows (before.length + 1) rest with
        | error e' =>
          rw [others] at fails
          exact fails
        | ok out =>
          rw [others] at fails
          cases fails
      obtain ⟨first, there, tail⟩ := ih (by simp [split]) later
      refine ⟨first, List.mem_cons_of_mem _ there, ?_⟩
      rw [completedFrom_filter_cons laws typed split (by simp [split, there]) tail, here]
      split <;> rfl

section Completion

variable (width : d.width = types.length) (compares : d.ComparesSource)

include width compares

omit laws in
/-- Results behind its cells do not move a row to another partition. -/
theorem mates_completedRow {first complete : Row} (member : row ∈ rows) {i : Nat}
    (done : d.completedRow rows i row = .ok complete) :
    d.mates first complete = d.mates first row := by
  obtain ⟨cells, -, rfl⟩ := map_eq_ok_iff.mp done
  exact mates_congr compares rfl
    (List.take_append_of_le_length (width ▸ (typed row member).length_le))

/-- Where all rows are completed, those of one partition are completed the same on their own. -/
theorem completedFrom_filter {first : Row} (inside : first ∈ rows) (split : rows = before ++ rest)
    {out : List Row} (done : d.completedFrom rows before.length rest = .ok out) :
    d.completedFrom (rows.filter (d.mates first)) (before.filter (d.mates first)).length
      (rest.filter (d.mates first)) = .ok (out.filter (d.mates first)) := by
  -- The rows passed so far tell the position of the next one, in the whole and in the partition.
  induction rest generalizing before out with
  | nil =>
    cases done
    rfl
  | cons row rest ih =>
    obtain ⟨complete, here, done⟩ := bind_eq_ok_iff.mp done
    obtain ⟨others, later, done⟩ := bind_eq_ok_iff.mp done
    obtain rfl := Except.ok.inj done
    have kept : d.mates first complete = d.mates first row :=
      mates_completedRow typed width compares (by simp [split]) here
    have position : before.length + 1 = (before ++ [row]).length := by simp
    rw [position] at later
    have tail := ih (by simp [split]) later
    rw [completedFrom_filter_cons laws typed split inside tail, here, List.filter_cons, kept]
    split <;> rfl

omit width compares in
theorem completed_filter_error {e : Fault WindowError} (fails : d.completed rows = .error e) :
    ∃ first ∈ rows, d.completed (rows.filter (d.mates first)) = .error e :=
  completedFrom_filter_error laws typed (List.nil_append rows).symm fails

theorem completed_filter {first : Row} (inside : first ∈ rows) {out : List Row}
    (done : d.completed rows = .ok out) :
    d.completed (rows.filter (d.mates first)) = .ok (out.filter (d.mates first)) :=
  completedFrom_filter laws typed width compares inside (List.nil_append rows).symm done

end Completion
end Partition
end Definition

namespace Executor

variable {d : Definition} {types : List DataType} {batches : List Batch}

/-- If the whole input is executed, each partition on its own gives its rows of the result, in their
order and with all their cells. If a call fails on the whole input, it fails in the same way on a
partition on its own. -/
theorem execute_partition (x y : Executor) (d : Definition) (types : List DataType)
    (batches : List Batch) (blocking : Bool) (accounting : Accounting)
    (delivers : Delivers types batches) (width : d.width = types.length) (reads : d.ReadsSource) :
    (∀ r, (x.execute d ⟨batches.map .batch, blocking⟩ .never accounting).2 = .ok r →
      ∀ row ∈ rowsOf batches, ∀ part, Delivers types part →
        rowsOf part = (rowsOf batches).filter (d.mates row) →
        (y.execute d ⟨part.map .batch, blocking⟩ .never accounting).2 =
          .ok ⟨r.rows.filter (d.mates row), blocking⟩) ∧
    ∀ f e, (x.execute d ⟨batches.map .batch, blocking⟩ .never accounting).2 =
      .error (.error (.evaluation f e)) →
      ∃ row ∈ rowsOf batches, ∀ part, Delivers types part →
        rowsOf part = (rowsOf batches).filter (d.mates row) →
        (y.execute d ⟨part.map .batch, blocking⟩ .never accounting).2 =
          .error (.error (.evaluation f e)) := by
  obtain ⟨sorted, sorts⟩ := exists_sorts width reads.toComparesSource delivers
  have laws := d.partitionOrder_total width reads.toComparesSource
  have typed : ∀ row ∈ sorted, row.HasTypes types := sorts.arranges.on_right delivers.hasTypes
  have alone : (accounting.chargeAll (rowsOf batches)).2 = .ok () →
      ∀ row part, Delivers types part →
      rowsOf part = (rowsOf batches).filter (d.mates row) →
        (y.execute d ⟨part.map .batch, blocking⟩ .never accounting).2 =
          (d.completed (sorted.filter (d.mates row))).map (⟨·, blocking⟩) := by
    intro admitted row part delivers' rows
    have room := (Accounting.chargeAll_eq_ok_iff.mp admitted).of_subperm
      (List.filter_sublist (p := d.mates row)).subperm
    have sorts' := sorts.filter (d.mates row)
    rw [← rows] at room sorts'
    rw [y.execute_of_sorts blocking accounting delivers' width reads sorts',
      Accounting.chargeAll_eq_ok_iff.mpr room]
  have whole := x.execute_of_sorts blocking accounting delivers width reads sorts
  cases admitted : (accounting.chargeAll (rowsOf batches)).2 with
  | error e =>
    rw [whole, admitted]
    exact ⟨fun r done => (by cases done), fun f cause fails => (by cases fails)⟩
  | ok _ =>
    rw [whole, admitted]
    refine ⟨fun r done row member part delivers' rows => ?_, fun f e fails => ?_⟩
    · obtain ⟨out, completed, rfl⟩ := map_eq_ok_iff.mp done
      rw [alone admitted row part delivers' rows,
        d.completed_filter laws typed width reads.toComparesSource
          (sorts.mem_iff.mp member) completed]
      rfl
    · obtain ⟨first, member, failed⟩ :=
        d.completed_filter_error laws typed (map_eq_error_iff.mp fails)
      refine ⟨first, sorts.mem_iff.mpr member, fun part delivers' rows => ?_⟩
      rw [alone admitted first part delivers' rows, failed]
      rfl

/-- A partition of one row between two peers of another. -/
theorem execute_partition_interleaved :
    let d : Definition :=
      ⟨2, [⟨.rowNumber, []⟩, ⟨.rank, []⟩, ⟨.sum, [.column 1]⟩], some (.ascending 0),
        some (.ascending 1)⟩
    let schema : Schema := ⟨[⟨"k", .int64, true⟩, ⟨"v", .int64, true⟩], []⟩
    let batches : List Batch := [⟨schema, [[.ofCount 1, .ofCount 5], [.ofCount 0, .ofCount 9]]⟩,
      ⟨schema, [[.ofCount 1, .ofCount 5], [.ofCount 1, .null .int64]]⟩]
    let part : List Batch :=
      [⟨schema, [[.ofCount 1, .ofCount 5], [.ofCount 1, .ofCount 5], [.ofCount 1, .null .int64]]⟩]
    let rows : List Row := [[.ofCount 0, .ofCount 9, .ofCount 1, .ofCount 1, .ofCount 9],
      [.ofCount 1, .ofCount 5, .ofCount 1, .ofCount 1, .ofCount 10],
      [.ofCount 1, .ofCount 5, .ofCount 2, .ofCount 1, .ofCount 10],
      [.ofCount 1, .null .int64, .ofCount 3, .ofCount 3, .ofCount 10]]
    (execute ⟨{}, none⟩ d ⟨batches.map .batch, false⟩ .never .unaccounted).2 = .ok ⟨rows, false⟩ ∧
      (execute ⟨{}, none⟩ d ⟨part.map .batch, false⟩ .never .unaccounted).2 =
        .ok ⟨rows.drop 1, false⟩ := by
  intro d schema batches part rows
  have delivers : Delivers [.int64, .int64] batches := by decide
  have delivers' : Delivers [.int64, .int64] part := by decide
  have reads : d.ReadsSource := by decide
  have done : (execute ⟨{}, none⟩ d ⟨batches.map .batch, false⟩ .never .unaccounted).2 =
      .ok ⟨rows, false⟩ := by
    decide +kernel
  have first : ([.ofCount 1, .ofCount 5] : Row) ∈ rowsOf batches := by decide
  have partition :=
    (execute_partition ⟨{}, none⟩ ⟨{}, none⟩ d _ batches false .unaccounted delivers rfl reads).1
    ⟨rows, false⟩ done _ first part delivers' (by decide)
  have kept : rows.filter (d.mates [.ofCount 1, .ofCount 5]) = rows.drop 1 := by decide
  exact ⟨done, kept ▸ partition⟩

end Executor
end Windowing
