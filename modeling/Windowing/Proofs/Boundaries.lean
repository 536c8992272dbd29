import Windowing.Proofs.Execution
import Windowing.Proofs.Sorting.Images
import Windowing.Proofs.Tiling

/-!
Where partitions and runs of peers end does not hang on results. The walk compares a row only with
rows behind it, and those are as they were given; until the walk writes, all result cells are nulls
of no type, which equal each other. So an order on a result cell ties all rows, in the sort as in
the walk.
-/
namespace Windowing

namespace Peers

variable {α β : Type} {cmp : α → α → Except Defect Ordering} {cmp' : β → β → Except Defect Ordering}
  {f : β → α} {rows : Array α} {rows' : Array β} {start stop : Nat}

/-- The end of a run hangs on the rows from its first on, and on how the first compares with the
others. -/
theorem runEnd_image (found : ∀ k, start ≤ k → rowAt rows k = (rowAt rows' k).map f)
    (same : ∀ x y k, start < k → rowAt rows' start = .ok x → rowAt rows' k = .ok y →
      cmp' x y = cmp (f x) (f y)) :
    runEnd (some cmp') rows' start stop = runEnd (some cmp) rows start stop := by
  simp only [runEnd]
  split
  · rfl
  split
  · rfl
  rw [found start (Nat.le_refl start)]
  cases first : rowAt rows' start with
  | error e => rfl
  | ok x =>
    have asked : ∀ k, start < k → isPeerOf cmp' rows' x k = isPeerOf cmp rows (f x) k := by
      intro k above
      rw [isPeerOf, isPeerOf, found k (Nat.le_of_lt above)]
      cases there : rowAt rows' k with
      | error e => rfl
      | ok y => exact congrArg (· >>= fun o => pure (o == .eq)) (same x y k above first there)
    show (isPeerOf cmp' rows' x (start + 1) >>= _) = (isPeerOf cmp rows (f x) (start + 1) >>= _)
    rw [asked (start + 1) (Nat.lt_succ_self start),
      search_congr fun k above _ => asked k (by omega)]

end Peers

namespace RowOrder

def tying (tied : Nat → Bool) : RowOrder → RowOrder
  | equal => equal
  | column position descending nullsFirst =>
    if tied position then equal else column position descending nullsFirst
  | andThen first second => andThen (first.tying tied) (second.tying tied)

/-- Nulls tie, whatever their types. -/
theorem compare_tying {tied : Nat → Bool} {a b : Row} (order : RowOrder)
    (left : ∀ k, tied k = true → ∃ t, a[k]? = some (.null t))
    (right : ∀ k, tied k = true → ∃ t, b[k]? = some (.null t)) :
    (order.tying tied).compare a b = order.compare a b := by
  induction order with
  | equal => rfl
  | column position descending nullsFirst =>
    rw [tying]
    split
    · rename_i isTied
      obtain ⟨t, first⟩ := left position isTied
      obtain ⟨u, second⟩ := right position isTied
      rw [compare, compare, Row.cellAt_eq_ok_iff.mpr first, Row.cellAt_eq_ok_iff.mpr second]
      rfl
    · rfl
  | andThen first second ih ih' => rw [tying, compare, compare, ih, ih']

theorem join_tying (tied : Nat → Bool) (partitionBy orderBy : Option RowOrder) :
    join (partitionBy.map (tying tied)) (orderBy.map (tying tied)) =
      (join partitionBy orderBy).map (tying tied) := by
  cases partitionBy <;> cases orderBy <;> rfl

end RowOrder

namespace Definition

variable (d : Definition)

section LocateBy

variable {α β : Type} (compare : RowOrder → α → α → Except Defect Ordering) (rows : Array α)
  (i : Nat)

def locateBy : Option Position → Except Defect Position :=
  locateVia (Peers.runEnd (d.partitionBy.map compare) rows)
    (Peers.runEnd (d.orderBy.map compare) rows)
    rows.size i

theorem locate_eq_locateBy (rows : Array Row) (before : Option Position) :
    d.locate rows i before = d.locateBy RowOrder.compare rows i before :=
  d.locate_eq_locateVia rows i before

variable {compare rows i} {compare' : RowOrder → β → β → Except Defect Ordering} {rows' : Array β}

/-- To locate a row takes the rows from it on, and comparisons of it with those behind it. -/
theorem locateBy_image (f : β → α) (size : rows'.size = rows.size)
    (found : ∀ k, i ≤ k → rowAt rows k = (rowAt rows' k).map f)
    (same : ∀ order x y k, i < k → rowAt rows' i = .ok x → rowAt rows' k = .ok y →
      compare' order x y = compare order (f x) (f y)) (before : Option Position) :
    d.locateBy compare' rows' i before = d.locateBy compare rows i before := by
  have ends : ∀ (order : Option RowOrder) (stop : Nat),
      Peers.runEnd (order.map compare') rows' i stop =
        Peers.runEnd (order.map compare) rows i stop := by
    intro order stop
    cases order with
    | none => rfl
    | some order => exact Peers.runEnd_image found (same order)
  rw [locateBy, locateBy, size]
  exact locateVia_congr (ends d.partitionBy) (ends d.orderBy) before

end LocateBy

/-- Compares numbered rows, but not with those before row `i`. -/
def compareFrom (i : Nat) (refusal : Defect) (order : RowOrder) (x y : Row × Nat) :
    Except Defect Ordering :=
  if x.2 < i ∨ y.2 < i then .error refusal else order.compare x.1 y.1

theorem rowAt_zipIdx (rows : Array Row) (k : Nat) :
    rowAt rows.zipIdx k = (rowAt rows k).map (·, k) := by
  rw [rowAt, rowAt, Array.getElem?_zipIdx, Array.size_zipIdx, Nat.zero_add]
  cases rows[k]? <;> rfl

/-- A row is located without a comparison that looks at one before it. -/
theorem locateBy_compareFrom (rows : Array Row) (i : Nat) (before : Option Position)
    (refusal : Defect) :
    d.locateBy (compareFrom i refusal) rows.zipIdx i before = d.locate rows i before := by
  rw [locate_eq_locateBy]
  refine d.locateBy_image Prod.fst Array.size_zipIdx (fun k _ => ?_)
    (fun order x y k above first there => ?_) before
  · rw [rowAt_zipIdx]
    cases rowAt rows k <;> rfl
  · rw [rowAt_zipIdx, map_eq_ok_iff] at first there
    obtain ⟨a, -, rfl⟩ := first
    obtain ⟨b, -, rfl⟩ := there
    exact if_neg (by simp only [not_or, Nat.not_lt]; omega)

theorem positionAt_calls (calls : List Call) (rows : Array Row) (i : Nat) :
    { d with calls }.positionAt rows i = d.positionAt rows i := by
  have located : ∀ i before, { d with calls }.locate rows i before = d.locate rows i before := by
    intro i before
    cases before <;> rfl
  induction i with
  | zero => exact located 0 none
  | succ i ih =>
    rw [positionAt, positionAt, ih]
    simp only [located]

def isResult (k : Nat) : Bool := decide (d.width ≤ k) && decide (k < d.width + d.calls.length)

/-- The definition with orders that find all rows equal in the result cells. -/
def tyingResults : Definition :=
  { d with
    partitionBy := d.partitionBy.map (RowOrder.tying d.isResult)
    orderBy := d.orderBy.map (RowOrder.tying d.isResult) }

def Blank (row : Row) : Prop := ∀ k, d.isResult k = true → ∃ t, row[k]? = some (.null t)

variable {d} {rows : Array Row}

theorem blank_reserve {row : Row} (length : row.length = d.width) :
    d.Blank (Batch.reserve row d.calls.length) := by
  intro k result
  simp only [isResult, Bool.and_eq_true, decide_eq_true_eq] at result
  refine ⟨.null, ?_⟩
  rw [Batch.reserve, List.getElem?_append_right (by omega),
    List.getElem?_replicate_of_lt (by omega)]

theorem locate_tyingResults (blank : ∀ row ∈ rows, d.Blank row)
    {i : Nat} {before : Option Position} {buffer : Array Row}
    (reached : d.Reaches rows i before buffer) :
    d.tyingResults.locate buffer i before = d.locate buffer i before := by
  have bare : d.tyingResults.locate buffer i before =
      d.locateBy (fun order => (order.tying d.isResult).compare) buffer i before := by
    rw [locate_eq_locateBy, locateBy, locateBy, tyingResults, Option.map_map, Option.map_map]
    rfl
  have given : ∀ {k row}, i ≤ k → rowAt buffer k = .ok row → row ∈ rows := by
    intro k row above found
    rw [rowAt_eq_ok_iff, reached.leaves.ahead k above] at found
    exact Array.mem_of_getElem? found
  rw [bare, locate_eq_locateBy]
  refine d.locateBy_image id rfl (fun k _ => ?_) (fun order x y k above first there => ?_) before
  · cases rowAt buffer k <;> rfl
  · exact order.compare_tying (blank x (given (Nat.le_refl i) first))
      (blank y (given (Nat.le_of_lt above) there))

theorem walkFrom_tyingResults (blank : ∀ row ∈ rows, d.Blank row)
    (remaining : Nat) {i : Nat} {before : Option Position} {buffer : Array Row}
    (reached : d.Reaches rows i before buffer) :
    d.tyingResults.walkFrom remaining i before buffer = d.walkFrom remaining i before buffer := by
  induction remaining generalizing i before buffer with
  | zero => rfl
  | succ remaining ih =>
    have same : d.tyingResults.visit buffer i before = d.visit buffer i before := by
      rw [visit, visit, locate_tyingResults blank reached]
      rfl
    rw [walkFrom, walkFrom, same]
    cases visited : d.visit buffer i before with
    | error e => rfl
    | ok r => exact ih (reached.next visited)

theorem walk_tyingResults (blank : ∀ row ∈ rows, d.Blank row) :
    d.tyingResults.walk rows = d.walk rows :=
  walkFrom_tyingResults blank rows.size .start

theorem sort_tyingResults (x : Executor) {rows : List Row}
    (blank : ∀ row ∈ rows, d.Blank row) :
    x.sort (RowOrder.join d.tyingResults.partitionBy d.tyingResults.orderBy) rows =
      x.sort (RowOrder.join d.partitionBy d.orderBy) rows := by
  have joined : RowOrder.join d.tyingResults.partitionBy d.tyingResults.orderBy =
      (RowOrder.join d.partitionBy d.orderBy).map (RowOrder.tying d.isResult) :=
    RowOrder.join_tying _ _ _
  rw [joined]
  cases RowOrder.join d.partitionBy d.orderBy with
  | none => rfl
  | some order =>
    exact Sorting.sort_congr
      (fun a left b right => order.compare_tying (blank a left) (blank b right)) _ _ _

end Definition

theorem Source.preceded_eq_ok {spare : Nat} {rows all : List Row} {after : Accounting}
    {outcome : Accounting × Except WindowError (List Row)}
    (whole : preceded spare rows outcome = (after, .ok all)) :
    ∃ more, outcome = (after, .ok more) ∧ all = rows.map (Batch.reserve · spare) ++ more := by
  obtain ⟨x, answer⟩ := outcome
  cases answer with
  | error e => cases whole
  | ok more =>
    cases whole
    exact ⟨more, rfl, rfl⟩

/-- Every row that comes out of a source ends with the cells reserved for results. -/
theorem Source.drain_rows {width spare : Nat} {cancel : Cancellation} {items : List Item}
    (lengths : ∀ b, .batch b ∈ items → ∀ row ∈ b.rows, row.length = b.width) {pulled : Nat}
    {x after : Accounting} {rows : List Row}
    (drained : drain width spare cancel pulled x items = (after, .ok rows)) :
    ∀ row ∈ rows, ∃ given : Row, given.length = width ∧ row = Batch.reserve given spare := by
  induction items generalizing pulled x after rows with
  | nil =>
    rw [drain] at drained
    split at drained
    · cases drained
    · cases drained
      exact List.forall_mem_nil _
  | cons item items ih =>
    cases seen : cancel.seen pulled with
    | true =>
      rw [drain_seen seen] at drained
      cases drained
    | false =>
    cases item with
    | failure context =>
      rw [drain, seen, if_neg Bool.false_ne_true] at drained
      cases drained
    | batch b =>
      by_cases same : b.width = width
      · rw [drain_batch spare seen same] at drained
        cases charged : x.chargeAll b.rows with
        | mk y answer =>
        rw [charged] at drained
        cases answer with
        | error e => cases drained
        | ok _ =>
          obtain ⟨more, rest, rfl⟩ := preceded_eq_ok drained
          intro row member
          rcases List.mem_append.mp member with member | member
          · obtain ⟨given, here, rfl⟩ := List.mem_map.mp member
            exact ⟨given, (lengths b List.mem_cons_self given here).trans same, rfl⟩
          · exact ih (fun b member => lengths b (List.mem_cons_of_mem _ member)) rest row member
      · rw [drain, seen, if_neg Bool.false_ne_true, if_pos same] at drained
        cases drained

namespace Definition

variable {d : Definition}

theorem compute_tyingResults (x : Executor) {rows : List Row} (blank : ∀ row ∈ rows, d.Blank row) :
    x.compute d.tyingResults rows = x.compute d rows := by
  have sorts := sort_tyingResults x blank
  cases done : x.sort (RowOrder.join d.partitionBy d.orderBy) rows with
  | error e => rw [Executor.compute, Executor.compute, sorts, done]; rfl
  | ok sorted =>
    have arranged : ∀ row ∈ sorted.toArray, d.Blank row := by
      intro row member
      exact blank row ((Executor.sort_perm done).mem_iff.mpr (List.mem_toArray.mp member))
    rw [Executor.compute_eq done, Executor.compute_eq (sorts.trans done),
      walk_tyingResults arranged]

theorem execute_tyingResults (x : Executor) (source : Source) (cancel : Cancellation)
    (accounting : Accounting)
    (lengths : ∀ b, .batch b ∈ source.items → ∀ row ∈ b.rows, row.length = b.width) :
    x.execute d.tyingResults source cancel accounting = x.execute d source cancel accounting := by
  have width : d.tyingResults.width = d.width := rfl
  have calls : d.tyingResults.calls = d.calls := rfl
  rw [Executor.execute, Executor.execute, width, calls]
  cases collected : source.collect d.width d.calls.length cancel accounting with
  | mk after outcome =>
  cases outcome with
  | error e => rfl
  | ok rows =>
    have blank : ∀ row ∈ rows, d.Blank row := by
      intro row member
      obtain ⟨given, length, rfl⟩ := Source.drain_rows lengths collected row member
      exact blank_reserve length
    simp only [compute_tyingResults x blank]

/-- Whatever the definition compares and computes, and whatever cells the rows hold: at each row
that the walk comes to, the rows from there on are as they were given. Locating it takes no
comparison with a row before it, so that comparisons which refuse those change nothing; its position
is the one among the rows as given, and the same under all calls. As long as the result cells are
nulls, an order on one of them acts in the sort and in the walk like one that finds all rows equal,
and in an execution they are. -/
theorem boundaries_as_given (d : Definition) :
    (∀ (rows : Array Row) i before buffer, d.Reaches rows i before buffer →
      d.walk rows = d.walkFrom (rows.size - i) i before buffer ∧
      buffer.size = rows.size ∧ (∀ j, i ≤ j → buffer[j]? = rows[j]?) ∧
      (∀ refusal, d.locateBy (compareFrom i refusal) buffer.zipIdx i before =
        d.locate buffer i before) ∧
      (i < rows.size → d.locate buffer i before = d.positionAt rows i ∧
        ∀ calls, { d with calls }.positionAt rows i = d.positionAt rows i)) ∧
    (∀ (x : Executor) (rows : List Row), (∀ row ∈ rows, d.Blank row) →
      x.sort (RowOrder.join d.tyingResults.partitionBy d.tyingResults.orderBy) rows =
        x.sort (RowOrder.join d.partitionBy d.orderBy) rows ∧
      d.tyingResults.walk rows.toArray = d.walk rows.toArray) ∧
    ∀ (x : Executor) (source : Source) (cancel : Cancellation) (accounting : Accounting),
      (∀ b, .batch b ∈ source.items → ∀ row ∈ b.rows, row.length = b.width) →
        x.execute d.tyingResults source cancel accounting =
          x.execute d source cancel accounting := by
  refine ⟨fun rows i before buffer reached => ?_, fun x rows blank => ?_,
    fun x source cancel accounting => ?_⟩
  · have leaves := reached.leaves
    refine ⟨reached.walk_eq, leaves.size_eq, leaves.ahead, d.locateBy_compareFrom buffer i before,
      fun inside => ?_⟩
    exact ⟨(leaves.positionAt_eq inside).symm, fun calls => positionAt_calls d calls rows i⟩
  · exact ⟨sort_tyingResults x blank,
      walk_tyingResults fun row member => blank row (List.mem_toArray.mp member)⟩
  · exact execute_tyingResults x source cancel accounting

/-- Partitions and runs of peers by the cell that the row numbers are written to. The rows that come
with a value in it keep the boundaries it had, though the first of them is overwritten; those of a
source have nulls in it. -/
theorem boundaries_as_given_by_result :
    let d : Definition := ⟨1, [⟨.rowNumber, []⟩], some (.ascending 1), some (.descending 1)⟩
    let rows : Array Row :=
      #[[.ofCount 5, .ofCount 7], [.ofCount 6, .ofCount 7], [.ofCount 4, .ofCount 8]]
    let buffer : Array Row :=
      #[[.ofCount 5, .ofCount 1], [.ofCount 6, .ofCount 7], [.ofCount 4, .ofCount 8]]
    let given : List Row := [[.ofCount 5], [.ofCount 6]]
    let blank : List Row := given.map (Batch.reserve · 1)
    let source : Source := .ofBatches [⟨⟨[⟨"n", .int64, true⟩], []⟩, given⟩]
    (d.Reaches rows 1 (some ⟨0, 2, 0, 0, 0, 2, false⟩) buffer ∧
      d.positionAt rows 1 = .ok ⟨0, 2, 1, 0, 0, 2, true⟩ ∧
      d.locate buffer 1 (some ⟨0, 2, 0, 0, 0, 2, false⟩) = .ok ⟨0, 2, 1, 0, 0, 2, true⟩ ∧
      d.locateBy (compareFrom 1 .countOutOfRange) buffer.zipIdx 1 (some ⟨0, 2, 0, 0, 0, 2, false⟩) =
        .ok ⟨0, 2, 1, 0, 0, 2, true⟩) ∧
      d.tyingResults = ⟨1, [⟨.rowNumber, []⟩], some .equal, some .equal⟩ ∧
      ((∀ row ∈ blank, d.Blank row) ∧ d.tyingResults.walk blank.toArray = d.walk blank.toArray) ∧
      (Executor.mk {} none).execute d.tyingResults source .never .unaccounted =
        (Executor.mk {} none).execute d source .never .unaccounted := by
  intro d rows buffer given blank source
  have reached : d.Reaches rows 1 (some ⟨0, 2, 0, 0, 0, 2, false⟩) buffer :=
    Reaches.next .start (by decide +kernel)
  obtain ⟨walked, tied, executed⟩ := boundaries_as_given d
  obtain ⟨-, -, -, refusing, located⟩ := walked rows 1 _ buffer reached
  have found : d.positionAt rows 1 = .ok ⟨0, 2, 1, 0, 0, 2, true⟩ := by decide +kernel
  have here := (located (by decide)).1.trans found
  have length : ∀ row ∈ given, row.length = 1 := by decide
  have empty : ∀ row ∈ blank, d.Blank row :=
    List.forall_mem_map.mpr fun row member => blank_reserve (length row member)
  have lengths : ∀ b, .batch b ∈ source.items → ∀ row ∈ b.rows, row.length = b.width := by
    intro b member
    obtain rfl := Item.batch.inj (List.mem_singleton.mp member)
    exact length
  refine ⟨⟨reached, found, here, (refusing _).trans here⟩, rfl,
    ⟨empty, (tied ⟨{}, none⟩ blank empty).2⟩, ?_⟩
  exact executed _ source .never .unaccounted lengths

end Definition
end Windowing
