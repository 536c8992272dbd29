import Mathlib.Data.List.Perm.Basic
import Windowing.Proofs.Aggregates
import Windowing.Proofs.Completion

/-!
Results that do not depend on the order in which rows arrive. All peers of a row are in its frame,
so another order of arrival only permutes the frame, and leaves the number of rows before it and
their classes as they are. Calls that look at no more than that give each row the same cells.
-/
namespace Windowing

/-- Different elements are counted alike in any order. -/
theorem Sorting.classes_perm {α ε : Type} {cmp : α → α → Except ε Ordering} {on : α → Prop}
    (laws : Total cmp on) {xs ys : List α} (inside : ∀ x ∈ xs, on x) (same : xs.Perm ys) :
    classes (tied cmp) xs = classes (tied cmp) ys := by
  induction same with
  | nil => rfl
  | @cons x xs ys same ih =>
    rw [classes, classes, ih fun y member => inside y (List.mem_cons_of_mem _ member), same.any_eq]
  | swap x y xs =>
    have hx : on x := inside x (by simp)
    have hy : on y := inside y (by simp)
    have turned : tied cmp y x = tied cmp x y := laws.consistent.tied_comm hy hx
    simp only [classes, List.any_cons, turned]
    by_cases tie : tied cmp x y = true
    · -- Tied elements find the same ties behind them.
      have alike : xs.any (tied cmp x) = xs.any (tied cmp y) := by
        rw [Bool.eq_iff_iff, List.any_eq_true, List.any_eq_true]
        refine exists_congr fun z => and_congr_right fun member => ?_
        rw [laws.tied_congr hx hy (inside z (by simp [member])) tie]
      simp only [tie, Bool.true_or, if_true, alike]
    · simp only [tie, Bool.false_or]
      split <;> split <;> rfl
  | trans first second ih ih' =>
    exact (ih inside).trans (ih' fun y member => inside y (first.mem_iff.mpr member))

/-- Frames of the same rows in whatever order, in which the current row ranks the same. -/
structure Frame.Permuted (types : List DataType) (f g : Frame) : Prop where
  left : f.Holds types
  right : g.Holds types
  rows : f.rows.Perm g.rows
  ranked : f.RankedAlike g

namespace Call

/-- Calls that do not look at the order of the rows in the frame, nor at how many of them came
before. A sum does not where it is exact. -/
def OrderFree (types : List DataType) (c : Call) : Prop :=
  match c.function with
  | .rank | .denseRank | .count | .min | .max => True
  | .sum => ∃ column kind, c.arguments = [.column column] ∧ types[column]? = some (.integer kind)
  | _ => False

variable {types : List DataType} {f g : Frame} {a : Argument} {t : DataType} {c : Call}
  (permuted : f.Permuted types g)

include permuted

theorem size_perm : f.size = g.size := by
  rw [← Frame.length_rows permuted.left.valid, permuted.rows.length_eq,
    Frame.length_rows permuted.right.valid]

theorem presents_perm (a : Argument) : (a.presents f.rows).Perm (a.presents g.rows) :=
  permuted.rows.filterMap _

section Known

variable (known : a.typeIn types = some t)

include known

theorem countPresent_perm : countPresent f a = countPresent g a := by
  rw [countPresent, countPresent, permuted.left.foldPresent known, permuted.right.foldPresent known,
    foldlM_count, foldlM_count, (presents_perm permuted a).length_eq]

theorem extreme_perm {keep : Ordering} (strict : keep ≠ .eq) :
    c.extreme keep f a = c.extreme keep g a := by
  have types := Argument.presents_type known permuted.left.typed
  rw [extreme, extreme, permuted.left.foldPresent known, permuted.right.foldPresent known,
    permuted.left.frameType known, permuted.right.frameType known,
    foldlM_better_perm strict types (presents_perm permuted a)]

theorem sumExact_perm {cell cell' : Cell} (first : sumExact f a = .ok cell)
    (second : sumExact g a = .ok cell') :
    cell = cell' := by
  obtain ⟨r, folded, first⟩ := bind_eq_ok_iff.mp first
  obtain ⟨r', folded', second⟩ := bind_eq_ok_iff.mp second
  rw [permuted.left.foldPresent known, Guarded.ofError_eq_ok_iff] at folded
  rw [permuted.right.foldPresent known, Guarded.ofError_eq_ok_iff] at folded'
  obtain rfl := foldlM_addExact_perm (presents_perm permuted a) folded folded'
  exact Except.ok.inj (first.symm.trans second)

end Known

/-- Every result but that of a sum is the same, also if it is a failure. -/
theorem evaluate_perm (within : c.Within types.length) (free : c.OrderFree types)
    (other : c.function ≠ .sum) (i j : Nat) : c.evaluate i f = c.evaluate j g := by
  have one : ∀ h h' : Argument → Guarded EvaluationError Cell,
      (∀ a t, a.typeIn types = some t → h a = h' a) → (c.one >>= h) = (c.one >>= h') := by
    intro h h' same
    rw [Call.one]
    cases single : c.oneArgument with
    | error e => rfl
    | ok a =>
      obtain ⟨t, known⟩ := Argument.exists_typeIn (within.one single)
      exact same a t known
  unfold OrderFree at free
  unfold evaluate
  cases function : c.function with
  | rank =>
    have ranked := permuted.ranked
    simp only [rankOf, Nat.not_lt.mpr ranked.left, Nat.not_lt.mpr ranked.right, if_false,
      ranked.before]
  | denseRank => rw [permuted.ranked.group]
  | count =>
    dsimp only
    cases arguments : c.arguments with
    | nil => simp only [size_perm permuted]
    | cons a rest =>
      obtain ⟨t, known⟩ := Argument.exists_typeIn (within a (by simp [arguments]))
      exact countPresent_perm permuted known
  | min => exact one _ _ fun a t known => extreme_perm permuted known (by decide)
  | max => exact one _ _ fun a t known => extreme_perm permuted known (by decide)
  | sum => exact absurd function other
  | rowNumber | avg | firstValue | lastValue | nthValue =>
    rw [function] at free
    exact free.elim

omit permuted in
/-- Over integers a sum is exact. -/
theorem evaluate_sum (holds : f.Holds types) (function : c.function = .sum) {column : Nat}
    {kind : IntKind} (arguments : c.arguments = [.column column])
    (type : types[column]? = some (.integer kind)) (i : Nat) :
    c.evaluate i f = sumExact f (.column column) := by
  have single : c.one = .ok (.column column) := by rw [Call.one, oneArgument, arguments]; rfl
  have supported : Function.sum.summation (.integer kind) = .ok .exact := if_pos (.inl rfl)
  have known : (Argument.column column).typeIn types = some (.integer kind) := type
  simp only [evaluate, function, single, ok_bind, sumOver, holds.frameType known, Guarded.lift_eq,
    Guarded.ofDefect_ok, supported]
  rfl

/-- Sums may fail in one order only, but two that come out are the same. -/
theorem evaluate_perm_of_ok (within : c.Within types.length) (free : c.OrderFree types) {i j : Nat}
    {cell cell' : Cell} (first : c.evaluate i f = .ok cell) (second : c.evaluate j g = .ok cell') :
    cell = cell' := by
  by_cases function : c.function = .sum
  · rw [OrderFree, function] at free
    obtain ⟨column, kind, arguments, type⟩ := free
    have known : (Argument.column column).typeIn types = some (.integer kind) := type
    rw [evaluate_sum permuted.left function arguments type] at first
    rw [evaluate_sum permuted.right function arguments type] at second
    exact sumExact_perm permuted known first second
  · rw [evaluate_perm permuted within free function i j, second] at first
    exact (Except.ok.inj first).symm

end Call

namespace Definition

variable {d : Definition} {types : List DataType} {rows others : List Row}

def Completes (d : Definition) (rows : List Row) (row complete : Row) : Prop :=
  row ∈ rows ∧ ∃ others i, rows.Perm others ∧ d.completedRow others i row = .ok complete

theorem completedFrom_completes (same : rows.Perm others) {i : Nat} {rest out : List Row}
    (inside : ∀ row ∈ rest, row ∈ rows) (done : d.completedFrom others i rest = .ok out) :
    List.Forall₂ (d.Completes rows) rest out := by
  induction rest generalizing i out with
  | nil =>
    cases done
    exact .nil
  | cons row rest ih =>
    obtain ⟨complete, here, done⟩ := bind_eq_ok_iff.mp done
    obtain ⟨more, later, done⟩ := bind_eq_ok_iff.mp done
    obtain rfl := Except.ok.inj done
    obtain ⟨member, inside⟩ := List.forall_mem_cons.mp inside
    exact .cons ⟨member, others, i, same, here⟩ (ih inside later)

theorem completedFrom_ok_of_each {i : Nat} {rest : List Row}
    (each : ∀ row ∈ rest, ∀ j, ∃ complete, d.completedRow rows j row = .ok complete) :
    ∃ out, d.completedFrom rows i rest = .ok out := by
  induction rest generalizing i with
  | nil => exact ⟨[], rfl⟩
  | cons row rest ih =>
    obtain ⟨first, others⟩ := List.forall_mem_cons.mp each
    obtain ⟨complete, here⟩ := first i
    obtain ⟨out, later⟩ := ih (i := i + 1) others
    exact ⟨complete :: out, by rw [completedFrom, here, ok_bind, later]; rfl⟩

section Arrangements

variable (width : d.width = types.length) (reads : d.ReadsSource)
  (typed : ∀ row ∈ rows, row.HasTypes types)

include width reads typed

theorem declaredFrame_holds {row : Row} (member : row ∈ rows) (i : Nat) :
    (d.declaredFrame rows i row).Holds types := by
  have partitions := d.partitionOrder_total width reads.toComparesSource
  have peers := d.peerOrder_total width reads.toComparesSource
  have mate : d.mates row row = true := partitions.tied_refl (typed row member)
  have peer : d.peers row row = true := peers.tied_refl (typed row member)
  have itself : row ∈ d.frameMates rows row :=
    List.mem_filter.mpr ⟨member, by rw [mate, peer, Bool.or_true]; rfl⟩
  refine ⟨d.declaredFrame_valid rows i row, List.length_pos_of_mem itself, fun other inFrame => ?_⟩
  rw [rows_declaredFrame] at inFrame
  exact typed other (List.mem_filter.mp inFrame).1

variable (same : rows.Perm others)

include same

theorem declaredFrame_permuted {row : Row} (member : row ∈ rows) (i j : Nat) :
    (d.declaredFrame rows i row).Permuted types (d.declaredFrame others j row) := by
  have typed' : ∀ row ∈ others, row.HasTypes types :=
    fun row member => typed row (same.mem_iff.mpr member)
  have earlier : (d.earlierMates rows row).Perm (d.earlierMates others row) := same.filter _
  refine ⟨declaredFrame_holds width reads typed member i,
    declaredFrame_holds width reads typed' (same.mem_iff.mp member) j, ?_,
    ⟨Nat.zero_le _, Nat.zero_le _, ?_, ?_⟩⟩
  · rw [rows_declaredFrame, rows_declaredFrame]
    exact same.filter _
  · exact congrArg (· - 0) earlier.length_eq
  · exact Sorting.classes_perm (d.peerOrder_total width reads.toComparesSource)
      (fun other there => typed other (List.mem_filter.mp there).1) earlier

variable (free : ∀ c ∈ d.calls, c.OrderFree types)

include free

/-- Without a sum a row is completed alike among the same rows in whatever order, or fails alike. -/
theorem completedRow_perm (noSum : ∀ c ∈ d.calls, c.function ≠ .sum) {row : Row}
    (member : row ∈ rows) (i j : Nat) :
    d.completedRow rows i row = d.completedRow others j row := by
  have permuted := declaredFrame_permuted width reads typed same member i j
  have results : d.declaredRow rows i row = d.declaredRow others j row :=
    mapM_congr fun c call => congrArg (Guarded.mapError (WindowError.evaluation c.function))
      (Call.evaluate_perm permuted (width ▸ reads.calls c call) (free c call) (noSum c call) _ _)
  rw [completedRow, results, completedRow]

theorem completedRow_perm_of_ok {row complete complete' : Row} (member : row ∈ rows) {i j : Nat}
    (first : d.completedRow rows i row = .ok complete)
    (second : d.completedRow others j row = .ok complete') :
    complete = complete' := by
  obtain ⟨cells, computed, rfl⟩ := map_eq_ok_iff.mp first
  obtain ⟨cells', computed', rfl⟩ := map_eq_ok_iff.mp second
  obtain ⟨length, each⟩ := declaredRow_ok computed
  obtain ⟨length', each'⟩ := declaredRow_ok computed'
  have permuted := declaredFrame_permuted width reads typed same member i j
  refine congrArg (row ++ ·) (List.ext_getElem? fun k => ?_)
  rcases Nat.lt_or_ge k d.calls.length with call | beyond
  · obtain ⟨cell, value, place⟩ := each k _ (List.getElem?_eq_getElem call)
    obtain ⟨cell', value', place'⟩ := each' k _ (List.getElem?_eq_getElem call)
    have here := List.getElem_mem call
    rw [place, place', Call.evaluate_perm_of_ok permuted (width ▸ reads.calls _ here) (free _ here)
      value value']
  · rw [List.getElem?_eq_none (length ▸ beyond), List.getElem?_eq_none (length' ▸ beyond)]

omit same in
/-- No row is completed in two ways. -/
theorem completes_unique : Relator.RightUnique (d.Completes rows) := by
  rintro row complete complete' ⟨member, some_, i, order, here⟩ ⟨-, some', j, order', here'⟩
  have typed' : ∀ row ∈ some_, row.HasTypes types :=
    fun row there => typed row (order.mem_iff.mpr there)
  have moved := order.symm.trans order'
  exact completedRow_perm_of_ok width reads typed' moved free (order.mem_iff.mp member) here here'

/-- The same rows in two orders are completed to the same rows. -/
theorem completed_perm {out out' : List Row} (first : d.completed rows = .ok out)
    (second : d.completed others = .ok out') : out.Perm out' :=
  List.rel_perm_imp (completes_unique width reads typed free)
    (completedFrom_completes (.refl rows) (fun _ => id) first)
    (completedFrom_completes same (fun _ => same.mem_iff.mpr) second) same

theorem completed_ok_of_perm (noSum : ∀ c ∈ d.calls, c.function ≠ .sum) {out : List Row}
    (done : d.completed rows = .ok out) : ∃ out', d.completed others = .ok out' := by
  have each := completedFrom_completes (.refl rows) (fun _ => id) done
  refine completedFrom_ok_of_each fun row member j => ?_
  obtain ⟨k, inside, rfl⟩ := List.mem_iff_getElem.mp (same.mem_iff.mpr member)
  obtain ⟨there, some_, i, order, here⟩ := each.get inside (each.length_eq ▸ inside)
  rw [List.get_eq_getElem] at there here
  have typed' : ∀ row ∈ some_, row.HasTypes types :=
    fun row there => typed row (order.mem_iff.mpr there)
  rw [completedRow_perm width reads typed' (order.symm.trans same) free noSum
    (order.mem_iff.mp there) i j] at here
  exact ⟨_, here⟩

end Arrangements
end Definition

namespace Executor

variable {d : Definition} {types : List DataType}

/-- Over the same rows in two orders of arrival, two executions that succeed put out the same rows
in some order. Without a sum one succeeds just when the other does. -/
theorem execute_perm (x y : Executor) (d : Definition) (types : List DataType)
    (batches others : List Batch) (blocking : Bool) (accounting : Accounting)
    (delivers : Delivers types batches) (delivers' : Delivers types others)
    (width : d.width = types.length) (reads : d.ReadsSource)
    (free : ∀ c ∈ d.calls, c.OrderFree types) (same : (rowsOf batches).Perm (rowsOf others)) :
    (∀ r r', (x.execute d ⟨batches.map .batch, blocking⟩ .never accounting).2 = .ok r →
      (y.execute d ⟨others.map .batch, blocking⟩ .never accounting).2 = .ok r' →
      r.rows.Perm r'.rows) ∧
    ((∀ c ∈ d.calls, c.function ≠ .sum) →
      ((∃ r, (x.execute d ⟨batches.map .batch, blocking⟩ .never accounting).2 = .ok r) ↔
        ∃ r', (y.execute d ⟨others.map .batch, blocking⟩ .never accounting).2 = .ok r')) := by
  obtain ⟨sorted, sorts⟩ := exists_sorts width reads.toComparesSource delivers
  obtain ⟨sorted', sorts'⟩ := exists_sorts width reads.toComparesSource delivers'
  have typed : ∀ row ∈ sorted, row.HasTypes types := sorts.arranges.on_right delivers.hasTypes
  have typed' : ∀ row ∈ sorted', row.HasTypes types := sorts'.arranges.on_right delivers'.hasTypes
  have moved : sorted.Perm sorted' :=
    sorts.arranges.perm.symm.trans (same.trans sorts'.arranges.perm)
  simp only [x.execute_eq_ok_iff blocking accounting delivers width reads sorts,
    y.execute_eq_ok_iff blocking accounting delivers' width reads sorts']
  refine ⟨?_, fun noSum => ⟨?_, ?_⟩⟩
  · rintro r r' ⟨-, out, done, rfl⟩ ⟨-, out', done', rfl⟩
    exact d.completed_perm width reads typed moved free done done'
  · rintro ⟨r, room, out, done, -⟩
    obtain ⟨out', done'⟩ := d.completed_ok_of_perm width reads typed moved free noSum done
    exact ⟨_, room.of_subperm same.symm.subperm, out', done', rfl⟩
  · rintro ⟨r, room, out, done, -⟩
    obtain ⟨out', done'⟩ := d.completed_ok_of_perm width reads typed' moved.symm free noSum done
    exact ⟨_, room.of_subperm same.subperm, out', done', rfl⟩

/-- Two peers that change places. -/
theorem execute_perm_peers :
    let d : Definition :=
      ⟨2, [⟨.rank, []⟩, ⟨.sum, [.column 1]⟩, ⟨.min, [.column 1]⟩], none, some (.ascending 0)⟩
    let schema : Schema := ⟨[⟨"k", .int64, true⟩, ⟨"v", .int64, true⟩], []⟩
    let first : Row := [.ofCount 1, .ofCount 5]
    let second : Row := [.ofCount 1, .ofCount 9]
    let results : Row := [.ofCount 1, .ofCount 14, .ofCount 5]
    let r : ResultRows := ⟨[first ++ results, second ++ results], false⟩
    let r' : ResultRows := ⟨[second ++ results, first ++ results], false⟩
    (execute ⟨{}, none⟩ d (.ofBatches [⟨schema, [first]⟩, ⟨schema, [second]⟩]) .never
      .unaccounted).2 = .ok r ∧
      (execute ⟨{}, none⟩ d (.ofBatches [⟨schema, [second, first]⟩]) .never .unaccounted).2 =
        .ok r' ∧
      r.rows.Perm r'.rows := by
  intro d schema first second results r r'
  have delivers : Delivers [.int64, .int64] [⟨schema, [first]⟩, ⟨schema, [second]⟩] := by decide
  have delivers' : Delivers [.int64, .int64] [⟨schema, [second, first]⟩] := by decide
  have reads : d.ReadsSource := by decide
  have free : ∀ c ∈ d.calls, c.OrderFree [.int64, .int64] := by
    simp only [d, List.forall_mem_cons]
    exact ⟨trivial, ⟨1, .int64, rfl, rfl⟩, trivial, fun c absent => by cases absent⟩
  have done :
      (execute ⟨{}, none⟩ d (.ofBatches [⟨schema, [first]⟩, ⟨schema, [second]⟩]) .never
        .unaccounted).2 =
      .ok r := by
    decide +kernel
  have done' :
      (execute ⟨{}, none⟩ d (.ofBatches [⟨schema, [second, first]⟩]) .never .unaccounted).2 =
        .ok r' := by
    decide +kernel
  have same :
      (rowsOf [⟨schema, [first]⟩, ⟨schema, [second]⟩]).Perm (rowsOf [⟨schema, [second, first]⟩]) :=
    .swap second first []
  have runs :=
    execute_perm ⟨{}, none⟩ ⟨{}, none⟩ d _ _ _ false .unaccounted delivers delivers' rfl
      reads free same
  exact ⟨done, done', runs.1 r r' done done'⟩

end Executor
end Windowing
