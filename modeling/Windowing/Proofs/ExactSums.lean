import Windowing.Proofs.Growth
import Windowing.Proofs.Nulls
import Windowing.Proofs.Selection
import Windowing.Proofs.Soundness

/-!
Sums of integers never wrap. Adding up goes through the integers of a frame in order and stops at
the first one that 64 bits do not hold, or that takes the sum beyond them. As the frames of a
partition are its initial parts, all its sums come out just if that of the whole partition does.
-/
namespace Windowing

def Value.integer? : Value → Option Int
  | integer _ n _ => some n
  | _ => none

def Argument.integers (a : Argument) (rows : List Row) : List Int :=
  (a.presents rows).filterMap Value.integer?

theorem Argument.integers_grow (a : Argument) {rows more : List Row} (part : rows <+: more) :
    a.integers rows <+: a.integers more := (a.presents_grow part).filterMap _

/-- Each of the integers and each sum of the first of them is a signed 64-bit integer. -/
structure Addable (ns : List Int) : Prop where
  each : ∀ n ∈ ns, IntKind.int64.Fits n
  sums : ∀ before, before <+: ns → IntKind.int64.Fits before.sum

namespace Addable

variable {ns before : List Int} {n : Int}

theorem nil : Addable [] := by
  refine ⟨List.forall_mem_nil _, fun before none => ?_⟩
  obtain rfl := List.prefix_nil.mp none
  decide

theorem initial (addable : Addable ns) (part : before <+: ns) : Addable before :=
  ⟨fun n member => addable.each n (part.subset member),
    fun first shorter => addable.sums first (shorter.trans part)⟩

theorem total (addable : Addable ns) : IntKind.int64.Fits ns.sum :=
  addable.sums ns (List.prefix_refl ns)

theorem concat (addable : Addable ns) (fits : IntKind.int64.Fits n)
    (total : IntKind.int64.Fits (ns.sum + n)) :
    Addable (ns ++ [n]) := by
  refine ⟨List.forall_mem_append.mpr ⟨addable.each, List.forall_mem_singleton.mpr fits⟩,
    fun before part => ?_⟩
  rcases List.prefix_concat_iff.mp part with rfl | shorter
  · rwa [List.sum_append, List.sum_singleton]
  · exact addable.sums before shorter

end Addable

theorem not_addable_iff {ns : List Int} : ¬ Addable ns ↔
    (∃ n ∈ ns, ¬ IntKind.int64.Fits n) ∨
    ∃ before, before <+: ns ∧ ¬ IntKind.int64.Fits before.sum := by
  constructor
  · intro fails
    by_contra fine
    simp only [not_or, not_exists, not_and, not_not] at fine
    exact fails ⟨fine.1, fine.2⟩
  · rintro (⟨n, member, misfit⟩ | ⟨before, part, misfit⟩) addable
    · exact misfit (addable.each n member)
    · exact misfit (addable.sums before part)

/-- Why an integer cannot be added to a sum so far. -/
inductive Refuses (total n : Int) : EvaluationError → Prop
  | unrepresentable : ¬ IntKind.int64.Fits n →
      Refuses total n (.cast (.outOfRange (toString n) .int64))
  | overflow : IntKind.int64.Fits n → ¬ IntKind.int64.Fits (total + n) →
      Refuses total n .sumOverflow

def tally (ns : List Int) : Option Int := if ns = [] then none else some ns.sum

theorem tally_getD (ns : List Int) : (tally ns).getD 0 = ns.sum := by
  rw [tally]
  split
  · rename_i none
    rw [none]
    rfl
  · rfl

theorem tally_concat (ns : List Int) (n : Int) : tally (ns ++ [n]) = some (ns.sum + n) := by
  rw [tally, if_neg (List.concat_ne_nil n ns), List.sum_append, List.sum_singleton]

theorem Refuses.not_addable {before after : List Int} {n : Int} {e : EvaluationError}
    (refuses : Refuses before.sum n e) : ¬ Addable (before ++ n :: after) := by
  intro addable
  cases refuses with
  | unrepresentable misfit => exact misfit (addable.each n (by simp))
  | overflow _ misfit =>
    have total := addable.sums (before ++ [n]) ⟨after, by simp⟩
    rw [List.sum_append, List.sum_singleton] at total
    exact misfit total

namespace Call

/-- One integer more: it is added exactly, or refused. -/
theorem addExact_integer {s : Option IntKind.int64.Carrier} {ns : List Int}
    (state : s.map Subtype.val = tally ns) (addable : Addable ns) (k : IntKind) (n : Int)
    (fits : k.Fits n) :
    (∃ next, addExact s (.integer k n fits) = .ok next ∧ Addable (ns ++ [n]) ∧
      next.map Subtype.val = tally (ns ++ [n])) ∨
    ∃ e, addExact s (.integer k n fits) = .error e ∧ Refuses ns.sum n e := by
  rw [addExact, Value.toInteger, state, tally_getD]
  by_cases inside : IntKind.int64.Fits n
  · rw [Value.ranged_of_fits inside]
    dsimp only [Except.mapError, ok_bind]
    by_cases total : IntKind.int64.Fits (ns.sum + n)
    · rw [IntKind.carrier?, dif_pos total]
      exact .inl ⟨_, rfl, addable.concat inside total, (tally_concat ns n).symm⟩
    · rw [IntKind.carrier?, dif_neg total]
      exact .inr ⟨_, rfl, .overflow inside total⟩
  · rw [Value.ranged_of_not_fits inside]
    exact .inr ⟨_, rfl, .unrepresentable inside⟩

/-- Adding up integers comes to their sum, or stops at the first one that is refused. -/
theorem foldlM_addExact_integers {vs : List Value} (integral : ∀ v ∈ vs, v.type.isInteger = true)
    {s : Option IntKind.int64.Carrier} {ns : List Int} (state : s.map Subtype.val = tally ns)
    (addable : Addable ns) :
    (∃ r, vs.foldlM addExact s = .ok r ∧ Addable (ns ++ vs.filterMap Value.integer?) ∧
      r.map Subtype.val = tally (ns ++ vs.filterMap Value.integer?)) ∨
    ∃ before n after e, ns ++ vs.filterMap Value.integer? = before ++ n :: after ∧ Addable before ∧
      Refuses before.sum n e ∧ vs.foldlM addExact s = .error e := by
  induction vs generalizing s ns with
  | nil =>
    rw [List.filterMap_nil, List.append_nil]
    exact .inl ⟨s, rfl, addable, state⟩
  | cons v vs ih =>
    obtain ⟨first, others⟩ := List.forall_mem_cons.mp integral
    obtain ⟨k, n, fits, rfl⟩ := Value.eq_integer_of_type first
    have here : (Value.integer k n fits :: vs).filterMap Value.integer? =
        n :: vs.filterMap Value.integer? :=
      List.filterMap_cons_some rfl
    rw [here, List.foldlM_cons]
    rcases addExact_integer state addable k n fits with ⟨next, added, addable', state'⟩ |
      ⟨e, stopped, refuses⟩
    · rw [added, ok_bind, List.append_cons]
      exact ih others state' addable'
    · exact .inr ⟨ns, n, _, e, rfl, addable, refuses, by rw [stopped]; rfl⟩

def sumCell : Option IntKind.int64.Carrier → Cell
  | none => .null .int64
  | some ⟨n, fits⟩ => .value (.integer .int64 n fits)

theorem sumCell_of_tally {r : Option IntKind.int64.Carrier} {ns : List Int}
    (state : r.map Subtype.val = tally ns) :
    (ns = [] → sumCell r = .null .int64) ∧
      (ns ≠ [] → ∃ fits, sumCell r = .value (.integer .int64 ns.sum fits)) := by
  cases r with
  | none =>
    refine ⟨fun _ => rfl, fun some => ?_⟩
    rw [tally, if_neg some] at state
    cases state
  | some n =>
    obtain ⟨total, fits⟩ := n
    refine ⟨fun none => ?_, fun some => ?_⟩
    · rw [tally, if_pos none] at state
      cases state
    · rw [tally, if_neg some] at state
      obtain rfl : total = ns.sum := Option.some.inj state
      exact ⟨fits, rfl⟩

section Frame

variable {a : Argument} {kind : IntKind} {f : Frame} (valid : f.Valid)
  (each : ∀ row ∈ f.rows, ∃ cell, a.evaluate row = .ok cell ∧ cell.type = .integer kind)

include valid each

theorem evaluate_sum_eq (index : Nat) : evaluate ⟨.sum, [a]⟩ index f =
    Guarded.ofError (((a.presents f.rows).foldlM addExact none).map sumCell) := by
  have answers : ∀ row ∈ f.rows, ∃ cell, a.evaluate row = .ok cell := by
    intro row member
    obtain ⟨cell, value, -⟩ := each row member
    exact ⟨cell, value⟩
  obtain ⟨t, type, exact⟩ : ∃ t, a.frameType f = .ok t ∧ Function.sum.summation t = .ok .exact := by
    cases rows : f.rows with
    | nil =>
      have empty : f.isEmpty = true := by
        rw [Frame.isEmpty, ← Frame.length_rows valid, rows]
        rfl
      exact ⟨.null, if_pos empty, rfl⟩
    | cons row rest =>
      obtain ⟨cell, value, type⟩ := each row (by rw [rows]; exact List.mem_cons_self)
      exact ⟨cell.type, Argument.frameType_cons valid rows value, by rw [type]; rfl⟩
  have single : (⟨.sum, [a]⟩ : Call).one = .ok a := rfl
  rw [evaluate, single, ok_bind, sumOver, type]
  simp only [Guarded.lift_eq, Guarded.ofDefect_ok, ok_bind, exact]
  show sumExact f a = _
  rw [sumExact, Argument.foldPresent_eq answers]
  cases (a.presents f.rows).foldlM addExact none with
  | error e => rfl
  | ok r => cases r <;> rfl

omit valid in
theorem presents_integral : ∀ v ∈ a.presents f.rows, v.type.isInteger = true := by
  intro v member
  obtain ⟨row, inside, found⟩ := List.mem_filterMap.mp member
  obtain ⟨cell, value, type⟩ := each row inside
  rw [value] at found
  cases cell with
  | null t => cases found
  | value w =>
    obtain rfl := Option.some.inj found
    have type : w.type = .integer kind := type
    rw [type]
    rfl

theorem evaluate_sum_cases (index : Nat) :
    (Addable (a.integers f.rows) ∧ ∃ cell, evaluate ⟨.sum, [a]⟩ index f = .ok cell ∧
      (a.integers f.rows = [] → cell = .null .int64) ∧
      (a.integers f.rows ≠ [] →
        ∃ fits, cell = .value (.integer .int64 (a.integers f.rows).sum fits))) ∨
    ∃ before n after e, a.integers f.rows = before ++ n :: after ∧ Addable before ∧
      Refuses before.sum n e ∧
      evaluate ⟨.sum, [a]⟩ index f = .error (.error e) := by
  rw [evaluate_sum_eq valid each]
  have start : (none : Option IntKind.int64.Carrier).map Subtype.val = tally [] := rfl
  rcases foldlM_addExact_integers (presents_integral each) start .nil with
    ⟨r, folded, addable, state⟩ | ⟨before, n, after, e, split, addable, refuses, stopped⟩
  · obtain ⟨null, sum⟩ := sumCell_of_tally state
    exact .inl ⟨addable, sumCell r, by rw [folded]; rfl, null, sum⟩
  · exact .inr ⟨before, n, after, e, split, addable, refuses, by rw [stopped]; rfl⟩

/-- Sums come out of the integers that can be added. -/
theorem exists_evaluate_sum_iff (index : Nat) :
    (∃ cell, evaluate ⟨.sum, [a]⟩ index f = .ok cell) ↔ Addable (a.integers f.rows) := by
  rcases evaluate_sum_cases valid each index with
    ⟨addable, cell, value, -⟩ | ⟨before, n, after, e, split, -, refuses, stopped⟩
  · exact ⟨fun _ => addable, fun _ => ⟨cell, value⟩⟩
  · rw [stopped, split]
    constructor
    · rintro ⟨cell, value⟩
      cases value
    · exact fun addable => absurd addable refuses.not_addable

end Frame

end Call

namespace Definition

variable {d : Definition} {types : List DataType} {rows : List Row} {a : Argument} {kind : IntKind}

/-- The sums of sorted rows all come out just if those of whole partitions do. -/
theorem exists_completed_sum_iff (arranged : d.Arranged types rows)
    (calls : d.calls = [⟨.sum, [a]⟩]) (known : a.typeIn types = some (.integer kind)) :
    (∃ out, d.completed rows = .ok out) ↔
      ∀ row ∈ rows, Addable (a.integers (rows.filter (d.mates row))) := by
  have sums : ∀ i row, (∃ cell, d.declaredResult rows i row ⟨.sum, [a]⟩ = .ok cell) ↔
      Addable (a.integers (d.frameMates rows row)) := by
    intro i row
    rw [← rows_declaredFrame d rows i row]
    have each : ∀ other ∈ (d.declaredFrame rows i row).rows,
        ∃ cell, a.evaluate other = .ok cell ∧ cell.type = .integer kind := by
      intro other member
      rw [rows_declaredFrame] at member
      exact Argument.evaluate_typed known (arranged.typed other (List.mem_filter.mp member).1)
    exact Call.exists_evaluate_sum_iff (d.declaredFrame_valid rows i row) each _
  rw [exists_completed_iff, calls, List.forall_mem_singleton]
  constructor
  · intro each row member
    obtain ⟨last, there, whole⟩ := arranged.exists_frameMates_eq_partition member
    obtain ⟨i, place⟩ := List.mem_iff_getElem?.mp there
    rw [← whole, ← sums i]
    exact each (last, i) (List.mk_mem_zipIdx_iff_getElem?.mpr place)
  · rintro each ⟨row, i⟩ member
    have inside := List.fst_mem_of_mem_zipIdx member
    rw [sums]
    exact (each row inside).initial (a.integers_grow (arranged.frameMates_prefix_partition inside))

end Definition

namespace Executor

/-- Over a frame whose rows have integers of one kind for the argument, a sum is a null if they are
all null, the exact sum of the present ones if each of them and each sum of the first of them is a
signed 64-bit integer, and otherwise the error of the first one that is not or that takes the sum
beyond. An execution of nothing but such a sum fails, if not for want of room, just where in a
partition, in sorted order, there is such an integer or such a sum, however the rows are ordered and
whichever of them are peers. -/
theorem execute_sum (a : Argument) (kind : IntKind) :
    (∀ f : Frame, f.Valid →
      (∀ row ∈ f.rows, ∃ cell, a.evaluate row = .ok cell ∧ cell.type = .integer kind) →
      ∀ index, (a.integers f.rows = [] → Call.evaluate ⟨.sum, [a]⟩ index f = .ok (.null .int64)) ∧
        (a.integers f.rows ≠ [] → Addable (a.integers f.rows) → ∃ fits,
          Call.evaluate ⟨.sum, [a]⟩ index f =
            .ok (.value (.integer .int64 (a.integers f.rows).sum fits))) ∧
        (¬ Addable (a.integers f.rows) →
          ∃ before n after e, a.integers f.rows = before ++ n :: after ∧
          Addable before ∧ Refuses before.sum n e ∧
          Call.evaluate ⟨.sum, [a]⟩ index f = .error (.error e))) ∧
    ∀ (x : Executor) (d : Definition) (types : List DataType) (batches : List Batch)
      (blocking : Bool) (accounting : Accounting), Delivers types batches → d.width = types.length →
      d.ComparesSource →
      d.calls = [⟨.sum, [a]⟩] → a.typeIn types = some (.integer kind) →
      ∃ sorted,
        (∀ other, Sorting.Sorts d.sortOrder.compare (Row.HasTypes types) (rowsOf batches) other ↔
          other = sorted) ∧
        ((∃ e, (x.execute d ⟨batches.map .batch, blocking⟩ .never accounting).2 = .error e) ↔
          ¬ accounting.Room (rowsOf batches) ∨ ∃ row ∈ rowsOf batches,
            (∃ n ∈ a.integers (sorted.filter (d.mates row)), ¬ IntKind.int64.Fits n) ∨
              ∃ before, before <+: a.integers (sorted.filter (d.mates row)) ∧
                ¬ IntKind.int64.Fits before.sum) := by
  constructor
  · intro f valid each index
    rcases Call.evaluate_sum_cases valid each index with
      ⟨addable, cell, value, null, sum⟩ | ⟨before, n, after, e, split, addable, refuses, stopped⟩
    · rw [value]
      refine ⟨fun none => congrArg Except.ok (null none), fun some _ => ?_,
        fun fails => absurd addable fails⟩
      obtain ⟨fits, exact⟩ := sum some
      exact ⟨fits, congrArg Except.ok exact⟩
    · have fails : ¬ Addable (a.integers f.rows) := by
        rw [split]
        exact refuses.not_addable
      refine ⟨fun none => ?_, fun _ addable => absurd addable fails, fun _ => ?_⟩
      · rw [none] at fails
        exact absurd .nil fails
      · exact ⟨before, n, after, e, split, addable, refuses, stopped⟩
  · intro x d types batches blocking accounting delivers width compares calls known
    obtain ⟨sorted, sorts⟩ := exists_sorts width compares delivers
    have unique : ∀ other,
        Sorting.Sorts d.sortOrder.compare (Row.HasTypes types) (rowsOf batches) other ↔
        other = sorted := fun other =>
      ⟨fun h => h.unique (d.sortOrder_total width compares) delivers.hasTypes sorts,
        fun same => same ▸ sorts⟩
    have reads : d.ReadsSource := by
      refine ⟨compares, fun c call => ?_⟩
      rw [calls] at call
      obtain rfl := List.mem_singleton.mp call
      exact List.forall_mem_singleton.mpr (width ▸ Argument.within_of_typeIn known)
    have arranged : d.Arranged types sorted :=
      ⟨width, compares, sorts.arranges.on_right delivers.hasTypes, sorts.sorted⟩
    refine ⟨sorted, unique, ?_⟩
    have completes := Definition.exists_completed_sum_iff arranged calls known
    rw [exists_error_iff, x.exists_execute_iff blocking accounting delivers width reads sorts,
      completes, not_and_or]
    refine or_congr Iff.rfl ?_
    simp only [not_forall, not_addable_iff, exists_prop, sorts.mem_iff]

/-- The whole fits, but not the greatest integer and one: all rows are peers, so that no frame is
shorter. -/
theorem execute_sum_beyond :
    let a : Argument := .column 0
    let greatest : Cell := .value (.integer .int64 9223372036854775807 (by decide))
    let minus : Cell := .value (.integer .int64 (-1) (by decide))
    let schema : Schema := ⟨[⟨"x", .int64, true⟩], []⟩
    let d : Definition := ⟨1, [⟨.sum, [a]⟩], none, none⟩
    let batches : List Batch := [⟨schema, [[greatest], [.ofCount 1]]⟩, ⟨schema, [[minus]]⟩]
    let f : Frame := ⟨#[[greatest], [.null .int64], [minus]], 0, 0, 3, 0, 0, 0⟩
    (∃ e, (execute ⟨{}, none⟩ d ⟨batches.map .batch, false⟩ .never .unaccounted).2 = .error e) ∧
      (a.integers (rowsOf batches)).sum = 9223372036854775807 ∧
      ∃ fits, Call.evaluate ⟨.sum, [a]⟩ 0 f =
        .ok (.value (.integer .int64 9223372036854775806 fits)) := by
  intro a greatest minus schema d batches f
  have valid : f.Valid := ⟨by decide, by decide, by decide⟩
  have each : ∀ row ∈ f.rows, ∃ cell, a.evaluate row = .ok cell ∧ cell.type = .int64 := by
    have rows : f.rows = [[greatest], [.null .int64], [minus]] := rfl
    rw [rows]
    simp only [List.forall_mem_cons]
    exact ⟨⟨greatest, rfl, rfl⟩, ⟨.null .int64, rfl, rfl⟩, ⟨minus, rfl, rfl⟩, List.forall_mem_nil _⟩
  have addable : Addable (a.integers f.rows) :=
    (Addable.nil.concat (by decide) (by decide)).concat (n := -1) (by decide) (by decide)
  obtain ⟨sums, executions⟩ := execute_sum a .int64
  have delivers : Delivers [.int64] batches := by decide
  obtain ⟨sorted, unique, fails⟩ :=
    executions ⟨{}, none⟩ d [.int64] batches false .unaccounted delivers rfl
    (by decide) rfl rfl
  obtain rfl :=
    (unique (rowsOf batches)).mp ⟨.refl _, List.pairwise_of_forall fun _ _ => .of_eq rfl⟩
  refine ⟨fails.mpr (.inr ⟨[greatest], by decide, .inr ?_⟩),
    by decide, (sums f valid each 0).2.1 (by decide) addable⟩
  exact ⟨[9223372036854775807, 1], by decide, by decide⟩

end Executor
end Windowing
