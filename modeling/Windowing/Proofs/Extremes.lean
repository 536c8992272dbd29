import Windowing.Proofs.Aggregates
import Windowing.Proofs.FloatOrder

/-!
The least and the greatest value of a frame. Going through the values compares each of them with the
best so far alone, which is of the type of all that were passed; so no pair of types differs
unnoticed.
-/
namespace Windowing

/-- Just the values of different types do not compare. -/
theorem Value.compare?_eq_none_iff {a b : Value} : a.compare? b = none ↔ a.type ≠ b.type := by
  constructor
  · intro apart same
    obtain ⟨o, answer⟩ := compare?_of_type_eq same
    rw [answer] at apart
    cases apart
  · intro differ
    cases a <;> cases b <;> simp_all [type, compare?]

namespace Call

section Better

variable {g : Function} {keep : Ordering} {best : Option Value} {v : Value} {vs : List Value}
  {t : DataType}

theorem better_eq_error_iff {e : EvaluationError} : better g keep best v = .error e ↔
    ∃ b, best = some b ∧ v.type ≠ b.type ∧ e = .incomparable g v b := by
  cases best with
  | none => simp only [better, reduceCtorEq, false_and, exists_false]
  | some b =>
    cases answer : v.compare? b with
    | none => simp [better, answer, Value.compare?_eq_none_iff.mp answer, eq_comm]
    | some o =>
      have same : v.type = b.type := by
        by_contra differ
        rw [Value.compare?_eq_none_iff.mpr differ] at answer
        cases answer
      simp [better, answer, same]

/-- Values that all went through are of the type they were compared with. -/
theorem foldlM_better_types {b : Value} {last : Option Value}
    (done : vs.foldlM (better g keep) (some b) = .ok last) :
    ∀ v ∈ vs, v.type = b.type := by
  induction vs generalizing b with
  | nil => exact List.forall_mem_nil _
  | cons v vs ih =>
    rw [List.foldlM_cons] at done
    obtain ⟨next, step, done⟩ := bind_eq_ok_iff.mp done
    have same : v.type = b.type := by
      by_contra differ
      rw [better_eq_error_iff.mpr ⟨b, rfl, differ, rfl⟩] at step
      cases step
    refine List.forall_mem_cons.mpr ⟨same, fun w member => ?_⟩
    rcases better_eq_ok step with rfl | rfl
    · exact (ih done w member).trans same
    · exact ih done w member

/-- Going through values fails at one that differs in its type from the best before it. -/
theorem foldlM_better_eq_error {e : EvaluationError}
    (failed : vs.foldlM (better g keep) none = .error e) :
    ∃ v ∈ vs, ∃ w ∈ vs, v.type ≠ w.type ∧ e = .incomparable g v w := by
  obtain ⟨before, v, after, best, rfl, done, step⟩ := foldlM_eq_error failed
  obtain ⟨w, rfl, differ, rfl⟩ := better_eq_error_iff.mp step
  rcases foldlM_better_mem done with none | ⟨u, member, same⟩
  · cases none
  · obtain rfl := Option.some.inj same
    exact ⟨v, by simp, w, List.mem_append_left _ member, differ, rfl⟩

variable (g keep) in
theorem foldlM_better_fails_iff : (∃ e, vs.foldlM (better g keep) none = .error e) ↔
    ∃ v ∈ vs, ∃ w ∈ vs, v.type ≠ w.type := by
  constructor
  · rintro ⟨e, failed⟩
    obtain ⟨v, here, w, there, differ, -⟩ := foldlM_better_eq_error failed
    exact ⟨v, here, w, there, differ⟩
  · rintro ⟨v, here, w, there, differ⟩
    cases folded : vs.foldlM (better g keep) none with
    | error e => exact ⟨e, rfl⟩
    | ok last =>
      cases vs with
      | nil => cases here
      | cons u vs =>
        have types : ∀ v ∈ u :: vs, v.type = u.type :=
          List.forall_mem_cons.mpr ⟨rfl, foldlM_better_types folded⟩
        exact absurd ((types v here).trans (types w there).symm) differ

end Better

/-- The two functions that look for an extreme, with how a value compares with one it beats. -/
def extremes : List (Function × Ordering) := [(.min, .lt), (.max, .gt)]

section Extreme

variable {g : Function} {keep : Ordering} {a : Argument} {f : Frame}

theorem evaluate_extreme (c : Call) (known : (c.function, keep) ∈ extremes) (index : Nat) :
    c.evaluate index f = c.one >>= c.extreme keep f := by
  simp only [extremes, List.mem_cons, Prod.mk.injEq, List.not_mem_nil, or_false] at known
  rcases known with ⟨function, rfl⟩ | ⟨function, rfl⟩ <;> rw [evaluate, function]

theorem strict_of_extremes (known : (g, keep) ∈ extremes) : keep ≠ .eq := by
  rintro rfl
  simp [extremes] at known

variable (valid : f.Valid) (within : ∀ row ∈ f.rows, a.Within row.length)

include valid within

theorem frameType_of_rows : ∃ t, a.frameType f = .ok t ∧ (f.rows = [] → t = .null) ∧
    ∀ row, f.rows.head? = some row → ∃ cell, a.evaluate row = .ok cell ∧ cell.type = t := by
  have length := Frame.length_rows valid
  cases rows : f.rows with
  | nil =>
    rw [rows, List.length_nil] at length
    refine ⟨.null, ?_, fun _ => rfl, fun row head => by cases head⟩
    rw [Argument.frameType, Frame.isEmpty, ← length]
    rfl
  | cons row more =>
    obtain ⟨cell, value⟩ := Argument.evaluate_ok (within row (by simp [rows])) (Nat.le_refl _)
    have first : f.row 0 = .ok row := (Frame.row_eq_ok_iff valid).mpr (by simp [rows])
    have nonempty : f.isEmpty = false := by
      rw [Frame.isEmpty, ← length, rows]
      rfl
    refine ⟨cell.type, ?_, (fun empty => by cases empty), fun row' head => ?_⟩
    · rw [Argument.frameType, nonempty, if_neg Bool.false_ne_true, first, ok_bind, value]
      rfl
    · obtain rfl := Option.some.inj head
      exact ⟨cell, value, rfl⟩

theorem extreme_eq (c : Call) (keep : Ordering) : ∃ t, ((f.rows = [] → t = .null) ∧
      ∀ row, f.rows.head? = some row → ∃ cell, a.evaluate row = .ok cell ∧ cell.type = t) ∧
    c.extreme keep f a =
      Guarded.ofError (((a.presents f.rows).foldlM (better c.function keep) none).map fun best =>
      (best.map Cell.value).getD (.null t)) := by
  have each : ∀ row ∈ f.rows, ∃ cell, a.evaluate row = .ok cell := by
    intro row member
    exact Argument.evaluate_ok (within row member) (Nat.le_refl _)
  obtain ⟨t, type, shown⟩ := frameType_of_rows valid within
  refine ⟨t, shown, ?_⟩
  rw [extreme, Argument.foldPresent_eq each, type]
  cases (a.presents f.rows).foldlM (better c.function keep) none with
  | error e => rfl
  | ok best => cases best <;> rfl

end Extreme

/-- Over any frame whose rows have the argument: if the present values are of one type, the result
of `min` or `max` is one of them that no other beats; without a present value it is a null of the
type that the argument has in the first row, or of no type if there is no row. The call fails just
if two present values differ in their types, and then with an execution error that names two such.
Floating-point values are in the total order of IEEE 754. -/
theorem extreme_of_frame (a : Argument) (f : Frame) (valid : f.Valid)
    (within : ∀ row ∈ f.rows, a.Within row.length) :
    (∀ g keep, (g, keep) ∈ extremes → ∀ index,
      (∀ t, (∀ v ∈ a.presents f.rows, v.type = t) → a.presents f.rows ≠ [] →
        ∃ v, evaluate ⟨g, [a]⟩ index f = .ok (.value v) ∧ IsExtreme keep (a.presents f.rows) v) ∧
      (a.presents f.rows = [] → ∃ t, evaluate ⟨g, [a]⟩ index f = .ok (.null t) ∧
        (f.rows = [] → t = .null) ∧
        ∀ row, f.rows.head? = some row → ∃ cell, a.evaluate row = .ok cell ∧ cell.type = t) ∧
      ((∃ e, evaluate ⟨g, [a]⟩ index f = .error e) ↔
        ∃ v ∈ a.presents f.rows, ∃ w ∈ a.presents f.rows, v.type ≠ w.type) ∧
      ∀ e, evaluate ⟨g, [a]⟩ index f = .error e →
        ∃ v ∈ a.presents f.rows, ∃ w ∈ a.presents f.rows, v.type ≠ w.type ∧
          e = .error (.incomparable g v w) ∧
          (EvaluationError.incomparable g v w).message =
            "Execution error: " ++ g.name ++ ": cannot compare " ++ v.text ++ " with " ++ w.text) ∧
    (∀ x y : BitVec 32, (Value.float32 x).compare? (.float32 y) = some .lt ↔
      FloatFormat.single.TotalLess x.toNat y.toNat) ∧
    ∀ x y : BitVec 64, (Value.float64 x).compare? (.float64 y) = some .lt ↔
      FloatFormat.double.TotalLess x.toNat y.toNat := by
  refine ⟨fun g keep known index => ?_, fun x y => ?_, fun x y => ?_⟩
  · obtain ⟨t, shown, found⟩ := extreme_eq valid within ⟨g, [a]⟩ keep
    have single : (⟨g, [a]⟩ : Call).one = .ok a := rfl
    rw [evaluate_extreme ⟨g, [a]⟩ known, single, ok_bind, found]
    refine ⟨fun s types present => ?_, fun empty => ⟨t, ?_, shown⟩, ?_, fun e failed => ?_⟩
    · rcases foldlM_better (strict_of_extremes known) (g := g) types with ⟨empty, -⟩ |
        ⟨v, folded, extreme⟩
      · exact absurd empty present
      · exact ⟨v, by rw [folded]; rfl, extreme⟩
    · rw [empty]
      rfl
    · rw [← foldlM_better_fails_iff g keep]
      constructor
      · rintro ⟨e, failed⟩
        obtain ⟨e', stopped, -⟩ := Guarded.ofError_eq_error_iff.mp failed
        exact ⟨e', map_eq_error_iff.mp stopped⟩
      · rintro ⟨e, stopped⟩
        exact ⟨.error e, by rw [stopped]; rfl⟩
    · obtain ⟨e', stopped, rfl⟩ := Guarded.ofError_eq_error_iff.mp failed
      obtain ⟨v, here, w, there, differ, rfl⟩ :=
        foldlM_better_eq_error (map_eq_error_iff.mp stopped)
      exact ⟨v, here, w, there, differ, rfl, rfl⟩
  · rw [Value.compare?, Option.some.injEq, Int.compare_eq_lt]
    exact FloatFormat.single.orderKey_lt_iff
  · rw [Value.compare?, Option.some.injEq, Int.compare_eq_lt]
    exact FloatFormat.double.orderKey_lt_iff

/-- The negative zero is less than the positive one, with a null between them. Where a text stands
between two integers, the last of the three is never compared. -/
theorem extreme_of_frame_signed_zeros :
    let a : Argument := .column 0
    let zeros : Frame :=
      ⟨#[[.value (.float64 0)], [.null .float64], [.value (.float64 0x8000000000000000)]], 0,
        0, 3, 2, 2, 2⟩
    let mixed : Frame := ⟨#[[.ofCount 2], [.value (.utf8 "a")], [.ofCount 1]], 0, 0, 3, 0, 0, 0⟩
    (zeros.Valid ∧ (∀ row ∈ zeros.rows, a.Within row.length) ∧
      (Function.min, Ordering.lt) ∈ extremes ∧
      IsExtreme .lt (a.presents zeros.rows) (.float64 0x8000000000000000) ∧
      FloatFormat.double.TotalLess 0x8000000000000000 0) ∧
      mixed.Valid ∧ (∀ row ∈ mixed.rows, a.Within row.length) ∧
      ∃ e, evaluate ⟨.max, [a]⟩ 0 mixed = .error e := by
  intro a zeros mixed
  have valid : zeros.Valid := ⟨by decide, by decide, by decide⟩
  have within : ∀ row ∈ zeros.rows, a.Within row.length := by decide
  have valid' : mixed.Valid := ⟨by decide, by decide, by decide⟩
  have within' : ∀ row ∈ mixed.rows, a.Within row.length := by decide
  obtain ⟨least, -, ordered⟩ := extreme_of_frame a zeros valid within
  obtain ⟨v, found, extreme⟩ := (least .min .lt (by decide) 0).1 .float64 (by decide) (by decide)
  have value : evaluate ⟨.min, [a]⟩ 0 zeros = .ok (.value (.float64 0x8000000000000000)) := by rfl
  obtain rfl := Cell.value.inj (Except.ok.inj (found.symm.trans value))
  refine ⟨⟨valid, within, by decide, extreme, (ordered 0x8000000000000000 0).mp (by decide)⟩,
    valid', within', ?_⟩
  exact ((extreme_of_frame a mixed valid' within').1 .max .gt (by decide) 0).2.2.1.mpr
    ⟨.utf8 "a", by decide, .integer .int64 2 (by decide), by decide, by decide⟩

end Call
end Windowing
