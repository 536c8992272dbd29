import Mathlib.Algebra.BigOperators.Group.List.Basic
import Mathlib.Algebra.Ring.Int.Defs
import Windowing.Proofs.Typing

/-!
What the folds of the aggregates come to, told without the order in which they go through the
values. A count is how many there are, an exact sum is the sum of the integers they stand for, and
the extreme of values of one type is the only one that no other beats.
-/
namespace Windowing

namespace Value

/-- What beats something that beats a third value beats that too. -/
theorem compare?_trans {a b c : Value} {keep : Ordering} (strict : keep ≠ .eq)
    (first : a.compare? b = some keep) (second : b.compare? c = some keep) :
    a.compare? c = some keep := by
  cases keep with
  | lt => exact compare?_then first second (by decide) (by decide)
  | eq => exact absurd rfl strict
  | gt =>
    have first' : b.compare? a = some .lt := by rw [compare?_swap, first]; rfl
    have second' : c.compare? b = some .lt := by rw [compare?_swap, second]; rfl
    have whole : c.compare? a = some .lt := compare?_then second' first' (by decide) (by decide)
    rw [compare?_swap, whole]
    rfl

theorem compare?_self (a : Value) {keep : Ordering} (strict : keep ≠ .eq) :
    a.compare? a ≠ some keep := by
  intro beats
  have turned := compare?_swap a a
  rw [beats, Option.map_some, Option.some.injEq] at turned
  cases keep with
  | eq => exact strict rfl
  | lt => cases turned
  | gt => cases turned

def whole (v : Value) : Int := ((v.toInteger .int64).toOption.map Subtype.val).getD 0

end Value

/-- One of the values, which none of them beats; `keep` is how a value compares with one it
beats. -/
structure IsExtreme (keep : Ordering) (vs : List Value) (v : Value) : Prop where
  member : v ∈ vs
  unbeaten : ∀ w ∈ vs, w.compare? v ≠ some keep

namespace IsExtreme

variable {keep : Ordering} {vs vs' : List Value} {v w : Value} {t : DataType}

theorem perm (extreme : IsExtreme keep vs v) (same : vs.Perm vs') : IsExtreme keep vs' v :=
  ⟨same.mem_iff.mp extreme.member, fun w member => extreme.unbeaten w (same.mem_iff.mpr member)⟩

/-- Values of one type have one extreme. -/
theorem unique (strict : keep ≠ .eq) (types : ∀ u ∈ vs, u.type = t) (first : IsExtreme keep vs v)
    (second : IsExtreme keep vs w) : v = w := by
  obtain ⟨o, answer⟩ :=
    Value.compare?_of_type_eq ((types v first.member).trans (types w second.member).symm)
  have forth := second.unbeaten v first.member
  have back := first.unbeaten w second.member
  rw [Value.compare?_swap v w, answer, Option.map_some] at back
  rw [answer] at forth
  have tie : o = .eq := by cases keep <;> cases o <;> simp_all
  exact Value.eq_of_compare? (answer.trans (congrArg some tie))

end IsExtreme

namespace Call

section Extreme

variable {keep : Ordering} {g : Function} {t : DataType} (strict : keep ≠ .eq)

include strict

/-- One value more: the better of it and the extreme so far is the new extreme. -/
theorem better_extreme {seen : List Value} {b v : Value} (extreme : IsExtreme keep seen b)
    (same : v.type = b.type) :
    ∃ next, better g keep (some b) v = .ok (some next) ∧ IsExtreme keep (seen ++ [v]) next := by
  obtain ⟨o, answer⟩ := Value.compare?_of_type_eq same
  have kept : better g keep (some b) v = .ok (some (if o = keep then v else b)) := by
    rw [better, answer]
  refine ⟨_, kept, ?_⟩
  by_cases beats : o = keep
  · rw [if_pos beats]
    refine ⟨by simp, fun w member => ?_⟩
    rcases List.mem_append.mp member with earlier | last
    · exact fun above =>
        extreme.unbeaten w earlier (Value.compare?_trans strict above (beats ▸ answer))
    · obtain rfl := List.mem_singleton.mp last
      exact w.compare?_self strict
  · rw [if_neg beats]
    refine ⟨List.mem_append_left _ extreme.member, fun w member => ?_⟩
    rcases List.mem_append.mp member with earlier | last
    · exact extreme.unbeaten w earlier
    · obtain rfl := List.mem_singleton.mp last
      rw [answer]
      exact fun same => beats (Option.some.inj same)

theorem foldlM_better_extreme {seen vs : List Value} {b : Value} (extreme : IsExtreme keep seen b)
    (types : ∀ v ∈ seen ++ vs, v.type = t) :
    ∃ last, vs.foldlM (better g keep) (some b) = .ok (some last) ∧
      IsExtreme keep (seen ++ vs) last := by
  induction vs generalizing seen b with
  | nil => exact ⟨b, rfl, by rwa [List.append_nil]⟩
  | cons v vs ih =>
    have same : v.type = b.type :=
      (types v (by simp)).trans (types b (List.mem_append_left _ extreme.member)).symm
    obtain ⟨next, step, extreme⟩ := better_extreme strict (g := g) extreme same
    rw [List.append_cons] at types ⊢
    rw [List.foldlM_cons, step, ok_bind]
    exact ih extreme types

/-- Going through values of one type ends at their extreme, if there are any. -/
theorem foldlM_better {vs : List Value} (types : ∀ v ∈ vs, v.type = t) :
    vs = [] ∧ vs.foldlM (better g keep) none = .ok none ∨
      ∃ last, vs.foldlM (better g keep) none = .ok (some last) ∧ IsExtreme keep vs last := by
  cases vs with
  | nil => exact .inl ⟨rfl, rfl⟩
  | cons v vs =>
    have alone : IsExtreme keep [v] v := by
      refine ⟨List.mem_singleton_self v, fun w member => ?_⟩
      obtain rfl := List.mem_singleton.mp member
      exact w.compare?_self strict
    exact .inr (foldlM_better_extreme strict alone types)

theorem foldlM_better_perm {vs vs' : List Value} (types : ∀ v ∈ vs, v.type = t)
    (same : vs.Perm vs') :
    vs.foldlM (better g keep) none = vs'.foldlM (better g keep) none := by
  have types' : ∀ v ∈ vs', v.type = t := fun v member => types v (same.mem_iff.mpr member)
  rcases foldlM_better strict (g := g) types with ⟨rfl, -⟩ | ⟨v, first, extreme⟩
  · rw [List.nil_perm.mp same]
  · rcases foldlM_better strict (g := g) types' with ⟨rfl, -⟩ | ⟨w, second, extreme'⟩
    · rw [List.perm_nil.mp same]
    · rw [first, second, (extreme.perm same).unique strict types' extreme']

end Extreme

theorem foldlM_count (vs : List Value) (n : Nat) :
    vs.foldlM (fun n _ => (.ok (n + 1) : Except EvaluationError Nat)) n = .ok (n + vs.length) := by
  induction vs generalizing n with
  | nil => rfl
  | cons v vs ih =>
    rw [List.foldlM_cons, ok_bind, ih, List.length_cons, Nat.add_right_comm, Nat.add_assoc]

/-- One integer more, exactly. -/
theorem addExact_eq_ok {s r : Option IntKind.int64.Carrier} {v : Value}
    (done : addExact s v = .ok r) :
    ∃ n, r = some n ∧ n.val = (s.map Subtype.val).getD 0 + v.whole := by
  obtain ⟨n, cast, done⟩ := bind_eq_ok_iff.mp done
  have stands : v.whole = n.val := by rw [Value.whole, mapError_eq_ok_iff.mp cast]; rfl
  split at done
  · rename_i next found
    obtain rfl := Except.ok.inj done
    exact ⟨next, rfl, by rw [IntKind.carrier?_eq_some_iff.mp found, stands]⟩
  · cases done

/-- A sum that comes out is exact, and there is one if there is anything to add. -/
theorem foldlM_addExact {vs : List Value} {s r : Option IntKind.int64.Carrier}
    (done : vs.foldlM addExact s = .ok r) :
    (r = none ↔ s = none ∧ vs = []) ∧
      (r.map Subtype.val).getD 0 = (s.map Subtype.val).getD 0 + (vs.map Value.whole).sum := by
  induction vs generalizing s with
  | nil =>
    obtain rfl := Except.ok.inj done
    simp only [and_true, List.map_nil, List.sum_nil, Int.add_zero]
  | cons v vs ih =>
    rw [List.foldlM_cons] at done
    obtain ⟨middle, step, done⟩ := bind_eq_ok_iff.mp done
    obtain ⟨n, rfl, exact⟩ := addExact_eq_ok step
    obtain ⟨something, total⟩ := ih done
    refine ⟨by simpa only [reduceCtorEq, false_and, and_false] using something, ?_⟩
    rw [total, Option.map_some, Option.getD_some, exact, List.map_cons, List.sum_cons,
      Int.add_assoc]

theorem foldlM_addExact_perm {vs vs' : List Value} {r r' : Option IntKind.int64.Carrier}
    (same : vs.Perm vs') (first : vs.foldlM addExact none = .ok r)
    (second : vs'.foldlM addExact none = .ok r') : r = r' := by
  obtain ⟨empty, total⟩ := foldlM_addExact first
  obtain ⟨empty', total'⟩ := foldlM_addExact second
  have sums : (vs.map Value.whole).sum = (vs'.map Value.whole).sum := (same.map _).sum_eq
  have alike : r = none ↔ r' = none := by
    rw [empty, empty']
    simp only [true_and]
    constructor
    · rintro rfl
      exact List.nil_perm.mp same
    · rintro rfl
      exact List.perm_nil.mp same
  rw [sums, ← total'] at total
  cases r with
  | none => exact (alike.mp rfl).symm
  | some n =>
    cases r' with
    | none => cases alike.mpr rfl
    | some n' => exact congrArg some (Subtype.ext total)

end Call
end Windowing
