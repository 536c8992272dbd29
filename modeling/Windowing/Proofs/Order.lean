import Windowing.Order
import Windowing.Proofs.Fault
import Windowing.Proofs.Sorting.Joining

/-!
Orders on rows are total preorders as far as they compare rows at all: comparing the other way round
gives the opposite answer, and two answers that are not "greater" combine lexicographically. Rows
that have all columns of an order, each with values of one type, always compare.
-/
namespace Windowing

/-- Two comparisons in a row that both do not go down. -/
theorem compare_then {β : Type} [Ord β] [Std.TransOrd β] {a b c : β} (first : compare a b ≠ .gt)
    (second : compare b c ≠ .gt) : compare a c = (compare a b).then (compare b c) := by
  cases hab : compare a b with
  | gt => exact absurd hab first
  | lt =>
    have le : (compare b c).isLE := by cases h : compare b c <;> simp_all
    exact Std.TransCmp.lt_of_lt_of_isLE hab le
  | eq =>
    rw [Ordering.eq_then]
    exact Std.TransCmp.congr_left hab

/-- Codes are told apart by their place in the total order. -/
theorem FloatFormat.orderKey_inj {f : FloatFormat} {a b : Nat} (left : a < 2 * f.signPlace)
    (right : b < 2 * f.signPlace) (same : f.orderKey a = f.orderKey b) : a = b := by
  unfold orderKey isNegative magnitude at same
  have low : ∀ n < 2 * f.signPlace, f.signPlace ≤ n → n % f.signPlace = n - f.signPlace := by
    intro n less above
    rw [Nat.mod_eq_sub_mod above, Nat.mod_eq_of_lt (by omega)]
  by_cases ha : f.signPlace ≤ a <;> by_cases hb : f.signPlace ≤ b <;>
    simp only [ha, hb, decide_true, decide_false, if_true, if_false, Bool.false_eq_true] at same
  · rw [low a left ha, low b right hb] at same
    omega
  · omega
  · omega
  · omega

namespace Value

theorem compare?_swap (a b : Value) : b.compare? a = (a.compare? b).map Ordering.swap := by
  cases a <;> cases b <;> simp only [compare?, Option.map_none, Option.map_some]
  case integer.integer j x _ k y _ =>
    by_cases same : j = k
    · simp only [same, if_true, Option.map_some, Option.some.injEq]
      exact Std.OrientedCmp.eq_swap
    · rw [if_neg same, if_neg (Ne.symm same), Option.map_none]
  all_goals exact congrArg some Std.OrientedCmp.eq_swap

theorem compare?_of_type_eq {a b : Value} (same : a.type = b.type) :
    ∃ o, a.compare? b = some o := by
  cases a <;> cases b <;> simp_all [type, compare?]

theorem compare?_then {a b c : Value} {o p : Ordering} (first : a.compare? b = some o)
    (second : b.compare? c = some p) (ho : o ≠ .gt) (hp : p ≠ .gt) :
    a.compare? c = some (o.then p) := by
  cases a <;> cases b <;> simp only [compare?, reduceCtorEq] at first <;>
    cases c <;> simp only [compare?, reduceCtorEq] at second
  case integer.integer.integer =>
    simp only [Option.ite_none_right_eq_some, Option.some.injEq] at first second
    obtain ⟨rfl, rfl⟩ := first
    obtain ⟨rfl, rfl⟩ := second
    rw [compare?, if_pos rfl, compare_then ho hp]
  all_goals
    obtain rfl := Option.some.inj first
    obtain rfl := Option.some.inj second
    rw [compare?, compare_then ho hp]

/-- Values found equal are the same. -/
theorem eq_of_compare? {a b : Value} (tie : a.compare? b = some .eq) : a = b := by
  cases a <;> cases b <;> simp only [compare?, reduceCtorEq, Option.some.injEq] at tie
  case integer.integer j x _ k y _ =>
    simp only [Option.ite_none_right_eq_some, Option.some.injEq] at tie
    obtain ⟨rfl, tie⟩ := tie
    obtain rfl := Std.LawfulEqCmp.eq_of_compare tie
    rfl
  case float32.float32 x y =>
    have same := FloatFormat.orderKey_inj x.isLt y.isLt (Std.LawfulEqCmp.eq_of_compare tie)
    rw [BitVec.eq_of_toNat_eq same]
  case float64.float64 x y =>
    have same := FloatFormat.orderKey_inj x.isLt y.isLt (Std.LawfulEqCmp.eq_of_compare tie)
    rw [BitVec.eq_of_toNat_eq same]
  all_goals exact congrArg _ (Std.LawfulEqCmp.eq_of_compare tie)

end Value

namespace Cell

variable {descending nullsFirst : Bool}

theorem compare?_swap (a b : Cell) : b.compare? descending nullsFirst a =
    (a.compare? descending nullsFirst b).map Ordering.swap := by
  cases a with
  | null s =>
    cases b with
    | null t => rfl
    | value v => cases nullsFirst <;> rfl
  | value u =>
    cases b with
    | null t => cases nullsFirst <;> rfl
    | value v =>
      simp only [compare?, Value.compare?_swap u v, Option.map_map]
      congr 1
      funext o
      cases descending <;> rfl

/-- Only two values can fail to compare. -/
theorem compare?_of_values {a b : Cell}
    (same : ∀ u v, a = .value u → b = .value v → u.type = v.type) :
    ∃ o, a.compare? descending nullsFirst b = some o := by
  cases a with
  | null s => cases b <;> exact ⟨_, rfl⟩
  | value u =>
    cases b with
    | null t => exact ⟨_, rfl⟩
    | value v =>
      obtain ⟨o, h⟩ := Value.compare?_of_type_eq (same u v rfl rfl)
      exact ⟨if descending then o.swap else o, by rw [compare?, h, Option.map_some]⟩

theorem compare?_then {a b c : Cell} {o p : Ordering}
    (first : a.compare? descending nullsFirst b = some o)
    (second : b.compare? descending nullsFirst c = some p) (ho : o ≠ .gt) (hp : p ≠ .gt) :
    a.compare? descending nullsFirst c = some (o.then p) := by
  cases a <;> cases b <;> cases c <;> simp only [compare?, Option.some.injEq] at first second ⊢
  case value.value.value u v w =>
    cases descending with
    | false =>
      simp only [Bool.false_eq_true, if_false, Option.map_id'] at first second ⊢
      exact Value.compare?_then first second ho hp
    | true =>
      simp only [if_true] at first second ⊢
      obtain ⟨o', first, rfl⟩ := Option.map_eq_some_iff.mp first
      obtain ⟨p', second, rfl⟩ := Option.map_eq_some_iff.mp second
      have upward : w.compare? u = some (p'.swap.then o'.swap) := by
        refine Value.compare?_then (b := v) ?_ ?_ hp ho
        · rw [Value.compare?_swap, second]
        · rw [Value.compare?_swap, first]
      rw [Value.compare?_swap w u, upward, Option.map_some, Option.map_some, Ordering.swap_swap]
      cases o' <;> cases p' <;> simp_all
  all_goals
    cases nullsFirst <;> cases o <;> cases p <;> simp_all

end Cell

namespace RowOrder

theorem compare_column_eq_ok_iff {position : Nat} {descending nullsFirst : Bool} {a b : Row}
    {o : Ordering} : (column position descending nullsFirst).compare a b = .ok o ↔
      ∃ x y, a[position]? = some x ∧ b[position]? = some y ∧
        x.compare? descending nullsFirst y = some o := by
  simp only [compare, Row.cellAt]
  cases a[position]? with
  | none => simp [bind, Except.bind]
  | some x =>
    cases b[position]? with
    | none => simp [bind, Except.bind]
    | some y =>
      simp only [bind, Except.bind, Option.some.injEq]
      cases h : x.compare? descending nullsFirst y <;> simp [h]

theorem compare_andThen (major minor : RowOrder) :
    (andThen major minor).compare = Sorting.thenBy major.compare minor.compare := rfl

theorem compare_andThen_eq_ok_iff {major minor : RowOrder} {a b : Row} {o : Ordering} :
    (andThen major minor).compare a b = .ok o ↔
      major.compare a b = .ok .eq ∧ minor.compare a b = .ok o ∨
        o ≠ .eq ∧ major.compare a b = .ok o := by
  rw [compare_andThen]
  exact Sorting.thenBy_eq_ok_iff

theorem compare_swap {order : RowOrder} {a b : Row} {o : Ordering} (h : order.compare a b = .ok o) :
    order.compare b a = .ok o.swap := by
  induction order generalizing o with
  | equal =>
    obtain rfl := Except.ok.inj h
    rfl
  | column position descending nullsFirst =>
    obtain ⟨x, y, hx, hy, h⟩ := compare_column_eq_ok_iff.mp h
    exact compare_column_eq_ok_iff.mpr ⟨y, x, hy, hx,
      by rw [Cell.compare?_swap, h, Option.map_some]⟩
  | andThen major minor ihMajor ihMinor =>
    apply compare_andThen_eq_ok_iff.mpr
    rcases compare_andThen_eq_ok_iff.mp h with ⟨tie, h⟩ | ⟨decided, h⟩
    · exact .inl ⟨ihMajor tie, ihMinor h⟩
    · exact .inr ⟨by cases o <;> simp_all, ihMajor h⟩

/-- Two comparisons in a row that both do not go down answer for the two ends. -/
theorem compare_then {order : RowOrder} {a b c : Row} {o p : Ordering}
    (first : order.compare a b = .ok o) (second : order.compare b c = .ok p) (ho : o ≠ .gt)
    (hp : p ≠ .gt) : order.compare a c = .ok (o.then p) := by
  induction order generalizing o p with
  | equal =>
    obtain rfl := Except.ok.inj first
    obtain rfl := Except.ok.inj second
    rfl
  | column position descending nullsFirst =>
    obtain ⟨x, y, hx, hy, first⟩ := compare_column_eq_ok_iff.mp first
    obtain ⟨y', z, hy', hz, second⟩ := compare_column_eq_ok_iff.mp second
    obtain rfl := Option.some.inj (hy.symm.trans hy')
    exact compare_column_eq_ok_iff.mpr ⟨x, z, hx, hz, Cell.compare?_then first second ho hp⟩
  | andThen major minor ihMajor ihMinor =>
    have strict : ∀ {q : Ordering}, q ≠ .gt → q ≠ .eq → q = .lt := by
      rintro (_ | _ | _) <;> simp
    apply compare_andThen_eq_ok_iff.mpr
    rcases compare_andThen_eq_ok_iff.mp first with ⟨tie, first⟩ | ⟨decided, first⟩ <;>
      rcases compare_andThen_eq_ok_iff.mp second with ⟨tie', second⟩ | ⟨decided', second⟩
    · exact .inl ⟨ihMajor tie tie' (by decide) (by decide), ihMinor first second ho hp⟩
    · obtain rfl := strict hp decided'
      have whole := ihMajor tie second (by decide) hp
      cases o <;> simp_all
    · obtain rfl := strict ho decided
      have whole := ihMajor first tie' ho (by decide)
      simp_all
    · obtain rfl := strict ho decided
      have whole := ihMajor first second ho hp
      simp_all

theorem consistent (order : RowOrder) (on : Row → Prop) :
    Sorting.Consistent order.compare on := by
  refine ⟨fun _ _ => compare_swap, fun _ _ _ first second => ?_⟩
  rcases first with rfl | first
  · exact second
  rcases second with rfl | second
  · exact .inr first
  obtain ⟨o, ho, first⟩ : ∃ o, o ≠ .gt ∧ order.compare _ _ = .ok o :=
    first.elim (fun h => ⟨_, by decide, h⟩) fun h => ⟨_, by decide, h⟩
  obtain ⟨p, hp, second⟩ : ∃ p, p ≠ .gt ∧ order.compare _ _ = .ok p :=
    second.elim (fun h => ⟨_, by decide, h⟩) fun h => ⟨_, by decide, h⟩
  have whole := compare_then first second ho hp
  cases o <;> cases p <;> simp_all [Sorting.NotAfter]

def Within (width : Nat) : RowOrder → Prop
  | equal => True
  | column position _ _ => position < width
  | andThen major minor => major.Within width ∧ minor.Within width

instance decidableWithin (width : Nat) : (order : RowOrder) → Decidable (order.Within width)
  | equal => .isTrue trivial
  | column position _ _ => inferInstanceAs (Decidable (position < width))
  | andThen major minor =>
    @instDecidableAnd _ _ (decidableWithin width major) (decidableWithin width minor)

theorem compare_congr {width : Nat} {order : RowOrder} (within : order.Within width)
    {a a' b b' : Row} (left : a.take width = a'.take width) (right : b.take width = b'.take width) :
    order.compare a b = order.compare a' b' := by
  induction order with
  | equal => rfl
  | column position descending nullsFirst =>
    simp only [compare, Row.cellAt_congr left within, Row.cellAt_congr right within]
  | andThen major minor ihMajor ihMinor =>
    simp only [compare, ihMajor within.1, ihMinor within.2]

def columns : RowOrder → List Nat
  | equal => []
  | column position _ _ => [position]
  | andThen major minor => major.columns ++ minor.columns

theorem within_iff {width : Nat} {order : RowOrder} :
    order.Within width ↔ ∀ c ∈ order.columns, c < width := by
  induction order with
  | equal => simp [Within, columns]
  | column position descending nullsFirst => simp [Within, columns]
  | andThen major minor ihMajor ihMinor =>
    simp only [Within, columns, List.forall_mem_append, ihMajor, ihMinor]

theorem Within.mono {width more : Nat} {order : RowOrder} (within : order.Within width)
    (le : width ≤ more) :
    order.Within more :=
  within_iff.mpr fun c member => Nat.lt_of_lt_of_le (within_iff.mp within c member) le

/-- The rows have all columns of the order, and the values in each of them are of one type. -/
structure Suits (order : RowOrder) (on : Row → Prop) : Prop where
  wide : ∀ row, on row → order.Within row.length
  uniform : ∀ c ∈ order.columns, ∃ t, ∀ row v, on row → row[c]? = some (.value v) → v.type = t

namespace Suits

variable {on : Row → Prop}

theorem andThen_iff {major minor : RowOrder} :
    (RowOrder.andThen major minor).Suits on ↔ major.Suits on ∧ minor.Suits on := by
  constructor
  · intro both
    refine ⟨⟨fun row inside => (both.wide row inside).1, fun c member => ?_⟩,
      ⟨fun row inside => (both.wide row inside).2, fun c member => ?_⟩⟩
    · exact both.uniform c (List.mem_append_left _ member)
    · exact both.uniform c (List.mem_append_right _ member)
  · rintro ⟨first, second⟩
    refine ⟨fun row inside => ⟨first.wide row inside, second.wide row inside⟩, fun c member => ?_⟩
    rcases List.mem_append.mp member with member | member
    · exact first.uniform c member
    · exact second.uniform c member

theorem answers {order : RowOrder} (suits : order.Suits on) {a b : Row} (left : on a)
    (right : on b) :
    ∃ o, order.compare a b = .ok o := by
  induction order with
  | equal => exact ⟨.eq, rfl⟩
  | column position descending nullsFirst =>
    have insideLeft : position < a.length := suits.wide a left
    have insideRight : position < b.length := suits.wide b right
    obtain ⟨t, typed⟩ := suits.uniform position (List.mem_singleton_self _)
    obtain ⟨o, answer⟩ : ∃ o, a[position].compare? descending nullsFirst b[position] = some o := by
      refine Cell.compare?_of_values fun u v first second => ?_
      have hu : u.type = t := typed a u left (by rw [List.getElem?_eq_getElem insideLeft, first])
      have hv : v.type = t := typed b v right (by rw [List.getElem?_eq_getElem insideRight, second])
      rw [hu, hv]
    exact ⟨o, compare_column_eq_ok_iff.mpr ⟨_, _, List.getElem?_eq_getElem insideLeft,
      List.getElem?_eq_getElem insideRight, answer⟩⟩
  | andThen major minor ihMajor ihMinor =>
    obtain ⟨first, second⟩ := andThen_iff.mp suits
    obtain ⟨o, decided⟩ := ihMajor first
    obtain ⟨p, refined⟩ := ihMinor second
    by_cases tie : o = .eq
    · exact ⟨p, compare_andThen_eq_ok_iff.mpr (.inl ⟨tie ▸ decided, refined⟩)⟩
    · exact ⟨o, compare_andThen_eq_ok_iff.mpr (.inr ⟨tie, decided⟩)⟩

end Suits

end RowOrder

def Row.HasTypes (types : List DataType) (row : Row) : Prop :=
  (row.take types.length).map Cell.type = types

theorem Row.HasTypes.length_le {types : List DataType} {row : Row} (typed : row.HasTypes types) :
    types.length ≤ row.length := by
  have lengths := congrArg List.length typed
  rw [List.length_map, List.length_take] at lengths
  omega

theorem Row.HasTypes.getElem? {types : List DataType} {row : Row} (typed : row.HasTypes types)
    {column : Nat} (inside : column < types.length) :
    ∃ cell, row[column]? = some cell ∧ types[column]? = some cell.type := by
  have found : types[column]? = (row[column]?).map Cell.type := by
    have whole := congrArg (·[column]?) typed
    simpa only [List.getElem?_map, List.getElem?_take_of_lt inside] using whole.symm
  rw [List.getElem?_eq_getElem inside, eq_comm] at found
  obtain ⟨cell, present, type⟩ := Option.map_eq_some_iff.mp found
  exact ⟨cell, present, by rw [List.getElem?_eq_getElem inside, type]⟩

namespace RowOrder

/-- Rows of the same types suit any order on their columns. -/
theorem suits_of_types {types : List DataType} {order : RowOrder}
    (within : order.Within types.length) :
    order.Suits (Row.HasTypes types) := by
  refine ⟨fun row typed => within.mono typed.length_le, fun c member => ?_⟩
  have inside := within_iff.mp within c member
  refine ⟨types[c], fun row v typed present => ?_⟩
  obtain ⟨cell, found, type⟩ := typed.getElem? inside
  obtain rfl := Option.some.inj (found.symm.trans present)
  exact (Option.some.inj ((List.getElem?_eq_getElem inside).symm.trans type)).symm

/-- Rows of the same types are totally preordered by any order on their columns. -/
theorem total {types : List DataType} {order : RowOrder} (within : order.Within types.length) :
    Sorting.Total order.compare (Row.HasTypes types) :=
  ⟨order.consistent _, (suits_of_types within).answers⟩

end RowOrder
end Windowing
