import Windowing.Proofs.Order

/-!
Orders on rows as total preorders. Rows suit an order if they have all its columns, and the values
in each of them are of one type. On such rows comparing always answers, what is not greater is
transitive, and rows that are found equal compare alike with every row there is. Two orders that
rows suit are joined to one that they suit.
-/
namespace Windowing

namespace Sorting

variable {α ε : Type}

def AtMost (cmp : α → α → Except ε Ordering) (x y : α) : Prop := ∃ o, cmp x y = .ok o ∧ o ≠ .gt

/-- On elements that satisfy `on` the comparison is a total preorder; equal ones may stand for each
other, whatever they are compared with. -/
structure TotalPreorder (cmp : α → α → Except ε Ordering) (on : α → Prop) : Prop where
  answers : ∀ x y, on x → on y → ∃ o, cmp x y = .ok o ∧ cmp y x = .ok o.swap
  trans : ∀ x y z, on x → on y → on z → AtMost cmp x y → AtMost cmp y z → AtMost cmp x z
  interchange : ∀ x y, on x → on y → cmp x y = .ok .eq → ∀ z, cmp x z = cmp y z ∧ cmp z x = cmp z y

end Sorting

namespace Cell

variable {descending nullsFirst : Bool}

/-- Nulls of all types compare alike, and of two values only equal ones are found equal. -/
theorem compare?_interchange {a b : Cell} (tie : a.compare? descending nullsFirst b = some .eq)
    (c : Cell) :
    a.compare? descending nullsFirst c = b.compare? descending nullsFirst c := by
  cases a with
  | null s =>
    cases b with
    | null t => cases c <;> rfl
    | value v => cases nullsFirst <;> cases tie
  | value u =>
    cases b with
    | null t => cases nullsFirst <;> cases tie
    | value v =>
      obtain ⟨o, answer, straight⟩ := Option.map_eq_some_iff.mp tie
      have equal : o = .eq := by cases descending <;> cases o <;> simp_all
      obtain rfl : u = v := Value.eq_of_compare? (equal ▸ answer)
      rfl

end Cell

namespace RowOrder

/-- Rows that are found equal compare alike with every other row, also if they do not compare with
it. -/
theorem compare_interchange {order : RowOrder} {a b : Row} (tie : order.compare a b = .ok .eq)
    (c : Row) :
    order.compare a c = order.compare b c ∧ order.compare c a = order.compare c b := by
  induction order with
  | equal => exact ⟨rfl, rfl⟩
  | column position descending nullsFirst =>
    obtain ⟨x, y, hx, hy, equal⟩ := compare_column_eq_ok_iff.mp tie
    have forth : ∀ z, x.compare? descending nullsFirst z = y.compare? descending nullsFirst z :=
      Cell.compare?_interchange equal
    have back : ∀ z : Cell, z.compare? descending nullsFirst x =
        z.compare? descending nullsFirst y := by
      intro z
      rw [Cell.compare?_swap x z, Cell.compare?_swap y z, forth]
    simp only [compare, Row.cellAt_eq_ok_iff.mpr hx, Row.cellAt_eq_ok_iff.mpr hy, ok_bind, forth,
      back, and_self]
  | andThen major minor ihMajor ihMinor =>
    rcases compare_andThen_eq_ok_iff.mp tie with ⟨first, second⟩ | ⟨decided, -⟩
    · obtain ⟨forth, back⟩ := ihMajor first
      obtain ⟨forth', back'⟩ := ihMinor second
      simp only [compare, forth, back, forth', back', and_self]
    · exact absurd rfl decided

theorem atMost_trans {order : RowOrder} {a b c : Row} (first : Sorting.AtMost order.compare a b)
    (second : Sorting.AtMost order.compare b c) : Sorting.AtMost order.compare a c := by
  obtain ⟨o, left, ho⟩ := first
  obtain ⟨p, right, hp⟩ := second
  refine ⟨o.then p, compare_then left right ho hp, ?_⟩
  cases o <;> simp_all

namespace Suits

variable {on : Row → Prop}

theorem lexicographic {orders : List RowOrder} (each : ∀ order ∈ orders, order.Suits on) :
    (RowOrder.lexicographic orders).Suits on := by
  induction orders with
  | nil => exact ⟨fun _ _ => trivial, nofun⟩
  | cons order orders ih =>
    obtain ⟨first, others⟩ := List.forall_mem_cons.mp each
    exact andThen_iff.mpr ⟨first, ih others⟩

theorem join {partitionBy orderBy : Option RowOrder} {joined : RowOrder}
    (partitions : ∀ p ∈ partitionBy, p.Suits on) (peers : ∀ o ∈ orderBy, o.Suits on)
    (both : RowOrder.join partitionBy orderBy = some joined) : joined.Suits on := by
  cases partitionBy with
  | none =>
    cases orderBy with
    | none => cases both
    | some o =>
      obtain rfl := Option.some.inj both
      exact peers o rfl
  | some p =>
    cases orderBy with
    | none =>
      obtain rfl := Option.some.inj both
      exact partitions p rfl
    | some o =>
      obtain rfl := Option.some.inj both
      refine lexicographic fun order member => ?_
      rcases List.mem_cons.mp member with rfl | member
      · exact partitions order rfl
      · obtain rfl := List.mem_singleton.mp member
        exact peers order rfl

theorem totalPreorder {order : RowOrder} (suits : order.Suits on) :
    Sorting.TotalPreorder order.compare on where
  answers a b left right := by
    obtain ⟨o, answer⟩ := suits.answers left right
    exact ⟨o, answer, compare_swap answer⟩
  trans _ _ _ _ _ _ first second := atMost_trans first second
  interchange _ _ _ _ tie := compare_interchange tie

end Suits

/-- Every order is a total preorder on the rows that suit it: a tree of columns and lists of orders,
each column with its direction and its place for nulls. So is every order that joins two of them. -/
theorem compare_totalPreorder {on : Row → Prop} :
    (∀ order : RowOrder, order.Suits on → Sorting.TotalPreorder order.compare on) ∧
      ∀ partitionBy orderBy :
      Option RowOrder, (∀ p ∈ partitionBy, p.Suits on) → (∀ o ∈ orderBy, o.Suits on) →
        ∀ joined, join partitionBy orderBy = some joined →
          Sorting.TotalPreorder joined.compare on := by
  constructor
  · intro order suits
    exact suits.totalPreorder
  · intro partitionBy orderBy partitions peers joined both
    exact (Suits.join partitions peers both).totalPreorder

/-- Rows with nulls of two types in a column that descends with its nulls last. -/
theorem compare_totalPreorder_nulls :
    let order := lexicographic [.column 0 true false, lexicographic [], .ascending 1]
    let rows : List Row :=
      [[.null .utf8, .ofCount 1], [.untyped, .ofCount 1], [.ofCount 7, .untyped]]
    order.Suits (· ∈ rows) ∧ Sorting.TotalPreorder order.compare (· ∈ rows) ∧
      order.compare [.null .utf8, .ofCount 1] [.untyped, .ofCount 1] = .ok .eq ∧
      order.compare [.ofCount 7, .untyped] [.untyped, .ofCount 1] = .ok .lt := by
  intro order rows
  have suits : order.Suits (· ∈ rows) := by
    refine ⟨by decide, fun c member => ⟨.int64, fun row v inside present => ?_⟩⟩
    have columns : c = 0 ∨ c = 1 := by simpa [order, RowOrder.columns, ascending] using member
    have listed : row = [.null .utf8, .ofCount 1] ∨ row = [.untyped, .ofCount 1] ∨
        row = [.ofCount 7, .untyped] := by
      simpa [rows] using inside
    rcases columns with rfl | rfl <;> rcases listed with rfl | rfl | rfl <;> cases present <;> rfl
  exact ⟨suits, compare_totalPreorder.1 order suits, rfl, rfl⟩

end RowOrder
end Windowing
