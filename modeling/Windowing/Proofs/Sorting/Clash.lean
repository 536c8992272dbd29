import Windowing.Proofs.Order
import Windowing.Proofs.Sorting.Stable

/-!
Elements that do not compare. A sort compares only some pairs, but what it has found in order is so
along the whole list, and two elements in order compare; so no clash in a list goes unnoticed,
wherever its two elements stand. Rows that have the columns of an order clash only where values of
different types meet in one of them.
-/
namespace Windowing

namespace Sorting

variable {α ε : Type} {cmp : α → α → Except ε Ordering} {xs : List α}

/-- Two elements, at different positions, whose comparison fails in this way. -/
def Clashes (cmp : α → α → Except ε Ordering) (xs : List α) (e : ε) : Prop :=
  ∃ (i j : Nat) (x y : α), i ≠ j ∧ xs[i]? = some x ∧ xs[j]? = some y ∧ cmp x y = .error e

/-- A sort ends sorted, or at two elements of the list that do not compare. -/
theorem sort_ends_within (laws : Consistent cmp (· ∈ xs)) (minimum workers : Nat) (pooled : Bool) :
    Ends cmp (· ∈ xs) (Sorts cmp (· ∈ xs) xs) (sort cmp minimum workers pooled xs) :=
  sort_ends laws fun _ member => member

section Compare

variable (own : ∀ x ∈ xs, ∃ o, cmp x x = .ok o)

include own

theorem Clashes.of_mem {x y : α} {e : ε} (hx : x ∈ xs) (hy : y ∈ xs) (fails : cmp x y = .error e) :
    Clashes cmp xs e := by
  obtain ⟨i, hi, rfl⟩ := List.mem_iff_getElem.mp hx
  obtain ⟨j, hj, rfl⟩ := List.mem_iff_getElem.mp hy
  refine ⟨i, j, _, _, ?_, List.getElem?_eq_getElem hi, List.getElem?_eq_getElem hj, fails⟩
  rintro rfl
  obtain ⟨o, answer⟩ := own _ hx
  rw [answer] at fails
  cases fails

theorem total_of_no_clash (laws : Consistent cmp (· ∈ xs)) (none : ¬ ∃ e, Clashes cmp xs e) :
    Total cmp (· ∈ xs) := by
  refine ⟨laws, fun {x y} hx hy => ?_⟩
  cases answer : cmp x y with
  | ok o => exact ⟨o, rfl⟩
  | error e => exact absurd ⟨e, .of_mem own hx hy answer⟩ none

/-- Two elements of a sorted list compare, one way or the other and so both ways. -/
theorem Sorts.answers (laws : Consistent cmp (· ∈ xs)) {ys : List α}
    (sorts : Sorts cmp (· ∈ xs) xs ys) {x y : α} (hx : x ∈ xs) (hy : y ∈ xs) :
    ∃ o, cmp x y = .ok o := by
  have ordered : ∀ {a b}, a ∈ xs → NotAfter cmp a b → ∃ o, cmp a b = .ok o := by
    rintro a b ha (rfl | less | equal)
    · exact own a ha
    · exact ⟨_, less⟩
    · exact ⟨_, equal⟩
  obtain ⟨i, hi, rfl⟩ := List.mem_iff_getElem.mp (sorts.mem_iff.mp hx)
  obtain ⟨j, hj, rfl⟩ := List.mem_iff_getElem.mp (sorts.mem_iff.mp hy)
  rcases Nat.le_total i j with le | le
  · exact ordered hx (sorts.sorted.notAfter le hj)
  · obtain ⟨o, back⟩ := ordered hy (sorts.sorted.notAfter le hi)
    exact ⟨o.swap, laws.swap hy hx back⟩

variable (laws : Consistent cmp (· ∈ xs)) {minimum workers : Nat} {pooled : Bool}

include laws

theorem clashes_of_sort_error {e : ε} (fails : sort cmp minimum workers pooled xs = .error e) :
    Clashes cmp xs e := by
  have ends := sort_ends_within laws minimum workers pooled
  rw [fails] at ends
  obtain ⟨x, y, hx, hy, clash⟩ := ends
  exact .of_mem own hx hy clash

theorem sort_error_iff :
    (∃ e, sort cmp minimum workers pooled xs = .error e) ↔ ∃ e, Clashes cmp xs e := by
  constructor
  · rintro ⟨e, fails⟩
    exact ⟨e, clashes_of_sort_error own laws fails⟩
  · rintro ⟨e, i, j, x, y, -, hi, hj, clash⟩
    have ends := sort_ends_within laws minimum workers pooled
    cases done : sort cmp minimum workers pooled xs with
    | error e' => exact ⟨e', rfl⟩
    | ok ys =>
      rw [done, Ends.ok_iff] at ends
      obtain ⟨o, answer⟩ :=
        ends.answers own laws (List.mem_of_getElem? hi) (List.mem_of_getElem? hj)
      rw [answer] at clash
      cases clash

end Compare

end Sorting

namespace RowOrder

variable {order : RowOrder}

theorem compare_self {row : Row} (wide : order.Within row.length) :
    order.compare row row = .ok .eq := by
  have alone : order.Suits (· = row) := by
    refine ⟨?_, fun c member => ?_⟩
    · rintro _ rfl
      exact wide
    · have inside := within_iff.mp wide c member
      refine ⟨row[c].type, ?_⟩
      rintro _ v rfl present
      rw [List.getElem?_eq_getElem inside, Option.some.injEq] at present
      rw [present]
      rfl
  have laws : Sorting.Total order.compare (· = row) := ⟨order.consistent _, alone.answers⟩
  exact Sorting.tied_eq_true_iff.mp (laws.tied_refl rfl)

/-- Rows that have all columns of an order fail to compare where values of different types meet. -/
theorem compare_eq_error {a b : Row} {d : Defect} (left : order.Within a.length)
    (right : order.Within b.length) (fails : order.compare a b = .error d) :
    ∃ c ∈ order.columns, d = .incomparable c ∧
      ∃ u v, a[c]? = some (.value u) ∧ b[c]? = some (.value v) ∧ u.type ≠ v.type := by
  induction order with
  | equal => cases fails
  | column position descending nullsFirst =>
    have hx := List.getElem?_eq_getElem left
    have hy := List.getElem?_eq_getElem right
    simp only [compare, Row.cellAt_of_lt left, Row.cellAt_of_lt right, ok_bind] at fails
    split at fails
    · cases fails
    · rename_i apart
      obtain rfl := (Except.error.inj fails).symm
      refine ⟨position, List.mem_singleton_self _, rfl, ?_⟩
      by_contra alike
      obtain ⟨o, answer⟩ : ∃ o,
          a[position].compare? descending nullsFirst b[position] = some o := by
        refine Cell.compare?_of_values fun u v first second => ?_
        by_contra different
        exact alike ⟨u, v, hx.trans (congrArg some first),
          hy.trans (congrArg some second), different⟩
      rw [answer] at apart
      cases apart
  | andThen major minor ihMajor ihMinor =>
    rw [compare] at fails
    cases first : major.compare a b with
    | error e =>
      rw [first] at fails
      obtain rfl := Except.error.inj fails
      obtain ⟨c, member, clash⟩ := ihMajor left.1 right.1 first
      exact ⟨c, List.mem_append_left _ member, clash⟩
    | ok o =>
      rw [first, ok_bind] at fails
      cases o with
      | eq =>
        obtain ⟨c, member, clash⟩ := ihMinor left.2 right.2 fails
        exact ⟨c, List.mem_append_right _ member, clash⟩
      | lt => cases fails
      | gt => cases fails

/-- Rows that have the columns of an order are sorted if all pairs of them compare, and then to
their one stable sort. If one pair does not, sorting fails whichever pairs it compares, in one piece
as in chunks, and the failure is that of such a pair. -/
theorem sort_fails_iff_clashes {rows : List Row} (wide : ∀ row ∈ rows, order.Within row.length)
    (minimum workers : Nat) (pooled : Bool) :
    ((∃ d, Sorting.sort order.compare minimum workers pooled rows = .error d) ↔
        ∃ d, Sorting.Clashes order.compare rows d) ∧
      (∀ d, Sorting.sort order.compare minimum workers pooled rows = .error d →
        Sorting.Clashes order.compare rows d ∧ ∃ c ∈ order.columns, d = .incomparable c ∧
          d.message? = some s!"values in column {c} are not comparable") ∧
      ((¬ ∃ d, Sorting.Clashes order.compare rows d) →
        ∃ sorted, Sorting.sort order.compare minimum workers pooled rows = .ok sorted ∧
          ∀ other, Sorting.Sorts order.compare (· ∈ rows) rows other ↔ other = sorted) := by
  have laws : Sorting.Consistent order.compare (· ∈ rows) := order.consistent _
  have own : ∀ row ∈ rows, ∃ o, order.compare row row = .ok o :=
    fun row member => ⟨.eq, compare_self (wide row member)⟩
  refine ⟨Sorting.sort_error_iff own laws, fun d fails => ?_, fun none => ?_⟩
  · have clash := Sorting.clashes_of_sort_error own laws fails
    obtain ⟨i, j, a, b, -, ha, hb, error⟩ := id clash
    obtain ⟨c, member, rfl, -⟩ :=
      compare_eq_error (wide a (List.mem_of_getElem? ha)) (wide b (List.mem_of_getElem? hb)) error
    exact ⟨clash, c, member, rfl, rfl⟩
  · have total := Sorting.total_of_no_clash own laws none
    obtain ⟨sorted, done, sorts⟩ :=
      (Sorting.sort_ends_within laws minimum workers pooled).ok_of_total total
    refine ⟨sorted, done, fun other => ?_⟩
    constructor
    · intro another
      exact another.unique total (fun _ member => member) sorts
    · rintro rfl
      exact sorts

/-- A number and a text with nulls between them, which compare with both. -/
theorem sort_fails_iff_clashes_apart :
    let order := lexicographic [.column 0 false true, .ascending 1]
    let row (key : Cell) (place : Nat) : Row := [key, .ofCount place]
    let rows :=
      [row (.ofCount 5) 0, row .untyped 1, row (.null .utf8) 2, row (.value (.utf8 "a")) 3]
    (∀ r ∈ rows, order.Within r.length) ∧
        Sorting.Clashes order.compare rows (.incomparable 0) ∧
      ∃ d, Sorting.sort order.compare 8192 1 false rows = .error d := by
  intro order row rows
  have wide : ∀ r ∈ rows, order.Within r.length := by decide
  have clash : Sorting.Clashes order.compare rows (.incomparable 0) :=
    ⟨0, 3, _, _, by decide, rfl, rfl, rfl⟩
  exact ⟨wide, clash, (sort_fails_iff_clashes wide 8192 1 false).1.mpr ⟨_, clash⟩⟩

end RowOrder
end Windowing
