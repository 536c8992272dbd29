import Windowing.Defect

/-!
Orders on rows. An order compares one column, or refines a first order by a second one that only
breaks its ties; `equal` finds all rows equal. Nulls go to the end that the order names, whatever
the direction, and equal each other; two present values of different types make the comparison a
defect.
-/
namespace Windowing

/-- `none` when both cells hold values of different types. -/
def Cell.compare? (descending nullsFirst : Bool) : Cell → Cell → Option Ordering
  | .null _, .null _ => some .eq
  | .null _, .value _ => some (if nullsFirst then .lt else .gt)
  | .value _, .null _ => some (if nullsFirst then .gt else .lt)
  | .value a, .value b => (a.compare? b).map fun o => if descending then o.swap else o

inductive RowOrder
  | equal
  | column (position : Nat) (descending nullsFirst : Bool)
  | andThen (first second : RowOrder)
  deriving DecidableEq

namespace RowOrder

/-- Ascending, nulls last. -/
def ascending (position : Nat) : RowOrder := .column position false false

/-- Descending, nulls first. -/
def descending (position : Nat) : RowOrder := .column position true true

def compare : RowOrder → Row → Row → Except Defect Ordering
  | equal, _, _ => .ok .eq
  | column position descending nullsFirst, a, b => do
    let x ← a.cellAt position
    let y ← b.cellAt position
    match x.compare? descending nullsFirst y with
    | some o => .ok o
    | none => .error (.incomparable position)
  | andThen first second, a, b => do
    match ← first.compare a b with
    | .eq => second.compare a b
    | o => .ok o

/-- Later orders break the ties of earlier ones. -/
def lexicographic (orders : List RowOrder) : RowOrder :=
  orders.foldr .andThen .equal

@[simp] theorem lexicographic_nil : lexicographic [] = .equal := rfl

@[simp] theorem lexicographic_cons (o : RowOrder) (os : List RowOrder) :
    lexicographic (o :: os) = .andThen o (lexicographic os) := rfl

/-- The order that brings partitions together and sorts within each; none if both are absent. -/
def join : (partitionBy orderBy : Option RowOrder) → Option RowOrder
  | none, none => none
  | some p, none => some p
  | none, some o => some o
  | some p, some o => some (lexicographic [p, o])

end RowOrder
end Windowing
