import Mathlib.Algebra.Order.Floor.Div
import Windowing.Sorting.Chunked

/-!
How a list is cut for sorting in chunks. The operations that count and measure the chunks are
defined wherever they are used, cutting comes to an end, and it leaves the list in pieces of one
length, which are worth a worker each.
-/
namespace Windowing.Sorting

/-- The number between `least` and `greatest` that is nearest to `n`; none if there is none between
them. -/
def clamp? (n least greatest : Nat) : Option Nat :=
  if greatest < least then none
  else some (if n < least then least else if greatest < n then greatest else n)

def div? (n d : Nat) : Option Nat := if d = 0 then none else some (n / d)

/-- One more than the quotient if there is a remainder. -/
def ceilDiv? (n d : Nat) : Option Nat := do
  let quotient ← div? n d
  return if 0 < n % d then quotient + 1 else quotient

/-- How many chunks to sort at once, by operations that may be undefined. -/
def chunkCount? (length minimum workers : Nat) : Option Nat :=
  if workers < 2 then some 1
  else do clamp? (← div? length (max minimum 1)) 1 workers

theorem chunkCount?_eq (length minimum workers : Nat) :
    chunkCount? length minimum workers = some (chunkCount length minimum workers) := by
  have divisor : max minimum 1 ≠ 0 := by omega
  unfold chunkCount? chunkCount
  split
  · rfl
  · rw [div?, if_neg divisor, Option.bind_eq_bind, Option.bind_some, clamp?, if_neg (by omega)]
    congr 1
    split
    · omega
    · split <;> omega

theorem ceilDiv?_eq {n d : Nat} (divisible : 0 < d) : ceilDiv? n d = some (ceilDiv n d) := by
  have remainder := Nat.mod_lt n divisible
  have parts : n + d - 1 = d * (n / d) + (n % d + d - 1) := by
    have := Nat.div_add_mod n d
    omega
  rw [ceilDiv?, div?, if_neg (Nat.ne_of_gt divisible), Option.bind_eq_bind, Option.bind_some,
    ceilDiv, parts, Nat.mul_add_div divisible]
  refine congrArg some ?_
  by_cases rest : 0 < n % d
  · have once : (n % d + d - 1) / d = 1 := by
      rw [show n % d + d - 1 =
        (n % d - 1) + d by omega, Nat.add_div_right _ divisible, Nat.div_eq_of_lt (by omega)]
    rw [if_pos rest, once]
  · have never : (n % d + d - 1) / d = 0 := Nat.div_eq_of_lt (by omega)
    rw [if_neg rest, never, Nat.add_zero]

theorem ceilDiv_le_iff {n d k : Nat} (divisible : 0 < d) : ceilDiv n d ≤ k ↔ n ≤ d * k :=
  ceilDiv_le_iff_le_mul divisible

theorem le_chunkCount_mul {length minimum workers : Nat}
    (several : 1 < chunkCount length minimum workers) :
    chunkCount length minimum workers ≤ workers ∧
      chunkCount length minimum workers * max minimum 1 ≤ length := by
  by_cases alone : workers < 2
  · rw [chunkCount, if_pos alone] at several
    omega
  · rw [chunkCount, if_neg alone] at several ⊢
    refine ⟨Nat.min_le_left _ _, ?_⟩
    calc min workers (max 1 (length / max minimum 1)) * max minimum 1
        ≤ length / max minimum 1 * max minimum 1 := Nat.mul_le_mul_right _ (by omega)
      _ ≤ length := Nat.div_mul_le_self length (max minimum 1)

variable {α : Type} {size : Nat} {xs : List α} {pieces : List (List α)}

/-- Pieces of `size` elements are taken off the front of a list until one is empty. -/
inductive Cuts (size : Nat) : List α → List (List α) → Prop
  | done {xs : List α} (empty : xs.take size = []) : Cuts size xs []
  | more {xs : List α} {pieces : List (List α)} (present : xs.take size ≠ [])
      (rest : Cuts size (xs.drop size) pieces) :
    Cuts size xs (xs.take size :: pieces)

theorem cutWithin_cuts {fuel : Nat} (enough : xs.length ≤ fuel) :
    Cuts size xs (cutWithin size fuel xs) := by
  induction fuel generalizing xs with
  | zero =>
    obtain rfl := List.length_eq_zero_iff.mp (Nat.le_zero.mp enough)
    exact .done List.take_nil
  | succ fuel ih =>
    rw [cutWithin]
    split
    · rename_i empty
      exact .done (List.isEmpty_iff.mp empty)
    · rename_i present
      have present : xs.take size ≠ [] := fun empty => present (List.isEmpty_iff.mpr empty)
      refine .more present (ih ?_)
      have := List.length_pos_iff.mpr present
      rw [List.length_take] at this
      rw [List.length_drop]
      omega

namespace Cuts

theorem unique {other : List (List α)} (h : Cuts size xs pieces) (h' : Cuts size xs other) :
    pieces = other := by
  induction h generalizing other with
  | done empty =>
    cases h' with
    | done => rfl
    | more present => exact absurd empty present
  | more present _ ih =>
    cases h' with
    | done empty => exact absurd empty present
    | more _ rest => rw [ih rest]

theorem iff_eq_cut : Cuts size xs pieces ↔ pieces = cut size xs := by
  have ends : Cuts size xs (cut size xs) := cutWithin_cuts (Nat.le_refl _)
  constructor
  · exact fun h => h.unique ends
  · rintro rfl
    exact ends

theorem ne_nil (h : Cuts size xs pieces) : ∀ piece ∈ pieces, piece ≠ [] := by
  induction h with
  | done => nofun
  | more present _ ih => exact List.forall_mem_cons.mpr ⟨present, ih⟩

theorem length_eq (progress : 0 < size) (h : Cuts size xs pieces) :
    pieces.length = ceilDiv xs.length size := by
  induction h with
  | done empty =>
    obtain rfl := (List.take_eq_nil_iff.mp empty).resolve_left (by omega)
    exact (Nat.div_eq_of_lt (by simp only [List.length_nil]; omega)).symm
  | @more xs pieces present rest ih =>
    have := List.length_pos_iff.mpr present
    rw [List.length_take] at this
    rw [List.length_cons, ih, List.length_drop, ceilDiv, ceilDiv, ← Nat.add_div_right _ progress]
    rcases Nat.le_total size xs.length with long | short
    · rw [show xs.length - size + size - 1 + size = xs.length + size - 1 by omega]
    · -- The piece is all that was left, long enough or not.
      rw [Nat.div_eq_of_lt_le (k := 1) (by omega) (by omega),
        Nat.div_eq_of_lt_le (k := 1) (by omega) (by omega)]

/-- Only the last piece may be shorter. -/
theorem length_of_mem_dropLast (h : Cuts size xs pieces) :
    ∀ piece ∈ pieces.dropLast, piece.length = size := by
  induction h with
  | done => nofun
  | @more xs pieces present rest ih =>
    cases rest with
    | done => nofun
    | more left _ =>
      -- Something was left behind this piece, so it is a full one.
      rw [List.dropLast_cons_of_ne_nil (List.cons_ne_nil _ _)]
      refine List.forall_mem_cons.mpr ⟨?_, ih⟩
      have := List.length_pos_iff.mpr left
      rw [List.length_take, List.length_drop] at this
      rw [List.length_take]
      omega

end Cuts

/-- One of several chunks is worth a worker and is not the whole list. -/
theorem chunkSize_bounds {length minimum workers : Nat}
    (several : 1 < chunkCount length minimum workers) :
    max 1 minimum ≤ ceilDiv length (chunkCount length minimum workers) ∧
      ceilDiv length (chunkCount length minimum workers) < length := by
  have enough := (le_chunkCount_mul several).2
  generalize chunkCount length minimum workers = chunks at several enough
  have present : 0 < chunks := by omega
  have long : chunks ≤ length := Nat.le_trans (Nat.le_mul_of_pos_right chunks (by omega)) enough
  constructor
  · apply Nat.le_of_not_lt
    intro short
    have covered := (ceilDiv_le_iff present).mp (Nat.le_refl (ceilDiv length chunks))
    have fewer := Nat.mul_lt_mul_of_pos_left short present
    rw [Nat.max_comm] at fewer
    omega
  · have covered : length ≤ chunks * (length - 1) := by
      calc length ≤ 2 * (length - 1) := by omega
        _ ≤ chunks * (length - 1) := Nat.mul_le_mul_right _ several
    have := (ceilDiv_le_iff present).mpr covered
    omega

/-- The number of chunks is defined for every length, minimum and number of workers. Where it is
more than one, so is their length, and cutting ends: with all elements in their order, in at least
two pieces and in no more than there are chunks or workers to be had. No piece is empty, and all but
the last have that length, which is worth a worker. They are what is sorted piece by piece and
merged. -/
theorem cut_for_workers {α : Type} (xs : List α) (minimum workers : Nat) :
    let chunks := chunkCount xs.length minimum workers
    let size := ceilDiv xs.length chunks
    let pieces := cut size xs
    chunkCount? xs.length minimum workers = some chunks ∧
      (1 < chunks →
        ceilDiv? xs.length chunks = some size ∧
        (∀ other, Cuts size xs other ↔ other = pieces) ∧
        pieces.flatten = xs ∧
        (2 ≤ pieces.length ∧ pieces.length ≤ chunks ∧ chunks ≤ workers) ∧
        (∀ piece ∈ pieces, piece ≠ []) ∧
        (∀ piece ∈ pieces.dropLast, piece.length = size) ∧
        max 1 minimum ≤ size ∧
        ∀ (ε : Type) (cmp : α → α → Except ε Ordering),
          sort cmp minimum workers true xs = pieces.mapM (stable cmp) >>= mergeAll cmp) := by
  intro chunks size pieces
  refine ⟨chunkCount?_eq _ _ _, fun several => ?_⟩
  have present : 0 < chunks := by omega
  obtain ⟨worth, shorter⟩ : max 1 minimum ≤ size ∧ size < xs.length := chunkSize_bounds several
  have progress : 0 < size := by omega
  have cuts : Cuts size xs pieces := Cuts.iff_eq_cut.mpr rfl
  have length := cuts.length_eq progress
  have least : 2 ≤ pieces.length := by
    rw [length]
    apply Nat.lt_of_not_le
    rw [ceilDiv_le_iff progress]
    omega
  have most : pieces.length ≤ chunks := by
    rw [length, ceilDiv_le_iff progress, Nat.mul_comm]
    exact (ceilDiv_le_iff present).mp (Nat.le_refl size)
  refine ⟨ceilDiv?_eq present, fun _ => Cuts.iff_eq_cut, flatten_cut progress xs,
    ⟨least, most, (le_chunkCount_mul several).1⟩, cuts.ne_nil, cuts.length_of_mem_dropLast, worth,
    fun ε cmp => ?_⟩
  have pooled : sort cmp minimum workers true xs = chunked cmp chunks xs :=
    if_pos (decide_eq_true several)
  rw [pooled, chunked]

/-- Nine elements and four workers: in pieces of three there are only three of them. -/
theorem cut_for_workers_nine :
    let xs := List.range 9
    let pieces := [[0, 1, 2], [3, 4, 5], [6, 7, 8]]
    1 < chunkCount xs.length 0 4 ∧ chunkCount? xs.length 0 4 = some 4 ∧
    ceilDiv? xs.length 4 = some 3 ∧
      Cuts 3 xs pieces ∧ pieces.flatten = xs ∧ 2 ≤ pieces.length ∧ pieces.length ≤ 4 ∧
      max 1 0 ≤ 3 := by
  intro xs pieces
  obtain ⟨counted, several⟩ := cut_for_workers xs 0 4
  have chunks : chunkCount xs.length 0 4 = 4 := by decide
  have size : ceilDiv xs.length 4 = 3 := by decide
  have cut_eq : cut 3 xs = pieces := by decide
  simp only [chunks, size, cut_eq] at counted several
  obtain ⟨sized, cuts, whole, ⟨least, most, -⟩, -, -, worth, -⟩ := several (by decide)
  exact ⟨by decide, counted, sized, (cuts pieces).mpr rfl, whole, least, most, worth⟩

end Windowing.Sorting
