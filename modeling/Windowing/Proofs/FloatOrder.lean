import Mathlib.Data.EReal.Basic
import Mathlib.Data.EReal.Operations
import Windowing.Cell.Value

/-!
The order of floating-point codes against the total order of IEEE 754: by the numbers denoted, a
negative zero before a positive one, and NaNs beyond all numbers on the side of their sign, by their
payload.
-/
namespace Windowing

/-- The extended real number that is denoted, if one is. -/
noncomputable def FloatDatum.number? : FloatDatum → Option EReal
  | nan => none
  | infinite negative => some (if negative then ⊥ else ⊤)
  | finite negative significand exponent =>
    some (((if negative then -1 else 1) * significand * (2 : ℝ) ^ exponent : ℝ) : EReal)

namespace FloatFormat

variable (f : FloatFormat)

/-- The total order of IEEE 754, strictly. -/
inductive TotalLess (x y : Nat) : Prop
  | number {p q : EReal} (left : (f.decode x).number? = some p)
      (right : (f.decode y).number? = some q) (less : p < q)
  | zero {p : EReal} (left : (f.decode x).number? = some p) (right : (f.decode y).number? = some p)
      (negative : f.isNegative x = true) (positive : f.isNegative y = false)
  | negativeNaN (left : f.decode x = .nan) (negative : f.isNegative x = true)
      (right : f.decode y = .nan → f.isNegative y = false)
  | positiveNaN (right : f.decode y = .nan) (positive : f.isNegative y = false)
      (left : f.decode x = .nan → f.isNegative x = true)
  | negativePayload (left : f.decode x = .nan) (right : f.decode y = .nan)
      (negative : f.isNegative x = true)
      (negative' : f.isNegative y = true) (less : f.magnitude y < f.magnitude x)
  | positivePayload (left : f.decode x = .nan) (right : f.decode y = .nan)
      (positive : f.isNegative x = false)
      (positive' : f.isNegative y = false) (less : f.magnitude x < f.magnitude y)

theorem fractionPlace_pos : 0 < f.fractionPlace := Nat.pow_pos (by decide)

theorem infinity_lt : f.infinity < f.signPlace := by
  have one : 1 ≤ Nat.pow 2 f.exponentWidth := Nat.pow_pos (by decide)
  exact Nat.mul_lt_mul_of_pos_right (by omega) f.fractionPlace_pos

/-- A finite magnitude in units of the last place of a subnormal number. -/
def units (m : Nat) : Nat :=
  (if m < f.fractionPlace then m else m % f.fractionPlace + f.fractionPlace) *
    2 ^ (m / f.fractionPlace - 1)

/-- All magnitudes of one exponent are below the next power of two. -/
theorem units_lt_place (m : Nat) : f.units m < f.fractionPlace * 2 ^ (m / f.fractionPlace) := by
  have place := f.fractionPlace_pos
  rw [units]
  split
  · rename_i small
    rwa [Nat.div_eq_of_lt small, Nat.pow_zero, Nat.mul_one, Nat.mul_one]
  · rename_i large
    obtain ⟨q, exponent⟩ := Nat.exists_eq_add_of_lt (Nat.div_pos (Nat.not_lt.mp large) place)
    rw [exponent, Nat.zero_add, Nat.add_sub_cancel, Nat.pow_succ, Nat.mul_comm _ 2, ← Nat.mul_assoc]
    have rest := Nat.mod_lt m place
    exact Nat.mul_lt_mul_of_pos_right (by omega) (Nat.pow_pos (by decide))

theorem place_le_units {m : Nat} (normal : f.fractionPlace ≤ m) :
    f.fractionPlace * 2 ^ (m / f.fractionPlace - 1) ≤ f.units m := by
  rw [units, if_neg (Nat.not_lt.mpr normal)]
  exact Nat.mul_le_mul_right _ (Nat.le_add_left ..)

theorem units_lt {m n : Nat} (less : m < n) : f.units m < f.units n := by
  have place := f.fractionPlace_pos
  rcases Nat.eq_or_lt_of_le (Nat.div_le_div_right (c := f.fractionPlace) (Nat.le_of_lt less))
    with same | next
  · -- The same exponent: the fractions differ.
    have left := Nat.div_add_mod m f.fractionPlace
    have right := Nat.div_add_mod n f.fractionPlace
    have small : m < f.fractionPlace ↔ n < f.fractionPlace := by
      rw [← Nat.div_eq_zero_iff_lt place, ← Nat.div_eq_zero_iff_lt place, same]
    rw [units, units, same, if_congr small rfl rfl]
    rw [same] at left
    refine Nat.mul_lt_mul_of_pos_right ?_ (Nat.pow_pos (by decide))
    split <;> omega
  · have normal : f.fractionPlace ≤ n := by
      by_contra small
      rw [Nat.div_eq_of_lt (Nat.not_le.mp small)] at next
      exact Nat.not_lt_zero _ next
    calc f.units m < f.fractionPlace * 2 ^ (m / f.fractionPlace) := f.units_lt_place m
      _ ≤ f.fractionPlace * 2 ^ (n / f.fractionPlace - 1) :=
        Nat.mul_le_mul_left _ (Nat.pow_le_pow_right (by decide) (by omega))
      _ ≤ f.units n := f.place_le_units normal

theorem decode_nan {code : Nat} (above : f.infinity < f.magnitude code) : f.decode code = .nan := by
  simp only [decode, if_pos above]

noncomputable def amount (m : Nat) : EReal :=
  if m = f.infinity then ⊤ else ((f.units m * (2 : ℝ) ^ f.leastExponent : ℝ) : EReal)

theorem amount_nonneg (m : Nat) : 0 ≤ f.amount m := by
  rw [amount]
  split
  · exact le_top
  · exact EReal.coe_nonneg.mpr (mul_nonneg (Nat.cast_nonneg _) (zpow_nonneg zero_le_two _))

theorem amount_lt {m n : Nat} (less : m < n) (within : n ≤ f.infinity) :
    f.amount m < f.amount n := by
  rw [amount, if_neg (by omega), amount]
  split
  · exact EReal.coe_lt_top _
  · refine EReal.coe_lt_coe_iff.mpr (mul_lt_mul_of_pos_right ?_ (zpow_pos zero_lt_two _))
    exact_mod_cast f.units_lt less

theorem amount_lt_iff {m n : Nat} (left : m ≤ f.infinity) (right : n ≤ f.infinity) :
    f.amount m < f.amount n ↔ m < n := by
  refine ⟨fun less => ?_, fun less => f.amount_lt less right⟩
  by_contra above
  rcases Nat.eq_or_lt_of_le (Nat.not_lt.mp above) with rfl | above
  · exact lt_irrefl _ less
  · exact lt_asymm less (f.amount_lt above left)

theorem decode_number {code : Nat} (within : f.magnitude code ≤ f.infinity) :
    (f.decode code).number? =
      some (if f.isNegative code then -f.amount (f.magnitude code)
        else f.amount (f.magnitude code)) := by
  rw [decode, if_neg (Nat.not_lt.mpr within), amount]
  by_cases infinite : f.magnitude code = f.infinity
  · rw [if_pos infinite, if_pos infinite, FloatDatum.number?, EReal.neg_top]
  · have number : ∀ (significand : Nat) (exponent : Int),
        (significand * (2 : ℝ) ^ exponent : ℝ) =
          f.units (f.magnitude code) * (2 : ℝ) ^ f.leastExponent →
        (FloatDatum.finite (f.isNegative code) significand exponent).number? =
          some (if f.isNegative code
            then -((f.units (f.magnitude code) * (2 : ℝ) ^ f.leastExponent : ℝ) : EReal)
            else ((f.units (f.magnitude code) * (2 : ℝ) ^ f.leastExponent : ℝ) : EReal)) := by
      intro significand exponent same
      rw [← same, FloatDatum.number?]
      cases f.isNegative code with
      | true => simp only [if_true, neg_mul, one_mul, EReal.coe_neg]
      | false => simp only [Bool.false_eq_true, if_false, one_mul]
    rw [if_neg infinite, if_neg infinite]
    split
    · rename_i subnormal
      apply number
      rw [units, if_pos subnormal, Nat.div_eq_of_lt subnormal, Nat.pow_zero, Nat.mul_one]
    · rename_i normal
      have positive : 1 ≤ f.magnitude code / f.fractionPlace :=
        Nat.div_pos (Nat.not_lt.mp normal) f.fractionPlace_pos
      apply number
      rw [units, if_neg normal, Int.add_comm, zpow_add₀ two_ne_zero, Nat.cast_mul,
        Nat.cast_pow, mul_assoc, ← zpow_natCast, Nat.cast_sub positive]
      rfl

section

variable {f} {x y : Nat} {p q : EReal}

theorem totalLess_numbers_iff (left : (f.decode x).number? = some p)
    (right : (f.decode y).number? = some q) :
    f.TotalLess x y ↔ p < q ∨ p = q ∧ f.isNegative x = true ∧ f.isNegative y = false := by
  constructor
  · intro less
    cases less with
    | number first second less =>
      obtain rfl := Option.some.inj (left.symm.trans first)
      obtain rfl := Option.some.inj (right.symm.trans second)
      exact .inl less
    | zero first second negative positive =>
      obtain rfl := Option.some.inj (left.symm.trans first)
      obtain rfl := Option.some.inj (right.symm.trans second)
      exact .inr ⟨rfl, negative, positive⟩
    | negativeNaN none | negativePayload none | positivePayload none =>
      rw [none] at left
      cases left
    | positiveNaN none =>
      rw [none] at right
      cases right
  · rintro (less | ⟨rfl, negative, positive⟩)
    · exact .number left right less
    · exact .zero left right negative positive

theorem totalLess_nan_number_iff (left : f.decode x = .nan) (right : f.decode y ≠ .nan) :
    f.TotalLess x y ↔ f.isNegative x = true := by
  constructor
  · intro less
    cases less with
    | number first | zero first =>
      rw [left] at first
      cases first
    | negativeNaN _ negative => exact negative
    | positiveNaN second | negativePayload _ second | positivePayload _ second =>
      exact absurd second right
  · exact fun negative => .negativeNaN left negative fun none => absurd none right

theorem totalLess_number_nan_iff (left : f.decode x ≠ .nan) (right : f.decode y = .nan) :
    f.TotalLess x y ↔ f.isNegative y = false := by
  constructor
  · intro less
    cases less with
    | number _ second | zero _ second =>
      rw [right] at second
      cases second
    | positiveNaN _ positive => exact positive
    | negativeNaN first | negativePayload first | positivePayload first => exact absurd first left
  · exact fun positive => .positiveNaN right positive fun none => absurd none left

theorem totalLess_nans_iff (left : f.decode x = .nan) (right : f.decode y = .nan) :
    f.TotalLess x y ↔ f.isNegative x = true ∧ f.isNegative y = false ∨
      f.isNegative x = true ∧ f.isNegative y = true ∧ f.magnitude y < f.magnitude x ∨
      f.isNegative x = false ∧ f.isNegative y = false ∧ f.magnitude x < f.magnitude y := by
  constructor
  · intro less
    cases less with
    | number first | zero first =>
      rw [left] at first
      cases first
    | negativeNaN _ negative positive => exact .inl ⟨negative, positive right⟩
    | positiveNaN _ positive negative => exact .inl ⟨negative left, positive⟩
    | negativePayload _ _ negative negative' less => exact .inr (.inl ⟨negative, negative', less⟩)
    | positivePayload _ _ positive positive' less => exact .inr (.inr ⟨positive, positive', less⟩)
  · rintro (⟨negative, positive⟩ | ⟨negative, negative', less⟩ | ⟨positive, positive', less⟩)
    · exact .negativeNaN left negative fun _ => positive
    · exact .negativePayload left right negative negative' less
    · exact .positivePayload left right positive positive' less

end

theorem orderKey_lt_iff {x y : Nat} : f.orderKey x < f.orderKey y ↔ f.TotalLess x y := by
  have infinity := f.infinity_lt
  have positive : ∀ {code}, f.isNegative code = false → f.magnitude code = code := by
    intro code positive
    exact Nat.mod_eq_of_lt (by simpa [isNegative] using positive)
  have key : ∀ code, f.orderKey code =
      if f.isNegative code then -1 - (f.magnitude code : Int) else f.magnitude code := by
    intro code
    rw [orderKey]
    cases sign : f.isNegative code with
    | true => rfl
    | false => simp only [Bool.false_eq_true, if_false, positive sign]
  have below : ∀ code, f.magnitude code ≤ f.infinity → f.decode code ≠ .nan := by
    intro code number none
    have number := f.decode_number number
    rw [none] at number
    cases number
  rw [key, key]
  by_cases first : f.magnitude x ≤ f.infinity
  · by_cases second : f.magnitude y ≤ f.infinity
    · rw [totalLess_numbers_iff (f.decode_number first) (f.decode_number second)]
      have least := f.amount_nonneg (f.magnitude x)
      have least' := f.amount_nonneg (f.magnitude y)
      have turned : ∀ {m : EReal}, 0 ≤ m → -m ≤ 0 := fun above => by
        simpa only [neg_zero] using EReal.neg_le_neg_iff.mpr above
      cases f.isNegative x <;> cases f.isNegative y
      · simp [f.amount_lt_iff first second]
      · have above : ¬ f.amount (f.magnitude x) < -f.amount (f.magnitude y) :=
          not_lt.mpr ((turned least').trans least)
        simp only [above, Bool.false_eq_true, if_true, if_false, false_and, and_false,
          or_false, iff_false]
        omega
      · have below := le_iff_lt_or_eq.mp ((turned least).trans least')
        simp only [below, Bool.false_eq_true, if_true, if_false, and_true, iff_true]
        omega
      · simp [f.amount_lt_iff second first]
    · rw [totalLess_number_nan_iff (below x first) (f.decode_nan (Nat.not_le.mp second))]
      cases f.isNegative x <;> cases f.isNegative y <;>
        simp only [Bool.false_eq_true, reduceCtorEq, if_true, if_false, iff_true, iff_false] <;>
          omega
  · by_cases second : f.magnitude y ≤ f.infinity
    · rw [totalLess_nan_number_iff (f.decode_nan (Nat.not_le.mp first)) (below y second)]
      cases f.isNegative x <;> cases f.isNegative y <;>
        simp only [Bool.false_eq_true, if_true, if_false, iff_true, iff_false] <;> omega
    · rw [totalLess_nans_iff (f.decode_nan (Nat.not_le.mp first))
        (f.decode_nan (Nat.not_le.mp second))]
      cases f.isNegative x <;> cases f.isNegative y <;>
        simp only [Bool.false_eq_true, reduceCtorEq, if_true, if_false, true_and, false_and,
          and_false, or_false, false_or, and_self, iff_true, iff_false] <;> omega

end FloatFormat
end Windowing
