import Mathlib.Algebra.Order.Field.Basic
import RowStore.Proofs.Number.Decimal
import RowStore.Proofs.Number.Rounding

/-!
# The double that a decimal is read as

A decimal is read as the double that is nearest to its value (`Binary64.nearestTo_nearest`), and
nothing but the value counts. So a double is read from every decimal of its value.
-/

namespace RowStore.Binary64

/-- How many units, of the least positive double each, are one. -/
def one : Nat := 1 <<< 1074

/-- The value of a finite double. Infinity counts as the next power of two. -/
def value (x : Binary64) : ℚ := (if x.negative then -1 else 1) * units x.magnitude / one

variable {d d' : Decimal} {m : Nat}

/-! ## Decimals as quotients -/

theorem one_pos : 0 < one := by decide +kernel

theorem ratio_pos (d : Decimal) : 0 < d.ratio.2 := Nat.pow_pos (by decide)

theorem ratio_eq (d : Decimal) : (d.ratio.1 : ℚ) = d.value * d.ratio.2 := by
  have hexp : (10 : ℚ) ^ d.exponent * 10 ^ (-d.exponent).toNat = 10 ^ d.exponent.toNat := by
    rw [← zpow_natCast, ← zpow_natCast, ← zpow_add₀ (by decide)]
    congr 1
    omega
  rw [Decimal.value, mul_assoc]
  simp only [Decimal.ratio, Nat.pow_eq, Nat.cast_mul, Nat.cast_pow, Nat.cast_ofNat, hexp]

theorem shiftLeft_eq_mul (n k : Nat) : n <<< k = n * 1 <<< k := by
  rw [Nat.shiftLeft_eq, Nat.one_shiftLeft]

theorem nearestTo_eq (d : Decimal) : nearestTo d = nearest (d.ratio.1 * one) d.ratio.2 := by
  rw [nearestTo, shiftLeft_eq_mul, one]

theorem rounded_nearestTo (d : Decimal) :
    Rounded (d.ratio.1 * one) d.ratio.2 (nearestTo d) :=
  nearestTo_eq d ▸ rounded_nearest (ratio_pos d)

theorem nearestTo_le_infinite (d : Decimal) : nearestTo d ≤ infinite := nearest_le _ _

theorem nearestTo_mono (h : d.value ≤ d'.value) : nearestTo d ≤ nearestTo d' := by
  have hone : (0 : ℚ) < one := Nat.cast_pos.2 one_pos
  have hden : (0 : ℚ) < d.ratio.2 := Nat.cast_pos.2 (ratio_pos d)
  have hden' : (0 : ℚ) < d'.ratio.2 := Nat.cast_pos.2 (ratio_pos d')
  refine (rounded_nearestTo d).le (rounded_nearestTo d') (ratio_pos d) (ratio_pos d')
    (nearestTo_le_infinite d) ?_
  have hcross : (d.ratio.1 * one * d'.ratio.2 : ℚ) ≤ d'.ratio.1 * one * d.ratio.2 := by
    rw [ratio_eq, ratio_eq]
    calc d.value * d.ratio.2 * one * d'.ratio.2
      _ = d.value * (d.ratio.2 * one * d'.ratio.2) := by ring
      _ ≤ d'.value * (d.ratio.2 * one * d'.ratio.2) :=
        mul_le_mul_of_nonneg_right h (mul_pos (mul_pos hden hone) hden').le
      _ = d'.value * d'.ratio.2 * one * d.ratio.2 := by ring
  exact_mod_cast hcross

/-- Only the value counts. -/
theorem nearestTo_congr (h : d.value = d'.value) : nearestTo d = nearestTo d' :=
  le_antisymm (nearestTo_mono h.le) (nearestTo_mono h.ge)

theorem dist_eq (d : Decimal) (m : Nat) :
    |units m / one - d.value| =
      (|(units m * d.ratio.2 : Int) - (d.ratio.1 * one : Nat)| : Int) / (d.ratio.2 * one) := by
  have hone : (0 : ℚ) < one := Nat.cast_pos.2 one_pos
  have hden : (0 : ℚ) < d.ratio.2 := Nat.cast_pos.2 (ratio_pos d)
  have hscale : units m / one - d.value =
      (units m * d.ratio.2 - d.ratio.1 * one) / (d.ratio.2 * one) := by
    rw [ratio_eq]
    field_simp
  rw [hscale, abs_div, abs_of_pos (mul_pos hden hone)]
  push_cast
  rfl

/-- The double that a decimal is read as is a nearest one, and of two the even one. -/
theorem nearestTo_nearest (d : Decimal) (hm : m ≤ infinite) :
    |units (nearestTo d) / one - d.value| ≤ |units m / one - d.value| ∧
      (|units (nearestTo d) / one - d.value| = |units m / one - d.value| →
        nearestTo d = m ∨ nearestTo d % 2 = 0) := by
  have hpos : (0 : ℚ) < d.ratio.2 * one :=
    mul_pos (Nat.cast_pos.2 (ratio_pos d)) (Nat.cast_pos.2 one_pos)
  obtain ⟨hle, htie⟩ := (rounded_nearestTo d).dist_le (ratio_pos d) hm
  rw [dist_eq, dist_eq, div_le_div_iff_of_pos_right hpos, div_left_inj' hpos.ne']
  exact ⟨by exact_mod_cast hle, fun heq => htie (by exact_mod_cast heq)⟩

/-- A decimal that is equal to a double is read as it. -/
theorem nearestTo_of_value (hm : m ≤ infinite) (h : d.value = units m / one) :
    nearestTo d = m := by
  have hone : (one : ℚ) ≠ 0 := Nat.cast_ne_zero.2 one_pos.ne'
  have hdist := (nearestTo_nearest d hm).1
  rw [h, sub_self, abs_zero, abs_nonpos_iff, sub_eq_zero, div_left_inj' hone, Nat.cast_inj] at hdist
  exact units_strictMono.injective hdist

theorem value_le_iff (d : Decimal) (m : Nat) :
    d.value ≤ units m / one ↔ d.ratio.1 * one ≤ units m * d.ratio.2 := by
  have hone : (0 : ℚ) < one := Nat.cast_pos.2 one_pos
  have hden : (0 : ℚ) < d.ratio.2 := Nat.cast_pos.2 (ratio_pos d)
  rw [le_div_iff₀ hone, ← mul_le_mul_iff_of_pos_right hden, mul_right_comm, ← ratio_eq]
  norm_cast

/-- The doubles from a decimal on start behind one that is below it. -/
theorem value_le_iff_lt {n : Nat} (hbelow : units n * d.ratio.2 < d.ratio.1 * one)
    (hnext : d.ratio.1 * one ≤ units (n + 1) * d.ratio.2) :
    d.value ≤ units m / one ↔ n < m := by
  rw [value_le_iff]
  constructor
  · intro h
    by_contra hm
    have hle : units m ≤ units n := units_strictMono.monotone (Nat.not_lt.1 hm)
    exact absurd (h.trans (Nat.mul_le_mul_right _ hle)) (Nat.not_le.2 hbelow)
  · intro h
    have hle : units (n + 1) ≤ units m := units_strictMono.monotone h
    exact hnext.trans (Nat.mul_le_mul_right _ hle)

theorem value_le_dist {m' : Nat} (h : m ≠ m') :
    (units m / one : ℚ) ≤ 2 ^ 53 * |(units m' / one - units m / one : ℚ)| := by
  have hone : (0 : ℚ) < one := Nat.cast_pos.2 one_pos
  have hunits : (units m : ℚ) ≤ 2 ^ 53 * |(units m' - units m : ℚ)| := by
    have hle := (Int.cast_le (R := ℚ)).2 (units_le_dist h)
    rwa [Int.cast_mul, Int.cast_abs, Int.cast_sub, Int.cast_natCast, Int.cast_natCast,
      Int.cast_pow, Int.cast_ofNat] at hle
  rw [← sub_div, abs_div, abs_of_pos hone, ← mul_div_assoc]
  exact div_le_div_of_nonneg_right hunits hone.le

/-- A decimal that is nearer to a double than half its distance to any other is read as it. -/
theorem nearestTo_of_dist (hm : m ≤ infinite)
    (h : 2 ^ 54 * |units m / one - d.value| < units m / one) : nearestTo d = m := by
  by_contra hne
  have hgap := value_le_dist (Ne.symm hne)
  have hnearest := (nearestTo_nearest d hm).1
  generalize (units m / one : ℚ) = v at *
  generalize (units (nearestTo d) / one : ℚ) = w at *
  have htriangle : |w - v| ≤ |w - d.value| + |v - d.value| := by
    rw [abs_sub_comm v]
    exact abs_sub_le w d.value v
  linarith

end RowStore.Binary64
