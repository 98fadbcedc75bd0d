import Mathlib.Order.Monotone.Basic
import Mathlib.Tactic.Linarith
import Mathlib.Tactic.Ring
import RowStore.Number.Binary64

/-!
# Doubles are rounded correctly

A quotient is rounded on a grid, and the doubles on both sides of the result are on the same grid or
farther away. So the quotient lies between the points half-way to both of them
(`Binary64.rounded_nearest`). No other double is nearer, and rounding keeps the order. Infinity
counts as the next power of two: what is nearer to it than to the largest double is rounded to
infinity.
-/

namespace RowStore.Binary64

variable {num den num' den' m m' r s k : Nat}

/-! ## Rounding to a natural number -/

/-- The quotient is at most a half away, and so far from an even number only. -/
theorem divideToEven_bounds (num : Nat) (hden : 0 < den) :
    2 * num + divideToEven num den % 2 ≤ (2 * divideToEven num den + 1) * den ∧
      2 * (divideToEven num den * den) + divideToEven num den % 2 ≤ 2 * num + den := by
  have hsplit : num = den * (num / den) + num % den := (Nat.div_add_mod num den).symm
  have hrest : num % den < den := Nat.mod_lt num hden
  rw [divideToEven]
  generalize num / den = q at *
  generalize num % den = r at *
  subst hsplit
  split <;> constructor <;> grind

theorem le_divideToEven (hden : 0 < den) (h : k * den ≤ num) : k ≤ divideToEven num den := by
  have habove := Nat.le_of_add_right_le (divideToEven_bounds num hden).1
  by_contra hlt
  have hmul : (divideToEven num den + 1) * den ≤ k * den :=
    Nat.mul_le_mul_right den (Nat.not_le.1 hlt)
  linarith

theorem divideToEven_le (hden : 0 < den) (h : num ≤ k * den) : divideToEven num den ≤ k := by
  have hbelow := Nat.le_of_add_right_le (divideToEven_bounds num hden).2
  by_contra hlt
  have hmul : (k + 1) * den ≤ divideToEven num den * den :=
    Nat.mul_le_mul_right den (Nat.not_le.1 hlt)
  linarith

/-! ## The grid around a double -/

theorem units_of_lt (h : m < exponentUnit) : units m = m := by
  simp only [units, Nat.div_eq_of_lt h, Nat.mod_eq_of_lt h, if_true]

theorem units_of_le (h : exponentUnit ≤ m) :
    units m = (exponentUnit + m % exponentUnit) * 2 ^ (m / exponentUnit - 1) := by
  have hexp : m / exponentUnit ≠ 0 := (Nat.div_pos h (by decide)).ne'
  simp only [units, hexp, if_false, Nat.shiftLeft_eq]

/-- A double is its number of spacings, up to the next power of two. -/
theorem units_grid (hr : r ≤ 2 * exponentUnit) (hs : s = 0 ∨ exponentUnit ≤ r) :
    units (s * exponentUnit + r) = r * 2 ^ s := by
  obtain hsmall | hlarge := Nat.lt_or_ge r exponentUnit
  · obtain rfl : s = 0 := hs.resolve_right (Nat.not_le.2 hsmall)
    rw [Nat.zero_mul, Nat.zero_add, units_of_lt hsmall, Nat.pow_zero, Nat.mul_one]
  · rw [units_of_le (Nat.le_add_left_of_le hlarge)]
    obtain hlt | rfl := Nat.lt_or_eq_of_le hr
    · have hdiv : (s * exponentUnit + r) / exponentUnit - 1 = s := by
        rw [exponentUnit] at *
        omega
      have hmod : exponentUnit + (s * exponentUnit + r) % exponentUnit = r := by
        rw [exponentUnit] at *
        omega
      rw [hdiv, hmod]
    · have hdiv : (s * exponentUnit + 2 * exponentUnit) / exponentUnit - 1 = s + 1 := by
        rw [exponentUnit]
        omega
      have hmod :
          exponentUnit + (s * exponentUnit + 2 * exponentUnit) % exponentUnit = exponentUnit := by
        rw [exponentUnit]
        omega
      rw [hdiv, hmod, Nat.pow_succ', ← Nat.mul_assoc, Nat.mul_comm 2]

/-- The next double is at least one spacing above. -/
theorem le_units_grid_succ (hr : r ≤ 2 * exponentUnit) (hs : s = 0 ∨ exponentUnit ≤ r) :
    (r + 1) * 2 ^ s ≤ units (s * exponentUnit + r + 1) := by
  obtain hlt | rfl := Nat.lt_or_eq_of_le hr
  · rw [Nat.add_assoc, units_grid hlt (hs.imp_right Nat.le_succ_of_le)]
  · have hnext : s * exponentUnit + 2 * exponentUnit + 1 =
        (s + 1) * exponentUnit + (exponentUnit + 1) := by
      rw [exponentUnit]
      omega
    rw [hnext, units_grid (by decide) (.inr (Nat.le_succ _)), Nat.pow_succ', ← Nat.mul_assoc]
    refine Nat.mul_le_mul_right _ ?_
    omega

/-- A double and the next one are consecutive on a grid. -/
theorem exists_grid (m : Nat) :
    ∃ s r, r < 2 * exponentUnit ∧ units m = r * 2 ^ s ∧ units (m + 1) = (r + 1) * 2 ^ s := by
  obtain ⟨s, r, rfl, hr, hs⟩ : ∃ s r, m = s * exponentUnit + r ∧ r < 2 * exponentUnit ∧
      (s = 0 ∨ exponentUnit ≤ r) := by
    obtain hsmall | hlarge := Nat.lt_or_ge m exponentUnit
    · exact ⟨0, m, by simp, by omega, .inl rfl⟩
    · refine ⟨m / exponentUnit - 1, exponentUnit + m % exponentUnit, ?_, ?_, .inr ?_⟩ <;>
        rw [exponentUnit] at * <;> omega
  refine ⟨s, r, hr, units_grid hr.le hs, ?_⟩
  rw [Nat.add_assoc, units_grid hr (hs.imp_right Nat.le_succ_of_le)]

theorem units_lt_succ (m : Nat) : units m < units (m + 1) := by
  obtain ⟨s, r, -, hm, hnext⟩ := exists_grid m
  rw [hm, hnext]
  exact Nat.mul_lt_mul_of_pos_right (Nat.lt_succ_self r) (Nat.two_pow_pos s)

theorem units_strictMono : StrictMono units := strictMono_nat_of_lt_succ units_lt_succ

theorem units_succ_le (m : Nat) : units (m + 1) ≤ 2 ^ 53 * (units (m + 1) - units m) := by
  obtain ⟨s, r, hr, hm, hnext⟩ := exists_grid m
  rw [hm, hnext, ← Nat.sub_mul, Nat.add_sub_cancel_left, Nat.one_mul]
  exact Nat.mul_le_mul_right _ hr

/-- Doubles are apart by at least one part in `2 ^ 53`. -/
theorem units_le_dist (h : m ≠ m') : (units m : Int) ≤ 2 ^ 53 * |(units m' : Int) - units m| := by
  have hmono := units_strictMono.monotone
  rw [Int.abs_eq_natAbs]
  obtain hlt | hlt := Nat.lt_or_gt_of_ne h
  · have hgap := units_succ_le m
    have hnext : units (m + 1) ≤ units m' := hmono hlt
    have hless := units_lt_succ m
    omega
  · obtain ⟨k, rfl⟩ : ∃ k, m = k + 1 := Nat.exists_eq_succ_of_ne_zero (Nat.ne_zero_of_lt hlt)
    have hgap := units_succ_le k
    have hbefore : units m' ≤ units k := hmono (Nat.le_of_lt_succ hlt)
    have hless := units_lt_succ k
    omega

/-! ## Half-way points -/

/-- The quotient lies between the points half-way to the doubles before and behind, and on such a
point only if the magnitude is even. -/
structure Rounded (num den m : Nat) : Prop where
  below : ∀ k, m = k + 1 → (units k + units m) * den + m % 2 ≤ 2 * num
  above : m < infinite → 2 * num + m % 2 ≤ (units m + units (m + 1)) * den

/-- On a grid that is fine enough for 53 digits and, above the least one, not finer. -/
theorem rounded_grid (hden : 0 < den) (hlow : s = 0 ∨ exponentUnit * 2 ^ s * den ≤ num)
    (hhigh : num < 2 * exponentUnit * 2 ^ s * den) :
    Rounded num den (s * exponentUnit + divideToEven num (den * 2 ^ s)) := by
  have hspacing : 0 < den * 2 ^ s := Nat.mul_pos hden (Nat.two_pow_pos s)
  have hr : divideToEven num (den * 2 ^ s) ≤ 2 * exponentUnit := by
    refine divideToEven_le hspacing ?_
    linarith
  have hs : s = 0 ∨ exponentUnit ≤ divideToEven num (den * 2 ^ s) := by
    refine hlow.imp_right fun hlow => le_divideToEven hspacing ?_
    linarith
  obtain ⟨habove, hbelow⟩ := divideToEven_bounds num hspacing
  generalize divideToEven num (den * 2 ^ s) = r at *
  have hparity : (s * exponentUnit + r) % 2 = r % 2 := by
    rw [exponentUnit]
    omega
  constructor
  · intro k hk
    have hgrid : units (k + 1) = r * 2 ^ s := hk ▸ units_grid hr hs
    rw [hparity, hk, hgrid]
    by_cases hinner : s = 0 ∨ exponentUnit < r
    · obtain ⟨r, rfl⟩ : ∃ r', r = r' + 1 := by
        refine Nat.exists_eq_succ_of_ne_zero ?_
        rintro rfl
        obtain rfl | hlt := hinner
        · omega
        · exact absurd hlt (Nat.not_lt_zero _)
      obtain rfl : s * exponentUnit + r = k := Nat.succ.inj hk
      rw [units_grid (Nat.le_of_succ_le hr) (hinner.imp_right Nat.le_of_lt_succ)]
      linarith
    · -- The double before a power of two is nearer, but the quotient is not below the power.
      obtain ⟨hne, hle⟩ := not_or.1 hinner
      obtain rfl : r = exponentUnit := Nat.le_antisymm (Nat.not_lt.1 hle) (hs.resolve_left hne)
      have hmono : units k ≤ exponentUnit * 2 ^ s := hgrid ▸ (units_lt_succ k).le
      calc (units k + exponentUnit * 2 ^ s) * den + exponentUnit % 2
        _ ≤ (exponentUnit * 2 ^ s + exponentUnit * 2 ^ s) * den :=
          Nat.mul_le_mul_right den (Nat.add_le_add_right hmono _)
        _ = 2 * (exponentUnit * 2 ^ s * den) := by ring
        _ ≤ 2 * num := Nat.mul_le_mul_left 2 (hlow.resolve_left hne)
  · intro _
    rw [hparity, units_grid hr hs]
    calc 2 * num + r % 2
      _ ≤ (2 * r + 1) * (den * 2 ^ s) := habove
      _ = (r * 2 ^ s + (r + 1) * 2 ^ s) * den := by ring
      _ ≤ _ := Nat.mul_le_mul_right den (Nat.add_le_add_left (le_units_grid_succ hr hs) _)

/-- The doubles from infinity on are cut off. -/
theorem Rounded.min_infinite (h : Rounded num den m) : Rounded num den (min m infinite) := by
  obtain hle | hlt := le_or_gt m infinite
  · rwa [Nat.min_eq_left hle]
  · rw [Nat.min_eq_right hlt.le]
    refine ⟨fun k hk => ?_, fun hinfinite => absurd hinfinite (Nat.lt_irrefl _)⟩
    obtain ⟨l, rfl⟩ := Nat.exists_eq_succ_of_ne_zero (Nat.ne_zero_of_lt hlt)
    have hmono := units_strictMono.monotone
    have hk : k ≤ l := by omega
    calc (units k + units infinite) * den + infinite % 2
      _ ≤ (units l + units (l + 1)) * den :=
        Nat.mul_le_mul_right den (Nat.add_le_add (hmono hk) (hmono hlt.le))
      _ ≤ 2 * num := Nat.le_of_add_right_le (h.below l rfl)

theorem nearest_le (num den : Nat) : nearest num den ≤ infinite := Nat.min_le_right _ _

theorem rounded_nearest (hden : 0 < den) : Rounded num den (nearest num den) := by
  rw [nearest, Nat.shiftLeft_eq]
  refine (rounded_grid hden ?_ ?_).min_infinite
  · obtain hzero | hpos := Nat.eq_zero_or_pos ((num / den).log2 - 52)
    · exact .inl hzero
    · have hne : num / den ≠ 0 := by
        intro hzero
        rw [hzero, Nat.log2_zero] at hpos
        omega
      have hdigits : exponentUnit * 2 ^ ((num / den).log2 - 52) = 2 ^ (num / den).log2 := by
        rw [show exponentUnit = 2 ^ 52 from rfl, ← Nat.pow_add]
        congr 1
        omega
      rw [hdigits, ← Nat.le_div_iff_mul_le hden]
      exact .inr (Nat.log2_self_le hne)
  · have hdigits : 2 ^ ((num / den).log2 + 1) ≤
        2 * exponentUnit * 2 ^ ((num / den).log2 - 52) := by
      rw [show 2 * exponentUnit = 2 ^ 53 from rfl, ← Nat.pow_add]
      exact Nat.pow_le_pow_right Nat.two_pos (by omega)
    rw [← Nat.div_lt_iff_lt_mul hden]
    exact Nat.lt_of_lt_of_le Nat.lt_log2_self hdigits

/-! ## Order and distance -/

/-- Rounding keeps the order. Of two consecutive doubles one is odd, so no quotient is half-way
between them for both. -/
theorem Rounded.le (h : Rounded num den m) (h' : Rounded num' den' m') (hden : 0 < den)
    (hden' : 0 < den') (hm : m ≤ infinite) (hle : num * den' ≤ num' * den) : m ≤ m' := by
  by_contra hlt
  obtain ⟨k, rfl⟩ : ∃ k, m = k + 1 :=
    Nat.exists_eq_succ_of_ne_zero (Nat.ne_zero_of_lt (Nat.not_le.1 hlt))
  have hbelow := Nat.mul_le_mul_right den' (h.below k rfl)
  have habove := Nat.mul_le_mul_right den (h'.above (by omega))
  have hsums : (units k + units (k + 1)) * (den * den') + ((k + 1) % 2 * den' + m' % 2 * den) ≤
      (units m' + units (m' + 1)) * (den * den') := by
    linarith
  obtain hk | rfl := Nat.lt_or_eq_of_le (show m' ≤ k by omega)
  · have hlt : units m' + units (m' + 1) < units k + units (k + 1) :=
      Nat.add_lt_add (units_strictMono hk) (units_strictMono (Nat.succ_lt_succ hk))
    have := Nat.mul_lt_mul_of_pos_right hlt (Nat.mul_pos hden hden')
    omega
  · have hparity : (m' + 1) % 2 = 0 ∧ m' % 2 = 0 := by
      simpa [hden.ne', hden'.ne'] using hsums
    omega

/-- No double is nearer to a quotient than the one it is rounded to, and at a tie its magnitude is
even. -/
theorem Rounded.dist_le (h : Rounded num den m) (hden : 0 < den) (hm' : m' ≤ infinite) :
    |(units m * den : Int) - num| ≤ |(units m' * den : Int) - num| ∧
      (|(units m * den : Int) - num| = |(units m' * den : Int) - num| → m = m' ∨ m % 2 = 0) := by
  simp only [← Int.natCast_mul, Int.abs_eq_natAbs]
  obtain hlt | rfl | hlt := Nat.lt_trichotomy m m'
  · have habove := h.above (Nat.lt_of_lt_of_le hlt hm')
    have hmono : units (m + 1) * den ≤ units m' * den :=
      Nat.mul_le_mul_right den (units_strictMono.monotone hlt)
    have hstep : units m * den < units (m + 1) * den :=
      Nat.mul_lt_mul_of_pos_right (units_lt_succ m) hden
    rw [Nat.add_mul] at habove
    generalize units m * den = a at *
    generalize units m' * den = b at *
    omega
  · exact ⟨Int.le_refl _, fun _ => .inl rfl⟩
  · obtain ⟨k, rfl⟩ := Nat.exists_eq_succ_of_ne_zero (Nat.ne_zero_of_lt hlt)
    have hbelow := h.below k rfl
    have hmono : units m' * den ≤ units k * den :=
      Nat.mul_le_mul_right den (units_strictMono.monotone (Nat.le_of_lt_succ hlt))
    have hstep : units k * den < units (k + 1) * den :=
      Nat.mul_lt_mul_of_pos_right (units_lt_succ k) hden
    rw [Nat.add_mul] at hbelow
    generalize units (k + 1) * den = a at *
    generalize units m' * den = b at *
    omega

end RowStore.Binary64
