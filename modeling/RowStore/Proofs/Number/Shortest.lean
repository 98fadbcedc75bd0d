import RowStore.Number.Shortest
import RowStore.Proofs.Number.Nearest

/-!
# Printed decimals are read back and shortest

The decimal that is printed for a double is chosen among those that are read as it. On the grid of
the decimals with a given number of digits, no other one is nearer to the double than its two
neighbours, so if any decimal with as many digits is read as the double then so is one of these. The
grids are tried from the coarsest on, and so no decimal that is read as the double has fewer digits
(`Binary64.length_shortest_le`).
-/

namespace RowStore

variable {d : Decimal} {m n u : Nat}

/-! ## Number of digits -/

theorem Numeral.length_digits_le : (digits m).length ≤ n + 1 ↔ m < 10 ^ (n + 1) :=
  Nat.length_toDigits_le_iff (by decide) (Nat.succ_pos n)

theorem Numeral.lt_length_digits (hm : 0 < m) : n < (digits m).length ↔ 10 ^ n ≤ m := by
  cases n with
  | zero => exact iff_of_true Nat.length_toDigits_pos hm
  | succ n => rw [← Nat.not_le, length_digits_le, Nat.not_lt]

/-- A power of ten loses its zeros. -/
theorem Decimal.coefficient_trim_lt (h : d.coefficient ≤ 10 ^ (n + 1)) :
    d.trim.coefficient < 10 ^ (n + 1) := by
  fun_induction trim d with
  | case1 d hzero ih => exact ih ((Nat.div_le_self _ _).trans h)
  | case2 d hlast =>
    refine Nat.lt_of_le_of_ne h fun heq => hlast ?_
    rw [heq, Nat.pow_succ]
    exact ⟨(Nat.mul_pos (Nat.pow_pos (by decide)) (by decide)).ne', Nat.mul_mod_left _ _⟩

namespace Binary64

/-! ## Decimals that are read back -/

/-- To divide by a power of two, multiply with the power of five and shift the point. -/
theorem mul_five_pow (q : ℚ) (k : Nat) :
    q * (5 : ℚ) ^ k * (10 : ℚ) ^ (-k : Int) = q / (1 <<< k : Nat) := by
  have hten : (10 : ℚ) ^ k = 2 ^ k * 5 ^ k := by
    rw [← mul_pow]
    norm_num
  rw [Nat.one_shiftLeft, zpow_neg, zpow_natCast, hten]
  push_cast
  field_simp

theorem value_exact (m : Nat) : (exact m).value = units m / one := by
  simp only [exact, Decimal.value, Nat.pow_eq, Nat.cast_mul, Nat.cast_pow, Nat.cast_ofNat]
  rw [one, ← mul_five_pow, Int.cast_ofNat_Int]

/-- Only neighbours that are read as the double are taken. -/
theorem of_readsBack? (h : readsBack? m n = some d) :
    nearestTo d = m ∧ (d = (neighbours (units m) n).below ∨ d = (neighbours (units m) n).above) := by
  simp only [readsBack?] at h
  split at h
  · next hbelow =>
    obtain rfl := Option.some.inj h
    split
    · next habove => exact ⟨habove.1, .inr rfl⟩
    · exact ⟨hbelow, .inl rfl⟩
  · split at h
    · next habove =>
      obtain rfl := Option.some.inj h
      exact ⟨habove, .inr rfl⟩
    · cases h

/-- A finite double is read back from its shortest decimal. -/
theorem nearestTo_shortest (hm : m < infinite) : nearestTo (shortest m) = m := by
  rw [shortest, nearestTo_congr (Decimal.value_trim _)]
  cases h : (List.range 17).findSome? fun i => readsBack? m (i + 1) with
  | none => exact nearestTo_of_value hm.le (value_exact m)
  | some d =>
    obtain ⟨i, -, hi⟩ := List.exists_of_findSome?_eq_some h
    exact (of_readsBack? hi).1

/-! ## Neighbours on a grid -/

theorem shiftRight_eq_div (n k : Nat) : n >>> k = n / 1 <<< k := by
  rw [Nat.shiftRight_eq_div_pow, Nat.one_shiftLeft]

/-- The digits of a number of units, and more zeros than it has places behind the point. -/
def leading (u : Nat) : Nat := u * 10 ^ scale / one

def dropped (u n : Nat) : Nat := (Numeral.digits (leading u)).length - n

theorem below_eq (u n : Nat) :
    (neighbours u n).below = ⟨leading u / 10 ^ dropped u n, dropped u n - scale⟩ := by
  simp only [neighbours, leading, dropped, shiftRight_eq_div, one, Nat.pow_eq]

theorem above_eq (u n : Nat) :
    (neighbours u n).above =
      ⟨(neighbours u n).below.coefficient + 1, (neighbours u n).below.exponent⟩ := rfl

theorem value_le_div_iff (c k l u : Nat) :
    Decimal.value ⟨c, k - l⟩ ≤ (u / one : ℚ) ↔ c * 10 ^ k * one ≤ u * 10 ^ l := by
  have hone : (0 : ℚ) < one := Nat.cast_pos.2 one_pos
  have hten : (0 : ℚ) < 10 ^ l := pow_pos (by decide) l
  rw [Decimal.value, zpow_sub₀ (by decide), zpow_natCast, zpow_natCast, ← mul_div_assoc,
    div_le_div_iff₀ hten hone, ← @Nat.cast_le ℚ]
  push_cast
  rfl

/-- The lower neighbour is the largest decimal of its grid that is not larger. -/
theorem value_le_iff_le_below (u n c : Nat) :
    Decimal.value ⟨c, (neighbours u n).below.exponent⟩ ≤ u / one ↔
      c ≤ (neighbours u n).below.coefficient := by
  rw [below_eq, value_le_div_iff]
  dsimp only
  rw [Nat.le_div_iff_mul_le (Nat.pow_pos (by decide)), leading, Nat.le_div_iff_mul_le one_pos]

theorem value_below_le (u n : Nat) : (neighbours u n).below.value ≤ u / one :=
  (value_le_iff_le_below u n _).2 le_rfl

theorem lt_value_above (u n : Nat) : u / one < (neighbours u n).above.value :=
  not_le.1 (mt (value_le_iff_le_below u n _).1 (Nat.not_succ_le_self _))

/-- The lower neighbour has as many digits as its grid. -/
theorem coefficient_below (h : 10 ^ n ≤ leading u) :
    10 ^ n ≤ (neighbours u (n + 1)).below.coefficient ∧
      (neighbours u (n + 1)).below.coefficient < 10 ^ (n + 1) := by
  have hpos : 0 < leading u := (Nat.pow_pos (by decide)).trans_le h
  obtain ⟨k, hk⟩ := Nat.exists_eq_add_of_lt ((Numeral.lt_length_digits hpos).2 h)
  have hdropped : dropped u (n + 1) = k := by
    rw [dropped, hk]
    omega
  have hlow : 10 ^ (n + k) ≤ leading u := (Numeral.lt_length_digits hpos).1 (by omega)
  have hhigh : leading u < 10 ^ (n + k + 1) := Numeral.length_digits_le.1 hk.le
  rw [below_eq, hdropped]
  dsimp only
  rw [Nat.le_div_iff_mul_le (Nat.pow_pos (by decide)), Nat.div_lt_iff_lt_mul
    (Nat.pow_pos (by decide)), ← Nat.pow_add, ← Nat.pow_add, Nat.add_right_comm]
  exact ⟨hlow, hhigh⟩

theorem value_le_value {c c' : Nat} (e : Int) (h : c ≤ c') :
    Decimal.value ⟨c, e⟩ ≤ Decimal.value ⟨c', e⟩ :=
  mul_le_mul_of_nonneg_right (Nat.cast_le.2 h) (zpow_nonneg (by decide) e)

theorem value_pow (n : Nat) (e : Int) : Decimal.value ⟨10 ^ n, e⟩ = 10 ^ (n + e) := by
  rw [Decimal.value, zpow_add₀ (by decide), zpow_natCast, Nat.cast_pow, Nat.cast_ofNat]

/-- A decimal is on every finer grid. -/
theorem exists_value_eq {e : Int} (h : e ≤ d.exponent) :
    ∃ c, d.value = Decimal.value ⟨c, e⟩ := by
  obtain ⟨k, hk⟩ := Int.le.dest h
  refine ⟨d.coefficient * 10 ^ k, ?_⟩
  rw [Decimal.value, Decimal.value, ← hk, zpow_add₀ (by decide), zpow_natCast]
  push_cast
  ring

/-- No decimal with as many digits is between the neighbours. One with more places behind the point
is below the power of ten that the grid starts with. -/
theorem le_below_or_above_le (h : 10 ^ n ≤ leading u) (hd : d.coefficient < 10 ^ (n + 1)) :
    d.value ≤ (neighbours u (n + 1)).below.value ∨
      (neighbours u (n + 1)).above.value ≤ d.value := by
  rw [above_eq]
  have hfirst := (coefficient_below h).1
  generalize (neighbours u (n + 1)).below = b at *
  obtain hfine | hcoarse := lt_or_ge d.exponent b.exponent
  · left
    calc d.value
      _ ≤ Decimal.value ⟨10 ^ (n + 1), d.exponent⟩ := value_le_value _ hd.le
      _ ≤ Decimal.value ⟨10 ^ n, b.exponent⟩ := by
        rw [value_pow, value_pow]
        exact zpow_le_zpow_right₀ (by norm_num) (by omega)
      _ ≤ b.value := value_le_value _ hfirst
  · obtain ⟨c, hc⟩ := exists_value_eq hcoarse
    rw [hc]
    exact (le_or_gt c b.coefficient).imp (value_le_value _) (value_le_value _)

/-! ## Seventeen digits -/

theorem isSome_readsBack? :
    (readsBack? m n).isSome ↔ nearestTo (neighbours (units m) n).below = m ∨
      nearestTo (neighbours (units m) n).above = m := by
  simp only [readsBack?]
  split
  · next hbelow => simp [hbelow]
  · next hbelow =>
    split
    · next habove => simp [habove]
    · next habove => simp [hbelow, habove]

/-- Every positive double is large enough for grids of up to 18 digits. -/
theorem pow_le_leading (hu : 0 < u) : 10 ^ 17 ≤ leading u := by
  have hleast : 10 ^ 17 ≤ leading 1 := by decide +kernel
  refine hleast.trans (Nat.div_le_div_right ?_)
  exact Nat.mul_le_mul_right _ hu

/-- If a decimal is read as the double then so is the neighbour on its side. -/
theorem isSome_readsBack?_of_nearestTo (hm : m < infinite) (hpos : 0 < m) (hn : n ≤ 17)
    (hd : d.coefficient < 10 ^ (n + 1)) (hread : nearestTo d = m) :
    (readsBack? m (n + 1)).isSome := by
  have hleading : 10 ^ n ≤ leading (units m) :=
    (Nat.pow_le_pow_right (by decide) hn).trans (pow_le_leading (units_strictMono hpos))
  have hexact : nearestTo (exact m) = m := nearestTo_of_value hm.le (value_exact m)
  rw [isSome_readsBack?]
  obtain hbelow | habove := le_below_or_above_le hleading hd
  · left
    have hlow := nearestTo_mono hbelow
    have hhigh := nearestTo_mono ((value_below_le (units m) (n + 1)).trans (value_exact m).ge)
    omega
  · right
    have hlow := nearestTo_mono ((value_exact m).le.trans (lt_value_above (units m) (n + 1)).le)
    have hhigh := nearestTo_mono habove
    omega

/-- The nearer one of the neighbours with 17 digits is read as the double. -/
theorem isSome_readsBack?_seventeen (hm : m < infinite) (hpos : 0 < m) :
    (readsBack? m 17).isSome := by
  have hleading : 10 ^ 16 ≤ leading (units m) :=
    (Nat.pow_le_pow_right (by decide) (by decide)).trans (pow_le_leading (units_strictMono hpos))
  have hfirst := (coefficient_below hleading).1
  have hbelow := value_below_le (units m) 17
  have habove := lt_value_above (units m) 17
  rw [isSome_readsBack?]
  rw [above_eq] at habove ⊢
  generalize (neighbours (units m) 17).below = b at *
  have hwidth : Decimal.value ⟨b.coefficient + 1, b.exponent⟩ = b.value + 10 ^ b.exponent := by
    rw [Decimal.value, Decimal.value]
    push_cast
    ring
  have hstart : 10 ^ 16 * (10 : ℚ) ^ b.exponent ≤ b.value := by
    refine le_trans (le_of_eq ?_) (value_le_value b.exponent hfirst)
    rw [Decimal.value, Nat.cast_pow, Nat.cast_ofNat]
  have hten : (0 : ℚ) < 10 ^ b.exponent := zpow_pos (by decide) _
  obtain hnear | hnear := le_total (2 * (units m / one - b.value)) (10 ^ b.exponent)
  · left
    refine nearestTo_of_dist hm.le ?_
    rw [abs_of_nonneg (sub_nonneg.2 hbelow)]
    generalize (units m / one : ℚ) = v at *
    linarith
  · right
    refine nearestTo_of_dist hm.le ?_
    rw [abs_of_nonpos (sub_nonpos.2 habove.le)]
    generalize (units m / one : ℚ) = v at *
    linarith

/-! ## The first grid -/

theorem exists_first {α : Type} {f : Nat → Option α} {i : Nat} (hi : i < n) (h : (f i).isSome) :
    ∃ j ≤ i, ∃ a, f j = some a ∧ (List.range n).findSome? f = some a := by
  cases hfind : (List.range n).findSome? f with
  | none =>
    rw [List.findSome?_eq_none_iff.1 hfind i (List.mem_range.2 hi)] at h
    cases h
  | some a =>
    obtain ⟨before, j, after, hrange, ha, hbefore⟩ := List.findSome?_eq_some_iff.1 hfind
    refine ⟨j, ?_, a, ha, rfl⟩
    have hmem : i ∈ before ++ j :: after := hrange ▸ List.mem_range.2 hi
    have hsorted : (before ++ j :: after).Pairwise (· < ·) := hrange ▸ List.pairwise_lt_range
    obtain hmem | hmem := List.mem_append.1 hmem
    · rw [hbefore i hmem] at h
      cases h
    · obtain rfl | hmem := List.mem_cons.1 hmem
      · exact Nat.le_refl _
      · exact (List.rel_of_pairwise_cons (List.pairwise_append.1 hsorted).2.1 hmem).le

theorem length_readsBack?_trim (hpos : 0 < m) (hn : n ≤ 17) (h : readsBack? m (n + 1) = some d) :
    (Numeral.digits d.trim.coefficient).length ≤ n + 1 := by
  have hleading : 10 ^ n ≤ leading (units m) :=
    (Nat.pow_le_pow_right (by decide) hn).trans (pow_le_leading (units_strictMono hpos))
  have hbelow := (coefficient_below hleading).2
  refine Numeral.length_digits_le.2 (Decimal.coefficient_trim_lt ?_)
  obtain rfl | rfl := (of_readsBack? h).2
  · exact hbelow.le
  · exact hbelow

/-- A decimal that is read as a double has no fewer digits than the one that is printed. -/
theorem length_shortest_le (hm : m < infinite) (hpos : 0 < m) (hread : nearestTo d = m) :
    (Numeral.digits (shortest m).coefficient).length ≤
      (Numeral.digits d.coefficient).length := by
  obtain ⟨k, hk⟩ := Nat.exists_eq_succ_of_ne_zero (Nat.length_toDigits_pos (b := 10)).ne'
  have hd : d.coefficient < 10 ^ (k + 1) := Numeral.length_digits_le.1 hk.le
  obtain ⟨i, hi, hle, hsome⟩ : ∃ i < 17, i ≤ k ∧ (readsBack? m (i + 1)).isSome := by
    obtain hshort | hlong := Nat.lt_or_ge k 17
    · exact ⟨k, hshort, le_rfl, isSome_readsBack?_of_nearestTo hm hpos hshort.le hd hread⟩
    · exact ⟨16, by decide, by omega, isSome_readsBack?_seventeen hm hpos⟩
  obtain ⟨j, hj, a, ha, hfind⟩ := exists_first (f := fun i => readsBack? m (i + 1)) hi hsome
  calc (Numeral.digits (shortest m).coefficient).length
    _ = (Numeral.digits a.trim.coefficient).length := by rw [shortest, hfind, Option.getD_some]
    _ ≤ j + 1 := length_readsBack?_trim hpos (by omega) ha
    _ ≤ (Numeral.digits d.coefficient).length := hk ▸ (by omega)

end Binary64

end RowStore
