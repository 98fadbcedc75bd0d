import Mathlib.Algebra.Order.Field.Rat
import Mathlib.Tactic.FieldSimp
import Mathlib.Tactic.Ring
import RowStore.Number.Decimal
import RowStore.Proofs.Number.Integer

/-!
# Notations of decimals

With a point at the place of the units a decimal is digits on both sides of the point, and these
digits are a decimal of the same value (`Decimal.exists_positional`). With an exponent it is digits
around a letter.
-/

namespace RowStore

/-! ## Digits around a point -/

namespace Numeral

variable {word whole fraction : List Char}

/-- The word is digits on both sides of a point. -/
structure Pointed (word whole fraction : List Char) : Prop where
  eq : word = whole ++ '.' :: fraction
  whole : IsDigits whole
  fraction : IsDigits fraction

theorem Pointed.not_isDigits (h : Pointed word whole fraction) : ¬IsDigits word := by
  intro hdigits
  refine hdigits.not_mem (c := '.') (by decide) ?_
  rw [h.eq]
  exact List.mem_append_right _ List.mem_cons_self

theorem Pointed.exists_digit (h : Pointed word whole fraction) : ∃ c ∈ word, c.isDigit := by
  obtain ⟨c, hc⟩ := List.exists_mem_of_ne_nil _ h.whole.1
  exact ⟨c, h.eq ▸ List.mem_append_left _ hc, h.whole.2 c hc⟩

/-- A character that is neither digit nor point is in no number. -/
theorem not_number_of_mem {c : Char} (hc : c ∈ word) (hdigit : ¬c.isDigit) (hpoint : c ≠ '.') :
    ¬IsDigits word ∧ ∀ whole fraction, ¬Pointed word whole fraction := by
  refine ⟨fun h => h.not_mem hdigit hc, fun whole fraction h => ?_⟩
  rw [h.eq, List.mem_append, List.mem_cons] at hc
  obtain hmem | rfl | hmem := hc
  · exact h.whole.not_mem hdigit hmem
  · exact hpoint rfl
  · exact h.fraction.not_mem hdigit hmem

theorem forall_mem_zeros (n : Nat) : ∀ c ∈ List.replicate n '0', c.isDigit := by
  intro c hc
  rw [List.eq_of_mem_replicate hc]
  rfl

theorem IsDigits.append {cs ds : List Char} (h : IsDigits cs) (hds : ∀ c ∈ ds, c.isDigit) :
    IsDigits (cs ++ ds) :=
  ⟨List.append_ne_nil_of_left_ne_nil h.1 _, List.forall_mem_append.2 ⟨h.2, hds⟩⟩

end Numeral

namespace Decimal

open Numeral

variable {d : Decimal} {whole fraction : List Char}

/-- The value of a decimal. -/
def value (d : Decimal) : ℚ := d.coefficient * 10 ^ d.exponent

/-- The zeros at the end count for the power of ten. -/
theorem value_trim (d : Decimal) : d.trim.value = d.value := by
  fun_induction trim d with
  | case1 d h ih =>
    have hcoefficient : (d.coefficient : ℚ) = (d.coefficient / 10 : Nat) * 10 := by
      exact_mod_cast (Nat.div_mul_cancel (Nat.dvd_of_mod_eq_zero h.2)).symm
    rw [ih, value, value, hcoefficient, zpow_add_one₀ (by decide)]
    ring
  | case2 d h => rfl

/-! ## Positional notation -/

theorem value_ofParts (whole fraction : List Char) :
    (ofParts whole fraction).value =
      Nat.ofDigitChars 10 (whole ++ fraction) 0 * 10 ^ (-fraction.length : Int) := rfl

/-- A whole number has zeros for the power of ten, and one more behind the point. -/
theorem exists_pointed_of_nonneg (h : 0 ≤ d.exponent) :
    ∃ whole fraction, Pointed (d.positional true) whole fraction ∧
      (ofParts whole fraction).value = d.value := by
  obtain ⟨e, he⟩ := Int.eq_ofNat_of_zero_le h
  have hword : d.positional true =
      (digits d.coefficient ++ List.replicate e '0') ++ '.' :: ['0'] := by
    rw [positional, if_pos h, if_pos rfl, he, Int.toNat_natCast]
  have hzeros : digits d.coefficient ++ List.replicate e '0' ++ ['0'] =
      digits d.coefficient ++ List.replicate (e + 1) '0' := by
    rw [List.append_assoc, List.replicate_succ']
  refine ⟨_, _, ⟨hword, ?_, ?_⟩, ?_⟩
  · exact (isDigits_digits _).append (forall_mem_zeros e)
  · exact ⟨List.cons_ne_nil _ _, forall_mem_zeros 1⟩
  · rw [value_ofParts, hzeros, Nat.ofDigitChars_append, ofDigitChars_digits,
      Nat.ofDigitChars_replicate_zero, value, he, zpow_natCast, Nat.cast_mul, Nat.cast_pow, pow_succ]
    simp only [List.length_singleton, Nat.cast_ofNat, Nat.cast_one, zpow_neg_one]
    ring

/-- The digits behind a point are cut off from the end. -/
theorem pointed_cut {ds : List Char} {places : Nat} (hds : ∀ c ∈ ds, c.isDigit)
    (hpos : 0 < places) (hlt : places < ds.length) :
    Pointed (ds.take (ds.length - places) ++ '.' :: ds.drop (ds.length - places))
      (ds.take (ds.length - places)) (ds.drop (ds.length - places)) where
  eq := rfl
  whole := by
    refine ⟨List.ne_nil_of_length_pos ?_, fun c hc => hds c (List.mem_of_mem_take hc)⟩
    rw [List.length_take]
    omega
  fraction := by
    refine ⟨List.ne_nil_of_length_pos ?_, fun c hc => hds c (List.mem_of_mem_drop hc)⟩
    rw [List.length_drop]
    omega

/-- A number with places behind the point has zeros in front if its digits are too few. -/
theorem exists_pointed_of_neg (h : d.exponent < 0) :
    ∃ whole fraction, Pointed (d.positional true) whole fraction ∧
      (ofParts whole fraction).value = d.value := by
  obtain ⟨places, hplaces⟩ := Int.eq_ofNat_of_zero_le (Int.neg_nonneg_of_nonpos h.le)
  have hpos : 0 < places := by omega
  obtain ⟨ds, hds⟩ : ∃ ds, ds = List.replicate (places + 1 - (digits d.coefficient).length) '0' ++
    digits d.coefficient := ⟨_, rfl⟩
  have hword : d.positional true =
      ds.take (ds.length - places) ++ '.' :: ds.drop (ds.length - places) := by
    rw [positional, if_neg (Int.not_le.2 h), hplaces, Int.toNat_natCast, hds]
  have hlt : places < ds.length := by
    rw [hds, List.length_append, List.length_replicate]
    omega
  have hall : ∀ c ∈ ds, c.isDigit := by
    rw [hds, List.forall_mem_append]
    exact ⟨forall_mem_zeros _, (isDigits_digits _).2⟩
  have hvalue : Nat.ofDigitChars 10 ds 0 = d.coefficient := by
    rw [hds, Nat.ofDigitChars_append, Nat.ofDigitChars_replicate_zero, Nat.mul_zero,
      ofDigitChars_digits]
  have hlength : (ds.drop (ds.length - places)).length = places := by
    rw [List.length_drop]
    omega
  refine ⟨_, _, hword ▸ pointed_cut hall hpos hlt, ?_⟩
  rw [value_ofParts, List.take_append_drop, hvalue, hlength, ← hplaces, neg_neg, value]

/-- A number that is written with a point is read from its digits. -/
theorem exists_pointed (d : Decimal) :
    ∃ whole fraction, Pointed (d.positional true) whole fraction ∧
      (ofParts whole fraction).value = d.value :=
  (lt_or_ge d.exponent 0).elim exists_pointed_of_neg exists_pointed_of_nonneg

/-! ## Notation with an exponent -/

theorem scientific_eq (d : Decimal) :
    ∃ c cs power, digits d.coefficient = c :: cs ∧
      d.scientific = c :: (if cs = [] then [] else '.' :: cs) ++
        'e' :: (if power < 0 then ['-'] else []) ++ digits (Int.natAbs power) := by
  cases hdigits : digits d.coefficient with
  | nil => exact absurd hdigits (isDigits_digits _).1
  | cons c cs =>
    refine ⟨c, cs, d.exponent + cs.length, rfl, ?_⟩
    rw [scientific, hdigits]

theorem letter_mem_scientific (d : Decimal) : 'e' ∈ d.scientific := by
  obtain ⟨c, cs, power, -, hword⟩ := scientific_eq d
  simp [hword]

theorem exists_digit_mem_scientific (d : Decimal) : ∃ c ∈ d.scientific, c.isDigit := by
  obtain ⟨c, cs, power, hdigits, hword⟩ := scientific_eq d
  refine ⟨c, by simp [hword], (isDigits_digits d.coefficient).2 c ?_⟩
  exact hdigits ▸ List.mem_cons_self

theorem forall_mem_scientific (d : Decimal) :
    ∀ c ∈ d.scientific, c.isDigit ∨ c ∈ ['.', 'e', '-'] := by
  obtain ⟨c, cs, power, hdigits, hword⟩ := scientific_eq d
  have hfront := (isDigits_digits d.coefficient).2
  have hback := (isDigits_digits power.natAbs).2
  rw [hdigits] at hfront
  intro c' hc'
  rw [hword] at hc'
  grind

end Decimal

end RowStore
