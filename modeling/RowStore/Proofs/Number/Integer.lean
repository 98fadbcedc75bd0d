import Mathlib.Tactic.Common
import RowStore.Number.Integer

/-!
# Digits are read as their value

A reader of integers takes digits of any number, with leading zeros, and refuses them only if their
value is too large (`Numeral.readInteger_eq`).
-/

namespace RowStore.Numeral

variable {cs : List Char} {m : Nat} {n : Int64}

/-- One or more digits. -/
def IsDigits (cs : List Char) : Prop := cs ≠ [] ∧ ∀ c ∈ cs, c.isDigit

theorem IsDigits.not_mem {c : Char} (h : IsDigits cs) (hc : ¬c.isDigit) : c ∉ cs :=
  fun hmem => hc (h.2 c hmem)

theorem isDigits_digits (m : Nat) : IsDigits (digits m) :=
  ⟨Nat.toDigits_ne_nil, fun _ hc => Nat.isDigit_of_mem_toDigits (by decide) (by decide) hc⟩

theorem ofDigitChars_digits (m : Nat) : Nat.ofDigitChars 10 (digits m) 0 = m :=
  Nat.ofDigitChars_toDigits (by decide) (by decide)

theorem le_ofDigitChars : m ≤ Nat.ofDigitChars 10 cs m := by
  rw [Nat.ofDigitChars_eq_ofDigitChars_zero]
  exact Nat.le_add_right_of_le (Nat.le_mul_of_pos_left m (Nat.pow_pos (by decide)))

/-- Digits whose value is in bounds are read to the end, and others are refused. -/
theorem readDigits_eq {limit : Nat} {past : IntegerFault} (hcs : ∀ c ∈ cs, c.isDigit)
    (hm : m ≤ limit) :
    readDigits limit past m cs = if limit < Nat.ofDigitChars 10 cs m then .error past
      else .ok (Nat.ofDigitChars 10 cs m) := by
  induction cs generalizing m with
  | nil => exact (if_neg (Nat.not_lt.2 hm)).symm
  | cons c cs ih =>
    obtain ⟨hc, hcs⟩ := List.forall_mem_cons.1 hcs
    rw [readDigits, if_pos hc, Nat.ofDigitChars_cons]
    dsimp only
    split
    · next hlt => exact (if_pos (Nat.lt_of_lt_of_le hlt le_ofDigitChars)).symm
    · next hle => exact ih hcs (Nat.not_lt.1 hle)

/-- Without a sign in front, all characters are read as digits. -/
theorem readInteger_of_isDigits (h : IsDigits cs) :
    readInteger cs = Int64.ofNat <$> readDigits largest .tooLarge 0 cs := by
  obtain ⟨hne, hcs⟩ := h
  unfold readInteger
  split
  case h_1 => exact absurd rfl hne
  case h_6 => rfl
  all_goals exact absurd (hcs _ List.mem_cons_self) (by decide)

theorem readInteger_eq (h : IsDigits cs) :
    readInteger cs = if largest < Nat.ofDigitChars 10 cs 0 then .error .tooLarge
      else .ok (Int64.ofNat (Nat.ofDigitChars 10 cs 0)) := by
  rw [readInteger_of_isDigits h, readDigits_eq h.2 (Nat.zero_le _)]
  split <;> rfl

theorem readInteger_eq_ok (h : IsDigits cs) :
    readInteger cs = .ok n ↔ (Nat.ofDigitChars 10 cs 0 : Int) = n.toInt := by
  rw [readInteger_eq h]
  split
  · next hlt =>
    refine iff_of_false nofun ?_
    have := n.toInt_lt
    rw [largest] at hlt
    omega
  · next hle =>
    have hlt : Nat.ofDigitChars 10 cs 0 < 2 ^ 63 := Nat.lt_succ_of_le (Nat.not_lt.1 hle)
    rw [Except.ok.injEq, ← Int64.toInt_inj, Int64.toInt_ofNat_of_lt hlt]

/-- Digits without a sign before them are not negative. -/
theorem readInteger_nonneg (hcs : ∀ c ∈ cs, c.isDigit) (h : readInteger cs = .ok n) : 0 ≤ n := by
  have hne : cs ≠ [] := by
    rintro rfl
    cases h
  have hvalue : (Nat.ofDigitChars 10 cs 0 : Int) = n.toInt := (readInteger_eq_ok ⟨hne, hcs⟩).1 h
  rw [Int64.le_iff_toInt_le, ← hvalue]
  exact Int.natCast_nonneg _

/-! ## Printed integers -/

theorem toList_writeInteger (h : 0 ≤ n) : (writeInteger n).toList = digits n.toInt.natAbs := by
  have hn : ¬n.toInt < 0 := Int.not_lt.2 (Int64.le_iff_toInt_le.1 h)
  rw [writeInteger, if_neg hn, String.toList_ofList]

/-- An integer without a sign is read from its digits. -/
theorem readInteger_digits (h : 0 ≤ n) : readInteger (digits n.toInt.natAbs) = .ok n := by
  rw [readInteger_eq_ok (isDigits_digits _), ofDigitChars_digits]
  exact Int.natAbs_of_nonneg (Int64.le_iff_toInt_le.1 h)

end RowStore.Numeral
