import Mathlib.Tactic.Common
import RowStore.Value

/-!
# Equality of the query language

`equals` differs from identity at two places only: what is no number equals nothing, and the zeros
of both signs are equal. Without a sign neither happens (`Value.equals_iff_eq`).
-/

namespace RowStore

namespace Binary64

variable {x y : Binary64}

theorem isNaN_eq_false_of_isZero (h : x.isZero) : x.isNaN = false := by
  rw [isZero, decide_eq_true_eq] at h
  rw [isNaN, h]
  rfl

theorem equals_iff : x.equals y ↔ x.isNaN = false ∧ x = y ∨ x.isZero ∧ y.isZero := by
  have hbits : x.bits = y.bits ↔ x = y := ⟨fun h => by cases x; cases y; simp_all, congrArg bits⟩
  simp only [equals, Bool.and_eq_true, Bool.or_eq_true, Bool.not_eq_true', decide_eq_true_eq, hbits]
  constructor
  · rintro ⟨⟨hx, -⟩, rfl | hzero⟩
    · exact .inl ⟨hx, rfl⟩
    · exact .inr hzero
  · rintro (⟨hx, rfl⟩ | hzero)
    · exact ⟨⟨hx, hx⟩, .inl rfl⟩
    · exact ⟨⟨isNaN_eq_false_of_isZero hzero.1, isNaN_eq_false_of_isZero hzero.2⟩, .inr hzero⟩

/-- Zero, without and with a sign. -/
theorem eq_of_isZero (h : x.isZero) : x = ⟨0⟩ ∨ x = ⟨0x8000000000000000⟩ := by
  obtain ⟨bits⟩ := x
  rw [isZero, decide_eq_true_eq] at h
  change bits.toNat % 0x8000000000000000 = 0 at h
  have hlt := bits.toNat_lt
  simp only [mk.injEq, ← UInt64.toNat_inj]
  change bits.toNat = 0 ∨ bits.toNat = 0x8000000000000000
  omega

theorem eq_zero_of_isZero (h : x.isZero) (hsign : x.negative = false) : x = ⟨0⟩ := by
  obtain rfl | rfl := eq_of_isZero h
  · rfl
  · cases hsign

end Binary64

namespace Value

def isNaN : Value → Bool
  | .float x => x.isNaN
  | _ => false

/-- A double that is zero, of either sign. -/
def isFloatZero : Value → Bool
  | .float x => x.isZero
  | _ => false

/-- An integer is not negative, and a double is a number without a sign. -/
def Unsigned : Value → Prop
  | .integer n => 0 ≤ n
  | .float x => x.isNaN = false ∧ x.negative = false
  | _ => True

variable {a b : Value}

theorem isNaN_eq_false_of_isFloatZero (h : a.isFloatZero) : a.isNaN = false := by
  cases a with
  | float x => exact Binary64.isNaN_eq_false_of_isZero h
  | _ => cases h

theorem equals_iff : a.equals b ↔ a.isNaN = false ∧ a = b ∨ a.isFloatZero ∧ b.isFloatZero := by
  cases a <;> cases b <;> simp [equals, isNaN, isFloatZero, Binary64.equals_iff]

theorem kind?_eq_none : a.kind? = none ↔ a = .unset := by
  cases a <;> simp [kind?]

/-- Values are equal only within a kind. -/
theorem kind?_eq_of_equals (h : a.equals b) : a.kind? = b.kind? := by
  cases a <;> cases b <;> simp_all [equals, kind?]

theorem eq_of_isFloatZero (h : a.isFloatZero) :
    a = .float ⟨0⟩ ∨ a = .float ⟨0x8000000000000000⟩ := by
  cases a with
  | float x => exact (Binary64.eq_of_isZero h).imp (congrArg _) (congrArg _)
  | _ => cases h

theorem Unsigned.isNaN (h : a.Unsigned) : a.isNaN = false := by
  cases a with
  | float x => exact h.1
  | _ => rfl

/-- Values without a sign are equal only if they are identical. -/
theorem equals_iff_eq (ha : a.Unsigned) (hb : b.Unsigned) : a.equals b ↔ a = b := by
  rw [equals_iff]
  constructor
  · rintro (⟨-, h⟩ | ⟨hza, hzb⟩)
    · exact h
    · cases a with
      | float x =>
        cases b with
        | float y =>
          rw [Binary64.eq_zero_of_isZero hza ha.2, Binary64.eq_zero_of_isZero hzb hb.2]
        | _ => cases hzb
      | _ => cases hza
  · rintro rfl
    exact .inl ⟨ha.isNaN, rfl⟩

end Value

end RowStore
