import Mathlib.Tactic.NormNum
import RowStore.Proofs.Number.Shortest
import RowStore.Proofs.Token.Numerals

/-!
# Which doubles are read back from their print

A double without a sign is printed with a point or with an exponent. With a point it has the form of
a number and is read as the same double; with an exponent, or as the name of infinity, it has no
form but that of a name. Where the one ends and the other starts is decided on magnitudes, and it is
the same on values (`Token.isPositional_iff`).
-/

namespace RowStore

/-! ## Doubles without a sign -/

namespace Binary64

variable {x : Binary64}

theorem magnitude_eq (h : (Value.float x).Unsigned) : x.magnitude = x.bits.toNat := by
  have hsign : x.bits.toNat < signBit := Nat.not_le.1 (of_decide_eq_false h.2)
  exact Nat.mod_eq_of_lt hsign

theorem ofDecimal_eq {d : Decimal} (h : (Value.float x).Unsigned)
    (hd : nearestTo d = x.magnitude) : ofDecimal false d = x := by
  rw [ofDecimal, hd, magnitude_eq h, ofMagnitude, if_neg Bool.false_ne_true, UInt64.ofNat_toNat]

theorem value_eq (h : (Value.float x).Unsigned) : x.value = units x.magnitude / one := by
  rw [value, h.2, if_neg Bool.false_ne_true, one_mul]

theorem lt_infinite (h : (Value.float x).Unsigned) (hfinite : x.isInfinite = false) :
    x.magnitude < infinite :=
  lt_of_le_of_ne (Nat.not_lt.1 (of_decide_eq_false h.1)) (of_decide_eq_false hfinite)

theorem toList_write (style : FloatStyle) (h : (Value.float x).Unsigned) :
    (x.write style).toList =
      if x.isInfinite then "inf".toList
      else if style.isPositional x.magnitude then
        (if x.isZero then ⟨0, 0⟩ else shortest x.magnitude).positional style.pointed
      else (shortest x.magnitude).scientific := by
  rw [write, h.1, h.2, if_neg Bool.false_ne_true, if_neg Bool.false_ne_true, String.toList_ofList,
    List.nil_append]

/-- What is printed with a point is read as the magnitude. -/
theorem nearestTo_positional (h : x.magnitude < infinite) :
    nearestTo (if x.isZero then ⟨0, 0⟩ else shortest x.magnitude) = x.magnitude := by
  split
  · next hzero =>
    rw [of_decide_eq_true hzero]
    decide +kernel
  · exact nearestTo_shortest h

end Binary64

namespace Token

open Numeral (Pointed)

variable {word whole fraction : List Char} {t : Token} {x : Binary64}

/-! ## Words with and without a form -/

theorem ofText_word (hne : word ≠ []) (hplain : ∀ c ∈ word, isPlain c) (h : ofWord word = .ok t) :
    ofText (String.ofList word) = .ok [t] :=
  ofText_of_lexeme (Lexeme.proper_of_isPlain hne (List.all_eq_true.2 hplain))
    String.toList_ofList h

theorem ofText_pointed (h : Pointed word whole fraction) :
    ofText (String.ofList word) =
      .ok [.float (Binary64.ofDecimal false (Decimal.ofParts whole fraction))] := by
  refine ofText_word ?_ ?_ (ofWord_of_pointed h)
  · rw [h.eq]
    exact List.append_ne_nil_of_right_ne_nil _ (List.cons_ne_nil _ _)
  · rw [h.eq, List.forall_mem_append, List.forall_mem_cons]
    exact ⟨fun c hc => isPlain_of_isDigit (h.whole.2 c hc), by decide,
      fun c hc => isPlain_of_isDigit (h.fraction.2 c hc)⟩

theorem isPlain_of_mem_scientific {d : Decimal} {c : Char} (h : c ∈ d.scientific) :
    isPlain c := by
  have hothers : ['.', 'e', '-'].all isPlain := by decide
  obtain hdigit | hmem := d.forall_mem_scientific c h
  · exact isPlain_of_isDigit hdigit
  · exact List.all_eq_true.1 hothers c hmem

/-- An exponent makes a number a name. -/
theorem ofText_scientific (d : Decimal) :
    ofText (String.ofList d.scientific) = .ok [.ident (String.ofList d.scientific)] := by
  obtain ⟨c, hc, hdigit⟩ := d.exists_digit_mem_scientific
  obtain ⟨hdigits, hpointed⟩ :=
    Numeral.not_number_of_mem d.letter_mem_scientific (by decide) (by decide)
  have hquote : quote ∉ d.scientific :=
    fun h => (isPlain_iff.1 (isPlain_of_mem_scientific h)).2 rfl
  refine ofText_word (List.ne_nil_of_mem hc) (fun _ => isPlain_of_mem_scientific) ?_
  exact ofWord_eq_ident (ofReserved?_eq_none hc (.inr hdigit)) (ofTruth?_eq_none hc (.inr hdigit))
    hdigits hpointed hquote

/-! ## Bounds of positional notation -/

/-- The least double that is printed positionally is the least one from 1/10000 on. -/
theorem nearestTo_low_le {m : Nat} :
    Binary64.nearestTo ⟨1, -4⟩ ≤ m ↔ (1 / 10 ^ 4 : ℚ) ≤ Binary64.units m / Binary64.one := by
  have hlow : Binary64.nearestTo ⟨1, -4⟩ = 0x3F1A36E2EB1C432C + 1 := by decide +kernel
  have hvalue : (1 / 10 ^ 4 : ℚ) = Decimal.value ⟨1, -4⟩ := by norm_num [Decimal.value]
  rw [hlow, hvalue]
  exact (Binary64.value_le_iff_lt (by decide +kernel) (by decide +kernel)).symm

/-- The first double that is too large for it is ten to the power of 16. -/
theorem nearestTo_high_le {m : Nat} :
    Binary64.nearestTo ⟨1, 16⟩ ≤ m ↔ (10 ^ 16 : ℚ) ≤ Binary64.units m / Binary64.one := by
  have hhigh : Binary64.nearestTo ⟨1, 16⟩ = 0x4341C37937E07FFF + 1 := by decide +kernel
  have hvalue : (10 ^ 16 : ℚ) = Decimal.value ⟨1, 16⟩ := by norm_num [Decimal.value]
  rw [hhigh, hvalue]
  exact (Binary64.value_le_iff_lt (by decide +kernel) (by decide +kernel)).symm

theorem isPositional_iff (h : (Value.float x).Unsigned) :
    floatStyle.isPositional x.magnitude ↔
      x.value = 0 ∨ 1 / 10 ^ 4 ≤ x.value ∧ x.value < 10 ^ 16 := by
  have hone : (Binary64.one : ℚ) ≠ 0 := Nat.cast_ne_zero.2 Binary64.one_pos.ne'
  have hzero : Binary64.units x.magnitude = 0 ↔ x.magnitude = 0 :=
    Binary64.units_strictMono.injective.eq_iff' rfl
  simp only [Binary64.value_eq h, FloatStyle.isPositional, floatStyle, Bool.or_eq_true,
    Bool.and_eq_true, decide_eq_true_eq, nearestTo_low_le, ← not_le, nearestTo_high_le,
    div_eq_zero_iff, hone, or_false, Nat.cast_eq_zero, hzero]

/-! ## Reading the print -/

theorem isPositional_infinite : floatStyle.isPositional Binary64.infinite = false := by
  decide +kernel

theorem text_float {cs : List Char} (h : (x.write floatStyle).toList = cs) :
    (Token.float x).text = String.ofList cs := by
  rw [text, ← h, String.ofList_toList]

/-- What is printed with a point is read as the same double. -/
theorem ofText_text_of_isPositional (h : (Value.float x).Unsigned)
    (hpositional : floatStyle.isPositional x.magnitude) :
    ofText (Token.float x).text = .ok [.float x] := by
  have hfinite : x.isInfinite = false := by
    refine decide_eq_false fun hinfinite => ?_
    rw [hinfinite, isPositional_infinite] at hpositional
    cases hpositional
  have hwrite := Binary64.toList_write floatStyle h
  rw [hfinite, if_neg Bool.false_ne_true, if_pos hpositional] at hwrite
  obtain ⟨whole, fraction, hpointed, hvalue⟩ := Decimal.exists_pointed
    (if x.isZero then ⟨0, 0⟩ else Binary64.shortest x.magnitude)
  have hnearest : Binary64.nearestTo (.ofParts whole fraction) = x.magnitude := by
    rw [Binary64.nearestTo_congr hvalue,
      Binary64.nearestTo_positional (Binary64.lt_infinite h hfinite)]
  rw [text_float hwrite, floatStyle, ofText_pointed hpointed, Binary64.ofDecimal_eq h hnearest]

/-- What is printed with an exponent, or as the name of infinity, is read as a name. -/
theorem ofText_text_of_not_isPositional (h : (Value.float x).Unsigned)
    (hpositional : ¬floatStyle.isPositional x.magnitude) :
    ofText (Token.float x).text = .ok [.ident (Token.float x).text] := by
  have hwrite := Binary64.toList_write floatStyle h
  by_cases hinfinite : x.isInfinite
  · rw [if_pos hinfinite] at hwrite
    rw [text_float hwrite]
    decide +kernel
  · rw [if_neg hinfinite, if_neg hpositional] at hwrite
    rw [text_float hwrite]
    exact ofText_scientific _

/-- A word with digits on both sides of a point is read as the double that is nearest to its value.
The print of this double is read as the same one if it is zero or from 1/10000 up to but without ten
to the power of 16, and as a name, which is the print itself, if it is any other one. -/
theorem ofText_text_float (h : Pointed word whole fraction)
    (hx : x = Binary64.ofDecimal false (Decimal.ofParts whole fraction)) :
    ofText (String.ofList word) = .ok [.float x] ∧
      (x.value = 0 ∨ 1 / 10 ^ 4 ≤ x.value ∧ x.value < 10 ^ 16 →
        ofText (Token.float x).text = .ok [.float x]) ∧
      (¬(x.value = 0 ∨ 1 / 10 ^ 4 ≤ x.value ∧ x.value < 10 ^ 16) →
        ofText (Token.float x).text = .ok [.ident (Token.float x).text]) := by
  have hunsigned : (Value.float x).Unsigned := hx ▸ Binary64.unsigned_ofDecimal _
  rw [← isPositional_iff hunsigned]
  refine ⟨hx ▸ ofText_pointed h, ?_, ?_⟩
  · exact ofText_text_of_isPositional hunsigned
  · exact ofText_text_of_not_isPositional hunsigned

/-- Zeros at both ends of a word are dropped from the print, and many in front of the point add an
exponent. -/
theorem ofText_text_float_samples :
    (Pointed "004.550".toList "004".toList "550".toList ∧
      ofText "004.550" = .ok [.float ⟨0x4012333333333333⟩] ∧
      ofText "4.55" = .ok [.float ⟨0x4012333333333333⟩]) ∧
    Pointed "10000000000000000.0".toList "10000000000000000".toList "0".toList ∧
      ofText "10000000000000000.0" = .ok [.float ⟨0x4341C37937E08000⟩] ∧
      ofText "1e16" = .ok [.ident "1e16"] := by
  have hsmall : Pointed "004.550".toList "004".toList "550".toList :=
    ⟨by decide, ⟨by decide, List.all_eq_true.1 (by decide)⟩,
      ⟨by decide, List.all_eq_true.1 (by decide)⟩⟩
  have hlarge : Pointed "10000000000000000.0".toList "10000000000000000".toList "0".toList :=
    ⟨by decide, ⟨by decide, List.all_eq_true.1 (by decide)⟩,
      ⟨by decide, List.all_eq_true.1 (by decide)⟩⟩
  have hprintSmall : (Token.float ⟨0x4012333333333333⟩).text = "4.55" := by decide +kernel
  have hprintLarge : (Token.float ⟨0x4341C37937E08000⟩).text = "1e16" := by decide +kernel
  obtain ⟨hreadSmall, hback, -⟩ :=
    ofText_text_float (x := ⟨0x4012333333333333⟩) hsmall (by decide +kernel)
  obtain ⟨hreadLarge, -, hname⟩ :=
    ofText_text_float (x := ⟨0x4341C37937E08000⟩) hlarge (by decide +kernel)
  rw [String.ofList_toList] at hreadSmall hreadLarge
  rw [hprintSmall] at hback
  rw [hprintLarge] at hname
  exact ⟨⟨hsmall, hreadSmall, hback (by decide +kernel)⟩, hlarge, hreadLarge,
    hname (by decide +kernel)⟩

end Token

end RowStore
