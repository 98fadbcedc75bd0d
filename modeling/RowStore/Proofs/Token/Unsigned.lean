import RowStore.Proofs.Number.Integer
import RowStore.Proofs.Number.Nearest
import RowStore.Proofs.Token.Scanning
import RowStore.Proofs.Token.Words
import RowStore.Proofs.Value

/-!
# The numbers of a text have no sign

A word is a number only if it starts with a digit, so a sign never gets into one, and a decimal past
the largest double is rounded to infinity, which is a number. So no token of a text stands for a
negative integer, for a double with a sign or for one that is no number (`Token.unsigned_ofText`).
-/

namespace RowStore

/-! ## Decimals -/

namespace Binary64

theorem toNat_ofMagnitude {m : Nat} (h : m ≤ infinite) : (ofMagnitude false m).bits.toNat = m := by
  have hlt : m < 2 ^ 64 := Nat.lt_of_le_of_lt h (by decide)
  exact UInt64.toNat_ofNat_of_lt' hlt

theorem unsigned_ofDecimal (d : Decimal) : (Value.float (ofDecimal false d)).Unsigned := by
  have hle : nearestTo d ≤ infinite := nearestTo_le_infinite d
  have hbits : (ofDecimal false d).bits.toNat = nearestTo d := toNat_ofMagnitude hle
  have hsign : nearestTo d < signBit := Nat.lt_of_le_of_lt hle (by decide)
  constructor
  · rw [isNaN, magnitude, hbits, Nat.mod_eq_of_lt hsign]
    exact decide_eq_false (Nat.not_lt.2 hle)
  · rw [negative, hbits]
    exact decide_eq_false (Nat.not_le.2 hsign)

end Binary64

/-! ## Words and marks -/

namespace Token

/-- A number is the token of a value without a sign. -/
def Unsigned : Token → Prop
  | .integer n => (Value.integer n).Unsigned
  | .float x => (Value.float x).Unsigned
  | _ => True

variable {t : Token} {word : List Char}

theorem unsigned_ofWord (h : ofWord word = .ok t) : t.Unsigned := by
  cases Spells.of_word h with
  | integer hdigits hread => exact Numeral.readInteger_nonneg hdigits hread
  | float d => exact Binary64.unsigned_ofDecimal d
  | _ => trivial

theorem unsigned_of_mem_marks {c : Char} (h : (c, t) ∈ marks) : t.Unsigned := by
  simp only [marks, List.mem_cons, Prod.mk.injEq, List.not_mem_nil, or_false] at h
  obtain ⟨-, rfl⟩ | ⟨-, rfl⟩ | ⟨-, rfl⟩ | ⟨-, rfl⟩ := h <;> trivial

theorem unsigned_of_piece {cs : List Char} {p : Piece} (hin : p.In cs) (h : p.token cs = .ok t) :
    t.Unsigned := by
  cases p with
  | mark position token =>
    obtain ⟨-, c, -, hc⟩ := hin
    cases h
    exact unsigned_of_mem_marks hc
  | run start stop =>
    rw [Piece.token] at h
    split at h
    · cases h
      trivial
    · exact unsigned_ofWord h

/-- No token of a text stands for a value with a sign. -/
theorem unsigned_ofText {text : String} {tokens : List Token} (h : ofText text = .ok tokens) :
    ∀ t ∈ tokens, t.Unsigned := by
  obtain ⟨pieces, hpieces, hread⟩ := exists_pieces_of_text text
  intro t ht
  obtain ⟨p, hp, htoken⟩ := Except.exists_of_mem_mapM (hread.trans h) ht
  exact unsigned_of_piece ((hpieces.mem_iff p).1 hp).1 htoken

end Token

end RowStore
