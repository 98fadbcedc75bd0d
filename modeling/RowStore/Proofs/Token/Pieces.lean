import Mathlib.Algebra.Ring.Parity
import RowStore.Token.Lexer

/-!
# The pieces of a text

Where a text is cut, told by positions and without a scan. A position is quoted if an odd number of
quotes comes before it. Unquoted blanks and marks delimit; the pieces of a text are its unquoted
marks and the longest runs between delimiters. Every other position lies in exactly one run.
-/

namespace RowStore

/-- The marks and their tokens. -/
def marks : List (Char × Token) :=
  [('(', .openParen), (')', .closeParen), (',', .comma), (';', .semicolon)]

theorem ofMark?_eq_some {c : Char} {token : Token} :
    Token.ofMark? c = some token ↔ (c, token) ∈ marks := by
  unfold Token.ofMark? marks
  grind

theorem ofMark?_eq_none {c : Char} : Token.ofMark? c = none ↔ c ∉ marks.map Prod.fst := by
  unfold Token.ofMark? marks
  grind

theorem exists_mark {c : Char} (h : c ∈ marks.map Prod.fst) :
    ∃ token, Token.ofMark? c = some token := by
  rwa [← Option.ne_none_iff_exists', ne_eq, ofMark?_eq_none, not_not]

theorem ofMark?_of_isBlank {c : Char} (h : Text.isBlank c) : Token.ofMark? c = none := by
  rw [ofMark?_eq_none]
  intro hc
  obtain rfl | rfl | rfl | rfl : c = '(' ∨ c = ')' ∨ c = ',' ∨ c = ';' := by simpa [marks] using hc
  all_goals revert h; decide

/-- What delimits is not a quote. -/
theorem ne_quote_of_delimits {c : Char} (h : Text.isBlank c ∨ c ∈ marks.map Prod.fst) :
    c ≠ quote := by
  rintro rfl
  revert h
  decide

/-! ## Positions -/

section Positions

variable (cs : List Char)

/-- An odd number of quotes comes before the position. -/
def Quoted (i : Nat) : Prop := Odd ((cs.take i).count quote)

/-- The mark `token` stands unquoted at the position. -/
def IsMark (i : Nat) (token : Token) : Prop :=
  ¬Quoted cs i ∧ ∃ c, cs[i]? = some c ∧ (c, token) ∈ marks

/-- A blank or a mark stands unquoted at the position. -/
def IsDelimiter (i : Nat) : Prop :=
  ¬Quoted cs i ∧ ∃ c, cs[i]? = some c ∧ (Text.isBlank c ∨ c ∈ marks.map Prod.fst)

/-- There is no delimiter from `i` up to but without `j`, and the characters on both sides, where
there are any, are delimiters. -/
structure IsRun (i j : Nat) : Prop where
  nonempty : i < j
  le_length : j ≤ cs.length
  solid : ∀ k, i ≤ k → k < j → ¬IsDelimiter cs k
  left : i = 0 ∨ IsDelimiter cs (i - 1)
  right : j = cs.length ∨ IsDelimiter cs j

end Positions

variable {cs : List Char} {i j k : Nat}

theorem IsDelimiter.lt_length (h : IsDelimiter cs k) : k < cs.length := by
  obtain ⟨-, c, hc, -⟩ := h
  exact (List.getElem?_eq_some_iff.1 hc).1

theorem IsMark.isDelimiter {token : Token} (h : IsMark cs k token) : IsDelimiter cs k := by
  obtain ⟨hq, c, hc, hmark⟩ := h
  exact ⟨hq, c, hc, .inr (List.mem_map.2 ⟨_, hmark, rfl⟩)⟩

theorem IsMark.token_unique {token token' : Token} (h : IsMark cs k token)
    (h' : IsMark cs k token') : token = token' := by
  obtain ⟨-, c, hc, hmark⟩ := h
  obtain ⟨-, c', hc', hmark'⟩ := h'
  obtain rfl : c = c' := Option.some.inj (hc.symm.trans hc')
  rw [← ofMark?_eq_some] at hmark hmark'
  exact Option.some.inj (hmark.symm.trans hmark')

/-! ## Positions of a longer text -/

section Append

variable {word rest : List Char} {c : Char}

theorem isDelimiter_append {k : Nat} (hk : k < word.length) :
    IsDelimiter (word ++ rest) k ↔ IsDelimiter word k := by
  rw [IsDelimiter, IsDelimiter, Quoted, Quoted, List.take_append_of_le_length (Nat.le_of_lt hk),
    List.getElem?_append_left hk]

theorem isDelimiter_length :
    IsDelimiter (word ++ c :: rest) word.length ↔
      ¬Odd (word.count quote) ∧ (Text.isBlank c ∨ c ∈ marks.map Prod.fst) := by
  rw [IsDelimiter, Quoted, List.take_left]
  simp

theorem odd_count_concat :
    Odd ((word ++ [c]).count quote) ↔
      if c = quote then ¬Odd (word.count quote) else Odd (word.count quote) := by
  rw [List.count_append, List.count_singleton]
  by_cases hc : c = quote
  · rw [if_pos hc, if_pos (beq_iff_eq.2 hc), Nat.odd_add_one]
  · rw [if_neg hc, if_neg (mt beq_iff_eq.1 hc), Nat.add_zero]

end Append

/-! ## Runs -/

theorem exists_left (hk : ¬IsDelimiter cs k) :
    ∃ i ≤ k, (∀ m, i ≤ m → m ≤ k → ¬IsDelimiter cs m) ∧ (i = 0 ∨ IsDelimiter cs (i - 1)) := by
  induction k with
  | zero => exact ⟨0, le_rfl, by simpa using hk, .inl rfl⟩
  | succ k ih =>
    by_cases hprev : IsDelimiter cs k
    · refine ⟨k + 1, le_rfl, fun m h₁ h₂ => ?_, .inr hprev⟩
      rwa [le_antisymm h₂ h₁]
    · obtain ⟨i, hi, hsolid, hleft⟩ := ih hprev
      refine ⟨i, by omega, fun m h₁ h₂ => ?_, hleft⟩
      obtain hm | rfl := Nat.le_succ_iff.1 h₂
      · exact hsolid m h₁ hm
      · exact hk

theorem exists_right (hlen : k < cs.length) (hk : ¬IsDelimiter cs k) :
    ∃ j ≤ cs.length, k < j ∧ (∀ m, k ≤ m → m < j → ¬IsDelimiter cs m) ∧
      (j = cs.length ∨ IsDelimiter cs j) := by
  induction hd : cs.length - k generalizing k with
  | zero => omega
  | succ d ih =>
    have hnext (m : Nat) (h₁ : k ≤ m) (h₂ : m < k + 1) : ¬IsDelimiter cs m := by
      rwa [show m = k by omega]
    by_cases hend : k + 1 = cs.length
    · exact ⟨k + 1, by omega, by omega, hnext, .inl hend⟩
    · by_cases hdel : IsDelimiter cs (k + 1)
      · exact ⟨k + 1, by omega, by omega, hnext, .inr hdel⟩
      · obtain ⟨j, hj, hkj, hsolid, hright⟩ := ih (by omega) hdel (by omega)
        refine ⟨j, hj, by omega, fun m h₁ h₂ => ?_, hright⟩
        by_cases hm : m < k + 1
        · exact hnext m h₁ hm
        · exact hsolid m (by omega) h₂

/-- No character outside delimiters is lost. -/
theorem exists_run (hlen : k < cs.length) (hk : ¬IsDelimiter cs k) :
    ∃ i j, IsRun cs i j ∧ i ≤ k ∧ k < j := by
  obtain ⟨i, hik, hsolid, hleft⟩ := exists_left hk
  obtain ⟨j, hj, hkj, hsolid', hright⟩ := exists_right hlen hk
  refine ⟨i, j, ⟨by omega, hj, fun m h₁ h₂ => ?_, hleft, hright⟩, hik, hkj⟩
  by_cases hm : m ≤ k
  · exact hsolid m h₁ hm
  · exact hsolid' m (by omega) h₂

theorem IsRun.not_isDelimiter_start (h : IsRun cs i j) : ¬IsDelimiter cs i :=
  h.solid i (le_refl i) h.nonempty

/-- A run starts outside quotation. -/
theorem IsRun.not_quoted (h : IsRun cs i j) : ¬Quoted cs i := by
  cases i with
  | zero => simp [Quoted]
  | succ k =>
    obtain hzero | ⟨hquoted, c, hc, hdel⟩ := h.left
    · cases hzero
    · rw [Quoted, List.take_add_one, Nat.add_sub_cancel] at *
      rw [hc, Option.toList_some, odd_count_concat, if_neg (ne_quote_of_delimits hdel)]
      exact hquoted

/-- A run that starts behind the start of another one starts behind its end. -/
theorem IsRun.lt_of_lt {i' j' : Nat} (h : IsRun cs i j) (h' : IsRun cs i' j') (hlt : i < i') :
    j < i' := by
  obtain hz | hdel := h'.left
  · omega
  · by_contra hle
    exact h.solid (i' - 1) (by omega) (by omega) hdel

theorem IsRun.right_unique {j' : Nat} (h : IsRun cs i j) (h' : IsRun cs i j') : j = j' := by
  have hle {j j' : Nat} (h : IsRun cs i j) (h' : IsRun cs i j') : j ≤ j' := by
    have := h.le_length
    have := h'.nonempty
    obtain hend | hdel := h'.right
    · omega
    · by_contra hlt
      exact h.solid j' (by omega) (by omega) hdel
  exact le_antisymm (hle h h') (hle h' h)

/-- No character outside delimiters is in two runs. -/
theorem IsRun.unique {i' j' : Nat} (h : IsRun cs i j) (h' : IsRun cs i' j') (hi : i ≤ k)
    (hj : k < j) (hi' : i' ≤ k) (hj' : k < j') : i = i' ∧ j = j' := by
  obtain hlt | rfl | hgt := lt_trichotomy i i'
  · have := h.lt_of_lt h' hlt
    omega
  · exact ⟨rfl, h.right_unique h'⟩
  · have := h'.lt_of_lt h hgt
    omega

/-! ## Pieces -/

inductive Piece where
  | mark (position : Nat) (token : Token)
  /-- The positions from `start` up to but without `stop`. -/
  | run (start stop : Nat)

namespace Piece

def start : Piece → Nat
  | mark position _ => position
  | run start _ => start

def Covers (k : Nat) : Piece → Prop
  | mark position _ => position = k
  | run start stop => start ≤ k ∧ k < stop

def In (cs : List Char) : Piece → Prop
  | mark position token => IsMark cs position token
  | run start stop => IsRun cs start stop

/-- What a piece is read as. The run in which an odd number of quotes leaves the text open is the
text behind its first quote, if it starts with one. -/
def token (cs : List Char) : Piece → Except NumeralFault Token
  | mark _ token => .ok token
  | run start stop =>
    let word := (cs.take stop).drop start
    if Odd (cs.count quote) ∧ stop = cs.length ∧ word.head? = some quote then
      .ok (.string (String.ofList word.tail))
    else Token.ofWord word

end Piece

theorem existsUnique_piece (hlen : k < cs.length) (hk : ¬IsDelimiter cs k) :
    ∃! p : Piece, p.In cs ∧ p.Covers k := by
  obtain ⟨i, j, hrun, hik, hkj⟩ := exists_run hlen hk
  refine ⟨.run i j, ⟨hrun, hik, hkj⟩, ?_⟩
  rintro (⟨position, token⟩ | ⟨i', j'⟩) ⟨hin, hcovers⟩
  · obtain rfl : position = k := hcovers
    exact absurd hin.isDelimiter hk
  · obtain ⟨rfl, rfl⟩ := IsRun.unique hin hrun hcovers.1 hcovers.2 hik hkj
    rfl

end RowStore
