import RowStore.Proofs.Token.Printing
import RowStore.Proofs.Token.Splitting

/-!
# Texts between quotes

A quote within quotes is not escaped: it leaves quotation until the next one. So a text between
quotes is read as itself exactly if its own quotes come in pairs and no delimiter stands where they
leave quotation (`Token.ofText_quoted_iff`). Any other one is cut or left open.
-/

namespace RowStore

variable {cs : List Char} {k : Nat}

/-- A text that quotes can be put around: its own quotes come in pairs, and between the two quotes
of a pair there is no delimiter. -/
structure Quotable (cs : List Char) : Prop where
  even : Even (cs.count quote)
  solid : ∀ k c, Quoted cs k → cs[k]? = some c → ¬(Text.isBlank c ∨ c ∈ marks.map Prod.fst)

/-! ## Positions behind an opening quote -/

theorem not_isDelimiter_of_quote (h : cs[k]? = some quote) : ¬IsDelimiter cs k := by
  rintro ⟨-, c, hc, hdel⟩
  exact ne_quote_of_delimits hdel (Option.some.inj (hc.symm.trans h))

/-- Behind one more quote, the quoted positions are those that were not. -/
theorem isDelimiter_quote_cons :
    IsDelimiter (quote :: cs) (k + 1) ↔
      Quoted cs k ∧ ∃ c, cs[k]? = some c ∧ (Text.isBlank c ∨ c ∈ marks.map Prod.fst) := by
  rw [IsDelimiter, Quoted, List.take_succ_cons, List.count_cons_self, Nat.odd_add_one, not_not,
    List.getElem?_cons_succ]
  rfl

theorem solid_quote_cons_iff :
    Solid (quote :: cs) ↔
      ∀ k c, Quoted cs k → cs[k]? = some c → ¬(Text.isBlank c ∨ c ∈ marks.map Prod.fst) := by
  constructor
  · intro h k c hquoted hc hdel
    exact h (k + 1) (isDelimiter_quote_cons.2 ⟨hquoted, c, hc, hdel⟩)
  · intro h k hk
    cases k with
    | zero => exact not_isDelimiter_of_quote rfl hk
    | succ k =>
      obtain ⟨hquoted, c, hc, hdel⟩ := isDelimiter_quote_cons.1 hk
      exact h k c hquoted hc hdel

theorem odd_count_quoted :
    Odd ((quote :: (cs ++ [quote])).count quote) ↔ ¬Even (cs.count quote) := by
  rw [← List.cons_append, odd_count_concat, if_pos rfl, List.count_cons_self, Nat.odd_add_one,
    not_not, Nat.not_even_iff_odd]

theorem quotable_iff :
    Quotable cs ↔ Solid (quote :: (cs ++ [quote])) ∧
      ¬Odd ((quote :: (cs ++ [quote])).count quote) := by
  have hsolid : Solid (quote :: (cs ++ [quote])) ↔ Solid (quote :: cs) := by
    rw [← List.cons_append, Solid.concat_iff]
    exact and_iff_left fun hdel => ne_quote_of_delimits hdel.2 rfl
  rw [hsolid, solid_quote_cons_iff, odd_count_quoted, not_not]
  exact ⟨fun h => ⟨h.solid, h.even⟩, fun h => ⟨h.2, h.1⟩⟩

namespace Token

variable {s : String}

theorem toList_quoted (s : String) :
    ("'" ++ s ++ "'").toList = quote :: (s.toList ++ [quote]) := by
  rw [String.toList_append, String.toList_append]
  rfl

theorem ofText_quoted (h : Quotable s.toList) : ofText ("'" ++ s ++ "'") = .ok [.string s] := by
  obtain ⟨hsolid, heven⟩ := quotable_iff.1 h
  have hread := ofWord_quoted s.toList
  rw [String.ofList_toList] at hread
  exact ofText_of_lexeme (l := .word _) ⟨List.cons_ne_nil _ _, hsolid, heven⟩ (toList_quoted s) hread

theorem written_quoted (h : Quotable s.toList) : Written ("'" ++ s ++ "'") [.string s] where
  read := ofText_quoted h
  even := by
    rw [toList_quoted, ← Nat.not_odd_iff_even]
    exact (quotable_iff.1 h).2

/-- If a text between quotes has one token, then its first and its last character are in one run,
as quotes do not delimit. -/
theorem isRun_of_single {t : Token} (h : ofText ("'" ++ s ++ "'") = .ok [t]) :
    IsRun (quote :: (s.toList ++ [quote])) 0 (s.toList.length + 2) ∧
      (Piece.run 0 (s.toList.length + 2)).token (quote :: (s.toList ++ [quote])) = .ok t := by
  obtain ⟨pieces, hpieces, htext⟩ := exists_pieces_of_text ("'" ++ s ++ "'")
  have hread := Except.mapM_eq_ok.1 (htext.trans h)
  rw [toList_quoted] at hpieces hread
  obtain ⟨p, rfl⟩ := List.length_eq_one_iff.1 hread.length_eq
  have hrun {i j : Nat} (hij : IsRun (quote :: (s.toList ++ [quote])) i j) : .run i j = p :=
    List.mem_singleton.1 ((hpieces.mem_iff _).2 ⟨hij, Nat.zero_le _⟩)
  have hlength : (quote :: (s.toList ++ [quote])).length = s.toList.length + 2 := by simp
  obtain ⟨i, j, hfirst, hi, -⟩ :=
    exists_run (k := 0) (by rw [hlength]; omega) (not_isDelimiter_of_quote rfl)
  obtain ⟨i', j', hlast, -, hj'⟩ := exists_run (k := s.toList.length + 1)
    (by rw [hlength]; omega) (not_isDelimiter_of_quote (by simp))
  obtain rfl := hrun hfirst
  obtain ⟨rfl, rfl⟩ := Piece.run.inj (hrun hlast)
  obtain rfl : i' = 0 := Nat.le_zero.1 hi
  obtain rfl : j' = s.toList.length + 2 := by
    have := hlast.le_length
    omega
  exact ⟨hlast, (List.forall₂_cons.1 hread).1⟩

theorem quotable_of_ofText (h : ofText ("'" ++ s ++ "'") = .ok [.string s]) :
    Quotable s.toList := by
  obtain ⟨hrun, htoken⟩ := isRun_of_single h
  refine quotable_iff.2 ⟨fun k hk => ?_, fun hopen => ?_⟩
  · have hlt : k < s.toList.length + 2 := by
      have := hk.lt_length
      rwa [List.length_cons, List.length_append, List.length_singleton] at this
    exact hrun.solid k (Nat.zero_le k) hlt hk
  · have hlength : s.toList.length + 2 = (quote :: (s.toList ++ [quote])).length := by simp
    rw [Piece.token, if_pos ⟨hopen, hlength, by simp⟩] at htoken
    rw [hlength, List.take_length, List.drop_zero] at htoken
    -- An open text keeps its last quote.
    have hlonger : s.toList ++ [quote] = s.toList := by
      rw [← String.toList_ofList (l := s.toList ++ [quote])]
      exact congrArg String.toList (Token.string.inj (Except.ok.inj htoken))
    simpa using congrArg List.length hlonger

/-- Quotes can be put around the texts that are quotable and around no others. -/
theorem ofText_quoted_iff : ofText ("'" ++ s ++ "'") = .ok [.string s] ↔ Quotable s.toList :=
  ⟨quotable_of_ofText, ofText_quoted⟩

end Token

end RowStore
