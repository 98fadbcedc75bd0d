import Mathlib.Data.List.Induction
import RowStore.Proofs.Token.Scanning

/-!
# Lexemes keep apart

The words that the scan finds hold no delimiter, and only the last one may end inside quotation. So
a single blank behind each lexeme is enough to keep them apart: when the scan reads the lexemes that
it found, written with blanks between them, it finds the same ones (`Lexeme.scan_intercalate`).
-/

namespace RowStore

variable {word rest : List Char} {c : Char}

/-! ## Words without a delimiter -/

/-- No position of the word delimits. -/
def Solid (word : List Char) : Prop := ∀ k, ¬IsDelimiter word k

namespace Solid

theorem nil : Solid [] := fun _ h => absurd h.lt_length (Nat.not_lt_zero _)

theorem concat_iff :
    Solid (word ++ [c]) ↔
      Solid word ∧ ¬(¬Odd (word.count quote) ∧ (Text.isBlank c ∨ c ∈ marks.map Prod.fst)) := by
  rw [← @isDelimiter_length word [] c]
  constructor
  · intro h
    refine ⟨fun k hk => ?_, h _⟩
    exact h k ((isDelimiter_append hk.lt_length).2 hk)
  · rintro ⟨hword, hlast⟩ k hk
    have hlt : k < (word ++ [c]).length := hk.lt_length
    rw [List.length_append, List.length_singleton] at hlt
    obtain hlt | rfl := Nat.lt_succ_iff_lt_or_eq.1 hlt
    · exact hword k ((isDelimiter_append hlt).1 hk)
    · exact hlast hk

/-- A quote never delimits. -/
theorem concat_quote (h : Solid word) : Solid (word ++ [quote]) :=
  concat_iff.2 ⟨h, fun hdel => ne_quote_of_delimits hdel.2 rfl⟩

end Solid

/-- Whether a character never delimits and is no quote. -/
def isPlain (c : Char) : Bool :=
  !Text.isBlank c && c ∉ marks.map Prod.fst && c != quote

theorem isPlain_iff :
    isPlain c ↔ ¬(Text.isBlank c ∨ c ∈ marks.map Prod.fst) ∧ c ≠ quote := by
  simp [isPlain]

theorem solid_of_isPlain (h : word.all isPlain) : Solid word := by
  rintro k ⟨-, c, hc, hdel⟩
  exact (isPlain_iff.1 (List.all_eq_true.1 h c (List.mem_of_getElem? hc))).1 hdel

theorem count_quote_of_isPlain (h : word.all isPlain) : word.count quote = 0 :=
  List.count_eq_zero.2 fun hquote => (isPlain_iff.1 (List.all_eq_true.1 h quote hquote)).2 rfl

/-! ## What the scan gives -/

namespace Lexeme

def chars : Lexeme → List Char
  | .mark token => token.text.toList
  | .word word => word
  | .unclosed word => word

/-- A lexeme that a scan can give. A word that ends before the text does has an even number of
quotes. -/
def Proper : Lexeme → Prop
  | .mark token => token ∈ marks.map Prod.snd
  | .word word => word ≠ [] ∧ Solid word ∧ ¬Odd (word.count quote)
  | .unclosed word => Solid word ∧ Odd (word.count quote)

theorem proper_of_isPlain (hne : word ≠ []) (h : word.all isPlain) :
    (Lexeme.word word).Proper := by
  refine ⟨hne, solid_of_isPlain h, ?_⟩
  rw [count_quote_of_isPlain h]
  decide

/-- Whether the text goes on outside quotation. -/
def Closed : Lexeme → Prop
  | .unclosed _ => False
  | _ => True

theorem ofPending_reverse (h : word ≠ []) : ofPending word.reverse = [.word word] := by
  rw [ofPending, if_neg (mt List.reverse_eq_nil_iff.1 h), List.reverse_reverse]

/-- Proper lexemes, of which only the last one may be unclosed. -/
structure Tidy (ls : List Lexeme) : Prop where
  proper : ∀ l ∈ ls, l.Proper
  closed : ls.Pairwise fun l _ => l.Closed

namespace Tidy

variable {l : Lexeme} {ls : List Lexeme}

theorem nil : Tidy [] := ⟨List.forall_mem_nil _, .nil⟩

theorem singleton (h : l.Proper) : Tidy [l] := by
  refine ⟨?_, List.pairwise_singleton _ _⟩
  simpa using h

theorem cons (h : l.Proper) (hclosed : l.Closed) (hls : Tidy ls) : Tidy (l :: ls) where
  proper := List.forall_mem_cons.2 ⟨h, hls.proper⟩
  closed := List.pairwise_cons.2 ⟨fun _ _ => hclosed, hls.closed⟩

theorem tail (h : Tidy (l :: ls)) : Tidy ls where
  proper := (List.forall_mem_cons.1 h.proper).2
  closed := (List.pairwise_cons.1 h.closed).2

/-- A word that ends in front of a delimiter. -/
theorem ofPending (hsolid : Solid word) (heven : ¬Odd (word.count quote)) (hls : Tidy ls) :
    Tidy (ofPending word.reverse ++ ls) := by
  by_cases hne : word = []
  · rw [hne]
    exact hls
  · rw [ofPending_reverse hne, List.singleton_append]
    exact hls.cons ⟨hne, hsolid, heven⟩ trivial

end Tidy

/-- A character that does not delimit goes to the word. -/
theorem scan_concat
    (h : ¬(¬Odd (word.count quote) ∧ (Text.isBlank c ∨ c ∈ marks.map Prod.fst))) :
    scan (decide (Odd (word.count quote))) word.reverse (c :: rest) =
      scan (decide (Odd ((word ++ [c]).count quote))) (word ++ [c]).reverse rest := by
  have hparity :
      (if c = quote then !decide (Odd (word.count quote)) else decide (Odd (word.count quote))) =
        decide (Odd ((word ++ [c]).count quote)) := by
    by_cases hc : c = quote
    · rw [if_pos hc, ← decide_not, decide_eq_decide, odd_count_concat, if_pos hc]
    · rw [if_neg hc, decide_eq_decide, odd_count_concat, if_neg hc]
  rw [scan_push (by rwa [decide_eq_false_iff_not]), hparity, List.reverse_concat]

/-- While the scan reads a word, the word holds no delimiter and the flag is the parity of its
quotes. -/
theorem tidy_scan (h : Solid word) :
    Tidy (scan (decide (Odd (word.count quote))) word.reverse rest) := by
  induction rest generalizing word with
  | nil =>
    by_cases hodd : Odd (word.count quote)
    · rw [decide_eq_true hodd, scan, if_pos rfl, List.reverse_reverse]
      exact .singleton ⟨h, hodd⟩
    · rw [decide_eq_false hodd, scan, if_neg Bool.false_ne_true, ← List.append_nil (ofPending _)]
      exact .ofPending h hodd .nil
  | cons c rest ih =>
    by_cases hdel : ¬Odd (word.count quote) ∧ (Text.isBlank c ∨ c ∈ marks.map Prod.fst)
    · obtain ⟨heven, hc⟩ := hdel
      have hrest : Tidy (scan false [] rest) := ih .nil
      rw [decide_eq_false heven]
      by_cases hblank : Text.isBlank c
      · rw [scan_blank hblank]
        exact .ofPending h heven hrest
      · obtain ⟨token, htoken⟩ := exists_mark (hc.resolve_left hblank)
        rw [scan_mark hblank htoken]
        have hproper : (mark token).Proper := List.mem_map.2 ⟨_, ofMark?_eq_some.1 htoken, rfl⟩
        exact .ofPending h heven (hrest.cons hproper trivial)
    · rw [scan_concat hdel]
      exact ih (Solid.concat_iff.2 ⟨h, hdel⟩)

theorem tidy_ofText (text : String) : Tidy (ofText text) := tidy_scan .nil

/-! ## Reading lexemes back -/

theorem scan_solid (h : Solid word) :
    scan false [] (word ++ rest) = scan (decide (Odd (word.count quote))) word.reverse rest := by
  induction word using List.reverseRecOn generalizing rest with
  | nil => rfl
  | append_singleton word c ih =>
    obtain ⟨hword, hdel⟩ := Solid.concat_iff.1 h
    rw [List.append_assoc, List.singleton_append, ih hword, scan_concat hdel]

theorem chars_mark {token : Token} (h : (c, token) ∈ marks) : (mark token).chars = [c] := by
  simp only [marks, List.mem_cons, Prod.mk.injEq, List.not_mem_nil, or_false] at h
  obtain ⟨rfl, rfl⟩ | ⟨rfl, rfl⟩ | ⟨rfl, rfl⟩ | ⟨rfl, rfl⟩ := h <;> rfl

theorem scan_chars_mark {token : Token} (h : token ∈ marks.map Prod.snd) :
    scan false [] ((mark token).chars ++ rest) = mark token :: scan false [] rest := by
  obtain ⟨⟨c, token⟩, hmark, rfl⟩ := List.mem_map.1 h
  have hc : Token.ofMark? c = some token := ofMark?_eq_some.2 hmark
  have hblank : ¬Text.isBlank c := by
    intro hblank
    rw [ofMark?_of_isBlank hblank] at hc
    cases hc
  rw [chars_mark hmark, List.singleton_append, scan_mark hblank hc]
  rfl

theorem scan_chars {l : Lexeme} (h : l.Proper) : scan false [] l.chars = [l] := by
  rw [← List.append_nil l.chars]
  cases l with
  | mark token => exact scan_chars_mark h
  | word word =>
    obtain ⟨hne, hsolid, heven⟩ := h
    rw [chars, scan_solid hsolid, decide_eq_false heven]
    exact ofPending_reverse hne
  | unclosed word =>
    obtain ⟨hsolid, hodd⟩ := h
    rw [chars, scan_solid hsolid, decide_eq_true hodd, scan, if_pos rfl, List.reverse_reverse]

/-- A blank ends every lexeme but an unclosed one. -/
theorem scan_chars_blank {l : Lexeme} (h : l.Proper) (hclosed : l.Closed)
    (hc : Text.isBlank c) : scan false [] (l.chars ++ c :: rest) = l :: scan false [] rest := by
  cases l with
  | mark token => rw [scan_chars_mark h, scan_blank hc, ofPending, if_pos rfl, List.nil_append]
  | word word =>
    obtain ⟨hne, hsolid, heven⟩ := h
    rw [chars, scan_solid hsolid, decide_eq_false heven, scan_blank hc, ofPending_reverse hne,
      List.singleton_append]
  | unclosed word => exact hclosed.elim

/-- Written with single blanks between them, tidy lexemes are found again. -/
theorem scan_intercalate {ls : List Lexeme} (h : Tidy ls) :
    scan false [] (List.intercalate [' '] (ls.map chars)) = ls := by
  induction ls with
  | nil => rfl
  | cons l ls ih =>
    have hproper : l.Proper := h.proper l List.mem_cons_self
    cases ls with
    | nil =>
      rw [List.map_singleton, List.intercalate_singleton]
      exact scan_chars hproper
    | cons l' ls =>
      have hclosed : l.Closed := List.rel_of_pairwise_cons h.closed List.mem_cons_self
      rw [List.map_cons, List.map_cons, List.intercalate_cons_cons, List.append_assoc,
        List.singleton_append, scan_chars_blank hproper hclosed (by decide), ← List.map_cons,
        ih h.tail]

end Lexeme

/-- A text that is a single lexeme has its token only. -/
theorem Token.ofText_of_lexeme {text : String} {l : Lexeme} {t : Token} (h : l.Proper)
    (hchars : text.toList = l.chars) (hread : ofLexeme l = .ok t) : ofText text = .ok [t] := by
  rw [ofText, Lexeme.ofText, hchars, Lexeme.scan_chars h, Except.mapM_eq_ok]
  exact .cons hread .nil

end RowStore
