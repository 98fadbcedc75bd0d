import RowStore.Proofs.Token.Lexemes
import RowStore.Proofs.Token.Reserved
import RowStore.Proofs.Token.Unsigned

/-!
# Printed tokens are read back

A token is printed without knowledge of the word that it was read from: a keyword in capitals, an
integer without leading zeros, a string within quotes even if its last quote was missing. Every
other token is printed as its word. Each of these prints is again a lexeme that is read as the token
(`Token.exists_shows`), so the tokens of a text are those of their own print
(`Token.ofText_intercalate_text`). Doubles are left out: a large one is printed with an exponent,
which is read as a name.
-/

namespace RowStore

/-! ## Words with a quote or a digit -/

def decimals : List Char := "0123456789".toList

theorem mem_decimals {c : Char} (h : c.isDigit) : c ∈ decimals := by
  obtain ⟨hlow, hhigh⟩ := Char.isDigit_iff_toNat.1 h
  have htable : ∀ n < 10, Char.ofNat ('0'.toNat + n) ∈ decimals := by decide
  have hc := htable (c.toNat - '0'.toNat) (Nat.sub_lt_left_of_lt_add hlow (Nat.lt_succ_of_le hhigh))
  rwa [Nat.add_sub_cancel' hlow, Char.ofNat_toNat] at hc

theorem isPlain_of_isDigit {c : Char} (h : c.isDigit) : isPlain c := by
  have hdecimals : decimals.all isPlain := by decide
  exact List.all_eq_true.1 hdecimals c (mem_decimals h)

/-- The characters of a keyword are letters. -/
theorem Keyword.ofWord?_eq_none {word : List Char} {c : Char} (hc : c ∈ word)
    (h : c = quote ∨ c.isDigit) : ofWord? (String.ofList word) = none := by
  cases hword : ofWord? (String.ofList word) with
  | none => rfl
  | some k =>
    have hletter : 65 ≤ c.toNat := le_toNat_of_mem hword (String.toList_ofList.symm ▸ hc)
    obtain rfl | hdigit := h
    · exact absurd hletter (by decide)
    · have hlast : c.toNat ≤ '9'.toNat := (Char.isDigit_iff_toNat.1 hdigit).2
      exact absurd (Nat.le_trans hletter hlast) (by decide)

namespace Token

variable {word : List Char} {t : Token}

theorem ne_of_mem {c : Char} {fixed : List Char} (hc : c ∈ word) (h : c = quote ∨ c.isDigit)
    (hfixed : fixed.all fun c => ¬(c = quote ∨ c.isDigit)) : word ≠ fixed := by
  rintro rfl
  exact of_decide_eq_true (List.all_eq_true.1 hfixed c hc) h

theorem ofReserved?_eq_none {c : Char} (hc : c ∈ word) (h : c = quote ∨ c.isDigit) :
    ofReserved? word = none := by
  rw [ofReserved?, if_neg (ne_of_mem hc h (by decide)), if_neg (ne_of_mem hc h (by decide)),
    Keyword.ofWord?_eq_none hc h, Option.map_none]

theorem ofTruth?_eq_none {c : Char} (hc : c ∈ word) (h : c = quote ∨ c.isDigit) :
    ofTruth? word = none := by
  rw [ofTruth?, if_neg (ne_of_mem hc h (by decide)), if_neg (ne_of_mem hc h (by decide))]

theorem ofNumber?_digits {n : Int64} (h : 0 ≤ n) :
    ofNumber? (Numeral.digits n.toInt.natAbs) = .ok (some (.integer n)) := by
  obtain ⟨hne, hdigits⟩ := Numeral.isDigits_digits n.toInt.natAbs
  unfold ofNumber?
  rw [List.takeWhile_eq_self_iff.2 hdigits, List.dropWhile_eq_nil_iff.2 hdigits, if_neg hne]
  dsimp only
  rw [Numeral.readInteger_digits h]

/-! ## Words as which tokens are printed -/

theorem ofWord_name (k : Keyword) : ofWord k.name.toList = .ok (.keyword k) := by
  rw [ofWord_eq_keyword, String.ofList_toList]
  exact Keyword.ofWord?_name k

theorem ofWord_digits {n : Int64} (h : 0 ≤ n) :
    ofWord (Numeral.digits n.toInt.natAbs) = .ok (.integer n) := by
  obtain ⟨hne, hdigits⟩ := Numeral.isDigits_digits n.toInt.natAbs
  obtain ⟨c, hc⟩ := List.exists_mem_of_ne_nil _ hne
  have hdigit : c = quote ∨ c.isDigit := .inr (hdigits c hc)
  rw [ofWord, ofReserved?_eq_none hc hdigit, ofTruth?_eq_none hc hdigit, ofNumber?_digits h]

theorem ofWord_quoted (s : List Char) :
    ofWord (quote :: (s ++ [quote])) = .ok (.string (String.ofList s)) := by
  have hquote : quote ∈ quote :: (s ++ [quote]) := List.mem_cons_self
  have hnumber : ofNumber? (quote :: (s ++ [quote])) = .ok none := rfl
  rw [ofWord, ofReserved?_eq_none hquote (.inl rfl), ofTruth?_eq_none hquote (.inl rfl), hnumber]
  simp [ofQuoted?]

/-! ## Printed tokens -/

namespace Spells

/-- All tokens but keywords and numbers are printed as their word. -/
theorem verbatim (h : Spells word t) (hkeyword : ∀ k, t ≠ .keyword k)
    (hinteger : ∀ n, t ≠ .integer n) (hfloat : ∀ x, t ≠ .float x) : word = t.text.toList := by
  cases h with
  | asterisk => rfl
  | equal => rfl
  | keyword => exact absurd rfl (hkeyword _)
  | boolean => rfl
  | integer => exact absurd rfl (hinteger _)
  | float => exact absurd rfl (hfloat _)
  | string s => simp [text, quote]
  | ident word => exact String.toList_ofList.symm

theorem ne_keyword (h : Spells word t) (hquote : quote ∈ word) (k : Keyword) :
    t ≠ .keyword k := by
  rintro rfl
  cases h with
  | keyword hk =>
    rw [Keyword.ofWord?_eq_none hquote (.inl rfl)] at hk
    cases hk

theorem ne_integer (h : Spells word t) (hquote : quote ∈ word) (n : Int64) :
    t ≠ .integer n := by
  rintro rfl
  cases h with
  | integer hdigits => exact absurd (hdigits quote hquote) (by decide)

end Spells

/-- The lexeme has the token's text and is read as the token. -/
structure Shows (l : Lexeme) (t : Token) : Prop where
  proper : l.Proper
  chars : l.chars = t.text.toList
  read : ofLexeme l = .ok t

theorem shows_word (hne : word ≠ []) (hplain : word.all isPlain) (htext : word = t.text.toList)
    (hread : ofWord word = .ok t) : Shows (.word word) t where
  proper := Lexeme.proper_of_isPlain hne hplain
  chars := htext
  read := hread

theorem shows_keyword (k : Keyword) : Shows (.word k.name.toList) (.keyword k) := by
  refine shows_word ?_ ?_ rfl (ofWord_name k) <;> cases k <;> decide

theorem shows_integer {n : Int64} (h : 0 ≤ n) :
    Shows (.word (Numeral.digits n.toInt.natAbs)) (.integer n) := by
  obtain ⟨hne, hdigits⟩ := Numeral.isDigits_digits n.toInt.natAbs
  have hplain : (Numeral.digits n.toInt.natAbs).all isPlain :=
    List.all_eq_true.2 fun c hc => isPlain_of_isDigit (hdigits c hc)
  exact shows_word hne hplain (Numeral.toList_writeInteger h).symm (ofWord_digits h)

/-- Text that was closed by the end of the text is printed with a second quote. -/
theorem shows_string {s : List Char} (hsolid : Solid (quote :: s))
    (hodd : Odd ((quote :: s).count quote)) :
    Shows (.word (quote :: (s ++ [quote]))) (.string (String.ofList s)) where
  proper := by
    rw [← List.cons_append]
    refine ⟨by simp, hsolid.concat_quote, ?_⟩
    rw [odd_count_concat, if_pos rfl, not_not]
    exact hodd
  chars := by simp [Lexeme.chars, text, quote]
  read := ofWord_quoted s

/-- A token that is no double is shown by a lexeme, which is closed if the token was read from a
closed one. -/
theorem exists_shows {l : Lexeme} (hl : l.Proper) (h : ofLexeme l = .ok t)
    (hfloat : ∀ x, t ≠ .float x) : ∃ l', Shows l' t ∧ (l.Closed → l'.Closed) := by
  cases l with
  | mark token =>
    obtain rfl : token = t := Except.ok.inj h
    exact ⟨.mark token, ⟨hl, rfl, rfl⟩, id⟩
  | word word =>
    have hspells : Spells word t := .of_word h
    cases t with
    | keyword k => exact ⟨_, shows_keyword k, fun _ => trivial⟩
    | integer n => exact ⟨_, shows_integer (unsigned_ofWord h), fun _ => trivial⟩
    | float x => exact absurd rfl (hfloat x)
    | _ => exact ⟨.word word, ⟨hl, hspells.verbatim nofun nofun nofun, h⟩, id⟩
  | unclosed word =>
    obtain ⟨hsolid, hodd⟩ := hl
    have hquote : quote ∈ word := by
      by_contra hquote
      rw [List.count_eq_zero.2 hquote] at hodd
      exact absurd hodd (by decide)
    cases word with
    | nil => cases hquote
    | cons c rest =>
      rw [ofLexeme, ofUnclosed] at h
      by_cases hc : c = quote
      · subst hc
        rw [if_pos rfl] at h
        cases h
        exact ⟨_, shows_string hsolid hodd, fun _ => trivial⟩
      · have hread : ofWord (c :: rest) = .ok t := by rwa [if_neg hc] at h
        have hspells : Spells (c :: rest) t := .of_word hread
        have htext := hspells.verbatim (hspells.ne_keyword hquote) (hspells.ne_integer hquote) hfloat
        exact ⟨.unclosed (c :: rest), ⟨⟨hsolid, hodd⟩, htext, h⟩, id⟩

/-- Tidy lexemes are read as tokens that tidy lexemes show. -/
theorem exists_tidy_shows {ls : List Lexeme} {tokens : List Token} (hls : Lexeme.Tidy ls)
    (h : List.Forall₂ (fun l t => ofLexeme l = .ok t) ls tokens)
    (hfloat : ∀ x, Token.float x ∉ tokens) :
    ∃ ls', Lexeme.Tidy ls' ∧ List.Forall₂ Shows ls' tokens := by
  induction h with
  | nil => exact ⟨[], .nil, .nil⟩
  | @cons l t ls tokens hread hreads ih =>
    obtain ⟨hx, hxs⟩ := forall_and.1 fun x => not_or.1 (mt List.mem_cons.2 (hfloat x))
    obtain ⟨l', hl', hclosed⟩ :=
      exists_shows (hls.proper l List.mem_cons_self) hread fun x => Ne.symm (hx x)
    obtain ⟨ls', hls', hshows⟩ := ih hls.tail hxs
    refine ⟨l' :: ls', ⟨List.forall_mem_cons.2 ⟨hl'.proper, hls'.proper⟩, ?_⟩, .cons hl' hshows⟩
    refine List.pairwise_cons.2 ⟨fun next hnext => hclosed ?_, hls'.closed⟩
    -- A lexeme after `l'` shows a token that was read from a lexeme after `l`.
    cases hreads with
    | nil =>
      cases hshows
      cases hnext
    | cons => exact List.rel_of_pairwise_cons hls.closed List.mem_cons_self

/-- The tokens of a text, printed with single blanks between them, are read back. -/
theorem ofText_intercalate_text {source : String} {tokens : List Token}
    (h : ofText source = .ok tokens) (hfloat : ∀ x, Token.float x ∉ tokens) :
    ofText (" ".intercalate (tokens.map text)) = .ok tokens := by
  obtain ⟨ls, hls, hshows⟩ :=
    exists_tidy_shows (Lexeme.tidy_ofText source) (Except.mapM_eq_ok.1 h) hfloat
  have hchars : (tokens.map text).map String.toList = ls.map Lexeme.chars := by
    rw [List.map_map, ← List.forall₂_eq_eq_eq, List.forall₂_map_left_iff,
      List.forall₂_map_right_iff]
    exact hshows.flip.imp fun _ _ hshow => hshow.chars.symm
  have hscan : Lexeme.ofText (" ".intercalate (tokens.map text)) = ls := by
    rw [Lexeme.ofText, String.toList_intercalate, hchars]
    exact Lexeme.scan_intercalate hls
  rw [ofText, hscan, Except.mapM_eq_ok]
  exact hshows.imp fun _ _ hshow => hshow.read

def sampleTokens : List Token :=
  [.keyword .create, .ident "x'y z'", .integer 7, .openParen, .boolean true, .closeParen,
   .string "it''s, so", .string "left open"]

/-- Keywords get their capitals, numbers lose their zeros and open text gets its last quote. -/
theorem ofText_intercalate_text_sampleTokens :
    ofText "create x'y z' 007(true) 'it''s, so' 'left open" = .ok sampleTokens ∧
      ofText "CREATE x'y z' 7 ( true ) 'it''s, so' 'left open'" = .ok sampleTokens := by
  have hread : ofText "create x'y z' 007(true) 'it''s, so' 'left open" = .ok sampleTokens := by
    decide +kernel
  have hprint : " ".intercalate (sampleTokens.map text) =
      "CREATE x'y z' 7 ( true ) 'it''s, so' 'left open'" := by
    decide +kernel
  refine ⟨hread, hprint ▸ ofText_intercalate_text hread ?_⟩
  simp [sampleTokens]

/-- A double that is read without an exponent may be printed with one. -/
example : ofText "10000000000000000.0" = .ok [.float ⟨0x4341C37937E08000⟩] ∧
    (Token.float ⟨0x4341C37937E08000⟩).text = "1e16" ∧ ofText "1e16" = .ok [.ident "1e16"] := by
  decide +kernel

end Token

end RowStore
