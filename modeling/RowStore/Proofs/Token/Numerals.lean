import RowStore.Proofs.Number.Decimal
import RowStore.Proofs.Token.Printing

/-!
# Which words are numbers

A word is read as an integer if it is digits, and as a double if it is digits on both sides of a
point. Nothing else is a number, and nothing but digits past the largest integer is refused: a word
reaches a reader of numbers only if that reader takes every character of it.
-/

namespace RowStore.Token

open Numeral (IsDigits Pointed)

variable {word whole fraction : List Char} {t : Token} {fault : NumeralFault}

/-! ## Words that are numbers -/

theorem ofNumber?_of_isDigits (h : IsDigits word) :
    ofNumber? word =
      ((Numeral.readInteger word).map fun n => some (.integer n)).mapError .integer := by
  unfold ofNumber?
  rw [List.takeWhile_eq_self_iff.2 h.2, List.dropWhile_eq_nil_iff.2 h.2, if_neg h.1]
  cases Numeral.readInteger word <;> simp [Except.map, Except.mapError]

theorem ofNumber?_of_pointed (h : Pointed word whole fraction) :
    ofNumber? word =
      .ok (some (.float (Binary64.ofDecimal false (Decimal.ofParts whole fraction)))) := by
  have htake : word.takeWhile Char.isDigit = whole := by
    rw [h.eq, List.takeWhile_append_of_pos h.whole.2]
    simp
  have hdrop : word.dropWhile Char.isDigit = '.' :: fraction := by
    rw [h.eq, List.dropWhile_append_of_pos h.whole.2]
    simp
  unfold ofNumber?
  rw [htake, hdrop, if_neg h.whole.1]
  dsimp only
  rw [if_pos ⟨rfl, h.fraction.1, List.all_eq_true.2 h.fraction.2⟩]

/-- The reader of numbers takes the digits that a word starts with. If there are any, then what
stands behind them decides. -/
theorem ofNumber?_of_not (hdigits : ¬IsDigits word) (hpointed : ∀ w f, ¬Pointed word w f) :
    ofNumber? word = .ok none := by
  have happend := List.takeWhile_append_dropWhile (p := Char.isDigit) (l := word)
  have hwhole : ∀ c ∈ word.takeWhile Char.isDigit, c.isDigit := fun _ => List.mem_takeWhile_imp
  unfold ofNumber?
  dsimp only
  split
  · rfl
  · next hne =>
    split
    · next hrest =>
      rw [hrest, List.append_nil] at happend
      exact absurd ⟨happend ▸ hne, happend ▸ hwhole⟩ hdigits
    · next c fraction hrest =>
      split
      · next hpoint =>
        obtain ⟨rfl, hfraction, hall⟩ := hpoint
        rw [hrest] at happend
        exact absurd ⟨happend.symm, ⟨hne, hwhole⟩, hfraction, List.all_eq_true.1 hall⟩
          (hpointed _ fraction)
      · rfl

theorem number_cases (word : List Char) :
    IsDigits word ∨ (∃ w f, Pointed word w f) ∨ ¬IsDigits word ∧ ∀ w f, ¬Pointed word w f := by
  by_cases hdigits : IsDigits word
  · exact .inl hdigits
  · by_cases hpointed : ∃ w f, Pointed word w f
    · exact .inr (.inl hpointed)
    · exact .inr (.inr ⟨hdigits, fun w f h => hpointed ⟨w, f, h⟩⟩)

/-! ## The token of a word -/

/-- A word with a digit has no reading before that of numbers. -/
theorem ofWord_of_digit_mem {c : Char} (hc : c ∈ word) (h : c.isDigit) :
    ofWord word = (ofNumber? word).map fun t? =>
      t?.getD ((ofQuoted? word).getD (.ident (String.ofList word))) := by
  rw [ofWord, ofReserved?_eq_none hc (.inr h), ofTruth?_eq_none hc (.inr h)]
  obtain _ | _ | _ := ofNumber? word <;> rfl

theorem ofWord_of_isDigits (h : IsDigits word) :
    ofWord word = ((Numeral.readInteger word).map .integer).mapError .integer := by
  obtain ⟨c, hc⟩ := List.exists_mem_of_ne_nil _ h.1
  rw [ofWord_of_digit_mem hc (h.2 c hc), ofNumber?_of_isDigits h]
  cases Numeral.readInteger word <;> rfl

theorem ofWord_of_pointed (h : Pointed word whole fraction) :
    ofWord word = .ok (.float (Binary64.ofDecimal false (Decimal.ofParts whole fraction))) := by
  obtain ⟨c, hc, hdigit⟩ := h.exists_digit
  rw [ofWord_of_digit_mem hc hdigit, ofNumber?_of_pointed h]
  rfl

/-- Whether a token is an integer or a double. -/
def isNumber : Token → Bool
  | .integer _ | .float _ => true
  | _ => false

theorem isNumber_of_reserved (h : ofReserved? word = some t) : t.isNumber = false := by
  unfold ofReserved? at h
  split at h
  · cases h
    rfl
  · split at h
    · cases h
      rfl
    · obtain ⟨k, -, rfl⟩ := Option.map_eq_some_iff.1 h
      rfl

theorem isNumber_of_truth (h : ofTruth? word = some t) : t.isNumber = false := by
  unfold ofTruth? at h
  split at h
  · cases h
    rfl
  · split at h <;> cases h
    rfl

theorem isNumber_of_quoted (h : ofQuoted? word = some t) : t.isNumber = false := by
  cases word with
  | nil => cases h
  | cons c rest =>
    rw [ofQuoted?] at h
    split at h <;> cases h
    rfl

/-- A word that is no number has a token, which is none either. -/
theorem exists_ofWord_of_not (hdigits : ¬IsDigits word) (hpointed : ∀ w f, ¬Pointed word w f) :
    ∃ t, ofWord word = .ok t ∧ t.isNumber = false := by
  rw [ofWord, ofNumber?_of_not hdigits hpointed]
  split
  · next t hreserved => exact ⟨t, rfl, isNumber_of_reserved hreserved⟩
  · split
    · next t htruth => exact ⟨t, rfl, isNumber_of_truth htruth⟩
    · cases hquoted : ofQuoted? word with
      | none => exact ⟨_, rfl, rfl⟩
      | some t => exact ⟨t, rfl, isNumber_of_quoted hquoted⟩

theorem ofWord_eq_error :
    ofWord word = .error fault ↔ fault = .integer .tooLarge ∧ IsDigits word ∧
      Numeral.largest < Nat.ofDigitChars 10 word 0 := by
  obtain hdigits | ⟨w, f, hpointed⟩ | ⟨hdigits, hpointed⟩ := number_cases word
  · rw [ofWord_of_isDigits hdigits, Numeral.readInteger_eq hdigits]
    split <;> simp_all [Except.map, Except.mapError, eq_comm]
  · rw [ofWord_of_pointed hpointed]
    exact iff_of_false nofun fun h => hpointed.not_isDigits h.2.1
  · obtain ⟨t, ht, -⟩ := exists_ofWord_of_not hdigits hpointed
    rw [ht]
    exact iff_of_false nofun fun h => hdigits h.2.1

theorem ofWord_eq_integer {n : Int64} :
    ofWord word = .ok (.integer n) ↔
      IsDigits word ∧ (Nat.ofDigitChars 10 word 0 : Int) = n.toInt := by
  obtain hdigits | ⟨w, f, hpointed⟩ | ⟨hdigits, hpointed⟩ := number_cases word
  · rw [ofWord_of_isDigits hdigits, and_iff_right hdigits, ← Numeral.readInteger_eq_ok hdigits]
    cases Numeral.readInteger word <;> simp [Except.map, Except.mapError]
  · rw [ofWord_of_pointed hpointed]
    exact iff_of_false nofun fun h => hpointed.not_isDigits h.1
  · obtain ⟨t, ht, hnumber⟩ := exists_ofWord_of_not hdigits hpointed
    rw [ht]
    refine iff_of_false ?_ fun h => hdigits h.1
    rintro ⟨⟩
    cases hnumber

theorem ofWord_eq_float {x : Binary64} :
    ofWord word = .ok (.float x) ↔ ∃ whole fraction, Pointed word whole fraction ∧
      x = Binary64.ofDecimal false (Decimal.ofParts whole fraction) := by
  constructor
  · intro h
    obtain hdigits | ⟨w, f, hpointed⟩ | ⟨hdigits, hpointed⟩ := number_cases word
    · rw [ofWord_of_isDigits hdigits] at h
      cases hread : Numeral.readInteger word <;> simp [hread, Except.map, Except.mapError] at h
    · rw [ofWord_of_pointed hpointed] at h
      exact ⟨w, f, hpointed, (Token.float.inj (Except.ok.inj h)).symm⟩
    · obtain ⟨t, ht, hnumber⟩ := exists_ofWord_of_not hdigits hpointed
      rw [ht] at h
      cases h
      cases hnumber
  · rintro ⟨whole, fraction, hpointed, rfl⟩
    exact ofWord_of_pointed hpointed

/-- A word without a quote is a name if nothing else fits. -/
theorem ofWord_eq_ident (hreserved : ofReserved? word = none) (htruth : ofTruth? word = none)
    (hdigits : ¬IsDigits word) (hpointed : ∀ w f, ¬Pointed word w f) (hquote : quote ∉ word) :
    ofWord word = .ok (.ident (String.ofList word)) := by
  have hquoted : ofQuoted? word = none := by
    cases word with
    | nil => rfl
    | cons c rest =>
      rw [ofQuoted?, if_neg]
      rintro ⟨rfl, -⟩
      exact hquote List.mem_cons_self
  rw [ofWord, hreserved, htruth, ofNumber?_of_not hdigits hpointed, hquoted]
  rfl

/-! ## The numbers of a text -/

/-- A word is read as a token: a number if it has the form of one, and the word itself as a name if
no other reading fits. -/
structure ReadAs (word : List Char) (t : Token) : Prop where
  integer : ∀ n, t = .integer n ↔
    IsDigits word ∧ (Nat.ofDigitChars 10 word 0 : Int) = n.toInt
  float : ∀ x, t = .float x ↔ ∃ whole fraction, Pointed word whole fraction ∧
    x = Binary64.ofDecimal false (Decimal.ofParts whole fraction)
  name : quote ∉ word → word ≠ ['*'] → word ≠ ['='] →
    Keyword.ofWord? (String.ofList word) = none → word ≠ "true".toList → word ≠ "false".toList →
    ¬IsDigits word → (∀ whole fraction, ¬Pointed word whole fraction) →
    t = .ident (String.ofList word)

theorem readAs_of_word (h : ofWord word = .ok t) : ReadAs word t where
  integer n := by rw [← ofWord_eq_integer, h, Except.ok.injEq]
  float x := by rw [← ofWord_eq_float, h, Except.ok.injEq]
  name hquote hasterisk hequal hkeyword htrue hfalse hdigits hpointed := by
    have hreserved : ofReserved? word = none := by
      rw [ofReserved?, if_neg hasterisk, if_neg hequal, hkeyword]
      rfl
    have htruth : ofTruth? word = none := by rw [ofTruth?, if_neg htrue, if_neg hfalse]
    rw [ofWord_eq_ident hreserved htruth hdigits hpointed hquote] at h
    exact (Except.ok.inj h).symm

/-- A word with a quote is no number. -/
theorem readAs_string (hquote : quote ∈ word) (s : String) : ReadAs word (.string s) := by
  obtain ⟨hdigits, hpointed⟩ := Numeral.not_number_of_mem hquote (by decide) (by decide)
  exact {
    integer := fun n => iff_of_false nofun fun h => hdigits h.1
    float := fun x => iff_of_false nofun fun ⟨_, _, h, _⟩ => hpointed _ _ h
    name := fun hno => absurd hquote hno }

/-- The characters from `i` up to but without `j`. -/
def wordAt (cs : List Char) (i j : Nat) : List Char := (cs.take j).drop i

variable {cs : List Char} {i j : Nat} {p : Piece}

theorem readAs_of_run (h : (Piece.run i j).token cs = .ok t) : ReadAs (wordAt cs i j) t := by
  rw [Piece.token] at h
  split at h
  · next hopen =>
    obtain rfl := Except.ok.inj h
    exact readAs_string (List.mem_of_mem_head? hopen.2.2) _
  · exact readAs_of_word h

/-- A word with a quote is not refused. -/
theorem exists_ofWord_of_quote (hquote : quote ∈ word) : ∃ t, ofWord word = .ok t := by
  cases h : ofWord word with
  | ok t => exact ⟨t, rfl⟩
  | error fault => exact absurd hquote ((ofWord_eq_error.1 h).2.1.not_mem (by decide))

/-- Only digits past the largest integer are refused. -/
theorem token_run_eq_error :
    (Piece.run i j).token cs = .error fault ↔ fault = .integer .tooLarge ∧
      IsDigits (wordAt cs i j) ∧ Numeral.largest < Nat.ofDigitChars 10 (wordAt cs i j) 0 := by
  rw [← ofWord_eq_error, Piece.token]
  split
  · next hopen =>
    obtain ⟨t, ht⟩ := exists_ofWord_of_quote (List.mem_of_mem_head? hopen.2.2)
    rw [wordAt, ht]
    simp only [reduceCtorEq]
  · rfl

/-- The run in which a text ends inside quotation starts outside it, so there is a quote in it. -/
theorem exists_token_of_open (hopen : Odd (cs.count quote)) (h : IsRun cs i cs.length) :
    ∃ t, (Piece.run i cs.length).token cs = .ok t := by
  cases htoken : (Piece.run i cs.length).token cs with
  | ok t => exact ⟨t, rfl⟩
  | error fault =>
    have hdigits : IsDigits (wordAt cs i cs.length) := (token_run_eq_error.1 htoken).2.1
    rw [wordAt, List.take_length] at hdigits
    have hrest : (cs.drop i).count quote = 0 :=
      List.count_eq_zero.2 (hdigits.not_mem (by decide))
    rw [← List.take_append_drop i cs, List.count_append, hrest] at hopen
    exact absurd hopen h.not_quoted

theorem exists_run_of_error {text : String} (h : ofText text = .error fault) :
    fault = .integer .tooLarge ∧ ∃ i j, IsRun text.toList i j ∧
      IsDigits (wordAt text.toList i j) ∧
      Numeral.largest < Nat.ofDigitChars 10 (wordAt text.toList i j) 0 := by
  obtain ⟨pieces, hpieces, htext⟩ := exists_pieces_of_text text
  obtain ⟨before, p, after, hsplit, -, hp⟩ := Except.mapM_eq_error.1 (htext.trans h)
  have hin : p.In text.toList := ((hpieces.mem_iff p).1 (by simp [hsplit])).1
  cases p with
  | mark position t => cases hp
  | run i j =>
    obtain ⟨hfault, hdigits, hlarge⟩ := token_run_eq_error.1 hp
    exact ⟨hfault, i, j, hin, hdigits, hlarge⟩

theorem ofText_eq_error {text : String} :
    ofText text = .error fault ↔ fault = .integer .tooLarge ∧ ∃ i j, IsRun text.toList i j ∧
      IsDigits (wordAt text.toList i j) ∧
      Numeral.largest < Nat.ofDigitChars 10 (wordAt text.toList i j) 0 := by
  refine ⟨exists_run_of_error, ?_⟩
  rintro ⟨rfl, i, j, hrun, hdigits, hlarge⟩
  cases h : ofText text with
  | error fault => rw [(exists_run_of_error h).1]
  | ok tokens =>
    obtain ⟨pieces, hpieces, htext⟩ := exists_pieces_of_text text
    have hmem : Piece.run i j ∈ pieces := (hpieces.mem_iff _).2 ⟨hrun, Nat.zero_le _⟩
    obtain ⟨t, ht⟩ := Except.exists_of_mapM_of_mem (htext.trans h) hmem
    rw [token_run_eq_error.2 ⟨rfl, hdigits, hlarge⟩] at ht
    cases ht

/-- A text is refused exactly if one of its runs is digits past the largest integer, so that an open
quote is no reason to refuse it. In the tokens of any other text a run is an integer if it is
digits, a double if it is digits on both sides of a point, and else a name that is the run itself,
unless it has a quote or is another word with a token of its own. -/
theorem ofText_numbers (text : String) :
    (∀ fault, ofText text = .error fault ↔ fault = .integer .tooLarge ∧
      ∃ i j, IsRun text.toList i j ∧ IsDigits (wordAt text.toList i j) ∧
        9223372036854775807 < Nat.ofDigitChars 10 (wordAt text.toList i j) 0) ∧
    (NumeralFault.integer .tooLarge).message = "number too large to fit in target type" ∧
    (∀ i, Odd (text.toList.count quote) → IsRun text.toList i text.toList.length →
      ∃ t, (Piece.run i text.toList.length).token text.toList = .ok t) ∧
    ∀ tokens, ofText text = .ok tokens → ∃ pieces, PiecesFrom text.toList 0 pieces ∧
      List.Forall₂ (fun p t => p.token text.toList = .ok t ∧
        ∀ i j, p = .run i j → ReadAs (wordAt text.toList i j) t) pieces tokens := by
  refine ⟨fun fault => ofText_eq_error, rfl, fun i => exists_token_of_open, ?_⟩
  intro tokens htokens
  obtain ⟨pieces, hpieces, htext⟩ := exists_pieces_of_text text
  refine ⟨pieces, hpieces, (Except.mapM_eq_ok.1 (htext.trans htokens)).imp ?_⟩
  intro p t hp
  refine ⟨hp, ?_⟩
  rintro i j rfl
  exact readAs_of_run hp

/-- The least integer that is too large is refused, wherever quotes are left open. -/
theorem ofText_numbers_samples :
    (ofText "9223372036854775808 'open" = .error (.integer .tooLarge) ∧
      ∃ i j, IsRun "9223372036854775808 'open".toList i j ∧
        IsDigits (wordAt "9223372036854775808 'open".toList i j)) ∧
    ofText "007 1.50 1. 1e5 'open" = .ok [.integer 7, .float ⟨0x3FF8000000000000⟩, .ident "1.",
      .ident "1e5", .string "open"] ∧
    ∃ pieces, PiecesFrom "007 1.50 1. 1e5 'open".toList 0 pieces ∧ pieces.length = 5 := by
  have hrefused : ofText "9223372036854775808 'open" = .error (.integer .tooLarge) := by
    decide +kernel
  obtain ⟨-, i, j, hrun, hdigits, -⟩ := ((ofText_numbers _).1 _).1 hrefused
  have hread : ofText "007 1.50 1. 1e5 'open" = .ok [.integer 7, .float ⟨0x3FF8000000000000⟩,
      .ident "1.", .ident "1e5", .string "open"] := by
    decide +kernel
  obtain ⟨pieces, hpieces, htokens⟩ := (ofText_numbers _).2.2.2 _ hread
  exact ⟨⟨hrefused, i, j, hrun, hdigits⟩, hread, pieces, hpieces, htokens.length_eq⟩

end RowStore.Token
