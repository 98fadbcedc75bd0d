import RowStore.Kind
import RowStore.Proofs.Text.Case
import RowStore.Proofs.Token.Words

/-!
# Reserved words and the names of kinds

A keyword is recognized by its upper case and a kind by its lower case, in all of Unicode. For
keywords this admits two characters past ASCII, long s and dotless i; for kinds it admits none, as
no kind has a k in its name (`Keyword.ofWord?_eq_some`, `Kind.ofName?_eq_some`).
-/

namespace RowStore

variable {word : String} {c : Char}

/-! ## Keywords -/

namespace Keyword

variable {k : Keyword}

theorem name_injective : Function.Injective name := by
  intro a b h
  exact Option.some.inj ((ofWord?_name a).symm.trans (h ▸ ofWord?_name b))

theorem capital_of_mem_name (k : Keyword) :
    ∀ letter ∈ k.name.toList, 65 ≤ letter.toNat ∧ letter.toNat ≤ 90 := by
  cases k <;> simp [name]

theorem unexpanded_name (k : Keyword) : Text.upperTable.Unexpanded k.name.toList := by
  cases k <;> decide +kernel

/-- The words of a keyword have its letters in either case, with long s and dotless i among them. -/
theorem ofWord?_eq_some :
    ofWord? word = some k ↔ List.Forall₂ Text.HasCapital word.toList k.name.toList := by
  rw [ofWord?, find?_name_eq_some mem_all name_injective]
  exact Text.upper_eq_iff k.capital_of_mem_name k.unexpanded_name

theorem exists_letter_of_mem (h : ofWord? word = some k) (hc : c ∈ word.toList) :
    ∃ letter ∈ k.name.toList, Text.HasCapital c letter :=
  exists_of_forall₂ (ofWord?_eq_some.1 h) hc

theorem le_toNat_of_mem (h : ofWord? word = some k) (hc : c ∈ word.toList) : 65 ≤ c.toNat := by
  obtain ⟨letter, hletter, hcapital⟩ := exists_letter_of_mem h hc
  exact hcapital.le_toNat (k.capital_of_mem_name letter hletter)

theorem mem_of_letter_mem_name (h : 'I' ∈ k.name.toList ∨ 'S' ∈ k.name.toList) :
    k ∈ [.select, .insert, .into, .primary] := by
  revert h
  cases k <;> decide +kernel

/-- The keywords that have the letter I or S, and no others, are also written past ASCII. -/
theorem exists_word_past_ascii :
    (∃ word, ofWord? word = some k ∧ ∃ c ∈ word.toList, 0x80 ≤ c.toNat) ↔
      k ∈ [.select, .insert, .into, .primary] := by
  constructor
  · rintro ⟨word, hword, c, hc, hlarge⟩
    obtain ⟨letter, hletter, hcapital⟩ := exists_letter_of_mem hword hc
    have hcapitals := k.capital_of_mem_name letter hletter
    obtain rfl | rfl := hcapital.letter_of_le_toNat hcapitals hlarge
    · exact mem_of_letter_mem_name (.inl hletter)
    · exact mem_of_letter_mem_name (.inr hletter)
  · intro hk
    simp only [List.mem_cons, List.not_mem_nil, or_false] at hk
    obtain rfl | rfl | rfl | rfl := hk
    · exact ⟨"\u017Felect", by decide +kernel, '\u017F', by decide, by decide⟩
    · exact ⟨"\u0131nsert", by decide +kernel, '\u0131', by decide, by decide⟩
    · exact ⟨"\u0131nto", by decide +kernel, '\u0131', by decide, by decide⟩
    · exact ⟨"pr\u0131mary", by decide +kernel, '\u0131', by decide, by decide⟩

end Keyword

/-! ## Kinds -/

namespace Kind

variable {k : Kind}

theorem name_injective : Function.Injective name := by
  intro a b h
  exact Option.some.inj ((ofName?_name a).symm.trans (h ▸ ofName?_name b))

theorem small_of_mem_name (k : Kind) :
    ∀ letter ∈ k.name.toList, 97 ≤ letter.toNat ∧ letter.toNat ≤ 122 := by
  cases k <;> simp [name]

theorem ofName?_eq_some_lower : ofName? word = some k ↔ Text.lower word = k.name := by
  rw [ofName?, find?_name_eq_some mem_all name_injective]

/-- The words of a kind have the letters of its name in either case. -/
theorem ofName?_eq_some : ofName? word = some k ↔ Text.equalUpToLetterCase word k.name := by
  have hk : 'k' ∉ k.name.toList := by cases k <;> decide
  have hexpansions : Text.lowerTable.Unexpanded k.name.toList := by cases k <;> decide +kernel
  rw [ofName?_eq_some_lower, Text.lower_eq_iff k.small_of_mem_name hk hexpansions]

theorem lowerWith_eq_name {final : List Char → List Char → Bool} :
    Text.lowerWith final word = k.name ↔ ofName? word = some k := by
  have hascii : ∀ letter ∈ k.name.toList, letter.toNat < 0x80 := by
    intro letter hletter
    have := k.small_of_mem_name letter hletter
    omega
  rw [ofName?_eq_some_lower, Text.lowerWith_eq_iff hascii]

theorem toNat_lt_of_mem (h : ofName? word = some k) (hc : c ∈ word.toList) : c.toNat < 0x80 := by
  obtain ⟨letter, hletter, heq⟩ :=
    exists_of_forall₂ (Text.equalUpToLetterCase_iff.1 (ofName?_eq_some.1 h)) hc
  have hsmall := k.small_of_mem_name letter hletter
  rw [Text.toLower_of_small hsmall] at heq
  rw [← heq, Text.toNat_toLower] at hsmall
  split at hsmall <;> omega

end Kind

/-! ## Words -/

/-- The marks that are read before keywords are no keywords. -/
theorem Token.ofWord_eq_keyword {chars : List Char} {k : Keyword} :
    ofWord chars = .ok (.keyword k) ↔ Keyword.ofWord? (String.ofList chars) = some k := by
  constructor
  · intro h
    cases Spells.of_word h with
    | keyword hk => exact hk
  · intro h
    have hletters : ∀ c ∈ chars, 65 ≤ c.toNat := by
      intro c hc
      exact Keyword.le_toNat_of_mem h (String.toList_ofList.symm ▸ hc)
    have hasterisk : chars ≠ ['*'] := by
      rintro rfl
      exact absurd (hletters '*' List.mem_cons_self) (by decide)
    have hequal : chars ≠ ['='] := by
      rintro rfl
      exact absurd (hletters '=' List.mem_cons_self) (by decide)
    rw [ofWord, ofReserved?, if_neg hasterisk, if_neg hequal, h]
    rfl

/-- A word is a keyword if it has the letters of the keyword's name in either case, where long s
stands for S and dotless i for I as well, and only then; the tokens of words agree with this. So
the four keywords with one of these letters, and no others, are also written past ASCII. A word is a
kind if it is the kind's name up to the case of its letters, whatever rule there is for the last
sigma of a word, and so is never written past ASCII. -/
theorem reserved_words_and_kind_names :
    (∀ word k, Keyword.ofWord? word = some k ↔
      List.Forall₂ Text.HasCapital word.toList k.name.toList) ∧
    (∀ word k, Token.ofWord word.toList = .ok (.keyword k) ↔ Keyword.ofWord? word = some k) ∧
    (∀ k, (∃ word, Keyword.ofWord? word = some k ∧ ∃ c ∈ word.toList, 0x80 ≤ c.toNat) ↔
      k ∈ [.select, .insert, .into, .primary]) ∧
    (∀ word k, Kind.ofName? word = some k ↔ Text.equalUpToLetterCase word k.name) ∧
    (∀ final word k, Text.lowerWith final word = k.name ↔ Kind.ofName? word = some k) ∧
    ¬∃ word k, Kind.ofName? word = some k ∧ ∃ c ∈ word.toList, 0x80 ≤ c.toNat := by
  refine ⟨fun _ _ => Keyword.ofWord?_eq_some, fun word k => ?_,
    fun _ => Keyword.exists_word_past_ascii, fun _ _ => Kind.ofName?_eq_some,
    fun _ _ _ => Kind.lowerWith_eq_name, ?_⟩
  · rw [Token.ofWord_eq_keyword, String.ofList_toList]
  · rintro ⟨word, k, hk, c, hc, hlarge⟩
    exact absurd (Kind.toNat_lt_of_mem hk hc) (Nat.not_lt_of_le hlarge)

/-- A dotted capital I has two characters in lower case. -/
example : Keyword.ofWord? "\u0131n\u017Fert" = some .insert ∧
    Kind.ofName? "\u0130nteger" = none := by
  decide +kernel

end RowStore
