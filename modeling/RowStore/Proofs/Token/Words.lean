import Mathlib.Data.List.TakeWhile
import RowStore.Token.Lexer

/-!
# What a word is read as

The word readings are tried one after the other. `Token.Spells` says which words can give a token,
whatever came before.
-/

namespace RowStore.Token

/-- The word is one that is read as the token, unless an earlier reading fits. -/
inductive Spells : List Char → Token → Prop
  | asterisk : Spells ['*'] .asterisk
  | equal : Spells ['='] .equal
  | keyword {word : List Char} {k : Keyword}
      (h : Keyword.ofWord? (String.ofList word) = some k) : Spells word (.keyword k)
  | boolean (b : Bool) : Spells (Token.boolean b).text.toList (.boolean b)
  | integer {word : List Char} {n : Int64} (hdigits : ∀ c ∈ word, c.isDigit)
      (hread : Numeral.readInteger word = .ok n) : Spells word (.integer n)
  | float {word : List Char} (d : Decimal) : Spells word (.float (Binary64.ofDecimal false d))
  | string (s : List Char) : Spells (quote :: (s ++ [quote])) (.string (String.ofList s))
  | ident (word : List Char) : Spells word (.ident (String.ofList word))

namespace Spells

variable {word : List Char} {t : Token}

theorem of_reserved (h : ofReserved? word = some t) : Spells word t := by
  unfold ofReserved? at h
  split at h
  · next hword =>
    cases h
    exact hword ▸ .asterisk
  · split at h
    · next hword =>
      cases h
      exact hword ▸ .equal
    · obtain ⟨k, hk, rfl⟩ := Option.map_eq_some_iff.1 h
      exact .keyword hk

theorem of_truth (h : ofTruth? word = some t) : Spells word t := by
  unfold ofTruth? at h
  split at h
  · next hword =>
    cases h
    exact hword ▸ .boolean true
  · split at h
    · next hword =>
      cases h
      exact hword ▸ .boolean false
    · cases h

theorem of_number (h : ofNumber? word = .ok (some t)) : Spells word t := by
  unfold ofNumber? at h
  dsimp only at h
  split at h
  · cases h
  · split at h
    · next hrest =>
      have hdigits : ∀ c ∈ word, c.isDigit := List.dropWhile_eq_nil_iff.1 hrest
      rw [List.takeWhile_eq_self_iff.2 hdigits] at h
      split at h
      · next hread =>
        cases h
        exact .integer hdigits hread
      · cases h
    · split at h
      · cases h
        exact .float _
      · cases h

theorem of_quoted (h : ofQuoted? word = some t) : Spells word t := by
  cases word with
  | nil => cases h
  | cons c rest =>
    rw [ofQuoted?] at h
    split at h
    · next hquotes =>
      obtain ⟨rfl, hlast⟩ := hquotes
      obtain ⟨s, rfl⟩ := List.getLast?_eq_some_iff.1 hlast
      cases h
      rw [List.dropLast_concat]
      exact .string s
    · cases h

theorem of_word (h : ofWord word = .ok t) : Spells word t := by
  unfold ofWord at h
  split at h
  · next hreserved =>
    cases h
    exact of_reserved hreserved
  · split at h
    · next htruth =>
      cases h
      exact of_truth htruth
    · split at h
      · cases h
      · next hnumber =>
        cases h
        exact of_number hnumber
      · cases hquoted : ofQuoted? word with
        | none =>
          rw [hquoted] at h
          cases h
          exact .ident word
        | some t' =>
          rw [hquoted] at h
          cases h
          exact of_quoted hquoted

end Spells

end RowStore.Token
