import Mathlib.Algebra.Ring.Parity
import RowStore.Proofs.Token.Scanning

/-!
# Texts split at their delimiters

At a delimiter outside quotation the scan is where it began: nothing is pending and no quote is
open. So what comes before and what comes after can be read apart, and of the delimiters between
them only the marks are left. Blanks beside a delimiter make no difference
(`Token.ofText_append_delimiter`).
-/

namespace RowStore

/-! ## Lexemes -/

namespace Lexeme

variable {quoted : Bool} {pending front gap rest : List Char} {c : Char}

/-- A delimiter ends the word before it and leaves its mark, if it is one. -/
theorem scan_delimiter (h : Text.isBlank c ∨ c ∈ marks.map Prod.fst) :
    scan false pending (c :: rest) =
      ofPending pending ++ ((Token.ofMark? c).toList.map .mark ++ scan false [] rest) := by
  by_cases hblank : Text.isBlank c
  · rw [scan_blank hblank, ofMark?_of_isBlank hblank]
    rfl
  · obtain ⟨token, htoken⟩ := exists_mark (h.resolve_left hblank)
    rw [scan_mark hblank htoken, htoken]
    rfl

/-- The scan forgets what came before a delimiter outside quotation. The induction is on the text
before it, from any state in which its quotes lead out of quotation. -/
theorem scan_append_cons (hparity : quoted ↔ Odd (front.count quote))
    (hc : Text.isBlank c ∨ c ∈ marks.map Prod.fst) :
    scan quoted pending (front ++ c :: rest) =
      scan quoted pending front ++ ((Token.ofMark? c).toList.map .mark ++ scan false [] rest) := by
  induction front generalizing quoted pending with
  | nil =>
    obtain rfl : quoted = false := by simpa using hparity
    exact scan_delimiter hc
  | cons a front ih =>
    rw [List.cons_append]
    by_cases ha : quoted = false ∧ (Text.isBlank a ∨ a ∈ marks.map Prod.fst)
    · obtain ⟨rfl, ha⟩ := ha
      rw [List.count_cons_of_ne (ne_quote_of_delimits ha)] at hparity
      rw [scan_delimiter ha, scan_delimiter ha, ih hparity, List.append_assoc, List.append_assoc]
    · rw [scan_push ha, scan_push ha]
      refine ih ?_
      by_cases hquote : a = quote
      · rw [hquote, List.count_cons_self, Nat.odd_add_one] at hparity
        rw [if_pos hquote, Bool.not_eq_true', ← Bool.not_eq_true, hparity, not_not]
      · rw [List.count_cons_of_ne hquote] at hparity
        rwa [if_neg hquote]

/-- Of delimiters in a row the scan keeps the marks. -/
theorem scan_gap (h : ∀ c ∈ gap, Text.isBlank c ∨ c ∈ marks.map Prod.fst) :
    scan false [] (gap ++ rest) = (gap.filterMap Token.ofMark?).map .mark ++ scan false [] rest := by
  induction gap with
  | nil => rfl
  | cons c gap ih =>
    obtain ⟨hc, hgap⟩ := List.forall_mem_cons.1 h
    rw [List.cons_append, scan_delimiter hc, ih hgap]
    cases hmark : Token.ofMark? c <;> simp [ofPending, hmark]

/-- Delimiters outside quotation keep apart what is on both sides of them. -/
theorem scan_append_gap (heven : Even (front.count quote)) (hne : gap ≠ [])
    (hgap : ∀ c ∈ gap, Text.isBlank c ∨ c ∈ marks.map Prod.fst) :
    scan false [] (front ++ gap ++ rest) =
      scan false [] front ++ (gap.filterMap Token.ofMark?).map .mark ++ scan false [] rest := by
  have hparity : (false : Bool) ↔ Odd (front.count quote) := by simpa using heven
  cases gap with
  | nil => exact absurd rfl hne
  | cons c gap =>
    obtain ⟨hc, hgap⟩ := List.forall_mem_cons.1 hgap
    rw [List.append_assoc, List.cons_append, scan_append_cons hparity hc, scan_gap hgap]
    cases hmark : Token.ofMark? c <;> simp [hmark]

theorem ofText_append_gap {s₁ s₂ : String} (heven : Even (s₁.toList.count quote)) (hne : gap ≠ [])
    (hgap : ∀ c ∈ gap, Text.isBlank c ∨ c ∈ marks.map Prod.fst) :
    ofText (s₁ ++ String.ofList gap ++ s₂) =
      ofText s₁ ++ (gap.filterMap Token.ofMark?).map .mark ++ ofText s₂ := by
  simp only [ofText, String.toList_append, String.toList_ofList]
  exact scan_append_gap heven hne hgap

end Lexeme

/-! ## Tokens -/

namespace Token

variable {s₁ s₂ : String} {gap gap' : List Char} {tokens : List Token} {d : Char}

theorem mapM_mark (ts : List Token) : (ts.map .mark).mapM ofLexeme = .ok ts := by
  rw [Except.mapM_eq_ok, List.forall₂_map_left_iff]
  exact List.forall₂_same.2 fun _ _ => rfl

/-- The tokens on both sides of a delimiter, with its mark between them. -/
theorem ofText_append_singleton (heven : Even (s₁.toList.count quote))
    (hd : Text.isBlank d ∨ d ∈ marks.map Prod.fst) :
    ofText (s₁ ++ String.singleton d ++ s₂) = .ok tokens ↔
      ∃ ts₁ ts₂, ofText s₁ = .ok ts₁ ∧ ofText s₂ = .ok ts₂ ∧
        tokens = ts₁ ++ (ofMark? d).toList ++ ts₂ := by
  have hgap : ∀ c ∈ [d], Text.isBlank c ∨ c ∈ marks.map Prod.fst := by simpa using hd
  have hmark : [d].filterMap ofMark? = (ofMark? d).toList := by
    cases h : ofMark? d <;> simp [h]
  have hscan : Lexeme.ofText (s₁ ++ String.singleton d ++ s₂) =
      Lexeme.ofText s₁ ++ (ofMark? d).toList.map .mark ++ Lexeme.ofText s₂ := by
    rw [String.singleton_eq_ofList, Lexeme.ofText_append_gap heven (List.cons_ne_nil d []) hgap,
      hmark]
  simp only [ofText, hscan, List.mapM_append, mapM_mark, Except.bind_eq_ok, pure, Except.pure,
    Except.ok.injEq]
  constructor
  · rintro ⟨_, ⟨ts₁, h₁, _, rfl, rfl⟩, ts₂, h₂, rfl⟩
    exact ⟨ts₁, ts₂, h₁, h₂, rfl⟩
  · rintro ⟨ts₁, ts₂, h₁, h₂, rfl⟩
    exact ⟨_, ⟨ts₁, h₁, _, rfl, rfl⟩, ts₂, h₂, rfl⟩

/-- A text that is read as the tokens and ends outside quotation, so that it can be gone on with. -/
structure Written (text : String) (tokens : List Token) : Prop where
  read : ofText text = .ok tokens
  even : Even (text.toList.count quote)

theorem Written.append {ts₁ ts₂ : List Token} (h₁ : Written s₁ ts₁) (h₂ : Written s₂ ts₂)
    (hd : Text.isBlank d ∨ d ∈ marks.map Prod.fst) :
    Written (s₁ ++ String.singleton d ++ s₂) (ts₁ ++ (ofMark? d).toList ++ ts₂) where
  read := (ofText_append_singleton h₁.even hd).2 ⟨ts₁, ts₂, h₁.read, h₂.read, rfl⟩
  even := by
    have hsum := h₁.even.add h₂.even
    simpa [List.count_cons_of_ne (ne_quote_of_delimits hd)] using hsum

/-- A blank keeps two texts apart. -/
theorem Written.append_blank {ts₁ ts₂ : List Token} (h₁ : Written s₁ ts₁) (h₂ : Written s₂ ts₂) :
    Written (s₁ ++ " " ++ s₂) (ts₁ ++ ts₂) := by
  have h := h₁.append h₂ (d := ' ') (by decide)
  rwa [show (ofMark? ' ').toList = [] from rfl, List.append_nil] at h

/-- Only the marks between two texts count. -/
theorem ofText_gap_congr (heven : Even (s₁.toList.count quote)) (hne : gap ≠ [])
    (hne' : gap' ≠ []) (hgap : ∀ c ∈ gap ++ gap', Text.isBlank c ∨ c ∈ marks.map Prod.fst)
    (hmarks : gap.filterMap ofMark? = gap'.filterMap ofMark?) :
    ofText (s₁ ++ String.ofList gap ++ s₂) = ofText (s₁ ++ String.ofList gap' ++ s₂) := by
  obtain ⟨hgap, hgap'⟩ := List.forall_mem_append.1 hgap
  rw [ofText, ofText, Lexeme.ofText_append_gap heven hne hgap,
    Lexeme.ofText_append_gap heven hne' hgap', hmarks]

/-- A text in which a delimiter follows an even number of quotes has tokens if both sides of the
delimiter have, and then it has these with the mark between them. The delimiter can be put among
other blanks, or exchanged for them if it is one. -/
theorem ofText_append_delimiter (heven : Even (s₁.toList.count quote)) (s₂ : String) :
    (∀ d, Text.isBlank d ∨ d ∈ marks.map Prod.fst → ∀ tokens,
      ofText (s₁ ++ String.singleton d ++ s₂) = .ok tokens ↔
        ∃ ts₁ ts₂, ofText s₁ = .ok ts₁ ∧ ofText s₂ = .ok ts₂ ∧
          tokens = ts₁ ++ (ofMark? d).toList ++ ts₂) ∧
    ∀ gap gap', gap ≠ [] → gap' ≠ [] →
      (∀ c ∈ gap ++ gap', Text.isBlank c ∨ c ∈ marks.map Prod.fst) →
      gap.filterMap ofMark? = gap'.filterMap ofMark? →
      ofText (s₁ ++ String.ofList gap ++ s₂) = ofText (s₁ ++ String.ofList gap' ++ s₂) := by
  refine ⟨fun d hd tokens => ofText_append_singleton heven hd, ?_⟩
  intro gap gap' hne hne' hgap hmarks
  exact ofText_gap_congr heven hne hne' hgap hmarks

/-- A comma between a quoted text and an open one, alone and among blanks of other scripts. -/
theorem ofText_append_comma :
    Even ("('it''s, so'".toList.count quote) ∧
    ofText "('it''s, so','left open, too" =
      .ok [.openParen, .string "it''s, so", .comma, .string "left open, too"] ∧
    ofText "('it''s, so'\t,\u3000\n'left open, too" = ofText "('it''s, so','left open, too" := by
  have heven : Even ("('it''s, so'".toList.count quote) := by decide
  obtain ⟨hsplit, hgaps⟩ := ofText_append_delimiter heven "'left open, too"
  refine ⟨heven, ?_, ?_⟩
  · have hfront : ofText "('it''s, so'" = .ok [.openParen, .string "it''s, so"] := by decide +kernel
    have hback : ofText "'left open, too" = .ok [.string "left open, too"] := by decide +kernel
    exact (hsplit ',' (by decide) _).2 ⟨_, _, hfront, hback, rfl⟩
  · have hgap : (['\t', ',', '\u3000', '\n'] ++ [',']).all fun c =>
        Text.isBlank c ∨ c ∈ marks.map Prod.fst := by decide
    exact hgaps ['\t', ',', '\u3000', '\n'] [','] (by decide) (by decide)
      (fun c hc => of_decide_eq_true (List.all_eq_true.1 hgap c hc)) (by decide)

end Token

end RowStore
