import RowStore.Proofs.Except
import RowStore.Proofs.Token.Pieces

/-!
# The scan finds the pieces of a text

The scan remembers only whether it is inside quotation and which characters are pending. That is
enough to find the pieces: a flag that is the parity of the quotes read, and a run that began behind
the last delimiter, are kept by every character (`exists_pieces_of_scan`).
-/

namespace RowStore

variable {cs : List Char} {s p : Nat}

/-! ## Runs that are still read -/

/-- From `s`, which begins the text or follows a delimiter, up to `p` there is no delimiter. -/
structure OpenRun (cs : List Char) (s p : Nat) : Prop where
  le : s ≤ p
  solid : ∀ k, s ≤ k → k < p → ¬IsDelimiter cs k
  left : s = 0 ∨ IsDelimiter cs (s - 1)

namespace OpenRun

theorem zero (cs : List Char) : OpenRun cs 0 0 := ⟨le_rfl, by omega, .inl rfl⟩

theorem step (h : OpenRun cs s p) (hp : ¬IsDelimiter cs p) : OpenRun cs s (p + 1) := by
  refine ⟨Nat.le_succ_of_le h.le, ?_, h.left⟩
  intro k h₁ h₂
  obtain hk | rfl := Nat.lt_succ_iff_lt_or_eq.1 h₂
  · exact h.solid k h₁ hk
  · exact hp

theorem behind (hp : IsDelimiter cs p) : OpenRun cs (p + 1) (p + 1) :=
  ⟨le_rfl, by omega, .inr hp⟩

/-- Where an open run ends it is the only piece since its start. -/
theorem in_iff (h : OpenRun cs s p) (hp : p ≤ cs.length)
    (hend : p = cs.length ∨ IsDelimiter cs p) {q : Piece} :
    q.In cs ∧ s ≤ q.start ∧ q.start < p ↔ s < p ∧ q = .run s p := by
  constructor
  · intro hq
    obtain ⟨hin, hs, hlt⟩ := hq
    cases q with
    | mark position token => exact absurd hin.isDelimiter (h.solid position hs hlt)
    | run i j =>
      have hsp : s < p := Nat.lt_of_le_of_lt hs hlt
      have hrun : IsRun cs s p := ⟨hsp, hp, h.solid, h.left, hend⟩
      obtain ⟨rfl, rfl⟩ := IsRun.unique hin hrun (le_refl i) hin.nonempty hs hlt
      exact ⟨hsp, rfl⟩
  · intro hq
    obtain ⟨hsp, rfl⟩ := hq
    exact ⟨⟨hsp, hp, h.solid, h.left, hend⟩, le_refl s, hsp⟩

end OpenRun

/-! ## Pieces from a position on -/

/-- The pieces that start at `s` or behind it, in the order of their positions. -/
structure PiecesFrom (cs : List Char) (s : Nat) (pieces : List Piece) : Prop where
  ascending : pieces.Pairwise fun p q => p.start < q.start
  mem_iff : ∀ q, q ∈ pieces ↔ q.In cs ∧ s ≤ q.start

/-- The run from `s` up to `p`, if it is not empty. -/
def runBetween (s p : Nat) : List Piece := if s < p then [.run s p] else []

theorem mem_runBetween {q : Piece} : q ∈ runBetween s p ↔ s < p ∧ q = .run s p := by
  unfold runBetween
  split <;> simp_all

namespace PiecesFrom

variable {pieces : List Piece}

theorem flush (h : PiecesFrom cs p pieces) (hopen : OpenRun cs s p) (hp : p ≤ cs.length)
    (hend : p = cs.length ∨ IsDelimiter cs p) : PiecesFrom cs s (runBetween s p ++ pieces) where
  ascending := by
    refine List.pairwise_append.2 ⟨?_, h.ascending, ?_⟩
    · unfold runBetween
      split <;> simp
    · intro q hq r hr
      obtain ⟨hsp, rfl⟩ := mem_runBetween.1 hq
      have hpr : p ≤ r.start := ((h.mem_iff r).1 hr).2
      exact Nat.lt_of_lt_of_le hsp hpr
  mem_iff q := by
    have hle := hopen.le
    rw [List.mem_append, mem_runBetween, ← hopen.in_iff hp hend, h.mem_iff]
    grind

/-- No piece starts at the end of the text. -/
theorem nil_length (cs : List Char) : PiecesFrom cs cs.length [] where
  ascending := .nil
  mem_iff q := by
    refine iff_of_false List.not_mem_nil ?_
    intro hq
    obtain ⟨hin, hle⟩ := hq
    cases q with
    | mark position token => exact absurd hin.isDelimiter.lt_length (Nat.not_lt_of_le hle)
    | run i j =>
      have hlt : i < cs.length := Nat.lt_of_lt_of_le hin.nonempty hin.le_length
      exact absurd hlt (Nat.not_lt_of_le hle)

theorem blank (h : PiecesFrom cs (p + 1) pieces) (hp : IsDelimiter cs p)
    (hmark : ∀ token, ¬IsMark cs p token) : PiecesFrom cs p pieces where
  ascending := h.ascending
  mem_iff q := by
    rw [h.mem_iff]
    refine and_congr_right ?_
    intro hin
    have hne : p ≠ q.start := by
      rintro rfl
      cases q with
      | mark position token => exact hmark token hin
      | run i j => exact hin.not_isDelimiter_start hp
    omega

theorem mark {token : Token} (h : PiecesFrom cs (p + 1) pieces) (hp : IsMark cs p token) :
    PiecesFrom cs p (.mark p token :: pieces) where
  ascending := List.pairwise_cons.2 ⟨fun q hq => ((h.mem_iff q).1 hq).2, h.ascending⟩
  mem_iff q := by
    rw [List.mem_cons, h.mem_iff]
    constructor
    · rintro (rfl | ⟨hin, hle⟩)
      · exact ⟨hp, le_refl p⟩
      · exact ⟨hin, Nat.le_of_succ_le hle⟩
    · intro hq
      obtain ⟨hin, hle⟩ := hq
      obtain hlt | rfl := Nat.lt_or_eq_of_le hle
      · exact .inr ⟨hin, hlt⟩
      · left
        cases q with
        | mark position token' => exact congrArg _ (hin.token_unique hp)
        | run i j => exact absurd hp.isDelimiter hin.not_isDelimiter_start

end PiecesFrom

/-! ## States of the scan -/

/-- After `done`, the flag is the parity of the quotes read, and what is pending is the run that
began at `s`. Inside quotation a run has begun. -/
structure Scanned (cs : List Char) (s : Nat) (quoted : Bool) (pending done rest : List Char) :
    Prop where
  text : cs = done ++ rest
  parity : quoted ↔ Odd (done.count quote)
  pending_eq : pending.reverse = done.drop s
  run : OpenRun cs s done.length
  begun : quoted → s < done.length

namespace Scanned

variable {quoted : Bool} {pending done rest : List Char} {c : Char}

theorem start (cs : List Char) : Scanned cs 0 false [] [] cs :=
  ⟨rfl, by simp, rfl, .zero cs, nofun⟩

theorem quoted_iff (h : Scanned cs s quoted pending done rest) :
    Quoted cs done.length ↔ quoted := by
  rw [Quoted, h.text, List.take_left, h.parity]

theorem isDelimiter_iff (h : Scanned cs s quoted pending done (c :: rest)) :
    IsDelimiter cs done.length ↔
      quoted = false ∧ (Text.isBlank c ∨ c ∈ marks.map Prod.fst) := by
  rw [h.text, isDelimiter_length, ← h.parity, Bool.not_eq_true]

theorem isMark_iff (h : Scanned cs s quoted pending done (c :: rest)) {token : Token} :
    IsMark cs done.length token ↔ quoted = false ∧ Token.ofMark? c = some token := by
  rw [IsMark, h.quoted_iff, h.text, Bool.not_eq_true, ofMark?_eq_some]
  simp

theorem length_lt (h : Scanned cs s quoted pending done (c :: rest)) :
    done.length < cs.length := by
  rw [h.text, List.length_append, List.length_cons]
  omega

/-- A character that does not delimit goes to the run. -/
theorem push (h : Scanned cs s quoted pending done (c :: rest))
    (hdel : ¬IsDelimiter cs done.length) :
    Scanned cs s (if c = quote then !quoted else quoted) (c :: pending) (done ++ [c]) rest where
  text := by rw [h.text, List.append_assoc, List.singleton_append]
  parity := by
    rw [odd_count_concat]
    split
    · rw [← h.parity, Bool.not_eq_true', Bool.not_eq_true]
    · exact h.parity
  pending_eq := by
    rw [List.reverse_cons, h.pending_eq, List.drop_append_of_le_length h.run.le]
  run := by
    rw [List.length_append, List.length_singleton]
    exact h.run.step hdel
  begun _ := by
    have := h.run.le
    rw [List.length_append, List.length_singleton]
    omega

/-- A delimiter ends the run. -/
theorem cut (h : Scanned cs s false pending done (c :: rest)) (hdel : IsDelimiter cs done.length) :
    Scanned cs (done.length + 1) false [] (done ++ [c]) rest where
  text := by rw [h.text, List.append_assoc, List.singleton_append]
  parity := by
    rw [odd_count_concat, if_neg (ne_quote_of_delimits (h.isDelimiter_iff.1 hdel).2)]
    exact h.parity
  pending_eq := by simp
  run := by
    rw [List.length_append, List.length_singleton]
    exact .behind hdel
  begun := nofun

theorem word_eq (h : Scanned cs s quoted pending done rest) :
    (cs.take done.length).drop s = pending.reverse := by
  rw [h.text, List.take_left, h.pending_eq]

theorem length_pending (h : Scanned cs s quoted pending done rest) :
    pending.length = done.length - s := by
  rw [← List.length_reverse, h.pending_eq, List.length_drop]

/-- The word of the pending characters is read as the run that they form. -/
theorem token_ofPending (h : Scanned cs s quoted pending done rest)
    (hclosed : ¬(Odd (cs.count quote) ∧ done.length = cs.length)) :
    List.Forall₂ (fun p l => p.token cs = Token.ofLexeme l) (runBetween s done.length)
      (Lexeme.ofPending pending) := by
  have hlen := h.length_pending
  unfold runBetween Lexeme.ofPending
  by_cases hsp : s < done.length
  · have hne : pending ≠ [] := by
      rintro rfl
      rw [List.length_nil] at hlen
      omega
    rw [if_pos hsp, if_neg hne]
    refine .cons ?_ .nil
    simp only [Piece.token, h.word_eq]
    exact if_neg fun hopen => hclosed ⟨hopen.1, hopen.2.1⟩
  · have hnil : pending = [] := List.eq_nil_of_length_eq_zero (by omega)
    rw [if_neg hsp, if_pos hnil]
    exact .nil

/-- The word that is left open is read as the run that the text ends in. -/
theorem token_unclosed (h : Scanned cs s true pending done []) :
    (Piece.run s cs.length).token cs = Token.ofUnclosed pending.reverse := by
  obtain rfl : cs = done := by rw [h.text, List.append_nil]
  have hodd : Odd (cs.count quote) := h.parity.1 rfl
  simp only [Piece.token, h.word_eq, hodd, true_and]
  cases pending.reverse with
  | nil => rfl
  | cons c word =>
    by_cases hc : c = quote
    · simp [Token.ofUnclosed, hc]
    · simp [Token.ofUnclosed, hc]

end Scanned

/-! ## The whole scan -/

namespace Lexeme

variable {quoted : Bool} {pending rest : List Char} {c : Char}

theorem scan_push (h : ¬(quoted = false ∧ (Text.isBlank c ∨ c ∈ marks.map Prod.fst))) :
    scan quoted pending (c :: rest) =
      scan (if c = quote then !quoted else quoted) (c :: pending) rest := by
  rw [scan]
  by_cases hc : c = quote
  · rw [if_pos hc, if_pos hc]
  · rw [if_neg hc, if_neg hc]
    cases quoted with
    | true => rfl
    | false =>
      obtain ⟨hblank, hmark⟩ := not_or.1 (not_and.1 h rfl)
      rw [if_neg Bool.false_ne_true, if_neg hblank, ofMark?_eq_none.2 hmark]

theorem scan_blank (h : Text.isBlank c) :
    scan false pending (c :: rest) = ofPending pending ++ scan false [] rest := by
  rw [scan, if_neg (ne_quote_of_delimits (.inl h)), if_neg Bool.false_ne_true, if_pos h]

theorem scan_mark {token : Token} (hblank : ¬Text.isBlank c) (h : Token.ofMark? c = some token) :
    scan false pending (c :: rest) = ofPending pending ++ .mark token :: scan false [] rest := by
  have hne : c ≠ quote := by
    rintro rfl
    cases h
  rw [scan, if_neg hne, if_neg Bool.false_ne_true, if_neg hblank, h]

end Lexeme

/-- From any state that it reaches, the scan finds the pieces from the start of the open run on. -/
theorem exists_pieces_of_scan {quoted : Bool} {pending done rest : List Char}
    (h : Scanned cs s quoted pending done rest) :
    ∃ pieces, PiecesFrom cs s pieces ∧
      List.Forall₂ (fun p l => p.token cs = Token.ofLexeme l) pieces
        (Lexeme.scan quoted pending rest) := by
  induction rest generalizing s quoted pending done with
  | nil =>
    have hdone : done.length = cs.length := by rw [h.text, List.append_nil]
    have hend := (PiecesFrom.nil_length cs).flush (hdone ▸ h.run) le_rfl (.inl rfl)
    rw [List.append_nil] at hend
    refine ⟨_, hend, ?_⟩
    cases quoted with
    | false =>
      have heven : ¬Odd (cs.count quote) := by
        rw [h.text, List.append_nil, ← h.parity]
        exact Bool.false_ne_true
      rw [← hdone]
      exact h.token_ofPending fun hopen => heven hopen.1
    | true =>
      rw [runBetween, if_pos (hdone ▸ h.begun rfl)]
      exact .cons h.token_unclosed .nil
  | cons c rest ih =>
    have hlt := h.length_lt
    have hle : done.length ≤ cs.length := Nat.le_of_lt hlt
    have hclosed : ¬(Odd (cs.count quote) ∧ done.length = cs.length) := by
      intro hopen
      exact Nat.ne_of_lt hlt hopen.2
    by_cases hdel : IsDelimiter cs done.length
    · obtain ⟨rfl, hc⟩ := h.isDelimiter_iff.1 hdel
      have hpending := h.token_ofPending hclosed
      obtain ⟨pieces, hpieces, htokens⟩ := ih (h.cut hdel)
      by_cases hblank : Text.isBlank c
      · have hmark (token : Token) : ¬IsMark cs done.length token := by
          intro hin
          have htoken := (h.isMark_iff.1 hin).2
          rw [ofMark?_of_isBlank hblank] at htoken
          cases htoken
        rw [Lexeme.scan_blank hblank]
        exact ⟨_, (hpieces.blank hdel hmark).flush h.run hle (.inr hdel),
          List.rel_append hpending htokens⟩
      · obtain ⟨token, hc⟩ := exists_mark (hc.resolve_left hblank)
        rw [Lexeme.scan_mark hblank hc]
        exact ⟨_, (hpieces.mark (h.isMark_iff.2 ⟨rfl, hc⟩)).flush h.run hle (.inr hdel),
          List.rel_append hpending (.cons rfl htokens)⟩
    · obtain ⟨pieces, hpieces, htokens⟩ := ih (h.push hdel)
      rw [Lexeme.scan_push (h.isDelimiter_iff.not.1 hdel)]
      exact ⟨pieces, hpieces, htokens⟩

/-- The tokens of a text are those of its pieces. -/
theorem Token.exists_pieces_of_text (text : String) :
    ∃ pieces, PiecesFrom text.toList 0 pieces ∧
      pieces.mapM (Piece.token text.toList) = ofText text := by
  obtain ⟨pieces, hpieces, htokens⟩ := exists_pieces_of_scan (.start text.toList)
  exact ⟨pieces, hpieces, Except.mapM_congr htokens⟩

/-- A text has a list of its pieces in the order of their positions, in which every character that
does not delimit is covered once. The tokens of the text are the tokens of these pieces one by one,
and if there are none then the error is that of the first piece that has no token. -/
theorem Token.ofText_iff_pieces (text : String) :
    ∃ pieces : List Piece,
      (pieces.Pairwise fun p q => p.start < q.start) ∧
      (∀ p, p ∈ pieces ↔ p.In text.toList) ∧
      (∀ k < text.toList.length, ¬IsDelimiter text.toList k → ∃! p, p ∈ pieces ∧ p.Covers k) ∧
      (∀ tokens, ofText text = .ok tokens ↔
        List.Forall₂ (fun p token => p.token text.toList = .ok token) pieces tokens) ∧
      ∀ fault, ofText text = .error fault ↔
        ∃ before p after, pieces = before ++ p :: after ∧
          (∀ q ∈ before, ∃ token, q.token text.toList = .ok token) ∧
          p.token text.toList = .error fault := by
  obtain ⟨pieces, hpieces, htokens⟩ := exists_pieces_of_text text
  have hmem (p : Piece) : p ∈ pieces ↔ p.In text.toList := by
    rw [hpieces.mem_iff]
    exact and_iff_left (Nat.zero_le _)
  refine ⟨pieces, hpieces.ascending, hmem, ?_, ?_, ?_⟩
  · intro k hlen hk
    simpa only [hmem] using existsUnique_piece hlen hk
  · intro tokens
    rw [← htokens, Except.mapM_eq_ok]
  · intro fault
    rw [← htokens, Except.mapM_eq_error]

/-- Quotes inside a word keep it together, and the last word is closed by the end of the text. -/
example : Token.ofText "a'b c' (;) 'd e" =
    .ok [.ident "a'b c'", .openParen, .semicolon, .closeParen, .string "d e"] := by rfl

end RowStore
