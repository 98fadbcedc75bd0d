import RowStore.Proofs.List
import RowStore.Text.Case

/-!
# Words under the case mappings

A character may be mapped to several characters, so the image of a word need not have as many as the
word. It has if no part of it is such an expansion: then each of its characters is the image of one
character of the word (`CaseTable.flatMap_map_eq_iff`). Which characters have a letter of ASCII as
their image is read off the few runs that reach ASCII: the letters themselves, two more for capital
letters and one more for small letters (`upper_eq_iff`, `lower_eq_iff`).
-/

namespace RowStore.Text

variable {c letter : Char} {word name : String}

/-! ## The two forms of a letter -/

theorem toNat_toLower (c : Char) :
    c.toLower.toNat = if 65 ≤ c.toNat ∧ c.toNat ≤ 90 then c.toNat + 32 else c.toNat := by
  have hupper : c.val ≥ 'A'.val ∧ c.val ≤ 'Z'.val ↔ 65 ≤ c.toNat ∧ c.toNat ≤ 90 := by
    rw [ge_iff_le, UInt32.le_iff_toNat_le, UInt32.le_iff_toNat_le]
    rfl
  by_cases h : c.val ≥ 'A'.val ∧ c.val ≤ 'Z'.val
  · have hlower : c.toLower.val = c.val + 32 := congrArg Char.val (dif_pos h)
    have hc := hupper.1 h
    rw [if_pos hc, Char.toNat, hlower, UInt32.toNat_add]
    change (c.toNat + 32) % 2 ^ 32 = c.toNat + 32
    omega
  · have hlower : c.toLower = c := dif_neg h
    rw [if_neg (hupper.not.1 h), hlower]

/-- Only the two forms of a letter have its small form. -/
theorem toLower_eq_iff (hl : 65 ≤ letter.toNat ∧ letter.toNat ≤ 90) :
    c.toLower = letter.toLower ↔ c = letter ∨ c = letter.toLower := by
  simp only [← Char.toNat_inj, toNat_toLower, if_pos hl]
  split <;> omega

theorem toLower_of_small (hl : 97 ≤ letter.toNat ∧ letter.toNat ≤ 122) :
    letter.toLower = letter := by
  rw [← Char.toNat_inj, toNat_toLower, if_neg]
  omega

theorem equalUpToLetterCase_iff {s t : String} :
    equalUpToLetterCase s t ↔
      List.Forall₂ (fun c d => c.toLower = d.toLower) s.toList t.toList := by
  rw [equalUpToLetterCase, beq_iff_eq, ← List.forall₂_eq_eq_eq, List.forall₂_map_left_iff,
    List.forall₂_map_right_iff]

/-! ## Images -/

/-- Numbers that are no code point stand for zero. -/
theorem toNat_ofNat_of_pos {n : Nat} (h : 0 < (Char.ofNat n).toNat) :
    (Char.ofNat n).toNat = n := by
  by_cases hn : n.isValidChar
  · rw [Char.ofNat, dif_pos hn]
    rfl
  · rw [Char.ofNat, dif_neg hn] at h
    exact absurd h (Nat.lt_irrefl 0)

theorem CaseRun.image?_eq_some {r : CaseRun} {n m : Nat} : r.image? n = some m ↔
    (r.first ≤ n ∧ n ≤ r.last ∧ (n - r.first) % r.step = 0) ∧ m = r.image + (n - r.first) := by
  rw [image?]
  split <;> simp_all [eq_comm]

theorem CaseRun.image?_single {n m i j : Nat} :
    (⟨n, n, 1, m⟩ : CaseRun).image? i = some j ↔ i = n ∧ j = m := by
  rw [image?_eq_some]
  dsimp only
  omega

namespace CaseTable

variable {t : CaseTable} {r : CaseRun}

/-- What a character can be mapped to: its image in a run, its expansion, or itself. -/
inductive Image (t : CaseTable) (c : Char) : List Char → Prop
  | run {r : CaseRun} {n : Nat} (mem : r ∈ t.runs) (image : r.image? c.toNat = some n) :
      Image t c [Char.ofNat n]
  | expansion {ns : List Nat} (mem : (c.toNat, ns) ∈ t.expansions) :
      Image t c (ns.map Char.ofNat)
  | self (outside : ∀ r ∈ t.runs, r.image? c.toNat = none) : Image t c [c]

theorem image_map (t : CaseTable) (c : Char) : t.Image c (t.map c) := by
  unfold map
  split
  · next n hn =>
    obtain ⟨r, hr, himage⟩ := List.exists_of_findSome?_eq_some hn
    exact .run hr himage
  · next hnone =>
    split
    · next ns hns =>
      obtain ⟨before, after, hsplit, -⟩ := List.lookup_eq_some_iff.1 hns
      exact .expansion (by simp [hsplit])
    · exact .self (List.findSome?_eq_none_iff.1 hnone)

/-- Expansions are images of characters past ASCII, and have several characters. -/
def Expands (t : CaseTable) : Prop := ∀ e ∈ t.expansions, 0x80 ≤ e.1 ∧ 2 ≤ e.2.length

/-- One run is enough for the characters of ASCII if no other one starts among them. -/
theorem map_of_toNat_lt (hexpands : t.Expands) (hruns : t.runs.filter (·.first < 0x80) = [r])
    (hc : c.toNat < 0x80) : t.map c = [(r.image? c.toNat).elim c Char.ofNat] := by
  have himage := t.image_map c
  generalize t.map c = cs at himage ⊢
  cases himage with
  | @run r' n hr' hn =>
    have hfirst : r'.first < 0x80 := Nat.lt_of_le_of_lt (CaseRun.image?_eq_some.1 hn).1.1 hc
    have hmem : r' ∈ t.runs.filter (·.first < 0x80) :=
      List.mem_filter.2 ⟨hr', decide_eq_true hfirst⟩
    rw [hruns, List.mem_singleton] at hmem
    rw [← hmem, hn]
    rfl
  | expansion hns => exact absurd (hexpands _ hns).1 (Nat.not_le_of_lt hc)
  | self houtside =>
    have hmem : r ∈ t.runs.filter (·.first < 0x80) := hruns ▸ List.mem_singleton_self r
    rw [houtside r (List.mem_filter.1 hmem).1]
    rfl

/-- A character is mapped to another one that is in ASCII by a run whose images start there. -/
theorem exists_run_of_map (hexpands : t.Expands) (hletter : 0 < letter.toNat ∧ letter.toNat < 0x80)
    (h : t.map c = [letter]) :
    c = letter ∨ ∃ r ∈ t.runs.filter (·.image < 0x80), r.image? c.toNat = some letter.toNat := by
  have himage := t.image_map c
  rw [h] at himage
  generalize hcs : [letter] = cs at himage
  cases himage with
  | @run r n hr hn =>
    right
    obtain rfl : letter = Char.ofNat n := List.singleton_inj.1 hcs
    have hnat : (Char.ofNat n).toNat = n := toNat_ofNat_of_pos hletter.1
    have hlow : r.image < 0x80 := by
      have := (CaseRun.image?_eq_some.1 hn).2
      omega
    exact ⟨r, List.mem_filter.2 ⟨hr, decide_eq_true hlow⟩, hnat.symm ▸ hn⟩
  | @expansion ns hns =>
    have hone : ns.length = 1 := by rw [← List.length_map, ← hcs, List.length_singleton]
    have htwo : 2 ≤ ns.length := (hexpands _ hns).2
    omega
  | self => exact .inl (List.singleton_inj.1 hcs).symm

/-! ## Images of words -/

/-- No part of the word is an expansion. -/
def Unexpanded (t : CaseTable) (word : List Char) : Prop :=
  ∀ e ∈ t.expansions, ¬e.2.map Char.ofNat <:+: word

instance (t : CaseTable) (word : List Char) : Decidable (t.Unexpanded word) :=
  inferInstanceAs (Decidable (∀ e ∈ t.expansions, ¬e.2.map Char.ofNat <:+: word))

theorem exists_map_eq_singleton {word : List Char} (h : t.Unexpanded word)
    (hc : t.map c <:+: word) : ∃ d, t.map c = [d] := by
  have himage := t.image_map c
  generalize t.map c = cs at himage hc ⊢
  cases himage with
  | run => exact ⟨_, rfl⟩
  | expansion hns => exact absurd hc (h _ hns)
  | self => exact ⟨_, rfl⟩

end CaseTable

/-- The image of a word is a word without expansions exactly if it is so character by character. -/
theorem CaseTable.flatMap_map_eq_iff {t : CaseTable} {cs word : List Char}
    (h : t.Unexpanded word) :
    cs.flatMap t.map = word ↔ List.Forall₂ (fun c letter => t.map c = [letter]) cs word := by
  constructor
  · rintro rfl
    -- Each image is a part of the word, so it is no expansion.
    refine forall₂_flatMap fun c hc => exists_map_eq_singleton h ?_
    exact List.infix_of_mem_flatten (List.mem_map_of_mem hc)
  · exact flatMap_eq_of_forall₂

/-! ## Capital letters -/

theorem expands_upperTable : upperTable.Expands := by
  unfold CaseTable.Expands
  decide +kernel

/-- The letter in either case, long s for S or dotless i for I. -/
def HasCapital (c letter : Char) : Prop :=
  c = letter ∨ c = letter.toLower ∨ letter = 'S' ∧ c = '\u017F' ∨ letter = 'I' ∧ c = '\u0131'

namespace HasCapital

variable (h : HasCapital c letter) (hl : 65 ≤ letter.toNat ∧ letter.toNat ≤ 90)
include h hl

theorem le_toNat : 65 ≤ c.toNat := by
  obtain rfl | rfl | ⟨-, rfl⟩ | ⟨-, rfl⟩ := h
  · exact hl.1
  · rw [toNat_toLower, if_pos hl]
    omega
  · decide
  · decide

/-- Only two letters are the capital of a character past ASCII. -/
theorem letter_of_le_toNat (hc : 0x80 ≤ c.toNat) : letter = 'I' ∨ letter = 'S' := by
  obtain rfl | rfl | ⟨rfl, -⟩ | ⟨rfl, -⟩ := h
  · omega
  · rw [toNat_toLower, if_pos hl] at hc
    omega
  · exact .inr rfl
  · exact .inl rfl

end HasCapital

theorem upperTable_map_letter (hl : 65 ≤ letter.toNat ∧ letter.toNat ≤ 90) :
    upperTable.map letter = [letter] ∧ upperTable.map letter.toLower = [letter] := by
  have hruns : upperTable.runs.filter (·.first < 0x80) = [⟨0x61, 0x7A, 1, 0x41⟩] := rfl
  have hsmall : letter.toLower.toNat = letter.toNat + 32 := by rw [toNat_toLower, if_pos hl]
  constructor
  · rw [CaseTable.map_of_toNat_lt expands_upperTable hruns (by omega), CaseRun.image?, if_neg]
    · rfl
    · dsimp only
      omega
  · rw [CaseTable.map_of_toNat_lt expands_upperTable hruns (by omega), CaseRun.image?, hsmall,
      if_pos]
    · have hback : 0x41 + (letter.toNat + 32 - 0x61) = letter.toNat := by omega
      rw [hback, Option.elim_some, Char.ofNat_toNat]
    · dsimp only
      omega

theorem upperTable_map_eq_singleton (hl : 65 ≤ letter.toNat ∧ letter.toNat ≤ 90) :
    upperTable.map c = [letter] ↔ HasCapital c letter := by
  have hruns : upperTable.runs.filter (·.image < 0x80) =
      [⟨0x61, 0x7A, 1, 0x41⟩, ⟨0x131, 0x131, 1, 0x49⟩, ⟨0x17F, 0x17F, 1, 0x53⟩] := rfl
  constructor
  · intro h
    refine (CaseTable.exists_run_of_map expands_upperTable (by omega) h).imp_right ?_
    rintro ⟨r, hr, himage⟩
    simp only [hruns, List.mem_cons, List.not_mem_nil, or_false] at hr
    -- The small letters, dotless i, long s.
    obtain rfl | rfl | rfl := hr
    · left
      rw [CaseRun.image?_eq_some] at himage
      rw [← Char.toNat_inj, toNat_toLower, if_pos hl]
      dsimp only at himage
      omega
    · obtain ⟨hc, hletter⟩ := CaseRun.image?_single.1 himage
      exact .inr (.inr ⟨Char.toNat_inj.1 hletter, Char.toNat_inj.1 hc⟩)
    · obtain ⟨hc, hletter⟩ := CaseRun.image?_single.1 himage
      exact .inr (.inl ⟨Char.toNat_inj.1 hletter, Char.toNat_inj.1 hc⟩)
  · rintro (rfl | rfl | ⟨rfl, rfl⟩ | ⟨rfl, rfl⟩)
    · exact (upperTable_map_letter hl).1
    · exact (upperTable_map_letter hl).2
    · decide +kernel
    · decide +kernel

/-- The words whose upper case is a word of capital letters. -/
theorem upper_eq_iff (hname : ∀ letter ∈ name.toList, 65 ≤ letter.toNat ∧ letter.toNat ≤ 90)
    (h : upperTable.Unexpanded name.toList) :
    upper word = name ↔ List.Forall₂ HasCapital word.toList name.toList := by
  rw [upper, ← String.toList_inj, String.toList_ofList, CaseTable.flatMap_map_eq_iff h]
  exact forall₂_congr fun letter hletter c => upperTable_map_eq_singleton (hname letter hletter)

/-! ## Small letters -/

theorem expands_lowerTable : lowerTable.Expands := by
  unfold CaseTable.Expands
  decide +kernel

theorem lowerTable_map_of_toNat_lt (hc : c.toNat < 0x80) : lowerTable.map c = [c.toLower] := by
  have hruns : lowerTable.runs.filter (·.first < 0x80) = [⟨0x41, 0x5A, 1, 0x61⟩] := rfl
  rw [CaseTable.map_of_toNat_lt expands_lowerTable hruns hc, ← Char.ofNat_toNat c.toLower,
    toNat_toLower, CaseRun.image?]
  dsimp only
  by_cases h : 65 ≤ c.toNat ∧ c.toNat ≤ 90
  · have hshift : 0x61 + (c.toNat - 0x41) = c.toNat + 32 := by omega
    rw [if_pos h, if_pos (by omega), Option.elim_some, hshift]
  · rw [if_neg h, if_neg (by omega), Option.elim_none, Char.ofNat_toNat]

/-- The kelvin sign has a small letter, too. -/
theorem lowerTable_map_eq_singleton (hl : 97 ≤ letter.toNat ∧ letter.toNat ≤ 122) :
    lowerTable.map c = [letter] ↔ c.toLower = letter ∨ letter = 'k' ∧ c = '\u212A' := by
  have hruns : lowerTable.runs.filter (·.image < 0x80) =
      [⟨0x41, 0x5A, 1, 0x61⟩, ⟨0x212A, 0x212A, 1, 0x6B⟩] := rfl
  constructor
  · intro h
    obtain rfl | ⟨r, hr, himage⟩ := CaseTable.exists_run_of_map expands_lowerTable (by omega) h
    · exact .inl (toLower_of_small hl)
    · simp only [hruns, List.mem_cons, List.not_mem_nil, or_false] at hr
      -- The capital letters, the kelvin sign.
      obtain rfl | rfl := hr
      · left
        rw [CaseRun.image?_eq_some] at himage
        rw [← Char.toNat_inj, toNat_toLower]
        dsimp only at himage
        rw [if_pos ⟨himage.1.1, himage.1.2.1⟩]
        omega
      · obtain ⟨hc, hletter⟩ := CaseRun.image?_single.1 himage
        exact .inr ⟨Char.toNat_inj.1 hletter, Char.toNat_inj.1 hc⟩
  · rintro (h | ⟨rfl, rfl⟩)
    · have hascii : c.toNat < 0x80 := by
        rw [← h, toNat_toLower] at hl
        split at hl <;> omega
      rw [lowerTable_map_of_toNat_lt hascii, h]
    · decide +kernel

/-- The words whose lower case is a word of small letters other than k. -/
theorem lower_eq_iff (hname : ∀ letter ∈ name.toList, 97 ≤ letter.toNat ∧ letter.toNat ≤ 122)
    (hk : 'k' ∉ name.toList) (h : lowerTable.Unexpanded name.toList) :
    lower word = name ↔ equalUpToLetterCase word name := by
  rw [lower, ← String.toList_inj, String.toList_ofList, CaseTable.flatMap_map_eq_iff h,
    equalUpToLetterCase_iff]
  refine forall₂_congr fun letter hletter c => ?_
  have hne : letter ≠ 'k' := fun heq => hk (heq ▸ hletter)
  have hsmall := hname letter hletter
  rw [lowerTable_map_eq_singleton hsmall, toLower_of_small hsmall]
  simp only [hne, false_and, or_false]

/-! ## Capital sigma -/

/-- The lower case of what follows `before`, where a rule that sees the characters on both sides of
a capital sigma, the nearest first, says whether it takes its final form. -/
def lowerBehind (final : List Char → List Char → Bool) (before : List Char) :
    List Char → List Char
  | [] => []
  | c :: after =>
    (if c = '\u03A3' ∧ final before after then ['\u03C2'] else lowerTable.map c) ++
      lowerBehind final (c :: before) after

/-- Lower case with a rule for final sigma. -/
def lowerWith (final : List Char → List Char → Bool) (s : String) : String :=
  String.ofList (lowerBehind final [] s.toList)

/-- Neither form of sigma is a character of ASCII. -/
theorem lowerBehind_eq_iff {final : List Char → List Char → Bool} {before cs ds : List Char}
    (hds : ∀ d ∈ ds, d.toNat < 0x80) :
    lowerBehind final before cs = ds ↔ cs.flatMap lowerTable.map = ds := by
  induction cs generalizing before ds with
  | nil => rfl
  | cons c after ih =>
    rw [lowerBehind, List.flatMap_cons]
    split
    · next hfinal =>
      -- Whichever form sigma takes, it is in the image, so neither image is `ds`.
      have hsigma : lowerTable.map c = ['\u03C3'] := by
        rw [hfinal.1]
        decide +kernel
      rw [hsigma]
      constructor
      · rintro rfl
        exact absurd (hds _ List.mem_cons_self) (by decide)
      · rintro rfl
        exact absurd (hds _ List.mem_cons_self) (by decide)
    · constructor
      · rintro rfl
        rw [(ih (List.forall_mem_append.1 hds).2).1 rfl]
      · rintro rfl
        rw [(ih (List.forall_mem_append.1 hds).2).2 rfl]

/-- For words of ASCII no rule for sigma matters. -/
theorem lowerWith_eq_iff {final : List Char → List Char → Bool}
    (hname : ∀ letter ∈ name.toList, letter.toNat < 0x80) :
    lowerWith final word = name ↔ lower word = name := by
  rw [lowerWith, lower, ← String.toList_inj, ← String.toList_inj, String.toList_ofList,
    String.toList_ofList]
  exact lowerBehind_eq_iff hname

end RowStore.Text
