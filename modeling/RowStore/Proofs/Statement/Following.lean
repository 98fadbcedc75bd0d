import Mathlib.Computability.Language
import Mathlib.Order.CompletePartialOrder
import RowStore.Proofs.Statement.Parts

/-!
# Parsers that follow a language

A parser follows a language if it takes words of it and is refused only behind the beginning of
one, looking at no token but the next one. This is a law of each combinator, so it holds of each
part of a statement for the tokens that the part is written with.
-/

namespace RowStore

/-- The tokens of each item. -/
def words {β : Type} (tokens : β → List Token) : Language Token := {w | ∃ b, tokens b = w}

/-- The tokens of further items, each behind a comma. -/
def itemTails {β : Type} (tokens : β → List Token) : Language Token :=
  {w | ∃ bs : List β, (bs.flatMap fun b => .comma :: tokens b) = w}

/-- The tokens of lists of items. -/
def itemLists {β : Type} (tokens : β → List Token) : Language Token :=
  {w | ∃ bs : List β, bs ≠ [] ∧ separated tokens bs = w}

/-- A language with a word. -/
class HasWord (L : Language Token) : Prop where
  exists_mem : ∃ w, w ∈ L

instance {β : Type} [Nonempty β] (tokens : β → List Token) : HasWord (words tokens) :=
  ⟨⟨_, Classical.arbitrary β, rfl⟩⟩

instance {β : Type} (tokens : β → List Token) : HasWord (itemTails tokens) := ⟨⟨[], [], rfl⟩⟩

instance {β : Type} [Nonempty β] (tokens : β → List Token) : HasWord (itemLists tokens) :=
  ⟨⟨_, [Classical.arbitrary β], by simp, rfl⟩⟩

instance (t : Token) : HasWord {[t]} := ⟨⟨[t], rfl⟩⟩

instance : HasWord 1 := ⟨⟨[], rfl⟩⟩

instance (L M : Language Token) [hL : HasWord L] [hM : HasWord M] : HasWord (L * M) := by
  obtain ⟨v, hv⟩ := hL.exists_mem
  obtain ⟨w, hw⟩ := hM.exists_mem
  exact ⟨⟨v ++ w, Language.append_mem_mul hv hw⟩⟩

instance (L M : Language Token) [hM : HasWord M] : HasWord (L + M) := by
  obtain ⟨w, hw⟩ := hM.exists_mem
  exact ⟨⟨w, .inr hw⟩⟩

instance : Nonempty Literal := ⟨.boolean true⟩

instance : Nonempty FieldText := ⟨⟨"", "", false⟩⟩

instance : Nonempty ConditionText := ⟨⟨"", .boolean true⟩⟩

namespace Parser

variable {α β : Type} {p q : Parser α} {f : α → Parser β} {c d : Cursor} {t : Token}
  {L M : Language Token} {e : Error}

theorem bind_eq_error : (p >>= f) c = .error e ↔
    p c = .error e ∨ ∃ x d, p c = .ok (x, d) ∧ f x d = .error e := by
  change (p c >>= fun x => f x.1 x.2) = _ ↔ _
  rw [Except.bind_eq_error]
  simp only [Prod.exists]

/-- From a cursor a parser goes along a language. What it takes is a word, and if the grammar stops
it, the tokens up to there begin a word. In both cases the token behind them is the last that it has
looked at. -/
structure Follows (p : Parser α) (L : Language Token) (c : Cursor) : Prop where
  takes : ∀ {x d}, p c = .ok (x, d) → ∃ w ∈ L, c.rest = w ++ d.rest ∧
    d.position = c.position + w.length ∧
    ∀ rest, rest.head? = d.rest.head? → p ⟨c.position, w ++ rest⟩ = .ok (x, ⟨d.position, rest⟩)
  stops : ∀ {n fault}, p c = .error (.malformed n fault) → ∃ w after, c.rest = w ++ after ∧
    n = c.position + w.length ∧ (∃ v, w ++ v ∈ L) ∧
    ∀ rest, rest.head? = after.head? → p ⟨c.position, w ++ rest⟩ = .error (.malformed n fault)

theorem Follows.mono (h : p.Follows L c) (hLM : L ≤ M) : p.Follows M c where
  takes hp := by
    obtain ⟨w, hw, htaken⟩ := h.takes hp
    exact ⟨w, hLM hw, htaken⟩
  stops hp := by
    obtain ⟨w, after, hc, hn, ⟨v, hv⟩, hlocal⟩ := h.stops hp
    exact ⟨w, after, hc, hn, ⟨v, hLM hv⟩, hlocal⟩

theorem Follows.bind [hM : HasWord M] (hp : p.Follows L c)
    (hf : ∀ x d, p c = .ok (x, d) → (f x).Follows M d) : (p >>= f).Follows (L * M) c where
  takes h := by
    obtain ⟨x, d, hx, hy⟩ := bind_eq_ok.1 h
    obtain ⟨w, hw, hc, hd, hlocal⟩ := hp.takes hx
    obtain ⟨w', hw', hd', he, hlocal'⟩ := (hf x d hx).takes hy
    refine ⟨w ++ w', Language.append_mem_mul hw hw', by rw [hc, hd', List.append_assoc], ?_, ?_⟩
    · rw [he, hd, List.length_append, Nat.add_assoc]
    · intro rest hrest
      rw [List.append_assoc]
      refine bind_eq_ok.2 ⟨x, ⟨d.position, w' ++ rest⟩, hlocal _ ?_, hlocal' rest hrest⟩
      rw [hd', List.head?_append, List.head?_append, hrest]
  stops h := by
    rcases bind_eq_error.1 h with hx | ⟨x, d, hx, hy⟩
    · obtain ⟨w, after, hc, hn, ⟨v, hv⟩, hlocal⟩ := hp.stops hx
      obtain ⟨v', hv'⟩ := hM.exists_mem
      refine ⟨w, after, hc, hn, ⟨v ++ v', ?_⟩, fun rest hrest => ?_⟩
      · rw [← List.append_assoc]
        exact Language.append_mem_mul hv hv'
      · exact bind_eq_error.2 (.inl (hlocal rest hrest))
    · obtain ⟨w, hw, hc, hd, hlocal⟩ := hp.takes hx
      obtain ⟨w', after, hd', hn, ⟨v, hv⟩, hlocal'⟩ := (hf x d hx).stops hy
      refine ⟨w ++ w', after, by rw [hc, hd', List.append_assoc], ?_, ⟨v, ?_⟩, fun rest hrest => ?_⟩
      · rw [hn, hd, List.length_append, Nat.add_assoc]
      · rw [List.append_assoc]
        exact Language.append_mem_mul hw hv
      · rw [List.append_assoc]
        refine bind_eq_error.2 (.inr ⟨x, ⟨d.position, w' ++ rest⟩, hlocal _ ?_, hlocal' rest hrest⟩)
        rw [hd', List.head?_append, List.head?_append, hrest]

theorem follows_pure (x : α) (c : Cursor) : (pure x : Parser α).Follows 1 c where
  takes h := by
    obtain ⟨rfl, rfl⟩ := pure_eq_ok.1 h
    exact ⟨[], Language.nil_mem_one, rfl, rfl, fun _ _ => rfl⟩
  stops h := nomatch h

theorem Follows.bind_pure (h : p.Follows L c) (g : α → β) :
    (p >>= fun x => pure (g x)).Follows L c := by
  rw [← mul_one L]
  exact h.bind fun x d _ => follows_pure _ d

/-- A fault that is not the grammar's can come anywhere. -/
theorem follows_of_error (h : p c = .error e) (he : ∀ n fault, e ≠ .malformed n fault) :
    p.Follows L c where
  takes hp := by
    rw [h] at hp
    cases hp
  stops {n fault} hp := by
    rw [h] at hp
    exact absurd (Except.error.inj hp) (he n fault)

theorem follows_throw (he : ∀ n fault, e ≠ .malformed n fault) :
    (throw e : Parser α).Follows L c := follows_of_error rfl he

theorem follows_next [hL : HasWord L] {expected : Expectation} {read? : Token → Option α}
    (hread : ∀ t x, c.rest.head? = some t → read? t = some x → [t] ∈ L) :
    (next expected read?).Follows L c where
  takes h := by
    obtain ⟨t, hc, ht, hd⟩ := next_eq_ok.1 h
    have hmem : [t] ∈ L := hread t _ (hc ▸ rfl) ht
    exact ⟨[t], hmem, hc, hd, fun rest _ => next_eq_ok.2 ⟨t, rfl, ht, hd⟩⟩
  stops h := by
    refine ⟨[], c.rest, rfl, ?_, hL.exists_mem, fun rest hrest => ?_⟩
    · unfold next at h
      grind
    · unfold next at h ⊢
      cases rest <;> grind

theorem follows_expect (t : Token) : (expect t).Follows {[t]} c := by
  refine follows_next fun u x _ hu => ?_
  obtain rfl : u = t := by grind
  rfl

theorem follows_ident : ident.Follows (words fun name => [.ident name]) c := by
  refine follows_next fun t name _ ht => ⟨name, ?_⟩
  cases t <;> simp_all [Token.ident?]

theorem follows_literal : literal.Follows (words fun l : Literal => [l.token]) c := by
  refine follows_next fun t v _ ht => ?_
  cases t with
  | string s => exact ⟨.string s, rfl⟩
  | integer n => exact ⟨.integer n, rfl⟩
  | float x => exact ⟨.float x, rfl⟩
  | boolean b => exact ⟨.boolean b, rfl⟩
  | _ => cases ht

/-- The word before the values, as a word of the language. -/
def valuesWords : Language Token := {w | ∃ word, IsValuesWord word ∧ [.ident word] = w}

theorem isValuesWord_values : IsValuesWord "VALUES" := isValuesWord_iff.2 (by decide +kernel)

instance : HasWord valuesWords := ⟨⟨_, "VALUES", isValuesWord_values, rfl⟩⟩

theorem follows_values : values.Follows valuesWords c := by
  refine follows_next fun t u _ ht => ?_
  cases t with
  | ident word =>
    have hvalues : (Token.ident word).isValues := by grind
    exact ⟨word, isValuesWord_iff.2 hvalues, rfl⟩
  | _ => simp [Token.isValues] at ht

/-! ## What is there or not -/

theorem accept_bind_cons (n : Nat) (rest : List Token) :
    (accept t >>= fun b => if b then p else q) ⟨n, t :: rest⟩ = p ⟨n + 1, rest⟩ := by
  simp [accept, bind, StateT.bind, Except.bind]

theorem accept_bind_of_ne (hc : c.rest.head? ≠ some t) :
    (accept t >>= fun b => if b then p else q) c = q c := by
  obtain ⟨n, rest⟩ := c
  cases rest with
  | nil => rfl
  | cons u rest =>
    have hne : u ≠ t := by simpa using hc
    simp [accept, hne, bind, StateT.bind, Except.bind]

theorem cons_mem_mul {w : List Token} (h : w ∈ L) : t :: w ∈ ({[t]} : Language Token) * L :=
  Language.mem_mul.2 ⟨[t], rfl, w, h, rfl⟩

/-- A token decides which of two parsers goes on. -/
theorem follows_accept (hp : ∀ d, c.rest = t :: d.rest → p.Follows L d) (hq : q.Follows M c) :
    (accept t >>= fun b => if b then p else q).Follows ({[t]} * L + M) c := by
  obtain ⟨n, ts⟩ := c
  by_cases hhead : ts.head? = some t
  · obtain ⟨ts, rfl⟩ := List.head?_eq_some_iff.1 hhead
    have hfollows := hp ⟨n + 1, ts⟩ rfl
    constructor
    · intro x d h
      rw [accept_bind_cons] at h
      obtain ⟨w, hw, hc, hd, hlocal⟩ := hfollows.takes h
      refine ⟨t :: w, .inl (cons_mem_mul hw), congrArg _ hc, by grind, ?_⟩
      intro rest hrest
      rw [List.cons_append, accept_bind_cons]
      exact hlocal rest hrest
    · intro m fault h
      rw [accept_bind_cons] at h
      obtain ⟨w, after, hc, hm, ⟨v, hv⟩, hlocal⟩ := hfollows.stops h
      refine ⟨t :: w, after, congrArg _ hc, by grind, ⟨v, .inl (cons_mem_mul hv)⟩, ?_⟩
      intro rest hrest
      rw [List.cons_append, accept_bind_cons]
      exact hlocal rest hrest
  · constructor
    · intro x d h
      rw [accept_bind_of_ne hhead] at h
      obtain ⟨w, hw, hc, hd, hlocal⟩ := hq.takes h
      refine ⟨w, .inr hw, hc, hd, ?_⟩
      intro rest hrest
      rw [accept_bind_of_ne, hlocal rest hrest]
      rwa [List.head?_append, hrest, ← List.head?_append, ← hc]
    · intro m fault h
      rw [accept_bind_of_ne hhead] at h
      obtain ⟨w, after, hc, hm, ⟨v, hv⟩, hlocal⟩ := hq.stops h
      refine ⟨w, after, hc, hm, ⟨v, .inr hv⟩, ?_⟩
      intro rest hrest
      rw [accept_bind_of_ne, hlocal rest hrest]
      rwa [List.head?_append, hrest, ← List.head?_append, ← hc]

/-! ## Lists -/

variable {item : List α → Parser α} {tokens : β → List Token} {earlier : List α}

/-- Further items, with fuel for all the tokens that are left. -/
def furtherItems (item : List α → Parser α) (earlier : List α) : Parser (List α) := do
  moreItems item earlier (← get).rest.length

theorem furtherItems_apply : furtherItems item earlier c = moreItems item earlier c.rest.length c :=
  rfl

theorem bind_congr_of_ok {g : α → Parser β} (h : ∀ x d, p c = .ok (x, d) → f x d = g x d) :
    (p >>= f) c = (p >>= g) c := by
  change (p c >>= fun x => f x.1 x.2) = (p c >>= fun x => g x.1 x.2)
  cases hp : p c with
  | ok x => exact h x.1 x.2 hp
  | error e => rfl

/-- More fuel than tokens makes no difference, as each further item takes one token or more. -/
theorem moreItems_fuel
    (hitem : ∀ earlier c x d, item earlier c = .ok (x, d) → d.rest.length ≤ c.rest.length)
    {m n : Nat} (hm : c.rest.length ≤ m) (hn : c.rest.length ≤ n) :
    moreItems item earlier m c = moreItems item earlier n c := by
  induction m generalizing n c earlier with
  | zero =>
    obtain ⟨k, ts⟩ := c
    obtain rfl : ts = [] := List.eq_nil_of_length_eq_zero (Nat.le_zero.1 hm)
    cases n <;> rfl
  | succ m ih =>
    by_cases hhead : c.rest.head? = some .comma
    · obtain ⟨k, ts⟩ := c
      obtain ⟨ts, rfl⟩ := List.head?_eq_some_iff.1 hhead
      cases n with
      | zero => simp at hn
      | succ n =>
        rw [moreItems, moreItems, accept_bind_cons, accept_bind_cons]
        apply bind_congr_of_ok
        intro x d hx
        have hlength : d.rest.length ≤ ts.length := hitem _ _ _ _ hx
        simp only [List.length_cons] at hm hn
        exact ih (by omega) (by omega)
    · rw [moreItems, accept_bind_of_ne hhead]
      cases n with
      | zero => rfl
      | succ n => rw [moreItems, accept_bind_of_ne hhead]

theorem furtherItems_eq
    (hitem : ∀ earlier c x d, item earlier c = .ok (x, d) → d.rest.length ≤ c.rest.length)
    (earlier : List α) : furtherItems item earlier = (accept .comma >>= fun more =>
      if more then item earlier >>= fun x => furtherItems item (x :: earlier)
      else pure earlier.reverse) := by
  funext c
  by_cases hhead : c.rest.head? = some .comma
  · obtain ⟨k, ts⟩ := c
    obtain ⟨ts, rfl⟩ := List.head?_eq_some_iff.1 hhead
    rw [accept_bind_cons, furtherItems_apply, List.length_cons, moreItems, accept_bind_cons]
    apply bind_congr_of_ok
    intro x d hx
    exact moreItems_fuel hitem (hitem _ _ _ _ hx) (Nat.le_refl _)
  · rw [accept_bind_of_ne hhead, furtherItems_apply,
      moreItems_fuel hitem (Nat.le_refl _) (Nat.le_succ _), moreItems, accept_bind_of_ne hhead]

theorem Follows.length_le (h : p.Follows L c) {x : α} (hx : p c = .ok (x, d)) :
    d.rest.length ≤ c.rest.length := by
  obtain ⟨w, -, hc, -⟩ := h.takes hx
  rw [hc, List.length_append]
  omega

theorem follows_furtherItems
    (hitem : ∀ earlier c, (item earlier).Follows (words tokens) c) (earlier : List α) (c : Cursor) :
    (furtherItems item earlier).Follows (itemTails tokens) c := by
  have hlength (earlier : List α) (c : Cursor) (x : α) (d : Cursor)
      (hx : item earlier c = .ok (x, d)) : d.rest.length ≤ c.rest.length :=
    (hitem earlier c).length_le hx
  have hparts : ({[.comma]} : Language Token) * (words tokens * itemTails tokens) + 1 ≤
      itemTails tokens := by
    rintro w (hw | rfl)
    · obtain ⟨_, rfl, _, ⟨_, ⟨b, rfl⟩, _, ⟨bs, rfl⟩, rfl⟩, rfl⟩ := hw
      exact ⟨b :: bs, rfl⟩
    · exact ⟨[], rfl⟩
  -- The item behind a comma leaves fewer tokens than there were.
  induction hn : c.rest.length using Nat.strong_induction_on generalizing earlier c with
  | _ n ih =>
    rw [furtherItems_eq hlength]
    refine Follows.mono (follows_accept (fun d hd => ?_) (follows_pure _ _)) hparts
    refine (hitem earlier d).bind fun x d' hx => ih _ ?_ _ _ rfl
    have hle := hlength _ _ _ _ hx
    rw [← hn, hd, List.length_cons]
    omega

/-- Items that follow a language of words, with commas between them. -/
theorem follows_commaSeparated
    (hitem : ∀ earlier c, (item earlier).Follows (words tokens) c) (c : Cursor) :
    (commaSeparated item).Follows (itemLists tokens) c := by
  have hparts : words tokens * itemTails tokens ≤ itemLists tokens := by
    rintro w ⟨_, ⟨b, rfl⟩, _, ⟨bs, rfl⟩, rfl⟩
    exact ⟨b :: bs, by simp, rfl⟩
  refine Follows.mono ?_ hparts
  exact (hitem [] c).bind fun x d _ => follows_furtherItems hitem [x] d

end Parser

end RowStore
