import RowStore.Proofs.Except
import RowStore.Proofs.Statement.Grammar
import RowStore.Proofs.Text.Case

/-!
# Laws of the parser's combinators

Each combinator has two laws. From a run that succeeds one reads off the tokens that it took. And
from the tokens that should be taken, with what follows them, one builds such a run: `Reads` states
this for any number of tokens read before, and composes along `>>=`.
-/

namespace RowStore

/-! ## The word before the values -/

theorem isValuesWord_iff {word : String} :
    IsValuesWord word ↔ Text.equalUpToLetterCase word "VALUES" := by
  have hl : ∀ letter ∈ "VALUES".toList, 65 ≤ letter.toNat ∧ letter.toNat ≤ 90 := by simp
  rw [IsValuesWord, Text.equalUpToLetterCase_iff]
  exact forall₂_congr fun letter hletter c => (Text.toLower_eq_iff (hl letter hletter)).symm

namespace Parser

variable {α β : Type} {p : Parser α} {f : α → Parser β} {c c' : Cursor} {x : α} {y : β}
  {ts mid rest : List Token}

/-! ## Successful runs -/

theorem ite_bind {b : Bool} {p q : Parser α} {f : α → Parser β} :
    (if b then p else q) >>= f = if b then p >>= f else q >>= f := by
  cases b <;> rfl

theorem bind_eq_ok : (p >>= f) c = .ok (y, c') ↔
    ∃ x d, p c = .ok (x, d) ∧ f x d = .ok (y, c') := Except.stateT_bind_eq_ok

theorem pure_eq_ok {y : α} : (pure x : Parser α) c = .ok (y, c') ↔ x = y ∧ c = c' :=
  Except.stateT_pure_eq_ok

theorem throw_ne_ok {e : Error} : (throw e : Parser α) c ≠ .ok (x, c') := Except.stateT_throw_ne_ok

theorem liftM_eq_ok {r : Except Error α} :
    (liftM r : Parser α) c = .ok (x, c') ↔ r = .ok x ∧ c = c' := by
  change (r >>= fun a => pure (a, c)) = _ ↔ _
  cases r <;> simp [bind, Except.bind, pure, Except.pure]

theorem next_eq_ok {expected : Expectation} {read? : Token → Option α} :
    next expected read? c = .ok (x, c') ↔
      ∃ t, c.rest = t :: c'.rest ∧ read? t = some x ∧ c'.position = c.position + 1 := by
  obtain ⟨n, ts⟩ := c
  obtain ⟨m, rest⟩ := c'
  cases ts with
  | nil => simp [next]
  | cons t ts => cases h : read? t <;> grind [next]

theorem expect_rest {t : Token} {u : Unit} (h : expect t c = .ok (u, c')) :
    c.rest = t :: c'.rest := by
  obtain ⟨t', hrest, hread, -⟩ := next_eq_ok.1 h
  grind

theorem ident_rest {name : String} (h : ident c = .ok (name, c')) :
    c.rest = .ident name :: c'.rest := by
  obtain ⟨t, hrest, hread, -⟩ := next_eq_ok.1 h
  cases t <;> simp_all [Token.ident?]

theorem literal_rest {v : Value} (h : literal c = .ok (v, c')) :
    ∃ l : Literal, l.value = v ∧ c.rest = l.token :: c'.rest := by
  obtain ⟨t, hrest, hread, -⟩ := next_eq_ok.1 h
  cases t with
  | string s => exact ⟨.string s, Option.some.inj hread, hrest⟩
  | integer n => exact ⟨.integer n, Option.some.inj hread, hrest⟩
  | float x => exact ⟨.float x, Option.some.inj hread, hrest⟩
  | boolean b => exact ⟨.boolean b, Option.some.inj hread, hrest⟩
  | _ => cases hread

theorem values_rest {u : Unit} (h : values c = .ok (u, c')) :
    ∃ word, IsValuesWord word ∧ c.rest = .ident word :: c'.rest := by
  obtain ⟨t, hrest, hread, -⟩ := next_eq_ok.1 h
  cases t with
  | ident word =>
    refine ⟨word, isValuesWord_iff.2 ?_, hrest⟩
    by_contra hne
    simp [Token.isValues, hne] at hread
  | _ => simp [Token.isValues] at hread

theorem accept_true_rest {t : Token} (h : accept t c = .ok (true, c')) :
    c.rest = t :: c'.rest := by
  unfold accept at h
  grind

theorem accept_false_eq {t : Token} (h : accept t c = .ok (false, c')) : c' = c := by
  unfold accept at h
  grind

/-! ## Runs to build -/

/-- From `ts` the parser reads `x` and leaves `rest`, however many tokens came before. -/
def Reads (p : Parser α) (ts : List Token) (x : α) (rest : List Token) : Prop :=
  ∀ n, ∃ m, p ⟨n, ts⟩ = .ok (x, ⟨m, rest⟩)

theorem Reads.bind (hp : p.Reads ts x mid) (hf : (f x).Reads mid y rest) :
    (p >>= f).Reads ts y rest := by
  intro n
  obtain ⟨m, hm⟩ := hp n
  obtain ⟨k, hk⟩ := hf m
  exact ⟨k, bind_eq_ok.2 ⟨x, ⟨m, mid⟩, hm, hk⟩⟩

theorem reads_pure (x : α) (ts : List Token) : (pure x : Parser α).Reads ts x ts :=
  fun n => ⟨n, rfl⟩

theorem reads_liftM {r : Except Error α} (h : r = .ok x) (ts : List Token) :
    (liftM r : Parser α).Reads ts x ts :=
  fun n => ⟨n, liftM_eq_ok.2 ⟨h, rfl⟩⟩

theorem Reads.map {g : α → β} (hp : p.Reads ts x rest) : (g <$> p).Reads ts (g x) rest := by
  rw [← bind_pure_comp]
  exact hp.bind (reads_pure _ _)

theorem reads_next {expected : Expectation} {read? : Token → Option α} {t : Token}
    (h : read? t = some x) : (next expected read?).Reads (t :: rest) x rest :=
  fun n => ⟨n + 1, next_eq_ok.2 ⟨t, rfl, h, rfl⟩⟩

theorem reads_expect (t : Token) : (expect t).Reads (t :: rest) () rest :=
  reads_next (if_pos rfl)

theorem reads_ident (name : String) : ident.Reads (.ident name :: rest) name rest :=
  reads_next rfl

theorem reads_literal (l : Literal) : literal.Reads (l.token :: rest) l.value rest := by
  cases l <;> exact reads_next rfl

theorem reads_values {word : String} (h : IsValuesWord word) :
    values.Reads (.ident word :: rest) () rest :=
  reads_next (by simp [Token.isValues, isValuesWord_iff.1 h])

theorem reads_accept (t : Token) : (accept t).Reads (t :: rest) true rest :=
  fun n => ⟨n + 1, by simp [accept]⟩

theorem reads_accept_of_ne {t : Token} (h : rest.head? ≠ some t) :
    (accept t).Reads rest false rest := by
  refine fun n => ⟨n, ?_⟩
  cases rest with
  | nil => rfl
  | cons u us => simp_all [accept]

/-! ## Lists -/

/-- Items read one after the other, each with those before it at hand, the latest first. -/
inductive ReadAfter (R : List α → β → α → Prop) : List α → List β → List α → Prop
  | nil {earlier} : ReadAfter R earlier [] []
  | cons {earlier b bs x xs} (head : R earlier b x) (tail : ReadAfter R (x :: earlier) bs xs) :
      ReadAfter R earlier (b :: bs) (x :: xs)

/-- Items that fit by themselves and in pairs are read one after the other. -/
theorem readAfter_iff {P : β → α → Prop} {Q : α → α → Prop} {earlier xs : List α} {bs : List β} :
    ReadAfter (fun earlier b x => P b x ∧ ∀ y ∈ earlier, Q y x) earlier bs xs ↔
      List.Forall₂ P bs xs ∧ xs.Pairwise Q ∧ ∀ y ∈ earlier, ∀ x ∈ xs, Q y x := by
  constructor
  · intro h
    induction h with
    | nil => simp
    | cons head _ ih =>
      obtain ⟨hP, hQ, hearlier⟩ := ih
      rw [List.forall_mem_cons] at hearlier
      refine ⟨.cons head.1 hP, .cons hearlier.1 hQ, fun y hy => ?_⟩
      exact List.forall_mem_cons.2 ⟨head.2 y hy, hearlier.2 y hy⟩
  · rintro ⟨hP, hQ, hearlier⟩
    induction hP generalizing earlier with
    | nil => exact .nil
    | @cons b x bs xs hb _ ih =>
      obtain ⟨hx, hQ⟩ := List.pairwise_cons.1 hQ
      have htail : ∀ y ∈ x :: earlier, ∀ z ∈ xs, Q y z :=
        List.forall_mem_cons.2 ⟨hx, fun y hy z hz => hearlier y hy z (List.mem_cons_of_mem _ hz)⟩
      exact .cons ⟨hb, fun y hy => hearlier y hy x List.mem_cons_self⟩ (ih hQ htail)

theorem readAfter_map {g : β → α} {earlier xs : List α} {bs : List β} :
    ReadAfter (fun _ b x => g b = x) earlier bs xs ↔ bs.map g = xs := by
  constructor
  · intro h
    induction h with
    | nil => rfl
    | cons head _ ih => rw [List.map_cons, head, ih]
  · rintro rfl
    induction bs generalizing earlier with
    | nil => exact .nil
    | cons b bs ih => exact .cons rfl ih

variable {item : List α → Parser α} {R : List α → β → α → Prop} {tokens : β → List Token}
  {earlier xs : List α} {b : β} {bs : List β}

theorem moreItems_rest
    (hitem : ∀ earlier c x c', item earlier c = .ok (x, c') →
      ∃ b, R earlier b x ∧ c.rest = tokens b ++ c'.rest) {n : Nat}
    (h : moreItems item earlier n c = .ok (xs, c')) :
    ∃ bs ys, ReadAfter R earlier bs ys ∧ xs = earlier.reverse ++ ys ∧
      c.rest = (bs.flatMap fun b => .comma :: tokens b) ++ c'.rest := by
  induction n generalizing earlier c with
  | zero =>
    obtain ⟨rfl, rfl⟩ := pure_eq_ok.1 h
    exact ⟨[], [], .nil, by simp, rfl⟩
  | succ n ih =>
    obtain ⟨more, d, haccept, h⟩ := bind_eq_ok.1 h
    cases more with
    | false =>
      obtain ⟨rfl, rfl⟩ := pure_eq_ok.1 h
      rw [accept_false_eq haccept]
      exact ⟨[], [], .nil, by simp, rfl⟩
    | true =>
      obtain ⟨x, e, hx, h⟩ := bind_eq_ok.1 h
      obtain ⟨b, hb, hd⟩ := hitem _ _ _ _ hx
      obtain ⟨bs, ys, hbs, rfl, he⟩ := ih h
      refine ⟨b :: bs, x :: ys, .cons hb hbs, by simp, ?_⟩
      rw [accept_true_rest haccept, hd, he]
      simp

theorem length_le_length_flatMap (tokens : β → List Token) (bs : List β) :
    bs.length ≤ (bs.flatMap fun b => .comma :: tokens b).length := by
  induction bs with
  | nil => exact Nat.zero_le _
  | cons b bs ih =>
    simp only [List.flatMap_cons, List.length_append, List.length_cons]
    omega

/-- What a list with commas took: one item or more, each read after those before it. -/
theorem commaSeparated_rest (R : List α → β → α → Prop) (tokens : β → List Token)
    (hitem : ∀ earlier c x c', item earlier c = .ok (x, c') →
      ∃ b, R earlier b x ∧ c.rest = tokens b ++ c'.rest)
    (h : commaSeparated item c = .ok (xs, c')) :
    ∃ bs, bs ≠ [] ∧ ReadAfter R [] bs xs ∧ c.rest = separated tokens bs ++ c'.rest := by
  obtain ⟨x, d, hx, h⟩ := bind_eq_ok.1 h
  obtain ⟨e, _, hget, h⟩ := bind_eq_ok.1 h
  cases hget
  obtain ⟨b, hb, hc⟩ := hitem _ _ _ _ hx
  obtain ⟨bs, ys, hbs, rfl, hd⟩ := moreItems_rest hitem h
  exact ⟨b :: bs, by simp, .cons hb hbs, by rw [hc, hd, separated, List.append_assoc]⟩

theorem reads_moreItems
    (hitem : ∀ earlier b x rest, R earlier b x → rest.head? ≠ some (.keyword .primary) →
      (item earlier).Reads (tokens b ++ rest) x rest)
    (hcomma : rest.head? ≠ some .comma) (hprimary : rest.head? ≠ some (.keyword .primary))
    (hbs : ReadAfter R earlier bs xs) {n : Nat} (hn : bs.length ≤ n) :
    (moreItems item earlier n).Reads ((bs.flatMap fun b => .comma :: tokens b) ++ rest)
      (earlier.reverse ++ xs) rest := by
  induction hbs generalizing n with
  | nil =>
    rw [List.append_nil]
    cases n with
    | zero => exact reads_pure _ _
    | succ n => exact (reads_accept_of_ne hcomma).bind (reads_pure _ _)
  | @cons earlier b bs x xs hb hbs ih =>
    cases n with
    | zero => simp at hn
    | succ n =>
      have htail := ih (Nat.le_of_succ_le_succ hn)
      simp only [List.flatMap_cons, List.cons_append, List.append_assoc]
      refine (reads_accept .comma).bind ((hitem _ _ _ _ hb ?_).bind ?_)
      · cases bs <;> simp [hprimary]
      · simpa using htail

theorem reads_commaSeparated (R : List α → β → α → Prop) (tokens : β → List Token)
    (hitem : ∀ earlier b x rest, R earlier b x → rest.head? ≠ some (.keyword .primary) →
      (item earlier).Reads (tokens b ++ rest) x rest)
    (hcomma : rest.head? ≠ some .comma) (hprimary : rest.head? ≠ some (.keyword .primary))
    (hne : bs ≠ []) (hbs : ReadAfter R [] bs xs) :
    (commaSeparated item).Reads (separated tokens bs ++ rest) xs rest := by
  cases hbs with
  | nil => exact absurd rfl hne
  | @cons _ b bs x xs hb hbs =>
    rw [separated, List.append_assoc]
    refine (hitem _ _ _ _ hb ?_).bind fun n => ?_
    · cases bs <;> simp [hprimary]
    · -- Each further item has a comma, so there are at least as many tokens as items.
      refine reads_moreItems hitem hcomma hprimary hbs ?_ n
      have hlen := length_le_length_flatMap tokens bs
      simp only [List.length_append]
      omega

end Parser

end RowStore
