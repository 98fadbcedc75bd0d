import RowStore.Proofs.Statement.Acceptance
import RowStore.Proofs.Statement.Following

/-!
# Forms as languages

The parser of each part of a statement follows the language of what can be written there, and so
does the parser of each form. Hence the tokens before the place where the grammar refuses begin a
sentence, and nothing behind that place has a part in it (`Statement.ofTokens_stops`).
-/

namespace RowStore

/-- The forms of statements. -/
def forms : Language Token := {w | ∃ shape, IsForm w shape}

/-- What is behind the first word of the forms that begin with it. -/
def formsBehind (verb : Keyword) : Language Token := {w | .keyword verb :: w ∈ forms}

/-- Forms, and forms with a semicolon behind them. -/
def sentences : Language Token := {w | ∃ shape, Sentence w shape}

namespace Parser

variable {c : Cursor} {earlier : List Field}

/-! ## Parts of statements -/

/-- The mark of the primary key, or nothing. -/
def keyMarks : Language Token := {[.keyword .primary]} * {[.keyword .key]} + 1

instance : HasWord keyMarks := ⟨⟨[], .inr rfl⟩⟩

theorem follows_keyMark : keyMark.Follows keyMarks c :=
  follows_accept (fun _ _ => (follows_expect _).bind_pure _) (follows_pure _ _)

theorem follows_checkField (earlier : List Field) (x : Field) (c : Cursor) :
    (checkField earlier x).Follows 1 c := by
  unfold checkField
  split
  · exact follows_throw (by simp)
  · split
    · split
      · exact follows_throw (by simp)
      · exact follows_pure _ _
    · exact follows_pure _ _

theorem follows_field (earlier : List Field) (c : Cursor) :
    (field earlier).Follows (words FieldText.tokens) c := by
  rw [field_eq]
  refine Follows.mono (follows_ident.bind fun name d _ => follows_ident.bind fun word d' _ =>
    (?_ : Follows _ (keyMarks * 1) d')) ?_
  · split
    · exact follows_throw (by simp)
    · exact follows_keyMark.bind fun isKey d _ => follows_checkField _ _ d
  · rintro w ⟨_, ⟨name, rfl⟩, _, ⟨_, ⟨word, rfl⟩, _, ⟨mark, hmark, _, rfl, rfl⟩, rfl⟩, rfl⟩
    rcases hmark with ⟨_, rfl, _, rfl, rfl⟩ | rfl
    · exact ⟨⟨name, word, true⟩, rfl⟩
    · exact ⟨⟨name, word, false⟩, rfl⟩

theorem follows_condition : condition.Follows (words ConditionText.tokens) c := by
  refine Follows.mono (follows_ident.bind fun _ _ _ => (follows_expect _).bind fun _ _ _ =>
    follows_literal.bind_pure _) ?_
  rintro w ⟨_, ⟨column, rfl⟩, _, ⟨_, rfl, _, ⟨l, rfl⟩, rfl⟩, rfl⟩
  exact ⟨⟨column, l⟩, rfl⟩

theorem follows_optionalFilter : optionalFilter.Follows (words whereTokens) c := by
  refine Follows.mono (follows_accept (fun d _ => ?_) (follows_pure _ _))
    (?_ : {[.keyword .where]} * words ConditionText.tokens + 1 ≤ _)
  · rw [← bind_pure_comp]
    exact follows_condition.bind_pure _
  · rintro w (⟨_, rfl, _, ⟨text, rfl⟩, rfl⟩ | rfl)
    · exact ⟨some text, rfl⟩
    · exact ⟨none, rfl⟩

theorem follows_names (c : Cursor) : names.Follows (itemLists fun name => [.ident name]) c :=
  follows_commaSeparated (fun _ _ => follows_ident) c

theorem follows_selectedColumns :
    selectedColumns.Follows ({[.asterisk]} * 1 + itemLists fun name => [.ident name]) c :=
  follows_accept (fun _ _ => follows_pure _ _) (follows_names c)

theorem follows_optionalColumns : optionalColumns.Follows
    ({[.openParen]} * (itemLists (fun name => [.ident name]) * {[.closeParen]}) + 1) c :=
  follows_accept (fun d _ => (follows_names d).bind fun _ _ _ => (follows_expect _).bind_pure _)
    (follows_pure _ _)

/-! ## Forms -/

theorem follows_create : create.Follows (formsBehind .create) c := by
  refine Follows.mono ((follows_expect _).bind fun _ _ _ => follows_ident.bind fun name _ _ =>
    (follows_expect _).bind fun _ d _ => (follows_commaSeparated follows_field d).bind
      fun fields _ _ => (follows_expect _).bind fun _ d _ => (?_ : Follows _ 1 d)) ?_
  · split
    · exact follows_pure _ _
    · exact follows_throw (by simp)
  · rintro w ⟨_, rfl, _, ⟨_, ⟨table, rfl⟩, _, ⟨_, rfl, _, ⟨_, ⟨fs, hne, rfl⟩, _, ⟨_, rfl, _, rfl,
      rfl⟩, rfl⟩, rfl⟩, rfl⟩, rfl⟩
    exact ⟨.create table fs, .create hne⟩

theorem follows_select : select.Follows (formsBehind .select) c := by
  rw [select_eq]
  refine Follows.mono (follows_selectedColumns.bind fun _ _ _ => (follows_expect _).bind
    fun _ _ _ => follows_ident.bind fun _ _ _ => follows_optionalFilter.bind_pure _) ?_
  rintro w ⟨_, hcolumns, _, ⟨_, rfl, _, ⟨_, ⟨table, rfl⟩, _, ⟨text, rfl⟩, rfl⟩, rfl⟩, rfl⟩
  rcases hcolumns with ⟨_, rfl, _, rfl, rfl⟩ | ⟨columns, hne, rfl⟩
  · exact ⟨.select table [] text, .selectAll⟩
  · have hform : IsForm _ (.select table columns text) := .select hne
    exact ⟨_, by simpa [nameTokens] using hform⟩

/-- The pairs of columns and values can be refused, but not by the grammar. -/
theorem follows_pairUp (columns : List String) (vs : List Value) (c : Cursor) :
    (liftM (pairUp columns vs) : Parser Row).Follows 1 c := by
  cases hrow : pairUp columns vs with
  | ok row => exact follows_pure _ _
  | error e =>
    apply follows_of_error (e := e) rfl
    unfold pairUp at hrow
    grind

theorem follows_insert : insert.Follows (formsBehind .insert) c := by
  rw [insert_eq]
  refine Follows.mono ((follows_expect _).bind fun _ _ _ => follows_ident.bind fun table _ _ =>
    follows_optionalColumns.bind fun columns _ _ => follows_values.bind fun _ _ _ =>
    (follows_expect _).bind fun _ d _ =>
    (follows_commaSeparated (fun _ _ => follows_literal) d).bind fun literals _ _ =>
    (follows_expect _).bind fun _ d _ => (?_ : Follows _ 1 d)) ?_
  · split
    · exact follows_pure _ _
    · exact (follows_pairUp _ _ _).bind_pure _
  · rintro w ⟨_, rfl, _, ⟨_, ⟨table, rfl⟩, _, ⟨_, hcolumns, _, ⟨_, ⟨word, hword, rfl⟩, _, ⟨_, rfl,
      _, ⟨_, ⟨literals, hne, rfl⟩, _, ⟨_, rfl, _, rfl, rfl⟩, rfl⟩, rfl⟩, rfl⟩, rfl⟩, rfl⟩, rfl⟩
    rcases hcolumns with ⟨_, rfl, _, ⟨_, ⟨columns, hcolumns, rfl⟩, _, rfl, rfl⟩, rfl⟩ | rfl
    · have hform : IsForm _ (.insert table (some columns) literals) :=
        .insertColumns hcolumns hword hne
      exact ⟨_, by simpa [nameTokens, literalTokens] using hform⟩
    · have hform : IsForm _ (.insert table none literals) := .insert hword hne
      exact ⟨_, by simpa [literalTokens] using hform⟩

theorem follows_delete : delete.Follows (formsBehind .delete) c := by
  refine Follows.mono ((follows_expect _).bind fun _ _ _ => follows_ident.bind fun _ _ _ =>
    (follows_expect _).bind fun _ _ _ => follows_condition.bind_pure _) ?_
  rintro w ⟨_, rfl, _, ⟨_, ⟨table, rfl⟩, _, ⟨_, rfl, _, ⟨text, rfl⟩, rfl⟩, rfl⟩, rfl⟩
  exact ⟨.delete table text, .delete⟩

theorem follows_drop : drop.Follows (formsBehind .drop) c := by
  refine Follows.mono ((follows_expect _).bind fun _ _ _ => follows_ident.bind_pure _) ?_
  rintro w ⟨_, rfl, _, ⟨table, rfl⟩, rfl⟩
  exact ⟨.drop table, .drop⟩

/-- What follows the first word goes on along the forms that begin with it. -/
theorem follows_afterVerb {t : Token} {remainder : Parser Statement}
    (h : afterVerb? t = some remainder) : ∃ verb, t = .keyword verb ∧ HasWord (formsBehind verb) ∧
      ∀ c, remainder.Follows (formsBehind verb) c := by
  unfold afterVerb? at h
  split at h <;> cases h
  · refine ⟨.create, rfl, ⟨_, .create "" [⟨"", "", true⟩], .create ?_⟩, fun _ => follows_create⟩
    simp
  · exact ⟨.select, rfl, ⟨_, .select "" [] none, .selectAll⟩, fun _ => follows_select⟩
  · refine ⟨.insert, rfl, ⟨_, .insert "" none [.boolean true], .insert isValuesWord_values ?_⟩,
      fun _ => follows_insert⟩
    simp
  · exact ⟨.delete, rfl, ⟨_, .delete "" ⟨"", .boolean true⟩, .delete⟩, fun _ => follows_delete⟩
  · exact ⟨.drop, rfl, ⟨_, .drop "", .drop⟩, fun _ => follows_drop⟩

instance : HasWord forms := ⟨⟨_, .drop "", .drop⟩⟩

theorem follows_statement (c : Cursor) : statement.Follows forms c := by
  cases hverb : c.rest.head?.bind afterVerb? with
  | none =>
    -- No form begins with the next token, so the parser stops before it.
    have hread (t : Token) (p : Parser Statement) (ht : c.rest.head? = some t)
        (hp : afterVerb? t = some p) : [t] ∈ forms := by
      simp [ht, hp] at hverb
    rw [← mul_one forms]
    refine (follows_next hread).bind fun p d hp => ?_
    obtain ⟨t, ht, hp, -⟩ := next_eq_ok.1 hp
    simp [ht, hp] at hverb
  | some remainder =>
    obtain ⟨t, ht, hremainder⟩ := Option.bind_eq_some_iff.1 hverb
    obtain ⟨verb, rfl, hword, hfollows⟩ := follows_afterVerb hremainder
    have hread (u : Token) (p : Parser Statement) (hu : c.rest.head? = some u)
        (_ : afterVerb? u = some p) : [u] ∈ ({[.keyword verb]} : Language Token) := by
      obtain rfl : Token.keyword verb = u := Option.some.inj (ht.symm.trans hu)
      rfl
    refine Follows.mono ((follows_next hread).bind fun p d hp => ?_)
      (?_ : {[.keyword verb]} * formsBehind verb ≤ forms)
    · obtain ⟨u, hu, hp, -⟩ := next_eq_ok.1 hp
      obtain rfl : Token.keyword verb = u := Option.some.inj (ht.symm.trans (hu ▸ rfl))
      obtain rfl : remainder = p := Option.some.inj (hremainder.symm.trans hp)
      exact hfollows d
    · rintro w ⟨_, rfl, w, hw, rfl⟩
      exact hw

/-- There are no more tokens. -/
def finished : Parser Unit := do
  let c ← get
  match c.rest with
  | [] => return ()
  | t :: _ => throw (.malformed c.position (.trailing t))

theorem follows_finished (c : Cursor) : finished.Follows 1 c := by
  obtain ⟨n, ts⟩ := c
  cases ts with
  | nil =>
    refine ⟨fun {x d} h => ?_, nofun⟩
    cases h
    refine ⟨[], rfl, rfl, rfl, fun rest hrest => ?_⟩
    obtain rfl : rest = [] := List.head?_eq_none_iff.1 hrest
    rfl
  | cons t ts =>
    refine ⟨nofun, fun {m fault} h => ?_⟩
    cases h
    refine ⟨[], t :: ts, rfl, rfl, ⟨[], rfl⟩, fun rest hrest => ?_⟩
    obtain ⟨us, rfl⟩ := List.head?_eq_some_iff.1 hrest
    rfl

theorem ending_eq : ending = (accept .semicolon >>= fun closed =>
    if closed then finished else finished) := by
  unfold ending finished
  refine congrArg _ (funext fun closed => ?_)
  cases closed <;> rfl

/-- The parser of statements goes along the sentences. -/
theorem follows_complete (c : Cursor) : complete.Follows sentences c := by
  have hending (c : Cursor) : ending.Follows ({[.semicolon]} * 1 + 1) c := by
    rw [ending_eq]
    exact follows_accept (fun d _ => follows_finished d) (follows_finished c)
  refine Follows.mono ((follows_statement c).bind fun s d _ => (hending d).bind_pure _) ?_
  rintro w ⟨form, ⟨shape, hform⟩, _, ⟨_, rfl, _, rfl, rfl⟩ | rfl, rfl⟩
  · exact ⟨shape, form, hform, .inr rfl⟩
  · exact ⟨shape, form, hform, .inl (List.append_nil form)⟩

end Parser

namespace Statement

theorem ofTokens_eq_error {tokens : List Token} {e : Error} :
    ofTokens tokens = .error e ↔ Parser.complete ⟨0, tokens⟩ = .error e := by
  change (·.1) <$> Parser.complete ⟨0, tokens⟩ = _ ↔ _
  cases Parser.complete ⟨0, tokens⟩ <;> simp [Functor.map, Except.map]

/-- A refusal by the grammar is settled by the tokens up to the place that it points at and the one
there, and those up to there begin a sentence. -/
theorem ofTokens_stops {tokens : List Token} {n : Nat} {fault : GrammarFault}
    (h : ofTokens tokens = .error (.malformed n fault)) : ∃ w after, tokens = w ++ after ∧
      n = w.length ∧ (∃ v, w ++ v ∈ sentences) ∧ ∀ rest, rest.head? = after.head? →
        ofTokens (w ++ rest) = .error (.malformed n fault) := by
  obtain ⟨w, after, htokens, hn, hv, hlocal⟩ :=
    (Parser.follows_complete ⟨0, tokens⟩).stops (ofTokens_eq_error.1 h)
  refine ⟨w, after, htokens, by simpa using hn, hv, fun rest hrest => ?_⟩
  exact ofTokens_eq_error.2 (hlocal rest hrest)

end Statement

end RowStore
