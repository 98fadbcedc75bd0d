import RowStore.Proofs.Statement.Parts

/-!
# The parser accepts its grammar

For each form of a statement, what a successful run of its parser took is of that form, and from
tokens of that form the parser reads the statement that they denote. The two directions meet in
`Statement.ofTokens_eq_ok_iff`.
-/

namespace RowStore

open List (Forall₂)

namespace Parser

variable {c c' : Cursor} {s : Statement} {rest : List Token}

/-! ## From runs to forms -/

theorem create_rest (h : create c = .ok (s, c')) :
    ∃ form shape, IsForm (.keyword .create :: form) shape ∧ shape.Denotes s ∧
      c.rest = form ++ c'.rest := by
  obtain ⟨_, d, htable, h⟩ := bind_eq_ok.1 h
  obtain ⟨table, e, hname, h⟩ := bind_eq_ok.1 h
  obtain ⟨_, f, hopen, h⟩ := bind_eq_ok.1 h
  obtain ⟨xs, g, hfields, h⟩ := bind_eq_ok.1 h
  obtain ⟨_, k, hclose, h⟩ := bind_eq_ok.1 h
  obtain ⟨fs, hne, hfs, hxs, hf⟩ := fields_rest hfields
  cases hfind : xs.find? Field.isKey with
  | none => simp [hfind, throw_ne_ok] at h
  | some key =>
    simp only [hfind] at h
    obtain ⟨rfl, rfl⟩ := pure_eq_ok.1 h
    refine ⟨_, .create table fs, .create hne, ?_, ?_⟩
    · exact denotes_create_iff.2 ⟨xs, key, hfs, hxs, hfind, rfl⟩
    · rw [expect_rest htable, ident_rest hname, expect_rest hopen, hf, expect_rest hclose]
      simp

theorem select_rest (h : select c = .ok (s, c')) :
    ∃ form shape, IsForm (.keyword .select :: form) shape ∧ shape.Denotes s ∧
      c.rest = form ++ c'.rest := by
  rw [select_eq] at h
  obtain ⟨columns, d, hcolumns, h⟩ := bind_eq_ok.1 h
  obtain ⟨_, e, hfrom, h⟩ := bind_eq_ok.1 h
  obtain ⟨table, f, htable, h⟩ := bind_eq_ok.1 h
  obtain ⟨filter, g, hfilter, h⟩ := bind_eq_ok.1 h
  obtain ⟨rfl, rfl⟩ := pure_eq_ok.1 h
  obtain ⟨text, rfl, hf⟩ := optionalFilter_rest hfilter
  obtain ⟨rfl, hc⟩ | ⟨hne, hc⟩ := selectedColumns_rest hcolumns
  · refine ⟨_, .select table [] text, .selectAll, .select, ?_⟩
    rw [hc, expect_rest hfrom, ident_rest htable, hf]
    simp
  · refine ⟨_, .select table columns text, .select hne, .select, ?_⟩
    rw [hc, expect_rest hfrom, ident_rest htable, hf]
    simp

theorem insert_rest (h : insert c = .ok (s, c')) :
    ∃ form shape, IsForm (.keyword .insert :: form) shape ∧ shape.Denotes s ∧
      c.rest = form ++ c'.rest := by
  rw [insert_eq] at h
  obtain ⟨_, d, hinto, h⟩ := bind_eq_ok.1 h
  obtain ⟨table, e, htable, h⟩ := bind_eq_ok.1 h
  obtain ⟨columns, f, hcolumns, h⟩ := bind_eq_ok.1 h
  obtain ⟨_, g, hvalues, h⟩ := bind_eq_ok.1 h
  obtain ⟨_, k, hopen, h⟩ := bind_eq_ok.1 h
  obtain ⟨vs, l, hliterals, h⟩ := bind_eq_ok.1 h
  obtain ⟨_, m, hclose, h⟩ := bind_eq_ok.1 h
  obtain ⟨word, hword, hf⟩ := values_rest hvalues
  obtain ⟨literals, hne, rfl, hk⟩ := literals_rest hliterals
  obtain ⟨rfl, he⟩ | ⟨names, rfl, hnames, he⟩ := optionalColumns_rest hcolumns
  · obtain ⟨rfl, rfl⟩ := pure_eq_ok.1 h
    refine ⟨_, .insert table none literals, .insert hword hne, .insert, ?_⟩
    rw [expect_rest hinto, ident_rest htable, he, hf, expect_rest hopen, hk, expect_rest hclose]
    simp
  · obtain ⟨row, n, hrow, h⟩ := bind_eq_ok.1 h
    obtain ⟨rfl, rfl⟩ := pure_eq_ok.1 h
    obtain ⟨hpairs, rfl⟩ := liftM_eq_ok.1 hrow
    obtain ⟨distinct, length_eq, pairs⟩ := pairUp_eq_ok.1 hpairs
    rw [List.length_map] at length_eq
    refine ⟨_, .insert table (some names) literals, .insertColumns hnames hword hne,
      .insertColumns distinct length_eq pairs, ?_⟩
    rw [expect_rest hinto, ident_rest htable, he, hf, expect_rest hopen, hk, expect_rest hclose]
    simp

theorem delete_rest (h : delete c = .ok (s, c')) :
    ∃ form shape, IsForm (.keyword .delete :: form) shape ∧ shape.Denotes s ∧
      c.rest = form ++ c'.rest := by
  obtain ⟨_, d, hfrom, h⟩ := bind_eq_ok.1 h
  obtain ⟨table, e, htable, h⟩ := bind_eq_ok.1 h
  obtain ⟨_, f, hwhere, h⟩ := bind_eq_ok.1 h
  obtain ⟨filter, g, hfilter, h⟩ := bind_eq_ok.1 h
  obtain ⟨rfl, rfl⟩ := pure_eq_ok.1 h
  obtain ⟨text, rfl, hf⟩ := condition_rest hfilter
  refine ⟨_, .delete table text, .delete, .delete, ?_⟩
  rw [expect_rest hfrom, ident_rest htable, expect_rest hwhere, hf]
  simp

theorem drop_rest (h : drop c = .ok (s, c')) :
    ∃ form shape, IsForm (.keyword .drop :: form) shape ∧ shape.Denotes s ∧
      c.rest = form ++ c'.rest := by
  obtain ⟨_, d, htable, h⟩ := bind_eq_ok.1 h
  obtain ⟨table, e, hname, h⟩ := bind_eq_ok.1 h
  obtain ⟨rfl, rfl⟩ := pure_eq_ok.1 h
  exact ⟨_, .drop table, .drop, .drop, by rw [expect_rest htable, ident_rest hname]; rfl⟩

/-- What a statement took is of a form, and it is what that form denotes. -/
theorem statement_rest (h : statement c = .ok (s, c')) :
    ∃ form shape, IsForm form shape ∧ shape.Denotes s ∧ c.rest = form ++ c'.rest := by
  obtain ⟨remainder, d, hverb, h⟩ := bind_eq_ok.1 h
  obtain ⟨t, hc, hremainder, -⟩ := next_eq_ok.1 hverb
  have behind {verb : Keyword} (ht : t = .keyword verb)
      (hd : ∃ form shape, IsForm (.keyword verb :: form) shape ∧ shape.Denotes s ∧
        d.rest = form ++ c'.rest) :
      ∃ form shape, IsForm form shape ∧ shape.Denotes s ∧ c.rest = form ++ c'.rest := by
    obtain ⟨form, shape, hform, hs, hd⟩ := hd
    exact ⟨_, shape, hform, hs, by rw [hc, hd, ht, List.cons_append]⟩
  unfold afterVerb? at hremainder
  split at hremainder <;> cases hremainder
  · exact behind rfl (create_rest h)
  · exact behind rfl (select_rest h)
  · exact behind rfl (insert_rest h)
  · exact behind rfl (delete_rest h)
  · exact behind rfl (drop_rest h)

theorem ending_rest {u : Unit} (h : ending c = .ok (u, c')) :
    c.rest = [] ∨ c.rest = [.semicolon] := by
  obtain ⟨closed, d, haccept, h⟩ := bind_eq_ok.1 h
  obtain ⟨_, e, hget, h⟩ := bind_eq_ok.1 h
  cases hget
  cases hd : d.rest with
  | cons t ts => simp [hd, throw_ne_ok] at h
  | nil =>
    cases closed with
    | false => exact .inl (accept_false_eq haccept ▸ hd)
    | true => exact .inr (by rw [accept_true_rest haccept, hd])

/-! ## From forms to runs -/

theorem reads_statement {form : List Token} {shape : Shape} (hform : IsForm form shape)
    (hs : shape.Denotes s) (hrest : rest.head? ≠ some (.keyword .where)) :
    statement.Reads (form ++ rest) s rest := by
  have hverb {verb : Keyword} {p : Parser Statement} {ts : List Token}
      (hv : afterVerb? (.keyword verb) = some p) (hp : p.Reads ts s rest) :
      statement.Reads (.keyword verb :: ts) s rest :=
    (reads_next hv).bind hp
  cases hform with
  | @create table fields hne =>
    obtain ⟨xs, key, hfs, hxs, hfind, rfl⟩ := denotes_create_iff.1 hs
    simp only [List.append_assoc, List.cons_append, List.nil_append]
    refine hverb rfl ((reads_expect _).bind ((reads_ident table).bind ((reads_expect _).bind ?_)))
    refine (reads_fields hne hfs hxs (by simp) (by simp)).bind ((reads_expect _).bind ?_)
    simp only [hfind]
    exact reads_pure _ _
  | @selectAll table filter =>
    cases hs
    simp only [List.cons_append, List.nil_append]
    refine hverb rfl ?_
    rw [select_eq]
    refine Reads.bind ((reads_accept _).bind (reads_pure _ _)) ?_
    exact (reads_expect _).bind ((reads_ident table).bind
      ((reads_optionalFilter filter hrest).bind (reads_pure _ _)))
  | @select table columns filter hne =>
    cases hs
    simp only [List.append_assoc, List.cons_append, List.nil_append]
    refine hverb rfl ?_
    rw [select_eq]
    refine (reads_selectedColumns hne (by simp) (by simp)).bind ?_
    exact (reads_expect _).bind ((reads_ident table).bind
      ((reads_optionalFilter filter hrest).bind (reads_pure _ _)))
  | @insert table word values hword hne =>
    cases hs
    simp only [List.append_assoc, List.cons_append, List.nil_append]
    refine hverb rfl ?_
    rw [insert_eq]
    refine (reads_expect _).bind ((reads_ident table).bind ?_)
    refine Reads.bind ((reads_accept_of_ne (by simp)).bind (reads_pure _ _)) ?_
    refine (reads_values hword).bind ((reads_expect _).bind ?_)
    exact (reads_literals hne (by simp) (by simp)).bind ((reads_expect _).bind (reads_pure _ _))
  | @insertColumns table columns word values hcolumns hword hne =>
    cases hs with
    | insertColumns distinct length_eq pairs =>
      have hrow := pairUp_eq_ok.2 ⟨distinct, length_eq.trans (List.length_map _).symm, pairs⟩
      simp only [List.append_assoc, List.cons_append, List.nil_append]
      refine hverb rfl ?_
      rw [insert_eq]
      refine (reads_expect _).bind ((reads_ident table).bind ?_)
      refine (reads_optionalColumns hcolumns).bind ?_
      refine (reads_values hword).bind ((reads_expect _).bind ?_)
      refine (reads_literals hne (by simp) (by simp)).bind ((reads_expect _).bind ?_)
      exact (reads_liftM hrow _).bind (reads_pure _ _)
  | @delete table filter =>
    cases hs
    exact hverb rfl ((reads_expect _).bind ((reads_ident table).bind ((reads_expect _).bind
      ((reads_condition filter).bind (reads_pure _ _)))))
  | @drop table =>
    cases hs
    exact hverb rfl ((reads_expect _).bind ((reads_ident table).bind (reads_pure _ _)))

theorem reads_ending (h : rest = [] ∨ rest = [.semicolon]) : ending.Reads rest () [] := by
  obtain rfl | rfl := h
  · exact fun n => ⟨n, rfl⟩
  · exact fun n => ⟨n + 1, rfl⟩

end Parser

namespace Statement

theorem ofTokens_eq_ok {tokens : List Token} {s : Statement} :
    ofTokens tokens = .ok s ↔ ∃ c, Parser.complete ⟨0, tokens⟩ = .ok (s, c) := by
  change (·.1) <$> Parser.complete ⟨0, tokens⟩ = _ ↔ _
  cases Parser.complete ⟨0, tokens⟩ <;> simp [Functor.map, Except.map, Prod.ext_iff]

/-- What is read is of a form that denotes the statement, up to a semicolon. -/
theorem exists_form_of_ofTokens {tokens : List Token} {s : Statement}
    (h : ofTokens tokens = .ok s) :
    ∃ form rest shape, IsForm form shape ∧ shape.Denotes s ∧ tokens = form ++ rest ∧
      (rest = [] ∨ rest = [.semicolon]) := by
  obtain ⟨c, hc⟩ := ofTokens_eq_ok.1 h
  obtain ⟨s', d, hstatement, hc⟩ := Parser.bind_eq_ok.1 hc
  obtain ⟨_, e, hending, hc⟩ := Parser.bind_eq_ok.1 hc
  obtain ⟨rfl, rfl⟩ := Parser.pure_eq_ok.1 hc
  obtain ⟨form, shape, hform, hs, htokens⟩ := Parser.statement_rest hstatement
  exact ⟨form, d.rest, shape, hform, hs, htokens, Parser.ending_rest hending⟩

theorem ofTokens_of_isForm {form : List Token} {shape : Shape} {s : Statement}
    (hform : IsForm form shape) (hs : shape.Denotes s) : ofTokens form = .ok s := by
  have hread : Parser.complete.Reads (form ++ []) s [] :=
    (Parser.reads_statement hform hs (by simp)).bind
      ((Parser.reads_ending (.inl rfl)).bind (Parser.reads_pure s _))
  rw [List.append_nil] at hread
  obtain ⟨n, hn⟩ := hread 0
  exact ofTokens_eq_ok.2 ⟨_, hn⟩

/-- The parser reads a statement from a list of tokens exactly if the list is of a form that denotes
this statement, with nothing or one semicolon behind it. -/
theorem ofTokens_eq_ok_iff {tokens : List Token} {s : Statement} :
    ofTokens tokens = .ok s ↔ ∃ shape, Sentence tokens shape ∧ shape.Denotes s := by
  rw [ofTokens_eq_ok]
  constructor
  · rintro ⟨c, h⟩
    obtain ⟨s', d, hstatement, h⟩ := Parser.bind_eq_ok.1 h
    obtain ⟨_, e, hending, h⟩ := Parser.bind_eq_ok.1 h
    obtain ⟨rfl, rfl⟩ := Parser.pure_eq_ok.1 h
    obtain ⟨form, shape, hform, hs, htokens⟩ := Parser.statement_rest hstatement
    refine ⟨shape, ⟨form, hform, ?_⟩, hs⟩
    obtain hd | hd := Parser.ending_rest hending
    · exact .inl (htokens.trans (by rw [hd, List.append_nil]))
    · exact .inr (htokens.trans (by rw [hd]))
  · rintro ⟨shape, ⟨form, hform, htokens⟩, hs⟩
    have hsplit : ∃ rest, tokens = form ++ rest ∧ (rest = [] ∨ rest = [.semicolon]) := by
      obtain rfl | rfl := htokens
      · exact ⟨[], (List.append_nil _).symm, .inl rfl⟩
      · exact ⟨[.semicolon], rfl, .inr rfl⟩
    obtain ⟨rest, rfl, hrest⟩ := hsplit
    have hwhere : rest.head? ≠ some (.keyword .where) := by
      obtain rfl | rfl := hrest <;> simp
    have hread : Parser.complete.Reads (form ++ rest) s [] := by
      refine (Parser.reads_statement hform hs hwhere).bind ?_
      exact (Parser.reads_ending hrest).bind (Parser.reads_pure s _)
    obtain ⟨n, hn⟩ := hread 0
    exact ⟨_, hn⟩

end Statement

end RowStore
