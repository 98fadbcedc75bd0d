import RowStore.Proofs.Statement.Acceptance
import RowStore.Proofs.Store.Insertion
import RowStore.Proofs.Store.Key
import RowStore.Proofs.Store.Projection
import RowStore.Proofs.Store.Request
import RowStore.Proofs.Store.Spelling
import RowStore.Proofs.Token.Quoting

/-!
# Quoted texts are stored and shown as they are

A text that quotes can be put around goes through a session unchanged: an insertion with it between
quotes is accepted, and the query for the row shows the text, whatever words and marks are in it
(`Catalog.quoted_texts`).
-/

namespace RowStore

/-! ## A table of numbered texts -/

/-- An integer primary key and one more column, for texts. -/
structure Schema.NumbersTexts (s : Schema) (key column : String) : Prop where
  columns : s.columns = [⟨key, .integer⟩, ⟨column, .string⟩]
  primaryKey : s.primaryKey = key

namespace Schema.NumbersTexts

variable {s : Schema} {key column : String}

theorem columnNames (h : s.NumbersTexts key column) : s.columnNames = [key, column] := by
  rw [Schema.columnNames, h.columns]
  rfl

theorem ne (h : s.NumbersTexts key column) (hwf : s.WellFormed) : key ≠ column := by
  have hnodup := hwf.names_nodup
  rw [h.columnNames] at hnodup
  simpa using hnodup

theorem declares_iff (h : s.NumbersTexts key column) {name : String} {kind : Kind} :
    s.Declares name kind ↔
      name = key ∧ kind = .integer ∨ name = column ∧ kind = .string := by
  rw [Schema.Declares, h.columns]
  simp

theorem value?_iff (h : s.NumbersTexts key column) (hwf : s.WellFormed) {n : Int64}
    {text name : String} {v : Value} :
    (NewRow.positional [.integer n, .string text]).value? s name = some v ↔
      name = key ∧ v = .integer n ∨ name = column ∧ v = .string text := by
  have hlength : [Value.integer n, .string text].length = s.columns.length := by rw [h.columns]; rfl
  rw [Schema.value?_positional hwf hlength, h.columnNames]
  simp

theorem acceptsRow (h : s.NumbersTexts key column) (hwf : s.WellFormed) (n : Int64)
    (text : String) : s.AcceptsRow (.positional [.integer n, .string text]) where
  count := by
    rintro _ ⟨⟩
    rw [h.columns]
    rfl
  key := ⟨.integer n, (h.value?_iff hwf).2 (.inl ⟨h.primaryKey, rfl⟩), nofun⟩
  fits := by
    rintro name e ⟨v, hv, hmisfit⟩
    have hne := h.ne hwf
    obtain ⟨rfl, rfl⟩ | ⟨rfl, rfl⟩ := (h.value?_iff hwf).1 hv
    · cases hmisfit with
      | unknown hname => simp [h.columnNames] at hname
      | kind hdecl hgiven hkind =>
        obtain ⟨-, rfl⟩ | ⟨hname, -⟩ := h.declares_iff.1 hdecl
        · exact hkind (Option.some.inj hgiven).symm
        · exact hne hname
    · cases hmisfit with
      | unknown hname => simp [h.columnNames] at hname
      | kind hdecl hgiven hkind =>
        obtain ⟨hname, -⟩ | ⟨-, rfl⟩ := h.declares_iff.1 hdecl
        · exact hne hname.symm
        · exact hkind (Option.some.inj hgiven).symm

theorem acceptsQuery (h : s.NumbersTexts key column) (n : Int64) :
    s.AcceptsQuery [column] (some ⟨key, .integer n⟩) where
  known := by simp [h.columnNames]
  comparable := by
    rintro f ⟨⟩
    exact ⟨.integer, h.declares_iff.2 (.inl ⟨rfl, rfl⟩), rfl⟩

/-- The row of a number and a text, in the column of the text. -/
theorem restrict_eq (h : s.NumbersTexts key column) (hwf : s.WellFormed) {n : Int64}
    {text : String} {row : Row}
    (hbuilds : s.Builds (.positional [.integer n, .string text]) row) :
    row.restrict [column] = SortedMap.ofList [(column, .string text)] := by
  have hmem : column ∈ s.columnNames := by simp [h.columnNames]
  have hvalue : row.get? column = some (.string text) := by
    have hgiven := (h.value?_iff hwf (n := n) (v := .string text)).2 (.inr ⟨rfl, rfl⟩)
    rw [hbuilds, if_pos hmem, hgiven, Option.getD_some]
  refine SortedMap.ext_get? fun name => Option.ext fun v => ?_
  rw [Schema.get?_restrict, SortedMap.get?_ofList_eq_some (by simp), Option.ite_none_right_eq_some,
    List.mem_singleton, List.mem_singleton, Prod.mk.injEq]
  refine and_congr_right ?_
  rintro rfl
  rw [hvalue, Option.some.injEq, eq_comm]

end Schema.NumbersTexts

namespace Catalog

variable {c : Catalog} {name key column : String} {t : Table}

/-- A text that is inserted under a number is shown by the query for this number. -/
theorem select_inserted_text (hsound : c.Sound) (ht : c.get? name = some t)
    (h : t.schema.NumbersTexts key column) (n : Int64) (text : String) :
    let inserted := c.execute (.insert name (.positional [.integer n, .string text]))
    inserted.outcome = .ok (.inserted 1) ∧
      (inserted.catalog.execute (.select name [column] (some ⟨key, .integer n⟩))).outcome =
        .ok (.scan [column] [SortedMap.ofList [(column, .string text)]]) := by
  intro inserted
  have htable := hsound.tables name t ht
  have hwf := htable.schema
  obtain ⟨k, row, hk, hbuilds, heffect⟩ :=
    insertRow_of_accepts ht htable (h.acceptsRow hwf n text)
  obtain rfl : k = .integer n := by
    rw [h.primaryKey, h.value?_iff hwf] at hk
    obtain ⟨-, rfl⟩ | ⟨hkey, -⟩ := hk
    · rfl
    · exact absurd hkey (h.ne hwf)
  have hafter : Sound (c.insert name (t.put (.integer n) row)) :=
    hsound.effect (s := .insert name (.positional [.integer n, .string text])) heffect
  have ht' : (c.insert name (t.put (.integer n) row)).get? name = some (t.put (.integer n) row) :=
    SortedMap.get?_insert_self c name _
  have htable' := hafter.tables name _ ht'
  have hkey : row.get? t.schema.primaryKey = some (.integer n) := by
    rw [hbuilds, if_pos hwf.key_mem, hk, Option.getD_some]
  have hmatching : (t.put (.integer n) row).matching (some ⟨key, .integer n⟩) = [row] := by
    have hmem : row ∈ (t.put (.integer n) row).rows.values :=
      (Table.mem_values_put htable).2 (.inl rfl)
    rw [← h.primaryKey]
    exact htable'.matching_key hmem hkey rfl rfl
  have hexecute : inserted = _ := execute_of_effect heffect
  rw [hexecute]
  refine ⟨rfl, outcome_eq_ok.2 ((selectRows_answer ht' htable').2 ⟨h.acceptsQuery n, ?_⟩)⟩
  rw [hmatching, Schema.answerColumns, if_neg (List.cons_ne_nil _ _), List.map_singleton,
    h.restrict_eq hwf hbuilds]

end Catalog

/-! ## Texts in a session -/

/-- The insertion of a text under the number one. -/
def insertionText (table text : String) : String :=
  "insert into " ++ table ++ " values (1, '" ++ text ++ "')"

/-- The query for the text under the number one. -/
def queryText (table key column : String) : String :=
  "select " ++ column ++ " from " ++ table ++ " where " ++ key ++ " = 1"

namespace Statement

variable {table key column text : String}

theorem ofText_insertionText (htable : Token.Written table [.ident table])
    (htext : Quotable text.toList) :
    ofText (insertionText table text) =
      .ok (.insert table (.positional [.integer 1, .string text])) := by
  have hinto : Token.Written "insert into" [.keyword .insert, .keyword .into] :=
    ⟨by decide +kernel, by decide⟩
  have hvalues : Token.Written "values (1," [.ident "values", .openParen, .integer 1, .comma] :=
    ⟨by decide +kernel, by decide⟩
  have hempty : Token.Written "" [] := ⟨rfl, by decide⟩
  have htokens := (((hinto.append_blank htable).append_blank hvalues).append_blank
    (Token.written_quoted htext)).append (d := ')') hempty (by decide)
  have hsplit : insertionText table text = "insert into" ++ " " ++ table ++ " " ++ "values (1," ++
      " " ++ ("'" ++ text ++ "'") ++ String.singleton ')' ++ "" := by
    delta insertionText
    rw [← String.toList_inj]
    simp only [String.toList_append, List.append_assoc]
    rfl
  have hword : IsValuesWord "values" := isValuesWord_iff.2 (by decide +kernel)
  have hform : IsForm _ (.insert table none [.integer 1, .string text]) :=
    .insert hword (List.cons_ne_nil _ _)
  rw [hsplit, ofText, htokens.read]
  exact ofTokens_of_isForm hform .insert

theorem ofText_queryText (htable : Token.Written table [.ident table])
    (hkey : Token.Written key [.ident key]) (hcolumn : Token.Written column [.ident column]) :
    ofText (queryText table key column) =
      .ok (.select table [column] (some ⟨key, .integer 1⟩)) := by
  have hselect : Token.Written "select" [.keyword .select] := ⟨by decide +kernel, by decide⟩
  have hfrom : Token.Written "from" [.keyword .from] := ⟨by decide +kernel, by decide⟩
  have hwhere : Token.Written "where" [.keyword .where] := ⟨by decide +kernel, by decide⟩
  have hone : Token.Written "= 1" [.equal, .integer 1] := ⟨by decide +kernel, by decide⟩
  have htokens := (((((hselect.append_blank hcolumn).append_blank hfrom).append_blank
    htable).append_blank hwhere).append_blank hkey).append_blank hone
  have hsplit : queryText table key column = "select" ++ " " ++ column ++ " " ++ "from" ++ " " ++
      table ++ " " ++ "where" ++ " " ++ key ++ " " ++ "= 1" := by
    delta queryText
    rw [← String.toList_inj]
    simp only [String.toList_append, List.append_assoc]
    rfl
  have hform : IsForm _ (.select table [column] (some ⟨key, .integer 1⟩)) :=
    .select (List.cons_ne_nil _ _)
  rw [hsplit, ofText, htokens.read]
  exact ofTokens_of_isForm hform .select

end Statement

/-- A text is read from between quotes exactly if it is quotable. In every session with a table of
numbered texts, each such text is then inserted under the number one and shown as it is. -/
theorem Catalog.quoted_texts (text : String) :
    (Token.ofText ("'" ++ text ++ "'") = .ok [.string text] ↔ Quotable text.toList) ∧
    (Quotable text.toList → ∀ (requests : List Request) (table key column : String) (t : Table),
      Token.Written table [.ident table] → Token.Written key [.ident key] →
      Token.Written column [.ident column] →
      (empty.serve requests).get? table = some t → t.schema.NumbersTexts key column →
        let inserted := (empty.serve requests).executeText (insertionText table text)
        inserted.outcome = .ok (.inserted 1) ∧
        (inserted.catalog.executeText (queryText table key column)).outcome =
          .ok (.scan [column] [SortedMap.ofList [(column, .string text)]])) := by
  refine ⟨Token.ofText_quoted_iff, fun hquotable requests table key column t => ?_⟩
  intro htable hkey hcolumn ht hschema inserted
  have hsound : Sound (empty.serve requests) := by
    rw [serve_eq_run]
    exact sound_empty.run _
  obtain ⟨houtcome, hshown⟩ := select_inserted_text hsound ht hschema 1 text
  obtain ⟨hinsert, hcatalog⟩ := respond_of_read (q := .text (insertionText table text))
    (empty.serve requests) (Statement.ofText_insertionText htable hquotable)
  obtain ⟨hselect, -⟩ := respond_of_read (q := .text (queryText table key column))
    inserted.catalog (Statement.ofText_queryText htable hkey hcolumn)
  have hcatalog' : inserted.catalog = _ := hcatalog
  refine ⟨hinsert.trans houtcome, hselect.trans ?_⟩
  rw [hcatalog', hshown]

/-- Notes of which the first is there already. -/
def firstNote : List Request :=
  [.text "create table notes (id integer primary key, text string)",
    .text "insert into notes values (1, 'first')"]

/-- Words, marks, a line break and a pair of quotes come back in the place of the first note. -/
theorem Catalog.quoted_texts_firstNote :
    let text := "drop (table); it''s\n1,\x00 'select'"
    let inserted := (empty.serve firstNote).executeText (insertionText "notes" text)
    Token.ofText "'drop (table); it''s\n1,\x00 'select''" = .ok [.string text] ∧
    Quotable text.toList ∧ inserted.outcome = .ok (.inserted 1) ∧
    (inserted.catalog.executeText (queryText "notes" "id" "text")).outcome =
      .ok (.scan ["text"] [SortedMap.ofList [("text", .string text)]]) := by
  intro text inserted
  have hread : Token.ofText ("'" ++ text ++ "'") = .ok [.string text] := by decide +kernel
  have hquotable : Quotable text.toList := (quoted_texts text).1.1 hread
  have hschema : ((empty.serve firstNote).get? "notes").map Table.schema =
      some ⟨"notes", [⟨"id", .integer⟩, ⟨"text", .string⟩], "id"⟩ := by decide +kernel
  obtain ⟨t, ht, hschema⟩ := Option.map_eq_some_iff.1 hschema
  have hname {name : String} (h : Token.ofText name = .ok [.ident name])
      (heven : Even (name.toList.count quote)) : Token.Written name [.ident name] := ⟨h, heven⟩
  exact ⟨hread, hquotable, (quoted_texts text).2 hquotable firstNote "notes" "id" "text" t
    (hname (by decide +kernel) (by decide)) (hname (by decide +kernel) (by decide))
    (hname (by decide +kernel) (by decide)) ht ⟨by rw [hschema], by rw [hschema]⟩⟩

end RowStore
