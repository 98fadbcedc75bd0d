import RowStore.Proofs.Store.History
import RowStore.Proofs.Store.Refusal

/-!
# Insertions

When a table takes a new row, which error it gives otherwise, and what it holds afterwards. The
checks go one after the other: the number of values, the primary key, then each given column in the
order of the bytes of the names. A row that passes them takes the place of the one with its primary
key as a whole.
-/

namespace RowStore

/-- How many values are given, if they go by position. -/
def NewRow.count? : NewRow → Option Nat
  | .named _ => none
  | .positional values => some values.length

namespace Schema

/-- Values that go by position are as many as the columns. -/
def CountFits (s : Schema) (values : NewRow) : Prop :=
  ∀ n ∈ values.count?, n = s.columns.length

/-- A value is given for the primary key, and it is not the unset one. -/
def KeyGiven (s : Schema) (values : NewRow) : Prop :=
  ∃ v, values.value? s s.primaryKey = some v ∧ v ≠ .unset

/-- A new row is refused with an error: by the first check that it does not pass. -/
inductive RefusesRow (s : Schema) (values : NewRow) : Error → Prop
  | count {n} (given : values.count? = some n) (ne : n ≠ s.columns.length) :
      RefusesRow s values (.valueCountMismatch s.name s.columns.length n)
  | key (count : s.CountFits values) (missing : ¬ s.KeyGiven values) :
      RefusesRow s values (.missingPrimaryKey s.primaryKey)
  | misfit {column e} (count : s.CountFits values) (key : s.KeyGiven values)
      (first : s.FirstMisfit (values.value? s) column e) : RefusesRow s values e

/-- A new row passes every check. -/
structure AcceptsRow (s : Schema) (values : NewRow) : Prop where
  count : s.CountFits values
  key : s.KeyGiven values
  fits : ∀ column e, ¬ s.MisfitAt (values.value? s) column e

variable {s : Schema} {values : NewRow} {given row : Row} {e : Error}

/-! ## The checks of a new row -/

theorem supplied_eq_error : s.supplied values = .error e ↔
    ∃ n, values.count? = some n ∧ n ≠ s.columns.length ∧
      e = .valueCountMismatch s.name s.columns.length n := by
  cases values with
  | named values => simp [supplied, NewRow.count?]
  | positional values =>
    by_cases h : values.length = s.columns.length <;> simp [supplied, NewRow.count?, h, eq_comm]

theorem countFits_iff : s.CountFits values ↔ ∃ given, s.supplied values = .ok given := by
  cases values with
  | named values => simp [CountFits, NewRow.count?, supplied]
  | positional values => simp [CountFits, NewRow.count?, supplied_positional_eq_ok]

/-- What is wrong with the given values is wrong with the columns they go to. -/
theorem complete_supplied_eq_error (hwf : s.WellFormed) (h : s.supplied values = .ok given) :
    s.complete given = .error e ↔
      (¬ s.KeyGiven values ∧ e = .missingPrimaryKey s.primaryKey) ∨
      s.KeyGiven values ∧ ∃ column, s.FirstMisfit (values.value? s) column e := by
  have hget : given.get? = values.value? s := funext (get?_of_supplied hwf h)
  rw [complete_eq_error hwf, hget]
  simp only [KeyGiven, not_exists, not_and, not_not]

/-- A completed row has its primary key. -/
theorem exists_keyOf_eq_ok (hwf : s.WellFormed) (h : s.complete given = .ok row) :
    ∃ key, s.keyOf row = .ok key := by
  obtain ⟨key, -, hkey, hset, -⟩ := (admits_of_complete hwf h).key
  exact ⟨key, keyOf_eq_ok.2 ⟨hkey, hset⟩⟩

theorem acceptsRow_iff (hwf : s.WellFormed) : s.AcceptsRow values ↔
    ∃ given row, s.supplied values = .ok given ∧ s.complete given = .ok row := by
  constructor
  · intro h
    obtain ⟨given, hgiven⟩ := countFits_iff.1 h.count
    cases hrow : s.complete given with
    | ok row => exact ⟨given, row, hgiven, hrow⟩
    | error e =>
      obtain ⟨hkey, -⟩ | ⟨-, column, hfirst⟩ := (complete_supplied_eq_error hwf hgiven).1 hrow
      · exact absurd h.key hkey
      · exact absurd hfirst.misfit (h.fits column e)
  · rintro ⟨given, row, hgiven, hrow⟩
    obtain ⟨hkey, hcheck, -⟩ := complete_eq_ok.1 hrow
    rw [get?_of_supplied hwf hgiven] at hkey
    refine ⟨countFits_iff.2 ⟨given, hgiven⟩, hkey, ?_⟩
    rintro column e ⟨v, hv, hmisfit⟩
    rw [← get?_of_supplied hwf hgiven] at hv
    have hok := hcheck _ (SortedMap.get?_eq_some.1 hv)
    rw [(checkValue_eq_error hwf).2 hmisfit] at hok
    cases hok

theorem not_refusesRow_unknownTable {name : String} :
    ¬ s.RefusesRow values (.unknownTable name) := by
  rintro (_ | _ | ⟨-, -, hfirst⟩)
  obtain ⟨_, -, hmisfit⟩ := hfirst.misfit
  cases hmisfit

end Schema

/-! ## The table afterwards -/

/-- A row is put under its key: it replaces what was there, and nothing else changes. -/
structure Table.Upserts (t : Table) (key : Value) (row : Row) (t' : Table) : Prop where
  schema : t'.schema = t.schema
  rows : ∀ place, t'.rows.get? place =
    if place = encode key then some row else t.rows.get? place
  rowCount : t'.rowCount = t.rowCount + if (t.rows.get? (encode key)).isSome then 0 else 1

theorem Table.upserts_put (t : Table) (key : Value) (row : Row) :
    t.Upserts key row (t.put key row) :=
  ⟨rfl, t.get?_put key row, t.rowCount_put key row⟩

namespace Catalog

variable {c : Catalog} {name : String} {values : NewRow} {t : Table} {e : Error}

theorem insertRow_eq_error (ht : c.get? name = some t) (hsound : t.Sound) :
    c.insertRow name values = .error e ↔ t.schema.RefusesRow values e := by
  have hwf := hsound.schema
  rw [insertRow, table_bind_of_get? ht]
  simp only [Except.bind_eq_error, pure, Except.pure, reduceCtorEq, and_false, exists_false,
    or_false]
  constructor
  · rintro (hcount | ⟨given, hgiven, hrow | ⟨row, hrow, hkey⟩⟩)
    · obtain ⟨n, hn, hne, rfl⟩ := Schema.supplied_eq_error.1 hcount
      exact .count hn hne
    · have hcount := Schema.countFits_iff.2 ⟨given, hgiven⟩
      obtain ⟨hkey, rfl⟩ | ⟨hkey, column, hfirst⟩ :=
        (Schema.complete_supplied_eq_error hwf hgiven).1 hrow
      · exact .key hcount hkey
      · exact .misfit hcount hkey hfirst
    · -- A completed row has a key, so looking for it once more does not fail.
      obtain ⟨key, hok⟩ := Schema.exists_keyOf_eq_ok hwf hrow
      simp [hok] at hkey
  · rintro (⟨hn, hne⟩ | ⟨hcount, hkey⟩ | ⟨hcount, hkey, hfirst⟩)
    · exact .inl (Schema.supplied_eq_error.2 ⟨_, hn, hne, rfl⟩)
    · obtain ⟨given, hgiven⟩ := Schema.countFits_iff.1 hcount
      exact .inr ⟨given, hgiven, .inl <|
        (Schema.complete_supplied_eq_error hwf hgiven).2 (.inl ⟨hkey, rfl⟩)⟩
    · obtain ⟨given, hgiven⟩ := Schema.countFits_iff.1 hcount
      exact .inr ⟨given, hgiven, .inl <|
        (Schema.complete_supplied_eq_error hwf hgiven).2 (.inr ⟨hkey, _, hfirst⟩)⟩

/-- An accepted row is put under its primary key. -/
theorem insertRow_of_accepts (ht : c.get? name = some t) (hsound : t.Sound)
    (h : t.schema.AcceptsRow values) :
    ∃ key row, values.value? t.schema t.schema.primaryKey = some key ∧
      t.schema.Builds values row ∧ c.insertRow name values =
        .ok ⟨.inserted 1, c.insert name (t.put key row), insertEvents t key⟩ := by
  have hwf := hsound.schema
  obtain ⟨given, row, hgiven, hrow⟩ := (Schema.acceptsRow_iff hwf).1 h
  obtain ⟨key, hkey⟩ := Schema.exists_keyOf_eq_ok hwf hrow
  exact ⟨key, row, Schema.value?_primaryKey hwf hgiven hrow (Schema.keyOf_eq_ok.1 hkey).1,
    Schema.builds_of_complete hwf hgiven hrow,
    insertRow_eq_ok.2 ⟨t, given, row, key, ht, hgiven, hrow, hkey, rfl⟩⟩

/-- Every accepted insertion has the same answer. -/
theorem insertRow_answer (ht : c.get? name = some t) (hsound : t.Sound) {a : Answer} :
    (∃ r, c.insertRow name values = .ok r ∧ r.answer = a) ↔
      a = .inserted 1 ∧ t.schema.AcceptsRow values := by
  constructor
  · rintro ⟨r, hr, rfl⟩
    obtain ⟨t', given, row, key, ht', hgiven, hrow, hkey, rfl⟩ := insertRow_eq_ok.1 hr
    obtain rfl := Option.some.inj (ht.symm.trans ht')
    exact ⟨rfl, (Schema.acceptsRow_iff hsound.schema).2 ⟨given, row, hgiven, hrow⟩⟩
  · rintro ⟨rfl, h⟩
    obtain ⟨_, _, -, -, hr⟩ := insertRow_of_accepts ht hsound h
    exact ⟨_, hr, rfl⟩

theorem insertRow_eq_unknownTable (hsound : c.Sound) :
    c.insertRow name values = .error (.unknownTable name) ↔ c.get? name = none := by
  refine table_bind_eq_unknownTable fun t ht hrow => ?_
  have hinsert : c.insertRow name values = _ := (table_bind_of_get? ht).trans hrow
  rw [insertRow_eq_error ht (hsound.tables name t ht)] at hinsert
  exact Schema.not_refusesRow_unknownTable hinsert

/-- After every history an insertion is answered by the first check that fails, and an accepted one
puts the whole new row under its key. -/
theorem execute_insert_run (history : List Statement) (name : String) (values : NewRow) :
    let c := empty.run history
    let x := c.execute (.insert name values)
    (x.outcome = .error (.unknownTable name) ↔ c.get? name = none) ∧
    ∀ t, c.get? name = some t →
      t.schema.name = name ∧
      (∀ e, x.outcome = .error e ↔ t.schema.RefusesRow values e) ∧
      (∀ a, x.outcome = .ok a ↔ a = .inserted 1 ∧ t.schema.AcceptsRow values) ∧
      (t.schema.AcceptsRow values → ∃ key row t',
        values.value? t.schema t.schema.primaryKey = some key ∧ t.schema.Builds values row ∧
        t.Upserts key row t' ∧ x.catalog = c.insert name t') := by
  intro c x
  have hsound : c.Sound := sound_empty.run history
  refine ⟨?_, ?_⟩
  · exact outcome_eq_error.trans (insertRow_eq_unknownTable hsound)
  · intro t ht
    have htable := hsound.tables name t ht
    refine ⟨hsound.names name t ht, fun e => ?_, fun a => ?_, fun h => ?_⟩
    · exact outcome_eq_error.trans (insertRow_eq_error ht htable)
    · exact outcome_eq_ok.trans (insertRow_answer ht htable)
    · obtain ⟨key, row, hkey, hbuilds, hr⟩ := insertRow_of_accepts ht htable h
      exact ⟨key, row, t.put key row, hkey, hbuilds, t.upserts_put key row,
        congrArg Response.catalog (execute_of_effect (s := .insert name values) hr)⟩

/-- Notes with one row under the key that is given again. -/
def notesHistory : List Statement :=
  [.create ⟨"notes", [⟨"id", .integer⟩, ⟨"text", .string⟩, ⟨"done", .boolean⟩], "id"⟩,
    .insert "notes" (.positional [.integer 1, .string "first", .boolean true])]

/-- The row that was there is replaced as a whole: what is not given is unset in the new one. -/
theorem execute_insert_notesHistory :
    let c := empty.run notesHistory
    let values : NewRow := .named (SortedMap.ofList [("text", .string "again"), ("id", .integer 1)])
    ∃ t, c.get? "notes" = some t ∧ t.schema.AcceptsRow values ∧ t.rowCount = 1 ∧
      ∃ key row t', values.value? t.schema t.schema.primaryKey = some key ∧
        t.schema.Builds values row ∧ t.Upserts key row t' ∧
        (c.execute (.insert "notes" values)).catalog = c.insert "notes" t' := by
  intro c values
  obtain ⟨t, ht⟩ : ∃ t, c.get? "notes" = some t := Option.isSome_iff_exists.1 (by decide +kernel)
  obtain ⟨-, -, houtcome, hafter⟩ := (execute_insert_run notesHistory "notes" values).2 t ht
  have haccepts : t.schema.AcceptsRow values :=
    ((houtcome (.inserted 1)).1 (by decide +kernel)).2
  have hcount : (c.get? "notes").map Table.rowCount = some 1 := by decide +kernel
  rw [ht, Option.map_some, Option.some.injEq] at hcount
  exact ⟨t, ht, haccepts, hcount, hafter haccepts⟩

end Catalog

end RowStore
