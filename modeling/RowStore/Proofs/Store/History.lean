import RowStore.Proofs.Store.Query

/-!
# Contents of a table as its history tells them

A history of statements tells what a table holds without executing them one by one: the rows that
accepted insertions built since the table was last created, except those that a later insertion
under the same key replaced or a later deletion met. `Survives` says this of a list of accepted
statements, and the rows of every table that a run leaves are the surviving ones.
-/

namespace RowStore

/-! ## Order of bytes -/

/-- The order of keys is the lexicographic order of their bytes. -/
theorem compare_bytes_eq_lt {as bs : List UInt8} : compare as bs = .lt ↔ as < bs := by
  induction as generalizing bs with
  | nil => cases bs <;> simp
  | cons a as ih =>
    cases bs with
    | nil => simp
    | cons b bs =>
      rw [List.compare_cons_cons, List.cons_lt_cons_iff, Ordering.then_eq_lt, ih]
      simp [Std.compare_eq_lt]

/-! ## What a history tells -/

/-- The value that a new row supplies for a column; positional values belong to the columns in the
order of their declaration. -/
def NewRow.value? (s : Schema) : NewRow → String → Option Value
  | .named values, column => values.get? column
  | .positional values, column => (s.columnNames.zip values).lookup column

/-- The row of an insertion: the supplied values, and unset elsewhere. -/
def Schema.Builds (s : Schema) (values : NewRow) (row : Row) : Prop :=
  ∀ column, row.get? column =
    if column ∈ s.columnNames then some ((values.value? s column).getD .unset) else none

/-- A statement takes a row away: by an insertion under the same key, or by a deletion that the row
meets. -/
def Schema.Removes (s : Schema) (row : Row) : Statement → Prop
  | .insert table values => table = s.name ∧ ∃ old new, row.get? s.primaryKey = some old ∧
      values.value? s s.primaryKey = some new ∧ encode new = encode old
  | .delete table filter => table = s.name ∧ filter.holds row
  | _ => False

/-- A row was inserted and nothing since then has taken it away. -/
def Schema.Survives (s : Schema) (since : List Statement) (row : Row) : Prop :=
  ∃ earlier values later, since = earlier ++ .insert s.name values :: later ∧
    s.Builds values row ∧ ∀ statement ∈ later, ¬ s.Removes row statement

/-- The last creation of a table declared the schema `s`, and `since` came after it. -/
def Schema.CreatedLast (s : Schema) (told since : List Statement) : Prop :=
  ∃ before, told = before ++ .create s :: since ∧ ∀ s', .create s' ∈ since → s'.name ≠ s.name

namespace Schema

variable {s : Schema} {since told : List Statement} {statement : Statement} {row : Row}

theorem builds_unique {values : NewRow} {row row' : Row} (h : s.Builds values row)
    (h' : s.Builds values row') : row = row' :=
  SortedMap.ext_get? fun column => (h column).trans (h' column).symm

theorem not_survives_nil : ¬ s.Survives [] row := by
  rintro ⟨earlier, values, later, h, -⟩
  simp at h

/-- One more statement: it builds a row, or the row was there and stays. -/
theorem survives_concat :
    s.Survives (since ++ [statement]) row ↔
      (∃ values, statement = .insert s.name values ∧ s.Builds values row) ∨
      s.Survives since row ∧ ¬ s.Removes row statement := by
  constructor
  · rintro ⟨earlier, values, later, h, hbuilds, hlater⟩
    obtain ⟨-, hlast, -⟩ | ⟨later', rfl, hsince⟩ := concat_eq_append_cons.1 h
    · exact .inl ⟨values, hlast.symm, hbuilds⟩
    · rw [List.forall_mem_append, List.forall_mem_singleton] at hlater
      exact .inr ⟨⟨earlier, values, later', hsince, hbuilds, hlater.1⟩, hlater.2⟩
  · rintro (⟨values, rfl, hbuilds⟩ | ⟨⟨earlier, values, later, rfl, hbuilds, hlater⟩, hstays⟩)
    · exact ⟨since, values, [], rfl, hbuilds, List.forall_mem_nil _⟩
    · refine ⟨earlier, values, later ++ [statement], by simp, hbuilds, ?_⟩
      rw [List.forall_mem_append, List.forall_mem_singleton]
      exact ⟨hlater, hstays⟩

/-- Statements on other tables do not matter. -/
theorem survives_concat_of_table_ne (h : statement.table ≠ s.name) :
    s.Survives (since ++ [statement]) row ↔ s.Survives since row := by
  rw [survives_concat]
  constructor
  · rintro (⟨values, rfl, -⟩ | ⟨hrow, -⟩)
    · exact absurd rfl h
    · exact hrow
  · intro hrow
    refine .inr ⟨hrow, ?_⟩
    intro hremoves
    apply h
    cases statement with
    | insert table values => exact hremoves.1
    | delete table filter => exact hremoves.1
    | _ => exact hremoves.elim

theorem CreatedLast.concat (h : s.CreatedLast told since)
    (hne : ∀ s', statement = .create s' → s'.name ≠ s.name) :
    s.CreatedLast (told ++ [statement]) (since ++ [statement]) := by
  obtain ⟨before, rfl, hsince⟩ := h
  refine ⟨before, by simp, ?_⟩
  intro s' hs'
  rcases List.mem_append.1 hs' with hs' | hs'
  · exact hsince s' hs'
  · exact hne s' (List.mem_singleton.1 hs').symm

theorem createdLast_concat_create (told : List Statement) (s : Schema) :
    s.CreatedLast (told ++ [.create s]) [] := ⟨told, rfl, by simp⟩

/-- The columns that values are given for in order are different. -/
theorem WellFormed.nodup_zip (hwf : s.WellFormed) {values : List Value}
    (h : values.length = s.columns.length) :
    ((s.columnNames.zip values).map (·.1)).Nodup := by
  have hkeys : (s.columnNames.zip values).map (·.1) = s.columnNames :=
    List.map_fst_zip (by simp [columnNames, h])
  rw [hkeys]
  exact hwf.names_nodup

theorem get?_of_supplied (hwf : s.WellFormed) {values : NewRow} {given : Row}
    (h : s.supplied values = .ok given) (column : String) :
    given.get? column = values.value? s column := by
  cases values with
  | named values =>
    obtain rfl : values = given := Except.ok.inj h
    rfl
  | positional values =>
    obtain ⟨hlength, rfl⟩ := supplied_positional_eq_ok.1 h
    have hnodup := hwf.nodup_zip hlength
    rw [SortedMap.get?_ofList_of_nodup hnodup, SortedMap.lookup_eq_list_lookup]
    rfl

/-- An accepted insertion builds the row that it completes. -/
theorem builds_of_complete (hwf : s.WellFormed) {values : NewRow} {given : Row}
    (hgiven : s.supplied values = .ok given) (hrow : s.complete given = .ok row) :
    s.Builds values row := by
  intro column
  rw [get?_of_complete hrow, get?_of_supplied hwf hgiven]

theorem value?_primaryKey (hwf : s.WellFormed) {values : NewRow} {given : Row} {key : Value}
    (hgiven : s.supplied values = .ok given) (hrow : s.complete given = .ok row)
    (hkey : row.get? s.primaryKey = some key) : values.value? s s.primaryKey = some key := by
  obtain ⟨⟨v, hv, -⟩, -, -⟩ := complete_eq_ok.1 hrow
  rw [get?_of_complete hrow, if_pos hwf.key_mem, hv, Option.getD_some] at hkey
  rw [← get?_of_supplied hwf hgiven, hv, hkey]

end Schema

/-! ## Rows of a table after each kind of change -/

namespace Table

variable {t : Table} {row r : Row}

/-- Under the new row's key there is no other row any more. -/
theorem mem_values_put (h : t.Sound) {key : Value} :
    r ∈ (t.put key row).rows.values ↔
      r = row ∨ r ∈ t.rows.values ∧ ∀ old, r.get? t.schema.primaryKey = some old →
        encode key ≠ encode old := by
  simp only [SortedMap.mem_values_iff, get?_put]
  constructor
  · intro hr
    obtain ⟨place, hplace⟩ := hr
    split at hplace
    · exact .inl (Option.some.inj hplace).symm
    · next hne =>
      obtain ⟨old, hold, rfl⟩ := h.places place r hplace
      refine .inr ⟨⟨_, hplace⟩, ?_⟩
      intro old' hold'
      obtain rfl := Option.some.inj (hold.symm.trans hold')
      exact Ne.symm hne
  · rintro (rfl | ⟨⟨place, hplace⟩, hother⟩)
    · exact ⟨encode key, if_pos rfl⟩
    · obtain ⟨old, hold, rfl⟩ := h.places place r hplace
      exact ⟨_, (if_neg (Ne.symm (hother old hold))).trans hplace⟩

theorem mem_values_without {filter : Condition} :
    r ∈ (t.without filter).rows.values ↔ r ∈ t.rows.values ∧ ¬ filter.holds r := by
  rw [values_without, List.mem_filter, Bool.not_eq_true', Bool.not_eq_true]

/-- The history tells the schema and the rows of a table. -/
def ToldBy (t : Table) (told : List Statement) : Prop :=
  ∃ since, t.schema.CreatedLast told since ∧
    ∀ row, row ∈ t.rows.values ↔ t.schema.Survives since row

theorem toldBy_new (told : List Statement) (s : Schema) :
    ToldBy ⟨s, .empty⟩ (told ++ [.create s]) :=
  ⟨[], Schema.createdLast_concat_create told s, fun row => by
    simp [SortedMap.values, SortedMap.empty, Schema.not_survives_nil]⟩

variable {told : List Statement}

theorem ToldBy.other {statement : Statement} (h : t.ToldBy told)
    (hne : statement.table ≠ t.schema.name) : t.ToldBy (told ++ [statement]) := by
  obtain ⟨since, hlast, hrows⟩ := h
  have hlast' : t.schema.CreatedLast (told ++ [statement]) (since ++ [statement]) := by
    apply hlast.concat
    intro s' hs' hname
    exact hne (hs' ▸ hname)
  refine ⟨since ++ [statement], hlast', ?_⟩
  intro row
  rw [Schema.survives_concat_of_table_ne hne, hrows]

theorem ToldBy.select (h : t.ToldBy told) (name : String) (columns : List String)
    (filter : Option Condition) : t.ToldBy (told ++ [.select name columns filter]) := by
  obtain ⟨since, hlast, hrows⟩ := h
  refine ⟨since ++ [.select name columns filter], hlast.concat (by simp), ?_⟩
  intro row
  rw [Schema.survives_concat, hrows]
  simp [Schema.Removes]

theorem ToldBy.put (h : t.ToldBy told) (hsound : t.Sound) {values : NewRow} {given : Row}
    {key : Value} (hgiven : t.schema.supplied values = .ok given)
    (hrow : t.schema.complete given = .ok row) (hkey : row.get? t.schema.primaryKey = some key) :
    (t.put key row).ToldBy (told ++ [.insert t.schema.name values]) := by
  obtain ⟨since, hlast, hrows⟩ := h
  have hlast' : t.schema.CreatedLast (told ++ [.insert t.schema.name values])
      (since ++ [.insert t.schema.name values]) := hlast.concat (by simp)
  have hbuilds := Schema.builds_of_complete hsound.schema hgiven hrow
  have hnew := Schema.value?_primaryKey hsound.schema hgiven hrow hkey
  refine ⟨_, hlast', fun r => ?_⟩
  change _ ↔ t.schema.Survives (since ++ [.insert t.schema.name values]) r
  rw [mem_values_put hsound, Schema.survives_concat, hrows]
  refine or_congr ⟨?_, ?_⟩ (and_congr_right fun _ => ?_)
  · rintro rfl
    exact ⟨values, rfl, hbuilds⟩
  · rintro ⟨_, ⟨⟩, hr⟩
    exact Schema.builds_unique hr hbuilds
  · simp only [Schema.Removes, true_and, hnew]
    grind

theorem ToldBy.without (h : t.ToldBy told) (filter : Condition) :
    (t.without filter).ToldBy (told ++ [.delete t.schema.name filter]) := by
  obtain ⟨since, hlast, hrows⟩ := h
  have hlast' : t.schema.CreatedLast (told ++ [.delete t.schema.name filter])
      (since ++ [.delete t.schema.name filter]) := hlast.concat (by simp)
  refine ⟨_, hlast', fun r => ?_⟩
  change _ ↔ t.schema.Survives (since ++ [.delete t.schema.name filter]) r
  rw [mem_values_without, Schema.survives_concat, hrows]
  simp [Schema.Removes]

end Table

/-! ## Rows of a catalog after a run -/

namespace Catalog

variable {c : Catalog}

/-- The accepted statements of a history, in their order. -/
def accepted (c : Catalog) : List Statement → List Statement
  | [] => []
  | s :: history =>
    match (c.execute s).outcome with
    | .ok _ => s :: accepted (c.execute s).catalog history
    | .error _ => accepted (c.execute s).catalog history

def ToldBy (c : Catalog) (told : List Statement) : Prop :=
  ∀ name t, c.get? name = some t → t.ToldBy told

/-- An accepted statement changes the contents of its own table as the history tells. -/
theorem ToldBy.effect {told : List Statement} (h : c.ToldBy told) (hsound : c.Sound)
    {s : Statement} {r : Effect} (hr : c.effect s = .ok r) : r.catalog.ToldBy (told ++ [s]) := by
  intro name t ht
  -- A table under another name is the one that was there.
  have hother (hne : name ≠ s.table) (hold : c.get? name = some t) : t.ToldBy (told ++ [s]) :=
    (h name t hold).other fun htable => hne ((hsound.names name t hold).symm.trans htable.symm)
  cases s with
  | create schema =>
    obtain ⟨-, -, rfl⟩ := createTable_eq_ok.1 hr
    rw [SortedMap.get?_insert] at ht
    split at ht
    · obtain rfl := Option.some.inj ht
      exact Table.toldBy_new told schema
    · next hne => exact hother hne ht
  | select table columns filter =>
    obtain ⟨_, _, _, _, _, rfl⟩ := selectRows_eq_ok.1 hr
    exact (h name t ht).select table columns filter
  | insert table values =>
    obtain ⟨old, given, row, key, hold, hgiven, hrow, hkey, rfl⟩ := insertRow_eq_ok.1 hr
    rw [SortedMap.get?_insert] at ht
    split at ht
    · obtain rfl := Option.some.inj ht
      rw [← hsound.names table old hold]
      exact (h table old hold).put (hsound.tables table old hold) hgiven hrow
        (Schema.keyOf_eq_ok.1 hkey).1
    · next hne => exact hother hne ht
  | delete table filter =>
    obtain ⟨old, hold, -, rfl⟩ := deleteRows_eq_ok.1 hr
    rw [SortedMap.get?_insert] at ht
    split at ht
    · obtain rfl := Option.some.inj ht
      rw [← hsound.names table old hold]
      exact (h table old hold).without filter
    · next hne => exact hother hne ht
  | drop table =>
    obtain ⟨_, _, rfl⟩ := dropTable_eq_ok.1 hr
    rw [SortedMap.get?_erase] at ht
    split at ht
    · cases ht
    · next hne => exact hother hne ht

theorem ToldBy.run {told : List Statement} (h : c.ToldBy told) (hsound : c.Sound)
    (history : List Statement) : (c.run history).ToldBy (told ++ c.accepted history) := by
  induction history generalizing c told with
  | nil => simpa [accepted] using h
  | cons s history ih =>
    rw [run_cons, accepted]
    cases hr : c.effect s with
    | ok r =>
      simp only [execute_of_effect hr]
      have hnext := ih (h.effect hsound hr) (hsound.effect hr)
      rwa [List.append_assoc, List.singleton_append] at hnext
    | error e =>
      simp only [execute_of_error hr]
      exact ih h hsound

theorem toldBy_empty : ToldBy empty [] := by
  intro name t ht
  cases ht

/-! ## The rows of a query for everything -/

theorem select_all {name : String} {t : Table} (ht : c.get? name = some t) (hsound : t.Sound) :
    (c.execute (.select name [] none)).outcome =
      .ok (.scan t.schema.columnNames t.rows.values) := by
  have hall : t.matching none = t.rows.values := List.filter_eq_self.2 (by simp)
  rw [select_matching ht hsound (by simp), hall]

/-- Rows come in the ascending order of the bytes of their primary keys. -/
theorem rows_ascending {t : Table} (h : t.Sound) :
    t.rows.values.Pairwise fun a b => ∃ j k, a.get? t.schema.primaryKey = some j ∧
      b.get? t.schema.primaryKey = some k ∧ encode j < encode k := by
  refine List.pairwise_map.2 (t.rows.ascending.imp_of_mem fun {a b} ha hb hlt => ?_)
  obtain ⟨j, hj, hplacej⟩ := h.places a.1 a.2 (SortedMap.get?_eq_some.2 ha)
  obtain ⟨k, hk, hplacek⟩ := h.places b.1 b.2 (SortedMap.get?_eq_some.2 hb)
  exact ⟨j, k, hj, hk, compare_bytes_eq_lt.1 (hplacej ▸ hplacek ▸ hlt)⟩

theorem rows_nodup {t : Table} (h : t.Sound) : t.rows.values.Nodup := by
  apply (rows_ascending h).imp
  intro a b hab heq
  obtain ⟨j, k, hj, hk, hlt⟩ := hab
  obtain rfl : j = k := Option.some.inj (hj.symm.trans (heq ▸ hk))
  exact List.lt_irrefl _ hlt

/-- A query for everything gives each surviving row once, in the order of the keys' bytes. -/
theorem select_all_run (history : List Statement) {name : String}
    (h : name ∈ names (empty.run history)) :
    ∃ s : Schema, ∃ since rows, s.name = name ∧ s.CreatedLast (empty.accepted history) since ∧
      ((empty.run history).execute (.select name [] none)).outcome =
        .ok (.scan s.columnNames rows) ∧
      (∀ row, row ∈ rows ↔ s.Survives since row) ∧ rows.Nodup ∧
      rows.Pairwise fun a b => ∃ j k, a.get? s.primaryKey = some j ∧
        b.get? s.primaryKey = some k ∧ encode j < encode k := by
  obtain ⟨t, ht⟩ := SortedMap.mem_keys_iff.1 h
  have hsound := sound_empty.run history
  have htable := hsound.tables name t ht
  obtain ⟨since, hlast, hrows⟩ := toldBy_empty.run sound_empty history name t ht
  exact ⟨t.schema, since, t.rows.values, hsound.names name t ht, hlast, select_all ht htable,
    hrows, rows_nodup htable, rows_ascending htable⟩

/-- A table that is dropped, made again and filled, with a replaced and a deleted row. -/
def sampleHistory : List Statement :=
  let notes : Schema := ⟨"notes", [⟨"id", .integer⟩, ⟨"text", .string⟩], "id"⟩
  [.create notes, .insert "notes" (.positional [.integer 7, .string "gone"]), .drop "notes",
    .create notes, .insert "notes" (.positional [.integer 1, .string "first"]),
    .insert "notes" (.named (SortedMap.ofList [("id", .integer 1)])),
    .insert "notes" (.positional [.integer 2, .string "second"]),
    .delete "notes" ⟨"text", .string "second"⟩]

theorem select_all_sampleHistory :
    "notes" ∈ names (empty.run sampleHistory) ∧
    ∃ s : Schema, ∃ since rows, s.name = "notes" ∧
      s.CreatedLast (empty.accepted sampleHistory) since ∧
      ((empty.run sampleHistory).execute (.select "notes" [] none)).outcome =
        .ok (.scan s.columnNames rows) ∧
      (∀ row, row ∈ rows ↔ s.Survives since row) ∧ rows.Nodup ∧
      rows.Pairwise fun a b => ∃ j k, a.get? s.primaryKey = some j ∧
        b.get? s.primaryKey = some k ∧ encode j < encode k :=
  have h : "notes" ∈ names (empty.run sampleHistory) := by decide +kernel
  ⟨h, select_all_run sampleHistory h⟩

end Catalog

end RowStore
