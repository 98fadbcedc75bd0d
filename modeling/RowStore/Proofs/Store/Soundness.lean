import RowStore.Proofs.Store.Run

/-!
# Sound catalogs

Every table that a run leaves is sound: its schema is well formed, each of its rows is one that the
schema admits, and each row lies under the binary form of its own primary key. Completing a new row
establishes the conditions on rows, and each kind of statement has one lemma on what it preserves.
-/

namespace RowStore

/-! ## Rows that a schema admits -/

namespace Schema

variable {s : Schema} {row given : Row}

def Declares (s : Schema) (column : String) (kind : Kind) : Prop := ⟨column, kind⟩ ∈ s.columns

theorem declares_iff (h : s.WellFormed) {column : String} {kind : Kind} :
    s.Declares column kind ↔ s.kind? column = some kind :=
  (kind?_eq_some h.names_nodup).symm

/-- The conditions on a stored row. -/
structure Admits (s : Schema) (row : Row) : Prop where
  /-- A row has the declared columns and no others. -/
  columns : ∀ column, column ∈ row.keys ↔ column ∈ s.columnNames
  /-- A value is unset or of the kind declared for its column. -/
  kinds : ∀ column kind v, s.Declares column kind → row.get? column = some v →
    v = .unset ∨ v.kind? = some kind
  /-- The primary-key value is set and of its declared kind. -/
  key : ∃ key kind, row.get? s.primaryKey = some key ∧ key ≠ .unset ∧
    s.Declares s.primaryKey kind ∧ key.kind? = some kind

/-- A completed row has the given values in the declared columns, and the others are unset. -/
theorem get?_of_complete (h : s.complete given = .ok row) (column : String) :
    row.get? column =
      if column ∈ s.columnNames then some ((given.get? column).getD .unset) else none := by
  obtain ⟨-, hcheck, rfl⟩ := complete_eq_ok.1 h
  rw [SortedMap.get?_insertMany_entries, get?_blankRow]
  cases hv : given.get? column with
  | none => simp
  | some v =>
    obtain ⟨k, hk, -⟩ := checkValue_eq_ok.1 (hcheck _ (SortedMap.get?_eq_some.1 hv))
    simp [mem_of_kind? hk]

theorem admits_of_complete (hwf : s.WellFormed) (h : s.complete given = .ok row) :
    s.Admits row := by
  have hget := get?_of_complete h
  obtain ⟨⟨key, hkey, hset⟩, hcheck, -⟩ := complete_eq_ok.1 h
  have hkinds {column v} (hv : given.get? column = some v) :
      ∃ k, s.kind? column = some k ∧ (v = .unset ∨ v.kind? = some k) :=
    checkValue_eq_ok.1 (hcheck _ (SortedMap.get?_eq_some.1 hv))
  refine ⟨?_, ?_, ?_⟩
  · intro column
    rw [← SortedMap.isSome_get?_iff, hget]
    split <;> simp_all
  · intro column kind v hdecl hv
    have hkind := (declares_iff hwf).1 hdecl
    rw [hget, if_pos (mem_of_kind? hkind), Option.some.injEq] at hv
    cases hgiven : given.get? column with
    | none => exact .inl (by simp [← hv, hgiven])
    | some w =>
      obtain ⟨k, hk, hw⟩ := hkinds hgiven
      obtain rfl : w = v := by simpa [hgiven] using hv
      obtain rfl : kind = k := Option.some.inj (hkind.symm.trans hk)
      exact hw
  · obtain ⟨k, hk, hw⟩ := hkinds hkey
    refine ⟨key, k, ?_, hset, (declares_iff hwf).2 hk, hw.resolve_left hset⟩
    rw [hget, if_pos hwf.key_mem, hkey, Option.getD_some]

end Schema

/-! ## Sound tables -/

/-- The conditions that tie the rows of a table to its schema. -/
structure Table.Sound (t : Table) : Prop where
  schema : t.schema.WellFormed
  rows : ∀ row ∈ t.rows.values, t.schema.Admits row
  /-- A row lies under the binary form of its own primary-key value. -/
  places : ∀ place row, t.rows.get? place = some row →
    ∃ key, row.get? t.schema.primaryKey = some key ∧ place = encode key

/-- Each table lies under its own name and is sound. -/
structure Catalog.Sound (c : Catalog) : Prop where
  names : ∀ name t, c.get? name = some t → t.schema.name = name
  tables : ∀ name t, c.get? name = some t → t.Sound

namespace Table

variable {t : Table}

theorem get?_put (t : Table) (key : Value) (row : Row) (place : List UInt8) :
    (t.put key row).rows.get? place =
      if place = encode key then some row else t.rows.get? place :=
  SortedMap.get?_insert t.rows place (encode key) row

theorem sound_new {s : Schema} (h : s.WellFormed) : Sound ⟨s, .empty⟩ :=
  ⟨h, by simp [SortedMap.values, SortedMap.empty], by simp⟩

theorem Sound.put (h : t.Sound) {given row : Row} {key : Value}
    (hrow : t.schema.complete given = .ok row) (hkey : t.schema.keyOf row = .ok key) :
    (t.put key row).Sound := by
  refine ⟨h.schema, ?_, ?_⟩
  · intro r hr
    obtain rfl | hr := SortedMap.mem_values_of_insert hr
    · exact Schema.admits_of_complete h.schema hrow
    · exact h.rows r hr
  · intro place r hr
    obtain ⟨hplace, rfl⟩ | hr := SortedMap.get?_of_get?_insert hr
    · exact ⟨key, (Schema.keyOf_eq_ok.1 hkey).1, hplace⟩
    · exact h.places place r hr

theorem Sound.without (h : t.Sound) (filter : Condition) : (t.without filter).Sound := by
  have hsub {place r} (hr : (t.without filter).rows.get? place = some r) :
      t.rows.get? place = some r := by
    rw [Table.without, SortedMap.get?_filter, Option.filter_eq_some_iff] at hr
    exact hr.1
  refine ⟨h.schema, ?_, ?_⟩
  · intro r hr
    obtain ⟨place, hplace⟩ := SortedMap.mem_values_iff.1 hr
    exact h.rows r (SortedMap.mem_values_iff.2 ⟨place, hsub hplace⟩)
  · intro place r hr
    exact h.places place r (hsub hr)

end Table

/-! ## Sound catalogs -/

namespace Catalog

variable {c : Catalog}

theorem sound_empty : Sound empty := ⟨by simp [empty], by simp [empty]⟩

theorem Sound.insert (h : c.Sound) {name : String} {t : Table} (hname : t.schema.name = name)
    (ht : t.Sound) : Sound (c.insert name t) := by
  constructor
  · intro n u hu
    obtain ⟨rfl, rfl⟩ | hu := SortedMap.get?_of_get?_insert hu
    · exact hname
    · exact h.names n u hu
  · intro n u hu
    obtain ⟨rfl, rfl⟩ | hu := SortedMap.get?_of_get?_insert hu
    · exact ht
    · exact h.tables n u hu

theorem Sound.erase (h : c.Sound) (name : String) : Sound (c.erase name) where
  names n u hu := h.names n u (SortedMap.get?_of_get?_erase hu)
  tables n u hu := h.tables n u (SortedMap.get?_of_get?_erase hu)

/-- What an accepted statement leaves is sound. -/
theorem Sound.effect (h : c.Sound) {s : Statement} {r : Effect} (hr : c.effect s = .ok r) :
    r.catalog.Sound := by
  cases s with
  | create schema =>
    obtain ⟨hwf, -, rfl⟩ := createTable_eq_ok.1 hr
    exact h.insert rfl (Table.sound_new hwf)
  | select name columns filter =>
    obtain ⟨t, requested, -, -, -, rfl⟩ := selectRows_eq_ok.1 hr
    exact h
  | insert name values =>
    obtain ⟨t, given, row, key, ht, -, hrow, hkey, rfl⟩ := insertRow_eq_ok.1 hr
    exact h.insert (h.names name t ht) ((h.tables name t ht).put hrow hkey)
  | delete name filter =>
    obtain ⟨t, ht, -, rfl⟩ := deleteRows_eq_ok.1 hr
    exact h.insert (h.names name t ht) ((h.tables name t ht).without filter)
  | drop name =>
    obtain ⟨t, -, rfl⟩ := dropTable_eq_ok.1 hr
    exact h.erase name

theorem Sound.run (h : c.Sound) (history : List Statement) : (c.run history).Sound :=
  run_induction h (fun hc hr => hc.effect hr) history

/-- Every state that a history passes through is sound. -/
theorem sound_run_take (history : List Statement) (n : Nat) :
    (empty.run (history.take n)).Sound :=
  sound_empty.run (history.take n)

end Catalog

end RowStore
