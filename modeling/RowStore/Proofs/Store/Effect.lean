import Mathlib.Data.List.Nodup
import RowStore.Proofs.Except
import RowStore.Proofs.SortedMap
import RowStore.Answer
import RowStore.Event
import RowStore.Statement.Basic
import RowStore.Store.Catalog

/-!
# What an accepted statement does

The effect of a statement as a function of the catalog that it meets, and one inversion law for each
check and each effect: it is accepted exactly under the stated conditions, and then it is exactly
the one stated. Later proofs use these laws and do not open the functions again.
-/

namespace RowStore

/-! ## Checks of a schema -/

namespace Schema

variable {s : Schema}

/-- The primary key is a column, and no two columns share a name. -/
structure WellFormed (s : Schema) : Prop where
  names_nodup : s.columnNames.Nodup
  key_mem : s.primaryKey ∈ s.columnNames

theorem check_eq_ok : s.check = .ok () ↔ s.WellFormed := by
  unfold check
  split
  · next hkey => exact ⟨nofun, fun h => absurd h.key_mem hkey⟩
  · next hkey =>
    rw [not_not] at hkey
    split
    · next hrep =>
      have hnone (h : s.WellFormed) : firstRepeated? [] s.columnNames = none :=
        firstRepeated?_eq_none.2 ⟨h.names_nodup, by simp⟩
      exact ⟨nofun, fun h => by simp [hnone h] at hrep⟩
    · next hrep => exact ⟨fun _ => ⟨(firstRepeated?_eq_none.1 hrep).1, hkey⟩, fun _ => rfl⟩

theorem kind?_eq_none {column : String} : s.kind? column = none ↔ column ∉ s.columnNames := by
  simp only [kind?, Option.map_eq_none_iff, List.find?_eq_none, decide_eq_true_eq, columnNames,
    List.mem_map]
  exact ⟨fun h ⟨c, hc, hn⟩ => h c hc hn, fun h c hc hn => h ⟨c, hc, hn⟩⟩

theorem mem_of_kind? {column : String} {k : Kind} (h : s.kind? column = some k) :
    column ∈ s.columnNames := by
  by_contra hmem
  simp [kind?_eq_none.2 hmem] at h

theorem kind_eq_ok {column : String} {k : Kind} :
    s.kind column = .ok k ↔ s.kind? column = some k := by
  unfold kind
  split <;> simp_all

/-- A column declared of a kind is found under its name with that kind. -/
theorem kind?_eq_some (h : s.columnNames.Nodup) {column : String} {k : Kind} :
    s.kind? column = some k ↔ ⟨column, k⟩ ∈ s.columns := by
  simp only [kind?, Option.map_eq_some_iff]
  constructor
  · rintro ⟨c, hc, rfl⟩
    have hname : c.name = column := by simpa using List.find?_some hc
    exact hname ▸ List.mem_of_find?_eq_some hc
  · intro hmem
    obtain ⟨c, hc⟩ : ∃ c, s.columns.find? (fun c => c.name = column) = some c :=
      Option.isSome_iff_exists.1 (List.find?_isSome.2 ⟨_, hmem, by simp⟩)
    have hname : c.name = column := by simpa using List.find?_some hc
    have heq : c = ⟨column, k⟩ :=
      List.inj_on_of_nodup_map h (List.mem_of_find?_eq_some hc) hmem hname
    exact ⟨c, hc, heq ▸ rfl⟩

/-- What a column can hold: nothing, or a value of its kind. -/
theorem checkValue_eq_ok {column : String} {v : Value} :
    s.checkValue column v = .ok () ↔
      ∃ k, s.kind? column = some k ∧ (v = .unset ∨ v.kind? = some k) := by
  simp only [checkValue, Except.bind_eq_ok, kind_eq_ok]
  refine exists_congr fun k => and_congr_right fun _ => ?_
  cases v <;> simp [Value.kind?, pure, Except.pure, throw, throwThe, MonadExceptOf.throw]

theorem checkComparison_eq_ok {column : String} {v : Value} :
    s.checkComparison column v = .ok () ↔ ∃ k, s.kind? column = some k ∧ v.kind? = some k := by
  simp only [checkComparison, Except.bind_eq_ok, kind_eq_ok]
  refine exists_congr fun k => and_congr_right fun _ => ?_
  split <;> simp_all [pure, Except.pure, throw, throwThe, MonadExceptOf.throw]

theorem keyOf_eq_ok {row : Row} {v : Value} :
    s.keyOf row = .ok v ↔ row.get? s.primaryKey = some v ∧ v ≠ .unset := by
  unfold keyOf
  split
  · next w hw => by_cases hu : w = .unset <;> simp_all [Value.isUnset]; grind
  · next hw => simp [hw]

/-! ## New rows and projections -/

theorem get?_blankRow (column : String) :
    s.blankRow.get? column = if column ∈ s.columnNames then some .unset else none :=
  SortedMap.get?_ofList_map (fun _ => Value.unset) s.columnNames column

theorem supplied_positional_eq_ok {values : List Value} {row : Row} :
    s.supplied (.positional values) = .ok row ↔
      values.length = s.columns.length ∧ row = SortedMap.ofList (s.columnNames.zip values) := by
  simp only [supplied]
  split <;> simp_all [eq_comm]

theorem complete_eq_ok {values row : Row} :
    s.complete values = .ok row ↔
      (∃ v, values.get? s.primaryKey = some v ∧ v ≠ .unset) ∧
      (∀ e ∈ values.entries, s.checkValue e.1 e.2 = .ok ()) ∧
      row = s.blankRow.insertMany values.entries := by
  simp only [complete, Except.bind_eq_ok, keyOf_eq_ok, Except.forM_eq_ok, pure, Except.pure,
    Except.ok.injEq]
  constructor
  · rintro ⟨v, hv, -, hcheck, rfl⟩
    exact ⟨⟨v, hv⟩, hcheck, rfl⟩
  · rintro ⟨⟨v, hv⟩, hcheck, rfl⟩
    exact ⟨v, hv, (), hcheck, rfl⟩

theorem requested_nil : s.requested [] = .ok s.columnNames := rfl

end Schema

/-! ## Effects -/

/-- What a statement that succeeds gives back, leaves behind and reports. -/
structure Effect where
  answer : Answer
  catalog : Catalog
  events : List Event

namespace Catalog

def createTable (c : Catalog) (s : Schema) : Except Error Effect := do
  if s.primaryKey ∉ s.columnNames then throw (.primaryKeyNotDefined s.name)
  if c.contains s.name then throw (.tableAlreadyExists s.name)
  let t ← Table.ofSchema s
  return ⟨.tableCreated s.name, c.insert s.name t, [.tableCreated s.name]⟩

def dropTable (c : Catalog) (name : String) : Except Error Effect := do
  let t ← c.table name
  return ⟨.tableDropped name, c.erase name, [.tableDropped name t.rowCount]⟩

/-- The events of an insertion: a replaced row is reported before the new one. -/
def insertEvents (t : Table) (key : Value) : List Event :=
  (if t.holdsKey key then [.rowReplaced t.schema.name key] else []) ++
    [.rowInserted t.schema.name key]

def insertRow (c : Catalog) (name : String) (values : NewRow) : Except Error Effect := do
  let t ← c.table name
  let given ← t.schema.supplied values
  let row ← t.schema.complete given
  let key ← t.schema.keyOf row
  return ⟨.inserted 1, c.insert name (t.put key row), insertEvents t key⟩

def deleteRows (c : Catalog) (name : String) (filter : Condition) : Except Error Effect := do
  let t ← c.table name
  t.schema.checkComparison filter.column filter.value
  let t' := t.without filter
  let count := t.rowCount - t'.rowCount
  return ⟨.deleted count, c.insert name t', [.rowsDeleted t.schema.name count]⟩

def selectRows (c : Catalog) (name : String) (columns : List String) (filter : Option Condition) :
    Except Error Effect := do
  let t ← c.table name
  let columns ← t.schema.requested columns
  filter.forM fun f => t.schema.checkComparison f.column f.value
  let rows := (t.matching filter).map (Row.project columns)
  return ⟨.scan columns rows, c, [.rowsSelected t.schema.name rows.length]⟩

/-- What a statement comes to on a catalog. -/
def effect (c : Catalog) : Statement → Except Error Effect
  | .create schema => c.createTable schema
  | .select table columns filter => c.selectRows table columns filter
  | .insert table values => c.insertRow table values
  | .delete table filter => c.deleteRows table filter
  | .drop table => c.dropTable table

/-! ## Accepted statements -/

variable {c : Catalog} {r : Effect}

theorem table_eq_ok {name : String} {t : Table} :
    c.table name = .ok t ↔ c.get? name = some t := by
  unfold table
  split <;> simp_all

theorem ofSchema_eq_ok {s : Schema} {t : Table} :
    Table.ofSchema s = .ok t ↔ s.WellFormed ∧ t = ⟨s, .empty⟩ := by
  simp only [Table.ofSchema, Except.bind_eq_ok, pure, Except.pure, Except.ok.injEq]
  constructor
  · rintro ⟨_, hcheck, rfl⟩
    exact ⟨Schema.check_eq_ok.1 hcheck, rfl⟩
  · rintro ⟨hwf, rfl⟩
    exact ⟨(), Schema.check_eq_ok.2 hwf, rfl⟩

theorem contains_eq_false {name : String} : c.contains name = false ↔ c.get? name = none := by
  simp [SortedMap.contains]

/-- The primary key is looked for twice: the second look finds nothing new. -/
theorem createTable_eq_ok {s : Schema} :
    c.createTable s = .ok r ↔
      s.WellFormed ∧ c.get? s.name = none ∧
      r = ⟨.tableCreated s.name, c.insert s.name ⟨s, .empty⟩, [.tableCreated s.name]⟩ := by
  unfold createTable
  by_cases hkey : s.primaryKey ∈ s.columnNames
  · cases hname : c.contains s.name with
    | true =>
      have hsome : c.get? s.name ≠ none := fun hnone => by
        simp [contains_eq_false.2 hnone] at hname
      simp [hkey, hsome, bind, Except.bind, throw, throwThe, MonadExceptOf.throw]
    | false =>
      simp only [hkey, not_true_eq_false, if_false, Bool.false_eq_true, Except.bind_eq_ok,
        ofSchema_eq_ok, pure, Except.pure, Except.ok.injEq]
      constructor
      · rintro ⟨_, ⟨hwf, rfl⟩, rfl⟩
        exact ⟨hwf, contains_eq_false.1 hname, rfl⟩
      · rintro ⟨hwf, -, rfl⟩
        exact ⟨_, ⟨hwf, rfl⟩, rfl⟩
  · have hwf : ¬ s.WellFormed := fun h => hkey h.key_mem
    simp [hkey, hwf, bind, Except.bind, throw, throwThe, MonadExceptOf.throw]

theorem dropTable_eq_ok {name : String} :
    c.dropTable name = .ok r ↔
      ∃ t, c.get? name = some t ∧
        r = ⟨.tableDropped name, c.erase name, [.tableDropped name t.rowCount]⟩ := by
  simp only [dropTable, Except.bind_eq_ok, table_eq_ok, pure, Except.pure, Except.ok.injEq,
    @eq_comm _ _ r]

theorem insertRow_eq_ok {name : String} {values : NewRow} :
    c.insertRow name values = .ok r ↔
      ∃ t given row key, c.get? name = some t ∧ t.schema.supplied values = .ok given ∧
        t.schema.complete given = .ok row ∧ t.schema.keyOf row = .ok key ∧
        r = ⟨.inserted 1, c.insert name (t.put key row), insertEvents t key⟩ := by
  simp only [insertRow, Except.bind_eq_ok, table_eq_ok, pure, Except.pure, Except.ok.injEq]
  constructor
  · rintro ⟨t, ht, given, hgiven, row, hrow, key, hkey, rfl⟩
    exact ⟨t, given, row, key, ht, hgiven, hrow, hkey, rfl⟩
  · rintro ⟨t, given, row, key, ht, hgiven, hrow, hkey, rfl⟩
    exact ⟨t, ht, given, hgiven, row, hrow, key, hkey, rfl⟩

theorem deleteRows_eq_ok {name : String} {filter : Condition} :
    c.deleteRows name filter = .ok r ↔
      ∃ t, c.get? name = some t ∧
        t.schema.checkComparison filter.column filter.value = .ok () ∧
        r = ⟨.deleted (t.rowCount - (t.without filter).rowCount), c.insert name (t.without filter),
          [.rowsDeleted t.schema.name (t.rowCount - (t.without filter).rowCount)]⟩ := by
  simp only [deleteRows, Except.bind_eq_ok, table_eq_ok, pure, Except.pure, Except.ok.injEq]
  constructor
  · rintro ⟨t, ht, _, hcheck, rfl⟩
    exact ⟨t, ht, hcheck, rfl⟩
  · rintro ⟨t, ht, hcheck, rfl⟩
    exact ⟨t, ht, (), hcheck, rfl⟩

theorem filter_forM_eq_ok {filter : Option Condition} {f : Condition → Except Error Unit}
    {u : Unit} : filter.forM f = .ok u ↔ ∀ x ∈ filter, f x = .ok () := by
  cases filter <;> simp [Option.forM, pure, Except.pure]

theorem selectRows_eq_ok {name : String} {columns : List String} {filter : Option Condition} :
    c.selectRows name columns filter = .ok r ↔
      ∃ t requested, c.get? name = some t ∧ t.schema.requested columns = .ok requested ∧
        (∀ f ∈ filter, t.schema.checkComparison f.column f.value = .ok ()) ∧
        r = ⟨.scan requested ((t.matching filter).map (Row.project requested)), c,
          [.rowsSelected t.schema.name (t.matching filter).length]⟩ := by
  simp only [selectRows, Except.bind_eq_ok, table_eq_ok, filter_forM_eq_ok, pure, Except.pure,
    Except.ok.injEq, List.length_map]
  constructor
  · rintro ⟨t, ht, requested, hreq, _, hcheck, rfl⟩
    exact ⟨t, requested, ht, hreq, hcheck, rfl⟩
  · rintro ⟨t, requested, ht, hreq, hcheck, rfl⟩
    exact ⟨t, ht, requested, hreq, (), hcheck, rfl⟩

end Catalog

end RowStore
