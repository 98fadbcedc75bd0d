import RowStore.Proofs.Store.Soundness

/-!
# Queries and deletions with a condition

A query for all columns gives the stored rows that meet its condition as they are, and a deletion
takes exactly these rows away and counts them.
-/

namespace RowStore

theorem Condition.holds_iff {f : Condition} {row : Row} :
    f.holds row ↔ ∃ v, row.get? f.column = some v ∧ v.equals f.value := by
  unfold Condition.holds
  split <;> simp_all

namespace Schema

variable {s : Schema} {row : Row} {column : String} {v : Value}

/-- The projection of a stored row has its values in the columns that are asked for. -/
theorem get?_project (h : s.Admits row) {columns : List String}
    (hcolumns : ∀ column ∈ columns, column ∈ s.columnNames) (column : String) :
    (Row.project columns row).get? column = if column ∈ columns then row.get? column else none := by
  rw [Row.project, SortedMap.get?_ofList_map (fun c => (row.get? c).getD .unset)]
  split
  · next hmem =>
    obtain ⟨v, hv⟩ := SortedMap.mem_keys_iff.1 ((h.columns column).2 (hcolumns column hmem))
    rw [hv, Option.getD_some]
  · rfl

/-- A stored row has the declared columns, so their projection is the row itself. -/
theorem project_columnNames (h : s.Admits row) : Row.project s.columnNames row = row := by
  apply SortedMap.ext_get?
  intro column
  rw [get?_project h fun _ hmem => hmem]
  split
  · rfl
  · next hmem =>
    exact (SortedMap.get?_eq_none.2 fun hkey => hmem ((h.columns column).1 hkey)).symm

/-- What a stored row holds in a column can be compared with that column. -/
theorem Admits.checkComparison (h : s.Admits row) (hwf : s.WellFormed)
    (hv : row.get? column = some v) (hset : v ≠ .unset) :
    s.checkComparison column v = .ok () := by
  have hmem : column ∈ s.columnNames :=
    (h.columns column).1 (SortedMap.mem_keys_iff.2 ⟨v, hv⟩)
  obtain ⟨⟨_, kind⟩, hcolumn, rfl⟩ := List.mem_map.1 hmem
  have hkind := (h.kinds _ kind v hcolumn hv).resolve_left hset
  exact checkComparison_eq_ok.2 ⟨kind, (declares_iff hwf).1 hcolumn, hkind⟩

end Schema

namespace Table

variable {t : Table}

theorem mem_matching {f : Condition} {row : Row} :
    row ∈ t.matching (some f) ↔ row ∈ t.rows.values ∧ f.holds row := by
  simp [matching]

theorem values_without (t : Table) (f : Condition) :
    (t.without f).rows.values = t.rows.values.filter fun row => !f.holds row := by
  simp only [without, SortedMap.filter, SortedMap.values, List.filter_map]
  rfl

theorem rowCount_put (t : Table) (key : Value) (row : Row) :
    (t.put key row).rowCount = t.rowCount + if t.holdsKey key then 0 else 1 :=
  t.rows.size_insert (encode key) row

/-- Every row is either met by a condition or left by its deletion. -/
theorem rowCount_without (t : Table) (f : Condition) :
    t.rowCount = (t.matching (some f)).length + (t.without f).rowCount := by
  have hcount (t : Table) : t.rowCount = t.rows.values.length := (List.length_map _).symm
  rw [hcount, hcount, values_without]
  exact List.length_eq_length_filter_add _

end Table

namespace Catalog

variable {c : Catalog} {name : String} {t : Table}

theorem select_matching (ht : c.get? name = some t) (hsound : t.Sound) {filter : Option Condition}
    (hfilter : ∀ f ∈ filter, t.schema.checkComparison f.column f.value = .ok ()) :
    (c.execute (.select name [] filter)).outcome =
      .ok (.scan t.schema.columnNames (t.matching filter)) := by
  have hrows : (t.matching filter).map (Row.project t.schema.columnNames) = t.matching filter := by
    refine (List.map_congr_left fun row hrow => ?_).trans (List.map_id _)
    exact Schema.project_columnNames (hsound.rows row (List.mem_of_mem_filter hrow))
  have heffect : c.effect (.select name [] filter) =
      .ok ⟨.scan t.schema.columnNames (t.matching filter), c,
        [.rowsSelected t.schema.name (t.matching filter).length]⟩ :=
    selectRows_eq_ok.2 ⟨t, _, ht, Schema.requested_nil, hfilter, by rw [hrows]⟩
  rw [execute_of_effect heffect]

theorem delete_matching (ht : c.get? name = some t) {f : Condition}
    (hcheck : t.schema.checkComparison f.column f.value = .ok ()) :
    (c.execute (.delete name f)).outcome = .ok (.deleted (t.matching (some f)).length) ∧
      (c.execute (.delete name f)).catalog = c.insert name (t.without f) := by
  have heffect := deleteRows_eq_ok.2 ⟨t, ht, hcheck, rfl⟩
  rw [execute_of_effect (s := .delete name f) heffect]
  refine ⟨?_, rfl⟩
  have hcount := t.rowCount_without f
  rw [show t.rowCount - (t.without f).rowCount = (t.matching (some f)).length by omega]

end Catalog

end RowStore
