import RowStore.Proofs.Store.History
import RowStore.Proofs.Store.Refusal

/-!
# Deletions and the query they answer to

A deletion is refused exactly where the query for the rows of its condition is refused, with the
same error. Otherwise it takes away the rows that this query shows: it counts them, the others stay
as they were and in their order, and a second deletion finds nothing more to do.
-/

namespace RowStore

namespace Table

theorem matching_without (t : Table) (f : Condition) : (t.without f).matching (some f) = [] := by
  apply List.eq_nil_iff_forall_not_mem.2
  intro row hrow
  obtain ⟨hvalues, hholds⟩ := mem_matching.1 hrow
  exact (mem_values_without.1 hvalues).2 hholds

theorem without_without (t : Table) (f : Condition) : (t.without f).without f = t.without f := by
  simp [without, SortedMap.filter, List.filter_filter]

/-- What stays are the rows that the condition does not show. -/
theorem values_without_eq (t : Table) (f : Condition) :
    (t.without f).rows.values = t.rows.values.filter fun row => row ∉ t.matching (some f) := by
  rw [values_without]
  apply List.filter_congr
  intro row hrow
  cases hholds : f.holds row <;> simp [mem_matching, hrow, hholds]

end Table

namespace Catalog

variable {c : Catalog} {name : String} {t : Table} {f : Condition} {e : Error}

/-- A deletion and the query for its rows are refused together. -/
theorem effect_delete_eq_error :
    c.effect (.delete name f) = .error e ↔ c.effect (.select name [] (some f)) = .error e := by
  simp only [effect, deleteRows, selectRows, Except.bind_eq_error, Schema.requested_nil,
    filter_forM_eq_error, pure, Except.pure, Option.mem_def, Option.some.injEq, exists_eq_left',
    Except.ok.injEq, reduceCtorEq, and_false, exists_false, or_false, false_or]

/-- The query for the rows that a deletion would take away. -/
theorem select_some (ht : c.get? name = some t) (hsound : t.Sound)
    (hcheck : t.schema.checkComparison f.column f.value = .ok ()) :
    (c.execute (.select name [] (some f))).outcome =
      .ok (.scan t.schema.columnNames (t.matching (some f))) :=
  select_matching ht hsound (by simpa using hcheck)

/-! ## After a deletion -/

/-- The query for the deleted rows shows none. -/
theorem select_without (ht : c.get? name = some (t.without f)) (hsound : t.Sound)
    (hcheck : t.schema.checkComparison f.column f.value = .ok ()) :
    (c.execute (.select name [] (some f))).outcome = .ok (.scan t.schema.columnNames []) := by
  have hshown := select_some ht (hsound.without f) hcheck
  rwa [Table.matching_without] at hshown

/-- A second deletion finds nothing. -/
theorem delete_without (ht : c.get? name = some (t.without f))
    (hcheck : t.schema.checkComparison f.column f.value = .ok ()) :
    (c.execute (.delete name f)).outcome = .ok (.deleted 0) ∧
      (c.execute (.delete name f)).catalog = c := by
  obtain ⟨houtcome, hcatalog⟩ := delete_matching ht hcheck
  rw [Table.matching_without] at houtcome
  rw [Table.without_without, SortedMap.insert_of_get? ht] at hcatalog
  exact ⟨houtcome, hcatalog⟩

/-- After every history a deletion does to a table what the query for its rows shows. -/
theorem execute_delete_run (history : List Statement) (name : String) (filter : Condition) :
    let delete (c : Catalog) := c.execute (.delete name filter)
    let shown (c : Catalog) := (c.execute (.select name [] (some filter))).outcome
    let all (c : Catalog) := (c.execute (.select name [] none)).outcome
    let c := empty.run history
    let c' := (delete c).catalog
    (∀ e, (delete c).outcome = .error e ↔ shown c = .error e) ∧
    (∀ e, (delete c).outcome = .error e → c' = c) ∧
    ∀ a, (delete c).outcome = .ok a → ∃ t t' columns rows stored,
      shown c = .ok (.scan columns rows) ∧ a = .deleted rows.length ∧
      shown c' = .ok (.scan columns []) ∧
      all c = .ok (.scan columns stored) ∧
      all c' = .ok (.scan columns (stored.filter fun row => row ∉ rows)) ∧
      c.get? name = some t ∧ c' = c.insert name t' ∧
      t'.schema = t.schema ∧ t.rowCount = t'.rowCount + rows.length ∧
      (delete c').outcome = .ok (.deleted 0) ∧ (delete c').catalog = c' := by
  intro delete shown all c c'
  have hsound : c.Sound := sound_empty.run history
  refine ⟨fun e => ?_, fun e he => ?_, fun a ha => ?_⟩
  · exact outcome_eq_error.trans (effect_delete_eq_error.trans outcome_eq_error.symm)
  · exact congrArg Response.catalog (execute_of_error (outcome_eq_error.1 he))
  · obtain ⟨r, hr, -⟩ := outcome_eq_ok.1 ha
    obtain ⟨t, ht, hcheck, -⟩ := deleteRows_eq_ok.1 hr
    have htable : t.Sound := hsound.tables name t ht
    obtain ⟨houtcome, hcatalog⟩ : (delete c).outcome = _ ∧ c' = c.insert name (t.without filter) :=
      delete_matching ht hcheck
    have ht' : c'.get? name = some (t.without filter) := by
      rw [hcatalog, SortedMap.get?_insert_self]
    have hall : all c' = .ok (.scan t.schema.columnNames (t.without filter).rows.values) :=
      select_all ht' (htable.without filter)
    rw [Table.values_without_eq] at hall
    have hcount := t.rowCount_without filter
    exact ⟨t, t.without filter, t.schema.columnNames, t.matching (some filter), t.rows.values,
      select_some ht htable hcheck, Except.ok.inj (ha.symm.trans houtcome),
      select_without ht' htable hcheck, select_all ht htable, hall, ht, hcatalog, rfl, by omega,
      delete_without ht' hcheck⟩

/-- Levels that are zero with either sign, no number, not given, and zero once more. -/
def readings : List Statement :=
  let reading (id : Int64) (level : Value) : Statement :=
    .insert "readings" (.positional [.integer id, level])
  [.create ⟨"readings", [⟨"id", .integer⟩, ⟨"level", .float⟩], "id"⟩,
    reading 1 (.float ⟨0⟩), reading 2 (.float ⟨0x7FF8000000000000⟩),
    reading 3 (.float ⟨0x8000000000000000⟩), reading 4 .unset, reading 5 (.float ⟨0⟩)]

/-- Both zeros meet a condition on either of them. -/
theorem execute_delete_readings :
    let zero : Condition := ⟨"level", .float ⟨0x8000000000000000⟩⟩
    let c := empty.run readings
    let x := c.execute (.delete "readings" zero)
    x.outcome = .ok (.deleted 3) ∧ ∃ t' columns rows, ∃ stored : List Row,
      (c.execute (.select "readings" [] (some zero))).outcome = .ok (.scan columns rows) ∧
      rows.length = 3 ∧
      (x.catalog.execute (.select "readings" [] none)).outcome =
        .ok (.scan columns (stored.filter fun row => row ∉ rows)) ∧
      x.catalog = c.insert "readings" t' ∧ t'.rowCount = 2 ∧
      (x.catalog.execute (.delete "readings" zero)).catalog = x.catalog := by
  intro zero c x
  have hx : x.outcome = .ok (.deleted 3) := by decide +kernel
  obtain ⟨t, t', columns, rows, stored, hshown, hdeleted, -, -, hall, ht, hcatalog, -, hcount, -,
    hagain⟩ := (execute_delete_run readings "readings" zero).2.2 _ hx
  have hrows : rows.length = 3 := (Answer.deleted.inj hdeleted).symm
  have hfive : (c.get? "readings").map Table.rowCount = some 5 := by decide +kernel
  rw [ht, Option.map_some, Option.some.injEq] at hfive
  exact ⟨hx, t', columns, rows, stored, hshown, hrows, hall, hcatalog, by omega, hagain⟩

end Catalog

end RowStore
