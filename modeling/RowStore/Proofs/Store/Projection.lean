import RowStore.Proofs.Store.History
import RowStore.Proofs.Store.Refusal
import RowStore.Proofs.Value

/-!
# Queries as projections

A query is refused for its first column that is not declared, or for a condition that its column
cannot be compared with. Otherwise its rows are those of the query for everything that meet the
condition, in the same order and each restricted to the columns asked for: no value in an answer is
made up, and the condition is on the whole row, whether or not its column is asked for.
-/

namespace RowStore

/-- The part of a row in some columns. -/
def Row.restrict (columns : List String) (row : Row) : Row :=
  SortedMap.filter (fun column _ => column ∈ columns) row

namespace Schema

/-- A query is refused with an error: for a column that it asks for, or for its condition. -/
inductive RefusesQuery (s : Schema) (columns : List String) (filter : Option Condition) :
    Error → Prop
  | column {before column after} (split : columns = before ++ column :: after)
      (known : ∀ other ∈ before, other ∈ s.columnNames) (unknown : column ∉ s.columnNames) :
      RefusesQuery s columns filter (.unknownColumn s.name column)
  | condition {f e} (known : ∀ column ∈ columns, column ∈ s.columnNames) (given : f ∈ filter)
      (incomparable : s.Incomparable f.column f.value e) : RefusesQuery s columns filter e

/-- A query asks for declared columns, and its condition has a value of the kind of its column. -/
structure AcceptsQuery (s : Schema) (columns : List String) (filter : Option Condition) : Prop where
  known : ∀ column ∈ columns, column ∈ s.columnNames
  comparable : ∀ f ∈ filter, ∃ kind, s.Declares f.column kind ∧ f.value.kind? = some kind

variable {s : Schema} {columns : List String} {filter : Option Condition} {row : Row}
  {column : String}

theorem not_refusesQuery_unknownTable {name : String} :
    ¬ s.RefusesQuery columns filter (.unknownTable name) := by
  rintro (_ | ⟨-, -, ⟨⟩⟩)

/-! ## Restricted rows -/

theorem get?_restrict (columns : List String) (row : Row) (column : String) :
    (row.restrict columns).get? column = if column ∈ columns then row.get? column else none := by
  rw [Row.restrict, SortedMap.get?_filter]
  cases row.get? column <;> by_cases hmem : column ∈ columns <;> simp [hmem]

/-- In the answer to a query nothing stands in for a value that is not there. -/
theorem project_eq_restrict (h : s.Admits row)
    (hcolumns : ∀ column ∈ columns, column ∈ s.columnNames) :
    Row.project columns row = row.restrict columns :=
  SortedMap.ext_get? fun column =>
    (get?_project h hcolumns column).trans (get?_restrict columns row column).symm

theorem mem_keys_restrict (h : s.Admits row)
    (hcolumns : ∀ column ∈ columns, column ∈ s.columnNames) :
    column ∈ (row.restrict columns).keys ↔ column ∈ columns := by
  rw [← SortedMap.isSome_get?_iff, get?_restrict]
  split
  · next hmem =>
    have hkey := (h.columns column).2 (hcolumns column hmem)
    exact iff_of_true (SortedMap.isSome_get?_iff.2 hkey) hmem
  · next hmem => exact iff_of_false nofun hmem

/-! ## Accepted queries -/

theorem AcceptsQuery.answerColumns_mem (h : s.AcceptsQuery columns filter) :
    ∀ column ∈ s.answerColumns columns, column ∈ s.columnNames := by
  unfold answerColumns
  split
  · exact fun _ hmem => hmem
  · exact h.known

theorem acceptsQuery_iff (hwf : s.WellFormed) : s.AcceptsQuery columns filter ↔
    s.requested columns = .ok (s.answerColumns columns) ∧
      ∀ f ∈ filter, s.checkComparison f.column f.value = .ok () := by
  simp only [requested_eq_ok, and_true, checkComparison_eq_ok, ← declares_iff hwf]
  exact ⟨fun h => ⟨h.known, h.comparable⟩, fun h => ⟨h.1, h.2⟩⟩

theorem AcceptsQuery.value_ne_unset (h : s.AcceptsQuery columns filter) {f : Condition}
    (hf : f ∈ filter) : f.value ≠ .unset := by
  obtain ⟨kind, -, hkind⟩ := h.comparable f hf
  intro hunset
  rw [Value.kind?_eq_none.2 hunset] at hkind
  cases hkind

/-- A row that meets the condition of an accepted query has a value in its column. -/
theorem AcceptsQuery.exists_set (h : s.AcceptsQuery columns filter) {f : Condition}
    (hf : f ∈ filter) (hholds : f.holds row) : ∃ v, row.get? f.column = some v ∧ v ≠ .unset := by
  obtain ⟨v, hv, hequals⟩ := Condition.holds_iff.1 hholds
  refine ⟨v, hv, ?_⟩
  rintro rfl
  have hkind : f.value.kind? = none := (Value.kind?_eq_of_equals hequals).symm
  exact h.value_ne_unset hf (Value.kind?_eq_none.1 hkind)

end Schema

namespace Catalog

variable {c : Catalog} {name : String} {t : Table} {columns : List String}
  {filter : Option Condition} {e : Error}

theorem selectRows_eq_error (ht : c.get? name = some t) (hsound : t.Sound) :
    c.selectRows name columns filter = .error e ↔ t.schema.RefusesQuery columns filter e := by
  rw [selectRows, table_bind_of_get? ht]
  simp only [Except.bind_eq_error, pure, Except.pure, reduceCtorEq, and_false, exists_false,
    or_false, Schema.requested_eq_error, Schema.requested_eq_ok, filter_forM_eq_error,
    Schema.checkComparison_eq_error hsound.schema]
  constructor
  · rintro (⟨before, column, after, hsplit, hknown, hunknown, rfl⟩ |
      ⟨_, ⟨hknown, -⟩, f, hf, hincomparable⟩)
    · exact .column hsplit hknown hunknown
    · exact .condition hknown hf hincomparable
  · rintro (⟨hsplit, hknown, hunknown⟩ | ⟨hknown, hf, hincomparable⟩)
    · exact .inl ⟨_, _, _, hsplit, hknown, hunknown, rfl⟩
    · exact .inr ⟨_, ⟨hknown, rfl⟩, _, hf, hincomparable⟩

/-- An accepted query gives the rows that meet its condition, in its columns. -/
theorem selectRows_answer (ht : c.get? name = some t) (hsound : t.Sound) {a : Answer} :
    (∃ r, c.selectRows name columns filter = .ok r ∧ r.answer = a) ↔
      t.schema.AcceptsQuery columns filter ∧ a = .scan (t.schema.answerColumns columns)
        ((t.matching filter).map (Row.restrict (t.schema.answerColumns columns))) := by
  have hrows (h : t.schema.AcceptsQuery columns filter) :
      (t.matching filter).map (Row.project (t.schema.answerColumns columns)) =
        (t.matching filter).map (Row.restrict (t.schema.answerColumns columns)) :=
    List.map_congr_left fun row hrow =>
      Schema.project_eq_restrict (hsound.rows row (List.mem_of_mem_filter hrow)) h.answerColumns_mem
  constructor
  · rintro ⟨r, hr, rfl⟩
    obtain ⟨t', requested, ht', hrequested, hfilter, rfl⟩ := selectRows_eq_ok.1 hr
    obtain rfl := Option.some.inj (ht.symm.trans ht')
    obtain ⟨hknown, rfl⟩ := Schema.requested_eq_ok.1 hrequested
    have haccepts := (Schema.acceptsQuery_iff hsound.schema).2 ⟨hrequested, hfilter⟩
    exact ⟨haccepts, congrArg _ (hrows haccepts)⟩
  · rintro ⟨haccepts, rfl⟩
    obtain ⟨hrequested, hfilter⟩ := (Schema.acceptsQuery_iff hsound.schema).1 haccepts
    exact ⟨_, selectRows_eq_ok.2 ⟨t, _, ht, hrequested, hfilter, rfl⟩,
      congrArg _ (hrows haccepts)⟩

theorem selectRows_eq_unknownTable (hsound : c.Sound) :
    c.selectRows name columns filter = .error (.unknownTable name) ↔ c.get? name = none := by
  refine table_bind_eq_unknownTable fun t ht hrows => ?_
  have hselect : c.selectRows name columns filter = _ := (table_bind_of_get? ht).trans hrows
  rw [selectRows_eq_error ht (hsound.tables name t ht)] at hselect
  exact Schema.not_refusesQuery_unknownTable hselect

/-- After every history a query is answered by the query for everything: its rows are the ones that
meet the condition, in their order, each restricted to the columns asked for. -/
theorem execute_select_run (history : List Statement) (name : String) (columns : List String)
    (filter : Option Condition) :
    let c := empty.run history
    let x := c.execute (.select name columns filter)
    (x.outcome = .error (.unknownTable name) ↔ c.get? name = none) ∧
    ∀ t, c.get? name = some t →
      t.schema.name = name ∧
      (∀ e, x.outcome = .error e ↔ t.schema.RefusesQuery columns filter e) ∧
      ∃ all, (c.execute (.select name [] none)).outcome = .ok (.scan t.schema.columnNames all) ∧
        all.length = t.rowCount ∧
        let requested := if columns = [] then t.schema.columnNames else columns
        let met := all.filter fun row => filter.all fun f => f.holds row
        let rows := met.map (Row.restrict requested)
        (∀ a, x.outcome = .ok a ↔
          t.schema.AcceptsQuery columns filter ∧ a = .scan requested rows) ∧
        (t.schema.AcceptsQuery columns filter →
          (∀ row ∈ rows, ∀ column, column ∈ row.keys ↔ column ∈ requested) ∧
          ∀ f ∈ filter, f.value ≠ .unset ∧
            (∀ row ∈ met, ∃ v, row.get? f.column = some v ∧ v ≠ .unset) ∧
            ∀ row ∈ rows, row.get? f.column ≠ some .unset) := by
  intro c x
  have hsound : c.Sound := sound_empty.run history
  refine ⟨outcome_eq_error.trans (selectRows_eq_unknownTable hsound), fun t ht => ?_⟩
  have htable := hsound.tables name t ht
  refine ⟨hsound.names name t ht, fun e => outcome_eq_error.trans (selectRows_eq_error ht htable),
    t.rows.values, select_all ht htable, List.length_map _, fun a => ?_, fun h => ⟨?_, ?_⟩⟩
  · exact outcome_eq_ok.trans (selectRows_answer ht htable)
  · intro row hrow column
    obtain ⟨stored, hstored, rfl⟩ := List.mem_map.1 hrow
    have hadmits := htable.rows stored (List.mem_of_mem_filter hstored)
    exact Schema.mem_keys_restrict hadmits h.answerColumns_mem
  · intro f hf
    have hset : ∀ row ∈ t.matching filter, ∃ v, row.get? f.column = some v ∧ v ≠ .unset := by
      intro row hrow
      obtain rfl := Option.mem_def.1 hf
      exact h.exists_set hf (Table.mem_matching.1 hrow).2
    refine ⟨h.value_ne_unset hf, hset, fun row hrow hunset => ?_⟩
    obtain ⟨stored, hstored, rfl⟩ := List.mem_map.1 hrow
    obtain ⟨v, hv, hne⟩ := hset stored hstored
    rw [Schema.get?_restrict, hv, Option.ite_none_right_eq_some] at hunset
    exact hne (Option.some.inj hunset.2)

/-- Three notes, of which the second is blank but for its key. -/
def threeNotes : List Statement :=
  [.create ⟨"notes", [⟨"id", .integer⟩, ⟨"text", .string⟩, ⟨"done", .boolean⟩], "id"⟩,
    .insert "notes" (.positional [.integer 1, .string "first", .boolean true]),
    .insert "notes" (.named (SortedMap.ofList [("id", .integer 2)])),
    .insert "notes" (.positional [.integer 3, .string "third", .boolean false])]

/-- The column of the condition is not asked for, and another one is asked for twice. -/
theorem execute_select_threeNotes :
    let c := empty.run threeNotes
    let done : Condition := ⟨"done", .boolean true⟩
    let columns := ["text", "id", "text"]
    ∃ t all, c.get? "notes" = some t ∧ t.schema.AcceptsQuery columns (some done) ∧
      (c.execute (.select "notes" [] none)).outcome = .ok (.scan t.schema.columnNames all) ∧
      all.length = 3 ∧
      (c.execute (.select "notes" columns (some done))).outcome =
        .ok (.scan columns ((all.filter fun row => done.holds row).map (Row.restrict columns))) ∧
      ∀ row ∈ all.filter fun row => done.holds row, ∃ v, row.get? "done" = some v ∧ v ≠ .unset := by
  intro c done columns
  obtain ⟨t, ht⟩ : ∃ t, c.get? "notes" = some t := Option.isSome_iff_exists.1 (by decide +kernel)
  obtain ⟨-, -, all, hall, hcount, hanswer, hrows⟩ :=
    (execute_select_run threeNotes "notes" columns (some done)).2 t ht
  have hthree : (c.get? "notes").map Table.rowCount = some 3 := by decide +kernel
  rw [ht, Option.map_some, Option.some.injEq] at hthree
  have houtcome : (c.execute (.select "notes" columns (some done))).outcome =
      .ok (.scan columns [SortedMap.ofList [("id", .integer 1), ("text", .string "first")]]) := by
    decide +kernel
  have haccepts := ((hanswer _).1 houtcome).1
  exact ⟨t, all, ht, haccepts, hall, hcount.trans hthree, (hanswer _).2 ⟨haccepts, rfl⟩,
    ((hrows haccepts).2 done rfl).2.1⟩

end Catalog

end RowStore
