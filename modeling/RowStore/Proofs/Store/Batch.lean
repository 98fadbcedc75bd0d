import Mathlib.Algebra.GroupWithZero.Nat
import RowStore.Proofs.Store.Declarations
import RowStore.Proofs.Store.Insertion

/-!
# Batches of insertions and of deletions

A batch on one table has a closed form. Insertions put the rows that are accepted, and deletions
take away every row that one of the accepted conditions meets. What is accepted depends on the
schema alone, so the members of a batch can be put in any order, as long as no two insertions are
accepted under the same key.
-/

namespace RowStore

/-! ## Several rows at once -/

namespace Schema

/-- The key and the row that a new row comes to. -/
def build (s : Schema) (values : NewRow) : Except Error (Value × Row) := do
  let row ← s.complete (← s.supplied values)
  let key ← s.keyOf row
  return (key, row)

/-- The row that an accepted new row comes to, with the place it goes to. -/
def entry? (s : Schema) (values : NewRow) : Option (List UInt8 × Row) :=
  match s.build values with
  | .ok (key, row) => some (encode key, row)
  | .error _ => none

/-- The place that the row of an insertion goes to. -/
def place? (s : Schema) : Statement → Option (List UInt8)
  | .insert _ values => (values.value? s s.primaryKey).map encode
  | _ => none

def comparable (s : Schema) (f : Condition) : Bool := (s.checkComparison f.column f.value).isOk

variable {s : Schema} {values : NewRow} {key : Value} {row : Row}

theorem build_eq_ok : s.build values = .ok (key, row) ↔
    ∃ given, s.supplied values = .ok given ∧ s.complete given = .ok row ∧
      s.keyOf row = .ok key := by
  simp only [build, Except.bind_eq_ok, pure, Except.pure, Except.ok.injEq, Prod.mk.injEq]
  constructor
  · rintro ⟨given, hgiven, row, hrow, key, hkey, rfl, rfl⟩
    exact ⟨given, hgiven, hrow, hkey⟩
  · rintro ⟨given, hgiven, hrow, hkey⟩
    exact ⟨given, hgiven, row, hrow, key, hkey, rfl, rfl⟩

theorem place?_of_build (hwf : s.WellFormed) {table : String}
    (h : s.build values = .ok (key, row)) :
    s.place? (.insert table values) = some (encode key) := by
  obtain ⟨given, hgiven, hrow, hkey⟩ := build_eq_ok.1 h
  rw [place?, value?_primaryKey hwf hgiven hrow (keyOf_eq_ok.1 hkey).1, Option.map_some]

theorem comparable_iff {f : Condition} :
    s.comparable f ↔ s.checkComparison f.column f.value = .ok () := by
  unfold comparable
  cases s.checkComparison f.column f.value <;> simp [Except.isOk, Except.toBool]

end Schema

namespace Table

/-- Rows are put to their places one after the other. -/
def putMany (t : Table) (entries : List (List UInt8 × Row)) : Table :=
  { t with rows := t.rows.insertMany entries }

/-- The table without the rows that meet one of the conditions. -/
def withoutAny (t : Table) (filters : List Condition) : Table :=
  { t with rows := t.rows.filter fun _ row => !filters.any fun f => f.holds row }

theorem withoutAny_nil (t : Table) : t.withoutAny [] = t := by
  simp [withoutAny, SortedMap.filter]

theorem withoutAny_cons (t : Table) (f : Condition) (filters : List Condition) :
    t.withoutAny (f :: filters) = (t.without f).withoutAny filters := by
  simp [withoutAny, without, SortedMap.filter, List.filter_filter, Bool.and_comm]

theorem withoutAny_perm {filters filters' : List Condition} (h : filters'.Perm filters)
    (t : Table) : t.withoutAny filters' = t.withoutAny filters := by
  simp only [withoutAny, h.any_eq]

end Table

namespace Catalog

variable {c d : Catalog} {name : String} {t : Table} {values : NewRow} {f : Condition} {e : Error}

/-! ## What is accepted -/

/-- The answer to an insertion depends on the schema of its table. -/
theorem answer_insertRow (c : Catalog) (name : String) (values : NewRow) :
    (c.insertRow name values).map Effect.answer =
      (c.schema name >>= fun s => s.build values).map fun _ => .inserted 1 := by
  simp only [insertRow, schema, Schema.build, Except.map_bind, Except.map_pure, bind_map_left]

/-- Whether a deletion is refused depends on the schema of its table. -/
theorem deleteRows_eq_error : c.deleteRows name f = .error e ↔
    (c.schema name >>= fun s => s.checkComparison f.column f.value) = .error e := by
  simp only [deleteRows, schema, bind_map_left, Except.bind_eq_error, pure, Except.pure,
    reduceCtorEq, and_false, exists_false, or_false]

theorem schema_of_get? (ht : c.get? name = some t) : c.schema name = .ok t.schema := by
  rw [schema, table_eq_ok.2 ht]
  rfl

theorem schema_congr (h : c.schemas = d.schemas) (name : String) :
    c.schema name = d.schema name := by
  rw [schema_eq, schema_eq, h]

theorem outcome_insert_congr (h : c.schemas = d.schemas) :
    (c.execute (.insert name values)).outcome = (d.execute (.insert name values)).outcome := by
  simp only [outcome_execute, effect, answer_insertRow, schema_congr h]

theorem delete_eq_error_congr (h : c.schemas = d.schemas) :
    (c.execute (.delete name f)).outcome = .error e ↔
      (d.execute (.delete name f)).outcome = .error e := by
  simp only [outcome_eq_error, effect, deleteRows_eq_error, schema_congr h]

/-- What the outcomes of all catalogs with the same schemas have, those of a batch have. -/
theorem outcomes_forall₂ (R : Statement → Except Error Answer → Prop) {batch : List Statement}
    (h : ∀ s ∈ batch, s.isDeclaration = false ∧
      ∀ d : Catalog, d.schemas = c.schemas → R s (d.execute s).outcome) :
    List.Forall₂ (fun s x => x.1 = s ∧ R s x.2) batch (c.outcomes batch) := by
  induction batch generalizing c with
  | nil => exact .nil
  | cons s batch ih =>
    obtain ⟨⟨hs, hR⟩, hbatch⟩ := List.forall_mem_cons.1 h
    have hschemas := schemas_execute c hs
    refine .cons ⟨rfl, hR c rfl⟩ (ih fun s' hs' => ?_)
    obtain ⟨hdecl, hR'⟩ := hbatch s' hs'
    exact ⟨hdecl, fun d hd => hR' d (hd.trans hschemas)⟩

/-! ## Insertions -/

theorem outcome_insert (ht : c.get? name = some t) (values : NewRow) :
    (c.execute (.insert name values)).outcome =
      (t.schema.build values).map fun _ => .inserted 1 := by
  rw [outcome_execute, effect, answer_insertRow, schema_of_get? ht]
  rfl

theorem catalog_insert_of_ok (ht : c.get? name = some t) {key : Value} {row : Row}
    (h : t.schema.build values = .ok (key, row)) :
    (c.execute (.insert name values)).catalog = c.insert name (t.put key row) := by
  obtain ⟨given, hgiven, hrow, hkey⟩ := Schema.build_eq_ok.1 h
  have heffect := insertRow_eq_ok.2 ⟨t, given, row, key, ht, hgiven, hrow, hkey, rfl⟩
  rw [execute_of_effect (s := .insert name values) heffect]

theorem catalog_insert_of_error (ht : c.get? name = some t) (h : t.schema.build values = .error e) :
    (c.execute (.insert name values)).catalog = c := by
  have houtcome := outcome_insert ht values
  rw [h, Except.map] at houtcome
  rw [execute_of_error (outcome_eq_error.1 houtcome)]

/-- Insertions put the rows that are accepted. -/
theorem run_inserts (ht : c.get? name = some t) (batch : List NewRow) :
    c.run (batch.map (.insert name)) =
      c.insert name (t.putMany (batch.filterMap t.schema.entry?)) := by
  induction batch generalizing c t with
  | nil => exact (SortedMap.insert_of_get? ht).symm
  | cons values batch ih =>
    rw [List.map_cons, run_cons, List.filterMap_cons, Schema.entry?]
    cases h : t.schema.build values with
    | ok built =>
      rw [catalog_insert_of_ok ht h, ih (SortedMap.get?_insert_self c name _),
        SortedMap.insert_insert]
      rfl
    | error e => rw [catalog_insert_of_error ht h, ih ht]

/-- The places of the accepted insertions are those that rows are put to. -/
theorem places_accepted (ht : c.get? name = some t) (hwf : t.schema.WellFormed)
    (batch : List NewRow) : (c.accepted (batch.map (.insert name))).map t.schema.place? =
      ((batch.filterMap t.schema.entry?).map (·.1)).map some := by
  induction batch generalizing c t with
  | nil => rfl
  | cons values batch ih =>
    rw [List.map_cons, accepted, outcome_insert ht, List.filterMap_cons, Schema.entry?]
    cases h : t.schema.build values with
    | ok built =>
      have hnext := ih (SortedMap.get?_insert_self c name (t.put built.1 built.2)) hwf
      simp only [Except.map, List.map_cons, catalog_insert_of_ok ht h,
        Schema.place?_of_build hwf h]
      exact congrArg _ hnext
    | error e =>
      simp only [Except.map, catalog_insert_of_error ht h]
      exact ih ht hwf

/-- Insertions with different keys can be put in any order. -/
theorem run_inserts_perm (ht : c.get? name = some t) (hwf : t.schema.WellFormed)
    {batch batch' : List NewRow} (hperm : batch'.Perm batch)
    (hnodup : ((c.accepted (batch.map (.insert name))).map t.schema.place?).Nodup) :
    c.run (batch'.map (.insert name)) = c.run (batch.map (.insert name)) := by
  rw [places_accepted ht hwf] at hnodup
  have hentries := hperm.filterMap t.schema.entry?
  have hkeys : ((batch'.filterMap t.schema.entry?).map (·.1)).Nodup :=
    (hentries.map _).nodup_iff.2 (List.Nodup.of_map some hnodup)
  rw [run_inserts ht, run_inserts ht, Table.putMany, SortedMap.insertMany_perm hentries hkeys,
    ← Table.putMany]

theorem outcomes_inserts (c : Catalog) (name : String) (batch : List NewRow) :
    c.outcomes (batch.map (.insert name)) =
      (batch.map (.insert name)).map fun s => (s, (c.execute s).outcome) := by
  have hall : List.Forall₂ (fun s x => x.1 = s ∧ x.2 = (c.execute s).outcome)
      (batch.map (.insert name)) (c.outcomes (batch.map (.insert name))) := by
    apply outcomes_forall₂ fun s outcome => outcome = (c.execute s).outcome
    intro s hs
    obtain ⟨values, -, rfl⟩ := List.mem_map.1 hs
    exact ⟨rfl, fun d hd => outcome_insert_congr hd⟩
  rw [eq_comm, ← List.forall₂_eq_eq_eq, List.forall₂_map_left_iff]
  exact hall.imp fun s x hx => Prod.ext hx.1.symm hx.2.symm

/-! ## Deletions -/

theorem delete_of_not_comparable (ht : c.get? name = some t) (h : ¬ t.schema.comparable f) :
    ∃ e, c.effect (.delete name f) = .error e := by
  rw [Schema.comparable_iff] at h
  cases hcheck : t.schema.checkComparison f.column f.value with
  | ok u => exact absurd hcheck h
  | error e =>
    refine ⟨e, ?_⟩
    rw [effect, deleteRows_eq_error, schema_of_get? ht]
    exact hcheck

/-- Deletions take away the rows that meet one of the accepted conditions. -/
theorem run_deletes (ht : c.get? name = some t) (filters : List Condition) :
    c.run (filters.map (.delete name)) =
      c.insert name (t.withoutAny (filters.filter t.schema.comparable)) := by
  induction filters generalizing c t with
  | nil => exact (SortedMap.insert_of_get? (t.withoutAny_nil.symm ▸ ht)).symm
  | cons f filters ih =>
    rw [List.map_cons, run_cons]
    by_cases h : t.schema.comparable f
    · rw [(delete_matching ht (Schema.comparable_iff.1 h)).2,
        ih (SortedMap.get?_insert_self c name _), SortedMap.insert_insert,
        List.filter_cons_of_pos h, Table.withoutAny_cons]
      rfl
    · obtain ⟨e, he⟩ := delete_of_not_comparable ht h
      rw [execute_of_error he, ih ht, List.filter_cons_of_neg h]

theorem run_deletes_perm (ht : c.get? name = some t) {filters filters' : List Condition}
    (hperm : filters'.Perm filters) :
    c.run (filters'.map (.delete name)) = c.run (filters.map (.delete name)) := by
  rw [run_deletes ht, run_deletes ht, Table.withoutAny_perm (hperm.filter _)]

/-- How many rows an accepted deletion counts. -/
def deletedBy : Except Error Answer → Nat
  | .ok (.deleted count) => count
  | _ => 0

/-- How many rows the deletions of a batch count together. -/
def deletedRows (outcomes : List (Statement × Except Error Answer)) : Nat :=
  (outcomes.map fun x => deletedBy x.2).sum

/-- Every row is either counted once or still there. -/
theorem rowCount_eq_deletedRows_add (ht : c.get? name = some t) (filters : List Condition) :
    t.rowCount = deletedRows (c.outcomes (filters.map (.delete name))) +
      (t.withoutAny (filters.filter t.schema.comparable)).rowCount := by
  induction filters generalizing c t with
  | nil => simp [deletedRows, outcomes, Table.withoutAny_nil]
  | cons f filters ih =>
    rw [List.map_cons, outcomes, deletedRows, List.map_cons, List.sum_cons, ← deletedRows]
    by_cases h : t.schema.comparable f
    · obtain ⟨houtcome, hcatalog⟩ := delete_matching ht (Schema.comparable_iff.1 h)
      have hrest := ih (SortedMap.get?_insert_self c name (t.without f))
      have hcount := t.rowCount_without f
      rw [houtcome, hcatalog, List.filter_cons_of_pos h, Table.withoutAny_cons, deletedBy]
      change (t.without f).rowCount = _ + ((t.without f).withoutAny
        (filters.filter t.schema.comparable)).rowCount at hrest
      omega
    · obtain ⟨e, he⟩ := delete_of_not_comparable ht h
      simp only [execute_of_error he, deletedBy, List.filter_cons_of_neg h, Nat.zero_add]
      exact ih ht

theorem deletedRows_perm (ht : c.get? name = some t) {filters filters' : List Condition}
    (hperm : filters'.Perm filters) : deletedRows (c.outcomes (filters'.map (.delete name))) =
      deletedRows (c.outcomes (filters.map (.delete name))) := by
  have hcount := rowCount_eq_deletedRows_add ht filters
  have hcount' := rowCount_eq_deletedRows_add ht filters'
  rw [Table.withoutAny_perm (hperm.filter _)] at hcount'
  omega

theorem refusals_deletes (c : Catalog) (name : String) (filters : List Condition) :
    List.Forall₂ (fun s x => x.1 = s ∧ ∀ e, x.2 = .error e ↔ (c.execute s).outcome = .error e)
      (filters.map (.delete name)) (c.outcomes (filters.map (.delete name))) := by
  apply outcomes_forall₂ fun s outcome => ∀ e, outcome = .error e ↔ (c.execute s).outcome = .error e
  intro s hs
  obtain ⟨f, -, rfl⟩ := List.mem_map.1 hs
  exact ⟨rfl, fun d hd e => delete_eq_error_congr hd⟩

/-! ## Any order -/

/-- After every history a batch on one table can be put in any order. Insertions of which no two
are accepted under one key leave the same catalog, and each has the outcome that it has alone.
Deletions leave the same catalog, each is refused as it is alone, and together they count the same
rows. -/
theorem run_batch_perm (history : List Statement) {name : String} {t : Table}
    (ht : (empty.run history).get? name = some t) :
    let c := empty.run history
    let alone (s : Statement) := (c.execute s).outcome
    (∀ batch batch' : List NewRow, batch'.Perm batch →
      let inserts := batch.map (Statement.insert name)
      let inserts' := batch'.map (Statement.insert name)
      ((c.accepted inserts).map t.schema.place?).Nodup →
      c.run inserts' = c.run inserts ∧
        c.outcomes inserts = inserts.map (fun s => (s, alone s)) ∧
        c.outcomes inserts' = inserts'.map fun s => (s, alone s)) ∧
    ∀ filters filters' : List Condition, filters'.Perm filters →
      let deletes := filters.map (Statement.delete name)
      let deletes' := filters'.map (Statement.delete name)
      let refused (s : Statement) (x : Statement × Except Error Answer) :=
        x.1 = s ∧ ∀ e, x.2 = .error e ↔ alone s = .error e
      c.run deletes' = c.run deletes ∧
        List.Forall₂ refused deletes (c.outcomes deletes) ∧
        List.Forall₂ refused deletes' (c.outcomes deletes') ∧
        deletedRows (c.outcomes deletes') = deletedRows (c.outcomes deletes) := by
  intro c alone
  have hwf := ((sound_empty.run history).tables name t ht).schema
  constructor
  · intro batch batch' hperm inserts inserts' hnodup
    exact ⟨run_inserts_perm ht hwf hperm hnodup, outcomes_inserts c name batch,
      outcomes_inserts c name batch'⟩
  · intro filters filters' hperm deletes deletes' refused
    exact ⟨run_deletes_perm ht hperm, refusals_deletes c name filters,
      refusals_deletes c name filters', deletedRows_perm ht hperm⟩

/-- Two notes with a refused one between them; and two conditions that the same note meets, with
one that no column can be compared with. -/
theorem run_batch_perm_notesHistory :
    let c := empty.run notesHistory
    let inserts : List Statement := [.insert "notes" (.positional [.integer 3]),
      .insert "notes" (.positional [.integer 2, .string "second", .unset]),
      .insert "notes" (.positional [.integer 1, .unset, .boolean false])]
    let deletes : List Statement := [.delete "notes" ⟨"done", .boolean true⟩,
      .delete "notes" ⟨"done", .unset⟩, .delete "notes" ⟨"text", .string "first"⟩]
    ∃ t, c.get? "notes" = some t ∧ ((c.accepted inserts).map t.schema.place?).Nodup ∧
      c.run inserts.reverse = c.run inserts ∧
      c.outcomes inserts.reverse = inserts.reverse.map (fun s => (s, (c.execute s).outcome)) ∧
      c.run deletes.reverse = c.run deletes ∧
      deletedRows (c.outcomes deletes.reverse) = deletedRows (c.outcomes deletes) := by
  intro c inserts deletes
  obtain ⟨t, ht⟩ : ∃ t, c.get? "notes" = some t := Option.isSome_iff_exists.1 (by decide +kernel)
  have hschema : (c.get? "notes").map Table.schema =
      some ⟨"notes", [⟨"id", .integer⟩, ⟨"text", .string⟩, ⟨"done", .boolean⟩], "id"⟩ := by
    decide +kernel
  rw [ht, Option.map_some, Option.some.injEq] at hschema
  have hnodup : ((c.accepted inserts).map t.schema.place?).Nodup := by
    rw [hschema]
    decide +kernel
  obtain ⟨hinserts, hdeletes⟩ := run_batch_perm notesHistory ht
  obtain ⟨hrun, -, houtcomes⟩ := hinserts
    [.positional [.integer 3], .positional [.integer 2, .string "second", .unset],
      .positional [.integer 1, .unset, .boolean false]] _ (List.reverse_perm _) hnodup
  obtain ⟨hrun', -, -, htotal⟩ := hdeletes
    [⟨"done", .boolean true⟩, ⟨"done", .unset⟩, ⟨"text", .string "first"⟩] _ (List.reverse_perm _)
  exact ⟨t, ht, hnodup, hrun, houtcomes, hrun', htotal⟩

end Catalog

end RowStore
