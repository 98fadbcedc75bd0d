import RowStore.Proofs.Store.History
import RowStore.Proofs.Text.Utf8

/-!
# Schemas follow the declarations

Creations and drops declare which tables there are. The schemas of a catalog, looked at without the
rows, are changed by declarations alone, and a declaration sees nothing but them. So queries,
insertions and deletions can be left out of a history without a trace in the schemas, and the
schemas are those that the accepted declarations tell of (`Catalog.declarations_govern`).
-/

namespace RowStore

/-! ## Declarations -/

/-- A statement that creates or drops a table. -/
def Statement.isDeclaration : Statement → Bool
  | .create _ | .drop _ => true
  | _ => false

/-- The last declaration of a table's name created it with the schema `s`. -/
def Schema.DeclaredLast (s : Schema) (told : List Statement) : Prop :=
  ∃ before since, told = before ++ .create s :: since ∧
    ∀ statement ∈ since, statement.isDeclaration → statement.table ≠ s.name

theorem Schema.not_declaredLast_nil {s : Schema} : ¬s.DeclaredLast [] := by
  rintro ⟨before, since, h, -⟩
  simp at h

/-- One more statement: it creates the table, or it declares another one or none. -/
theorem Schema.declaredLast_concat {s : Schema} {told : List Statement} {statement : Statement} :
    s.DeclaredLast (told ++ [statement]) ↔ statement = .create s ∨
      s.DeclaredLast told ∧ (statement.isDeclaration → statement.table ≠ s.name) := by
  constructor
  · rintro ⟨before, since, h, hsince⟩
    obtain ⟨-, hlast, -⟩ | ⟨since', rfl, htold⟩ := concat_eq_append_cons.1 h
    · exact .inl hlast.symm
    · rw [List.forall_mem_append, List.forall_mem_singleton] at hsince
      exact .inr ⟨⟨before, since', htold, hsince.1⟩, hsince.2⟩
  · rintro (rfl | ⟨⟨before, since, rfl, hsince⟩, hlast⟩)
    · exact ⟨told, [], rfl, List.forall_mem_nil _⟩
    · refine ⟨before, since ++ [statement], by simp, ?_⟩
      rw [List.forall_mem_append, List.forall_mem_singleton]
      exact ⟨hsince, hlast⟩

namespace Catalog

variable {c d : Catalog} {s : Statement}

/-! ## The schemas of a catalog -/

/-- The schemas of the tables by name. -/
def schemas (c : Catalog) : SortedMap String Schema := c.mapValues Table.schema

/-- The columns and the primary key of a table. -/
def schema (c : Catalog) (name : String) : Except Error Schema := Table.schema <$> c.table name

theorem get?_schemas (c : Catalog) (name : String) :
    c.schemas.get? name = (c.get? name).map Table.schema := SortedMap.get?_mapValues ..

theorem names_eq_keys_schemas (c : Catalog) : c.names = c.schemas.keys :=
  (SortedMap.keys_mapValues ..).symm

theorem schema_eq (c : Catalog) (name : String) : c.schema name =
    match c.schemas.get? name with
    | some s => .ok s
    | none => .error (.unknownTable name) := by
  rw [schema, table, get?_schemas]
  cases c.get? name <;> rfl

theorem schema_eq_ok {name : String} {s : Schema} :
    c.schema name = .ok s ↔ c.schemas.get? name = some s := by
  rw [schema_eq]
  split <;> simp_all

theorem contains_eq (c : Catalog) (name : String) :
    c.contains name = c.schemas.contains name := by
  rw [SortedMap.contains, SortedMap.contains, get?_schemas, Option.isSome_map]

/-- What stands under a name can be replaced by a table of the same schema. -/
theorem schemas_insert_of_schema_eq {name : String} {t t' : Table} (ht : c.get? name = some t)
    (hschema : t'.schema = t.schema) : schemas (c.insert name t') = c.schemas := by
  apply SortedMap.ext_get?
  intro n
  rw [schemas, SortedMap.mapValues_insert, SortedMap.get?_insert]
  split
  · next hn => rw [hn, get?_schemas, ht, hschema, Option.map_some]
  · rfl

end Catalog

/-- What an effect shows of the schemas. -/
def Effect.declared (r : Effect) : Answer × SortedMap String Schema :=
  (r.answer, r.catalog.schemas)

namespace Catalog

variable {c d : Catalog} {s : Statement}

/-! ## One statement -/

/-- Only declarations change the schemas. -/
theorem schemas_of_effect (hs : s.isDeclaration = false) {r : Effect} (hr : c.effect s = .ok r) :
    schemas r.catalog = c.schemas := by
  cases s with
  | select table columns filter =>
    obtain ⟨_, _, -, -, -, rfl⟩ := selectRows_eq_ok.1 hr
    rfl
  | insert table values =>
    obtain ⟨t, _, _, _, ht, -, -, -, rfl⟩ := insertRow_eq_ok.1 hr
    exact schemas_insert_of_schema_eq ht rfl
  | delete table filter =>
    obtain ⟨t, ht, -, rfl⟩ := deleteRows_eq_ok.1 hr
    exact schemas_insert_of_schema_eq ht rfl
  | create _ | drop _ => cases hs

theorem schemas_execute (c : Catalog) (hs : s.isDeclaration = false) :
    (c.execute s).catalog.schemas = c.schemas := by
  cases hr : c.effect s with
  | ok r =>
    rw [execute_of_effect hr]
    exact schemas_of_effect hs hr
  | error e => rw [execute_of_error hr]

/-- A declaration sees nothing but the schemas. -/
theorem effect_declaration_congr (h : c.schemas = d.schemas) (hs : s.isDeclaration) :
    (c.effect s).map Effect.declared = (d.effect s).map Effect.declared := by
  cases s with
  | create schema =>
    have hcontains : c.contains schema.name = d.contains schema.name := by
      rw [contains_eq, contains_eq, h]
    simp only [effect, createTable, hcontains]
    split
    · rfl
    · split
      · rfl
      · cases Table.ofSchema schema with
        | error e => rfl
        | ok t =>
          rw [schemas, schemas] at h
          simp [bind, Except.bind, pure, Except.pure, Except.map, Effect.declared, schemas,
            SortedMap.mapValues_insert, h]
  | drop name =>
    have hname : (c.get? name).map Table.schema = (d.get? name).map Table.schema := by
      rw [← get?_schemas, ← get?_schemas, h]
    have herase : schemas (c.erase name) = schemas (d.erase name) := by
      rw [schemas, schemas, SortedMap.mapValues_erase, SortedMap.mapValues_erase]
      exact congrArg (SortedMap.erase · name) h
    -- Both catalogs have a table of the name, or neither has.
    cases hc : c.get? name with
    | none =>
      rw [hc, Option.map_none, eq_comm, Option.map_eq_none_iff] at hname
      simp [effect, dropTable, table, hc, hname, bind, Except.bind, Except.map]
    | some t =>
      rw [hc, Option.map_some, eq_comm, Option.map_eq_some_iff] at hname
      obtain ⟨u, hd, -⟩ := hname
      simp [effect, dropTable, table, hc, hd, bind, Except.bind, pure, Except.pure, Except.map,
        Effect.declared, herase]
  | select _ _ _ | insert _ _ | delete _ _ => cases hs

theorem schemas_execute_eq (c : Catalog) (s : Statement) : (c.execute s).catalog.schemas =
    match (c.effect s).map Effect.declared with
    | .ok seen => seen.2
    | .error _ => c.schemas := by
  cases hr : c.effect s with
  | ok r =>
    rw [execute_of_effect hr]
    rfl
  | error e =>
    rw [execute_of_error hr]
    rfl

theorem execute_declaration_congr (h : c.schemas = d.schemas) (hs : s.isDeclaration) :
    (c.execute s).outcome = (d.execute s).outcome ∧
      (c.execute s).catalog.schemas = (d.execute s).catalog.schemas := by
  have hcongr := effect_declaration_congr h hs
  constructor
  · have hanswer (r : Except Error Effect) :
        r.map Effect.answer = (r.map Effect.declared).map Prod.fst := by
      cases r <;> rfl
    rw [outcome_execute, outcome_execute, hanswer, hanswer, hcongr]
  · rw [schemas_execute_eq, schemas_execute_eq, hcongr, h]

/-! ## Statements one after the other -/

/-- Statements one after the other, each with its outcome. -/
def outcomes (c : Catalog) : List Statement → List (Statement × Except Error Answer)
  | [] => []
  | s :: history => (s, (c.execute s).outcome) :: outcomes (c.execute s).catalog history

/-- Catalogs with the same schemas give declarations the same outcomes, whatever else is executed
between them, and come to the same schemas. -/
theorem outcomes_filter (h : c.schemas = d.schemas) (history : List Statement) :
    ((c.outcomes history).filter fun x => x.1.isDeclaration) =
        d.outcomes (history.filter Statement.isDeclaration) ∧
      (c.run history).schemas = (d.run (history.filter Statement.isDeclaration)).schemas := by
  induction history generalizing c d with
  | nil => exact ⟨rfl, h⟩
  | cons s history ih =>
    by_cases hs : s.isDeclaration
    · obtain ⟨houtcome, hschemas⟩ := execute_declaration_congr h hs
      obtain ⟨hrest, hrun⟩ := ih hschemas
      simp only [outcomes, List.filter_cons, hs, if_true, run_cons, houtcome, hrest, true_and]
      exact hrun
    · have hsame : (c.execute s).catalog.schemas = d.schemas :=
        (schemas_execute c (Bool.eq_false_iff.2 hs)).trans h
      simp only [outcomes, List.filter_cons, hs, Bool.false_eq_true, if_false, run_cons]
      exact ih hsame

/-- The schemas are those that the last declarations of their names created. -/
def DeclaredBy (c : Catalog) (told : List Statement) : Prop :=
  ∀ name s, c.schemas.get? name = some s ↔ s.name = name ∧ s.DeclaredLast told

theorem declaredBy_empty : DeclaredBy empty [] := by
  intro name s
  exact iff_of_false nofun fun h => Schema.not_declaredLast_nil h.2

theorem DeclaredBy.effect {told : List Statement} (h : c.DeclaredBy told) {r : Effect}
    (hr : c.effect s = .ok r) : DeclaredBy r.catalog (told ++ [s]) := by
  intro name schema
  rw [Schema.declaredLast_concat]
  by_cases hs : s.isDeclaration
  · cases s with
    | create new =>
      obtain ⟨-, -, rfl⟩ := createTable_eq_ok.1 hr
      rw [schemas, SortedMap.mapValues_insert, SortedMap.get?_insert, ← schemas]
      simp only [Statement.create.injEq, hs, true_imp_iff, Statement.table]
      by_cases hname : name = new.name
      · rw [if_pos hname, Option.some.injEq]
        grind
      · rw [if_neg hname, h name schema]
        grind
    | drop table =>
      obtain ⟨_, -, rfl⟩ := dropTable_eq_ok.1 hr
      rw [schemas, SortedMap.mapValues_erase, SortedMap.get?_erase, ← schemas]
      simp only [reduceCtorEq, false_or, hs, true_imp_iff, Statement.table]
      by_cases hname : name = table
      · rw [if_pos hname]
        grind
      · rw [if_neg hname, h name schema]
        grind
    | select _ _ _ | insert _ _ | delete _ _ => cases hs
  · have hcreate : s ≠ .create schema := by
      rintro rfl
      exact hs rfl
    rw [schemas_of_effect (Bool.eq_false_iff.2 hs) hr, h name schema]
    simp [hcreate, hs]

theorem DeclaredBy.run {told : List Statement} (h : c.DeclaredBy told) (history : List Statement) :
    (c.run history).DeclaredBy (told ++ c.accepted history) := by
  induction history generalizing c told with
  | nil => simpa [accepted] using h
  | cons s history ih =>
    rw [run_cons, accepted]
    cases hr : c.effect s with
    | ok r =>
      simp only [execute_of_effect hr]
      have hnext := ih (h.effect hr)
      rwa [List.append_assoc, List.singleton_append] at hnext
    | error e =>
      simp only [execute_of_error hr]
      exact ih h

theorem names_ascending (c : Catalog) :
    c.names.Pairwise fun a b => Utf8.encode a < Utf8.encode b :=
  c.keys_ascending.imp Utf8.compare_eq_lt_iff.1

/-- Declarations govern the schemas. When the other statements are left out of a history, its
declarations have the same outcomes, and the same names and schemas come out. And at every point
the names ascend in the order of their bytes, they are those whose last accepted declaration was a
creation, and each has the schema of that creation. -/
theorem declarations_govern (history : List Statement) :
    let kept := history.filter Statement.isDeclaration
    ((empty.outcomes history).filter fun x => x.1.isDeclaration) = empty.outcomes kept ∧
    names (empty.run history) = names (empty.run kept) ∧
    (∀ name, (empty.run history).schema name = (empty.run kept).schema name) ∧
    ∀ n, let c := empty.run (history.take n)
      let told := empty.accepted (history.take n)
      (c.names.Pairwise fun a b => Utf8.encode a < Utf8.encode b) ∧
      (∀ name, name ∈ c.names ↔ ∃ s : Schema, s.name = name ∧ s.DeclaredLast told) ∧
      ∀ name s, c.schema name = .ok s ↔ s.name = name ∧ s.DeclaredLast told := by
  intro kept
  obtain ⟨houtcomes, hschemas⟩ := outcomes_filter (c := empty) rfl history
  refine ⟨houtcomes, ?_, fun name => ?_, fun n => ?_⟩
  · rw [names_eq_keys_schemas, names_eq_keys_schemas, hschemas]
  · rw [schema_eq, schema_eq, hschemas]
  · intro c told
    have hdeclared : c.DeclaredBy told := declaredBy_empty.run (history.take n)
    refine ⟨c.names_ascending, fun name => ?_, fun name s => ?_⟩
    · rw [names_eq_keys_schemas, SortedMap.mem_keys_iff]
      exact exists_congr (hdeclared name)
    · rw [schema_eq_ok]
      exact hdeclared name s

end Catalog

end RowStore
