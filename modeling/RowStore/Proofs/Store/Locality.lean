import RowStore.Proofs.Store.Run

/-!
# A statement concerns one table

A statement leaves everything that lies under other names than that of its table, and the table
under that name decides what the statement answers and what it leaves there. So two statements on
different tables can change places (`Catalog.execute_comm`).
-/

namespace RowStore

/-- What an effect shows of the table with a name. -/
def Effect.seenAt (name : String) (r : Effect) : Answer × List Event × Option Table :=
  (r.answer, r.events, r.catalog.get? name)

namespace Catalog

variable {c d : Catalog} {name : String} {s : Statement}

/-! ## Other tables -/

theorem get?_effect_of_ne {r : Effect} (hr : c.effect s = .ok r) (h : name ≠ s.table) :
    r.catalog.get? name = c.get? name := by
  cases s with
  | create schema =>
    obtain ⟨-, -, rfl⟩ := createTable_eq_ok.1 hr
    exact (SortedMap.get?_insert ..).trans (if_neg h)
  | select table columns filter =>
    obtain ⟨_, _, -, -, -, rfl⟩ := selectRows_eq_ok.1 hr
    rfl
  | insert table values =>
    obtain ⟨_, _, _, _, -, -, -, -, rfl⟩ := insertRow_eq_ok.1 hr
    exact (SortedMap.get?_insert ..).trans (if_neg h)
  | delete table filter =>
    obtain ⟨_, -, -, rfl⟩ := deleteRows_eq_ok.1 hr
    exact (SortedMap.get?_insert ..).trans (if_neg h)
  | drop table =>
    obtain ⟨_, -, rfl⟩ := dropTable_eq_ok.1 hr
    exact (SortedMap.get?_erase ..).trans (if_neg h)

/-- A statement changes no table but its own. -/
theorem get?_execute_of_ne (c : Catalog) (h : name ≠ s.table) :
    (c.execute s).catalog.get? name = c.get? name := by
  cases hr : c.effect s with
  | ok r =>
    rw [execute_of_effect hr]
    exact get?_effect_of_ne hr h
  | error e => rw [execute_of_error hr]

/-! ## The table of the statement -/

theorem table_congr (h : c.get? name = d.get? name) : c.table name = d.table name := by
  rw [table, table, h]

theorem contains_congr (h : c.get? name = d.get? name) : c.contains name = d.contains name :=
  congrArg Option.isSome h

/-- Catalogs that agree on the table of a statement have the same effect on it, or the same
error. -/
theorem effect_congr (h : c.get? s.table = d.get? s.table) :
    (c.effect s).map (Effect.seenAt s.table) = (d.effect s).map (Effect.seenAt s.table) := by
  have htable := table_congr h
  cases s with
  | create schema =>
    have hcontains : c.contains schema.name = d.contains schema.name := contains_congr h
    simp only [effect, createTable, Statement.table, hcontains]
    split
    · rfl
    · split
      · rfl
      · cases Table.ofSchema schema with
        | error e => rfl
        | ok t => simp [bind, Except.bind, pure, Except.pure, Except.map, Effect.seenAt]
  | select table columns filter =>
    simp only [effect, selectRows, Statement.table, Effect.seenAt, Except.map_bind,
      Except.map_pure] at htable h ⊢
    rw [htable, h]
  | insert table values =>
    simp only [effect, insertRow, Statement.table, Effect.seenAt, Except.map_bind,
      Except.map_pure, SortedMap.get?_insert, if_true] at htable ⊢
    rw [htable]
  | delete table filter =>
    simp only [effect, deleteRows, Statement.table, Effect.seenAt, Except.map_bind,
      Except.map_pure, SortedMap.get?_insert, if_true] at htable ⊢
    rw [htable]
  | drop table =>
    simp only [effect, dropTable, Statement.table, Effect.seenAt, Except.map_bind,
      Except.map_pure, SortedMap.get?_erase, if_true] at htable ⊢
    rw [htable]

theorem execute_congr (h : c.get? s.table = d.get? s.table) :
    (c.execute s).outcome = (d.execute s).outcome ∧
      (c.execute s).catalog.get? s.table = (d.execute s).catalog.get? s.table := by
  have heffect := effect_congr h
  cases hc : c.effect s with
  | ok r =>
    cases hd : d.effect s with
    | ok r' =>
      rw [hc, hd] at heffect
      obtain ⟨hanswer, -, htable⟩ : r.answer = r'.answer ∧ r.events = r'.events ∧
          r.catalog.get? s.table = r'.catalog.get? s.table := by
        simpa [Except.map, Effect.seenAt] using heffect
      rw [execute_of_effect hc, execute_of_effect hd]
      exact ⟨congrArg Except.ok hanswer, htable⟩
    | error e => simp [hc, hd, Except.map] at heffect
  | error e =>
    cases hd : d.effect s with
    | ok r => simp [hc, hd, Except.map] at heffect
    | error e' =>
      obtain rfl : e = e' := by simpa [hc, hd, Except.map] using heffect
      rw [execute_of_error hc, execute_of_error hd]
      exact ⟨rfl, h⟩

/-! ## Statements on different tables -/

variable {s₁ s₂ : Statement}

/-- Statements on different tables can change places: each has the same outcome in both orders, and
both orders leave the same catalog. No statement changes a table but its own. -/
theorem execute_comm (c : Catalog) (h : s₁.table ≠ s₂.table) :
    ((c.execute s₂).catalog.execute s₁).outcome = (c.execute s₁).outcome ∧
    ((c.execute s₁).catalog.execute s₂).outcome = (c.execute s₂).outcome ∧
    ((c.execute s₁).catalog.execute s₂).catalog = ((c.execute s₂).catalog.execute s₁).catalog ∧
    ∀ s name, name ≠ s.table → (c.execute s).catalog.get? name = c.get? name := by
  have h₁ := execute_congr (s := s₁) (get?_execute_of_ne (s := s₂) c h)
  have h₂ := execute_congr (s := s₂) (get?_execute_of_ne (s := s₁) c h.symm)
  refine ⟨h₁.1, h₂.1, SortedMap.ext_get? fun name => ?_, fun s name => get?_execute_of_ne c⟩
  by_cases hname : name = s₁.table
  · subst hname
    rw [get?_execute_of_ne _ h, h₁.2]
  · rw [get?_execute_of_ne (s := s₁) _ hname]
    by_cases hname' : name = s₂.table
    · subst hname'
      exact h₂.2
    · rw [get?_execute_of_ne _ hname', get?_execute_of_ne _ hname, get?_execute_of_ne _ hname']

/-- A row goes into one table while another one is dropped. -/
theorem execute_comm_insert_drop :
    let c := empty.run [.create ⟨"notes", [⟨"id", .integer⟩], "id"⟩,
      .create ⟨"marks", [⟨"name", .string⟩], "name"⟩]
    let s₁ := Statement.insert "notes" (.positional [.integer 1])
    let s₂ := Statement.drop "marks"
    s₁.table ≠ s₂.table ∧
    ((c.execute s₂).catalog.execute s₁).outcome = (c.execute s₁).outcome ∧
    ((c.execute s₁).catalog.execute s₂).outcome = (c.execute s₂).outcome ∧
    ((c.execute s₁).catalog.execute s₂).catalog = ((c.execute s₂).catalog.execute s₁).catalog ∧
    ∀ s name, name ≠ s.table → (c.execute s).catalog.get? name = c.get? name :=
  have h : "notes" ≠ "marks" := by decide
  ⟨h, execute_comm _ h⟩

end Catalog

end RowStore
