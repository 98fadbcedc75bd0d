import RowStore.Proofs.Store.Effect
import RowStore.Store.Execution

/-!
# Checks before changes

A statement works on its store in place, and what it has done when it fails is not taken back. Still
it has its whole effect or none, because whatever can fail comes before the first change: each
operation comes to the effect that the catalog foretells (`Action.run_apply`).
-/

namespace RowStore

/-- The end of an action that comes to an effect or an error: an effect is there in full, and for an
error the store is the one before. -/
def Store.commit (s : Store) : Except Error Effect → EStateM.Result Error Store Answer
  | .ok r => .ok r.answer ⟨r.catalog, s.events ++ r.events⟩
  | .error e => .error e s

namespace Action

/-! ## Steps -/

section Steps

variable {α : Type} {s : Store} {f : α → Action Answer} {g : α → Except Error Effect}

theorem run_bind_of_ok {β : Type} {a : Action α} {f : α → Action β} {x : α} {s' : Store}
    (h : a.run s = .ok x s') : (a >>= f).run s = (f x).run s' := by
  rw [EStateM.run_bind, h]

@[simp] theorem run_ofExcept_ok (a : α) (s : Store) :
    (ofExcept (.ok a) : Action α).run s = .ok a s := rfl

@[simp] theorem run_ofExcept_error (e : Error) (s : Store) :
    (ofExcept (.error e) : Action α).run s = .error e s := rfl

@[simp] theorem run_report (event : Event) (s : Store) :
    (report event).run s = .ok () { s with events := s.events ++ [event] } := rfl

@[simp] theorem run_change (f : Catalog → Catalog) (s : Store) :
    (change f).run s = .ok () { s with catalog := f s.catalog } := rfl

/-- What an action changes before it fails stays changed. -/
example (c : Catalog) (e : Error) (s : Store) :
    (do change fun _ => c; throw e : Action Answer).run s = .error e { s with catalog := c } := by
  rfl

@[simp] theorem run_ask (q : Catalog → α) (s : Store) : (ask q).run s = .ok (q s.catalog) s := rfl

/-- A check that fails ends the action on the store that it meets. -/
theorem commit_check {x : Except Error α} (h : ∀ a, x = .ok a → (f a).run s = s.commit (g a)) :
    (ofExcept x >>= f).run s = s.commit (x >>= g) := by
  cases x with
  | ok a => exact h a rfl
  | error e => rfl

theorem commit_table {name : String} {f : Table → Action Answer} {g : Table → Except Error Effect}
    (h : ∀ t, (f t).run s = s.commit (g t)) :
    (table name >>= f).run s = s.commit (s.catalog.table name >>= g) :=
  commit_check fun t _ => h t

theorem commit_guard {p : Prop} [Decidable p] {e : Error} {a : Action Answer}
    {x : Except Error Effect} {k : PUnit → Action Answer} {l : PUnit → Except Error Effect}
    (h : ¬p → a.run s = s.commit x) :
    (if p then throw e >>= k else a).run s = s.commit (if p then throw e >>= l else x) := by
  split
  · rfl
  · next hp => exact h hp

end Steps

/-! ## Operations -/

/-- The name is looked for twice. The second look finds nothing new, because the table that is added
has the name of the schema. -/
theorem run_createTable (schema : Schema) (s : Store) :
    (createTable schema).run s = s.commit (s.catalog.createTable schema) := by
  refine commit_guard fun _ => commit_guard fun hname => commit_check fun t ht => ?_
  obtain ⟨-, rfl⟩ := Catalog.ofSchema_eq_ok.1 ht
  have hadd : (addTable ⟨schema, .empty⟩).run s =
      .ok () { s with catalog := s.catalog.insert schema.name ⟨schema, .empty⟩ } := by
    simp [addTable, hname]
  rw [run_bind_of_ok hadd]
  rfl

/-- The table is taken out before it is known that there was one. If there was none, the catalog
without it is the catalog itself. -/
theorem run_removeTable (name : String) (s : Store) :
    (removeTable name).run s = match s.catalog.get? name with
      | some t => .ok t { s with catalog := s.catalog.erase name }
      | none => .error (.unknownTable name) s := by
  cases ht : s.catalog.get? name with
  | some t =>
    simp only [removeTable, EStateM.run_bind, run_ask, run_change, ht]
    rfl
  | none =>
    simp only [removeTable, EStateM.run_bind, run_ask, run_change, ht,
      SortedMap.erase_of_get?_eq_none ht]
    rfl

theorem run_dropTable (name : String) (s : Store) :
    (dropTable name).run s = s.commit (s.catalog.dropTable name) := by
  rw [dropTable, EStateM.run_bind, run_removeTable, Catalog.dropTable, Catalog.table]
  cases s.catalog.get? name <;> rfl

theorem run_insertRow (name : String) (values : NewRow) (s : Store) :
    (insertRow name values).run s = s.commit (s.catalog.insertRow name values) := by
  refine commit_table fun t => commit_check fun given _ => commit_check fun row _ =>
    commit_check fun key _ => ?_
  -- The last check is on the finished row. Changes and reports follow, and they cannot fail.
  rw [run_bind_of_ok (run_change _ s), Catalog.insertEvents]
  split
  · simp only [EStateM.run_bind, run_report, List.append_assoc]
    rfl
  · rfl

theorem run_deleteRows (name : String) (filter : Condition) (s : Store) :
    (deleteRows name filter).run s = s.commit (s.catalog.deleteRows name filter) :=
  commit_table fun _ => commit_check fun _ _ => rfl

theorem run_selectRows (name : String) (columns : List String) (filter : Option Condition)
    (s : Store) :
    (selectRows name columns filter).run s = s.commit (s.catalog.selectRows name columns filter) :=
  commit_table fun _ => commit_check fun _ _ => commit_check fun _ _ => rfl

/-- Every statement has the effect that the catalog foretells, or it fails and has none. -/
theorem run_apply (statement : Statement) (s : Store) :
    (apply statement).run s = s.commit (s.catalog.effect statement) := by
  cases statement with
  | create schema => exact run_createTable schema s
  | select table columns filter => exact run_selectRows table columns filter s
  | insert table values => exact run_insertRow table values s
  | delete table filter => exact run_deleteRows table filter s
  | drop table => exact run_dropTable table s

theorem run_interpret (statement : Statement) (s : Store) :
    let start := .interpreting statement.table statement.isWrite
    (interpret statement).run s =
      { s with events := s.events ++ [start] : Store }.commit (s.catalog.effect statement) := by
  rw [interpret, run_bind_of_ok (run_report _ s)]
  exact run_apply statement _

end Action

end RowStore
