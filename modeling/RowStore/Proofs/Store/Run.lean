import RowStore.Proofs.Store.Commit
import RowStore.Store.Session

/-!
# Runs of statements

A run executes statements one after the other on one catalog. Only the effects of accepted
statements move the catalog, so what such effects preserve holds after every run.
-/

namespace RowStore

/-- A list with one more member is split at its last member, or at one before. -/
theorem concat_eq_append_cons {α : Type} {xs before after : List α} {x y : α} :
    xs ++ [y] = before ++ x :: after ↔
      (before = xs ∧ x = y ∧ after = []) ∨ ∃ after', after = after' ++ [y] ∧
        xs = before ++ x :: after' := by
  constructor
  · intro h
    obtain rfl | ⟨after, last, rfl⟩ := after.eq_nil_or_concat
    · obtain ⟨rfl, hlast⟩ := List.append_inj' h rfl
      exact .inl ⟨rfl, (List.singleton_inj.1 hlast).symm, rfl⟩
    · rw [List.concat_eq_append, ← List.cons_append, ← List.append_assoc] at h
      obtain ⟨rfl, hlast⟩ := List.append_inj' h rfl
      exact .inr ⟨after, by rw [List.concat_eq_append, hlast], rfl⟩
  · rintro (⟨rfl, rfl, rfl⟩ | ⟨after', rfl, rfl⟩)
    · rfl
    · simp

namespace Catalog

variable {c : Catalog}

theorem execute_eq (c : Catalog) (s : Statement) :
    let start := .interpreting s.table s.isWrite
    c.execute s = match c.effect s with
      | .ok r => ⟨.ok r.answer, r.catalog, start :: r.events⟩
      | .error e => ⟨.error e, c, [start]⟩ := by
  rw [execute, Action.respond, Action.run_interpret]
  cases c.effect s <;> rfl

theorem execute_of_effect {s : Statement} {r : Effect} (h : c.effect s = .ok r) :
    c.execute s = ⟨.ok r.answer, r.catalog, .interpreting s.table s.isWrite :: r.events⟩ := by
  rw [execute_eq, h]

theorem execute_of_error {s : Statement} {e : Error} (h : c.effect s = .error e) :
    c.execute s = ⟨.error e, c, [.interpreting s.table s.isWrite]⟩ := by
  rw [execute_eq, h]

theorem outcome_execute (c : Catalog) (s : Statement) :
    (c.execute s).outcome = (c.effect s).map Effect.answer := by
  cases h : c.effect s with
  | ok r =>
    rw [execute_of_effect h]
    rfl
  | error e =>
    rw [execute_of_error h]
    rfl

theorem outcome_eq_error {s : Statement} {e : Error} :
    (c.execute s).outcome = .error e ↔ c.effect s = .error e := by
  rw [outcome_execute]
  cases c.effect s <;> simp [Except.map]

theorem outcome_eq_ok {s : Statement} {a : Answer} :
    (c.execute s).outcome = .ok a ↔ ∃ r, c.effect s = .ok r ∧ r.answer = a := by
  rw [outcome_execute]
  cases c.effect s <;> simp [Except.map]

/-- The catalog after statements one after the other. -/
def run (c : Catalog) (history : List Statement) : Catalog :=
  history.foldl (fun c s => (c.execute s).catalog) c

@[simp] theorem run_nil (c : Catalog) : c.run [] = c := rfl

@[simp] theorem run_cons (c : Catalog) (s : Statement) (history : List Statement) :
    c.run (s :: history) = (c.execute s).catalog.run history := rfl

/-- What the effects of a history's statements preserve holds after the run. -/
theorem run_induction_mem {P : Catalog → Prop} {history : List Statement} (start : P c)
    (step : ∀ {c s r}, s ∈ history → P c → c.effect s = .ok r → P r.catalog) :
    P (c.run history) := by
  induction history generalizing c with
  | nil => exact start
  | cons s history ih =>
    rw [run_cons]
    refine ih ?_ fun hs => step (List.mem_cons_of_mem _ hs)
    cases h : c.effect s with
    | ok r => rw [execute_of_effect h]; exact step List.mem_cons_self start h
    | error e => rw [execute_of_error h]; exact start

/-- What every effect preserves holds after every run. -/
theorem run_induction {P : Catalog → Prop} (start : P c)
    (step : ∀ {c s r}, P c → c.effect s = .ok r → P r.catalog) (history : List Statement) :
    P (c.run history) :=
  run_induction_mem start fun _ => step

end Catalog

end RowStore
