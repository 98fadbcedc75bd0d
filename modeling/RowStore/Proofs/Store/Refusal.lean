import RowStore.Proofs.Store.Soundness
import RowStore.Proofs.Text.Utf8

/-!
# Why a statement is refused

One inversion law for the error of each check, beside the laws on what an accepted statement does.
What is wrong with one value in a column is told by a relation, `Schema.Misfit` for a value that is
to be stored there and `Schema.Incomparable` for one that the column is to be compared with. Where a
check goes over several columns the first that is wrong gives the error.
-/

namespace RowStore

namespace Schema

variable {s : Schema} {column : String} {columns : List String} {v : Value} {row values : Row}
  {e : Error}

/-! ## One value -/

/-- A value cannot stand in a column: there is no such column, or it is declared of another kind. -/
inductive Misfit (s : Schema) (column : String) (v : Value) : Error → Prop
  | unknown (h : column ∉ s.columnNames) : Misfit s column v (.unknownColumn s.name column)
  | kind {expected found} (declared : s.Declares column expected) (given : v.kind? = some found)
      (ne : found ≠ expected) : Misfit s column v (.typeMismatch column expected (some found))

/-- A column cannot be compared with a value: there is no such column, or it is declared of another
kind. What is unset has no kind. -/
inductive Incomparable (s : Schema) (column : String) (v : Value) : Error → Prop
  | unknown (h : column ∉ s.columnNames) : Incomparable s column v (.unknownColumn s.name column)
  | kind {expected} (declared : s.Declares column expected) (ne : v.kind? ≠ some expected) :
      Incomparable s column v (.typeMismatch column expected v.kind?)

theorem kind_eq_error :
    s.kind column = .error e ↔ column ∉ s.columnNames ∧ e = .unknownColumn s.name column := by
  rw [← kind?_eq_none, kind]
  cases s.kind? column <;> simp [eq_comm]

theorem checkValue_eq_error (hwf : s.WellFormed) :
    s.checkValue column v = .error e ↔ s.Misfit column v e := by
  simp only [checkValue, Except.bind_eq_error, kind_eq_error, kind_eq_ok, ← declares_iff hwf]
  constructor
  · rintro (⟨hunknown, rfl⟩ | ⟨expected, hdecl, h⟩)
    · exact .unknown hunknown
    · cases hkind : v.kind? with
      | none => simp [hkind, pure, Except.pure] at h
      | some found =>
        by_cases hne : found = expected
        · simp [hkind, hne, pure, Except.pure] at h
        · simp only [hkind, if_neg hne] at h
          cases h
          exact .kind hdecl hkind hne
  · rintro (hunknown | ⟨hdecl, hkind, hne⟩)
    · exact .inl ⟨hunknown, rfl⟩
    · exact .inr ⟨_, hdecl, by simp only [hkind, if_neg hne]; rfl⟩

theorem checkComparison_eq_error (hwf : s.WellFormed) :
    s.checkComparison column v = .error e ↔ s.Incomparable column v e := by
  simp only [checkComparison, Except.bind_eq_error, kind_eq_error, kind_eq_ok, ← declares_iff hwf]
  constructor
  · rintro (⟨hunknown, rfl⟩ | ⟨expected, hdecl, h⟩)
    · exact .unknown hunknown
    · split at h
      · cases h
      · next hne =>
        cases h
        exact .kind hdecl hne
  · rintro (hunknown | ⟨hdecl, hne⟩)
    · exact .inl ⟨hunknown, rfl⟩
    · exact .inr ⟨_, hdecl, if_neg hne⟩

theorem keyOf_eq_error : s.keyOf row = .error e ↔
    (∀ v, row.get? s.primaryKey = some v → v = .unset) ∧ e = .missingPrimaryKey s.primaryKey := by
  unfold keyOf
  split
  · next v hv => by_cases hunset : v = .unset <;> simp [hv, hunset, Value.isUnset, eq_comm]
  · next hnone => simp [hnone, eq_comm]

/-! ## Several columns -/

/-- The value that is given for a column cannot stand in it. -/
def MisfitAt (s : Schema) (value? : String → Option Value) (column : String) (e : Error) : Prop :=
  ∃ v, value? column = some v ∧ s.Misfit column v e

/-- The first column whose value cannot stand in it, in the order of the bytes of the names. -/
structure FirstMisfit (s : Schema) (value? : String → Option Value) (column : String) (e : Error) :
    Prop where
  misfit : s.MisfitAt value? column e
  first : ∀ other e', s.MisfitAt value? other e' →
    other = column ∨ Utf8.encode column < Utf8.encode other

theorem checkEntries_eq_error (hwf : s.WellFormed) :
    (values.entries.forM fun entry => s.checkValue entry.1 entry.2) = .error e ↔
      ∃ column, s.FirstMisfit values.get? column e := by
  simp only [Except.forM_eq_error, checkValue_eq_error hwf]
  constructor
  · rintro ⟨before, ⟨column, v⟩, after, hsplit, hbefore, hmisfit⟩
    have hvalue : values.get? column = some v :=
      SortedMap.get?_eq_some.2 (by simp [hsplit])
    refine ⟨column, ⟨v, hvalue, hmisfit⟩, ?_⟩
    rintro other e' ⟨w, hw, hother⟩
    have hmem := SortedMap.get?_eq_some.1 hw
    rw [hsplit, List.mem_append, List.mem_cons] at hmem
    obtain hmem | heq | hmem := hmem
    · have hok := hbefore _ hmem
      rw [(checkValue_eq_error hwf).2 hother] at hok
      cases hok
    · exact .inl (congrArg Prod.fst heq)
    · exact .inr (Utf8.compare_eq_lt_iff.1 ((SortedMap.ascending_split hsplit).2 _ hmem))
  · rintro ⟨column, ⟨v, hvalue, hmisfit⟩, hfirst⟩
    obtain ⟨before, after, hsplit⟩ := List.append_of_mem (SortedMap.get?_eq_some.1 hvalue)
    refine ⟨before, (column, v), after, hsplit, fun entry hentry => ?_, hmisfit⟩
    have hlt := Utf8.compare_eq_lt_iff.1 ((SortedMap.ascending_split hsplit).1 entry hentry)
    have hget : values.get? entry.1 = some entry.2 :=
      SortedMap.get?_eq_some.2 (by simp [hsplit, hentry])
    cases hcheck : s.checkValue entry.1 entry.2 with
    | ok _ => rfl
    | error e' =>
      -- An earlier entry that does not fit would be the first one.
      obtain heq | hgt := hfirst _ e' ⟨_, hget, (checkValue_eq_error hwf).1 hcheck⟩
      · exact absurd (heq ▸ hlt) (List.lt_irrefl _)
      · exact absurd hgt (List.lt_asymm hlt)

theorem complete_eq_error (hwf : s.WellFormed) :
    s.complete values = .error e ↔
      ((∀ v, values.get? s.primaryKey = some v → v = .unset) ∧
        e = .missingPrimaryKey s.primaryKey) ∨
      (∃ v, values.get? s.primaryKey = some v ∧ v ≠ .unset) ∧
        ∃ column, s.FirstMisfit values.get? column e := by
  simp only [complete, Except.bind_eq_error, keyOf_eq_error, keyOf_eq_ok,
    checkEntries_eq_error hwf, pure, Except.pure, reduceCtorEq, and_false, exists_const, or_false,
    exists_and_right]

theorem discard_kind_eq_ok :
    (discard (s.kind column) : Except Error Unit) = .ok () ↔ column ∈ s.columnNames := by
  rw [← not_iff_not, ← kind?_eq_none, kind]
  cases s.kind? column <;> simp [discard, Functor.discard, Functor.mapConst, Except.map]

theorem discard_kind_eq_error : (discard (s.kind column) : Except Error Unit) = .error e ↔
    column ∉ s.columnNames ∧ e = .unknownColumn s.name column := by
  rw [← kind_eq_error]
  cases s.kind column <;> simp [discard, Functor.discard, Functor.mapConst, Except.map]

/-- The columns of an answer: those asked for, or all in the order of their declaration. -/
def answerColumns (s : Schema) (columns : List String) : List String :=
  if columns = [] then s.columnNames else columns

theorem requested_eq (s : Schema) (columns : List String) : s.requested columns = (do
    columns.forM fun column => discard (s.kind column)
    return s.answerColumns columns) := by
  unfold requested answerColumns
  split
  · next hnil =>
    subst hnil
    rfl
  · rfl

theorem requested_eq_ok {requested : List String} : s.requested columns = .ok requested ↔
    (∀ column ∈ columns, column ∈ s.columnNames) ∧ s.answerColumns columns = requested := by
  simp only [requested_eq, Except.bind_eq_ok, Except.forM_eq_ok, discard_kind_eq_ok, exists_const,
    pure, Except.pure, Except.ok.injEq]

/-- The first column that is asked for and not declared gives the error. -/
theorem requested_eq_error :
    s.requested columns = .error e ↔ ∃ before column after, columns = before ++ column :: after ∧
      (∀ other ∈ before, other ∈ s.columnNames) ∧ column ∉ s.columnNames ∧
        e = .unknownColumn s.name column := by
  simp only [requested_eq, Except.bind_eq_error, Except.forM_eq_error, discard_kind_eq_ok,
    discard_kind_eq_error, pure, Except.pure, reduceCtorEq, and_false, exists_false, or_false]

end Schema

/-! ## Statements -/

namespace Catalog

variable {c : Catalog} {name : String} {e : Error}

theorem table_eq_error : c.table name = .error e ↔ c.get? name = none ∧ e = .unknownTable name := by
  unfold table
  cases c.get? name <;> simp [eq_comm]

theorem filter_forM_eq_error {filter : Option Condition}
    {f : Condition → Except Error Unit} :
    filter.forM f = .error e ↔ ∃ x ∈ filter, f x = .error e := by
  cases filter <;> simp [Option.forM, pure, Except.pure]

/-- What needs a table fails for want of it exactly if there is none. -/
theorem table_bind_eq_unknownTable {α : Type} {f : Table → Except Error α}
    (h : ∀ t, c.get? name = some t → f t ≠ .error (.unknownTable name)) :
    (c.table name >>= f) = .error (.unknownTable name) ↔ c.get? name = none := by
  rw [Except.bind_eq_error, table_eq_error]
  constructor
  · rintro (⟨hnone, -⟩ | ⟨t, ht, hf⟩)
    · exact hnone
    · exact absurd hf (h t (table_eq_ok.1 ht))
  · exact fun hnone => .inl ⟨hnone, rfl⟩

/-- What needs a table that is not there goes no further. -/
theorem table_bind_of_get?_none {α : Type} {f : Table → Except Error α} (ht : c.get? name = none) :
    c.table name >>= f = .error (.unknownTable name) := by
  rw [table_eq_error.2 ⟨ht, rfl⟩]
  rfl

/-- What needs a table that is there goes on with it. -/
theorem table_bind_of_get? {α : Type} {f : Table → Except Error α} {t : Table}
    (ht : c.get? name = some t) : c.table name >>= f = f t := by
  rw [table_eq_ok.2 ht]
  rfl

end Catalog

end RowStore
