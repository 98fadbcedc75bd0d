import Mathlib.Data.List.Perm.Subperm
import RowStore.Proofs.Store.History
import RowStore.Proofs.Value

/-!
# Rows by their primary keys

A row map tells keys apart by their bytes, that is by identity, and a condition compares them with
the equality of the query language. The two agree on all keys but some doubles: the zeros of both
signs are equal and have a row each, and a key that is no number equals no key, its own included.
For every other key the condition on it finds the one row that was inserted under it
(`Catalog.select_key_run`).
-/

namespace RowStore

namespace Table

variable {t : Table} {a b row : Row} {key : Value}

/-- A key identifies a row. -/
theorem Sound.eq_of_key (h : t.Sound) (ha : a ∈ t.rows.values) (hb : b ∈ t.rows.values)
    (hka : a.get? t.schema.primaryKey = some key) (hkb : b.get? t.schema.primaryKey = some key) :
    a = b := by
  have place {r : Row} (hr : r ∈ t.rows.values) (hkey : r.get? t.schema.primaryKey = some key) :
      t.rows.get? (encode key) = some r := by
    obtain ⟨place, hplace⟩ := SortedMap.mem_values_iff.1 hr
    obtain ⟨key', hkey', rfl⟩ := h.places place r hplace
    rwa [Option.some.inj (hkey.symm.trans hkey')]
  exact Option.some.inj ((place ha hka).symm.trans (place hb hkb))

/-- The condition that a row has a given primary key. -/
def keyCondition (t : Table) (key : Value) : Condition := ⟨t.schema.primaryKey, key⟩

theorem mem_matching_key : row ∈ t.matching (some (t.keyCondition key)) ↔
    row ∈ t.rows.values ∧ ∃ k, row.get? t.schema.primaryKey = some k ∧ k.equals key := by
  rw [mem_matching, Condition.holds_iff]
  rfl

theorem matching_key_of_isNaN (hkey : key.isNaN) :
    t.matching (some (t.keyCondition key)) = [] := by
  refine List.eq_nil_iff_forall_not_mem.2 fun r hr => ?_
  obtain ⟨-, k, -, hk⟩ := mem_matching_key.1 hr
  obtain ⟨hnumber, rfl⟩ | ⟨-, hzero⟩ := Value.equals_iff.1 hk
  · simp [hkey] at hnumber
  · simp [Value.isNaN_eq_false_of_isFloatZero hzero] at hkey

/-- The rows under the zeros, of which there are at most two. -/
theorem mem_matching_key_of_isFloatZero (hkey : key.isFloatZero) :
    row ∈ t.matching (some (t.keyCondition key)) ↔
      row ∈ t.rows.values ∧ ∃ k, row.get? t.schema.primaryKey = some k ∧ k.isFloatZero := by
  rw [mem_matching_key]
  refine and_congr_right fun _ => exists_congr fun k => and_congr_right fun _ => ?_
  rw [Value.equals_iff]
  constructor
  · rintro (⟨-, rfl⟩ | ⟨hk, -⟩)
    · exact hkey
    · exact hk
  · exact fun hk => .inr ⟨hk, hkey⟩

theorem Sound.nodup_matching (h : t.Sound) (filter : Option Condition) :
    (t.matching filter).Nodup :=
  (Catalog.rows_nodup h).filter _

theorem Sound.length_matching_key_of_isFloatZero (h : t.Sound) (hkey : key.isFloatZero) :
    (t.matching (some (t.keyCondition key))).length ≤ 2 := by
  let keys := (t.matching (some (t.keyCondition key))).map (·.get? t.schema.primaryKey)
  have hnodup : keys.Nodup := by
    refine List.Nodup.map_on (fun a ha b hb hab => ?_) (h.nodup_matching _)
    obtain ⟨ha, k, hk, -⟩ := mem_matching_key.1 ha
    exact h.eq_of_key ha (mem_matching_key.1 hb).1 hk (hab ▸ hk)
  have hsub : keys ⊆ [some (.float ⟨0⟩), some (.float ⟨0x8000000000000000⟩)] := by
    intro k hk
    obtain ⟨r, hr, rfl⟩ := List.mem_map.1 hk
    obtain ⟨-, v, hv, hzero⟩ := (mem_matching_key_of_isFloatZero hkey).1 hr
    obtain rfl | rfl := Value.eq_of_isFloatZero hzero <;> simp [hv]
  have hlen := (hnodup.subperm hsub).length_le
  rwa [List.length_map] at hlen

/-- A row is the only one that is found under its key, if only the key itself equals it. -/
theorem Sound.matching_key_of_equals (h : t.Sound) (hrow : row ∈ t.rows.values)
    (hkey : row.get? t.schema.primaryKey = some key)
    (hequals : ∀ r ∈ t.rows.values, ∀ k, r.get? t.schema.primaryKey = some k →
      (k.equals key ↔ k = key)) : t.matching (some (t.keyCondition key)) = [row] := by
  rw [← List.perm_singleton,
    List.perm_ext_iff_of_nodup (h.nodup_matching _) (List.nodup_singleton _)]
  intro r
  rw [mem_matching_key, List.mem_singleton]
  constructor
  · rintro ⟨hr, k, hk, hkk⟩
    obtain rfl := (hequals r hr k hk).1 hkk
    exact h.eq_of_key hr hrow hk hkey
  · rintro rfl
    exact ⟨hrow, key, hkey, (hequals r hrow key hkey).2 rfl⟩

theorem Sound.matching_key (h : t.Sound) (hrow : row ∈ t.rows.values)
    (hkey : row.get? t.schema.primaryKey = some key) (hnumber : key.isNaN = false)
    (hzero : key.isFloatZero = false) : t.matching (some (t.keyCondition key)) = [row] := by
  refine h.matching_key_of_equals hrow hkey fun r _ k _ => ?_
  rw [Value.equals_iff]
  constructor
  · rintro (⟨-, hk⟩ | ⟨-, hzero'⟩)
    · exact hk
    · simp [hzero] at hzero'
  · rintro rfl
    exact .inl ⟨hnumber, rfl⟩

end Table

/-! ## The row of an insertion -/

/-- A table holds the row that an insertion built, under its primary key. -/
structure Catalog.Holds (c : Catalog) (name : String) (values : NewRow) (t : Table) (row : Row)
    (key : Value) : Prop where
  table : c.get? name = some t
  builds : t.schema.Builds values row
  mem : row ∈ t.rows.values
  key : row.get? t.schema.primaryKey = some key

namespace Catalog

variable {c : Catalog} {name : String} {values : NewRow} {t : Table} {row : Row} {key : Value}

theorem exists_holds_of_insert (hsound : c.Sound) {answer : Answer}
    (h : (c.execute (.insert name values)).outcome = .ok answer) :
    ∃ t row key, (c.execute (.insert name values)).catalog.Holds name values t row key := by
  obtain ⟨r, hr, -⟩ := outcome_eq_ok.1 h
  rw [execute_of_effect hr]
  obtain ⟨t, given, row, key, ht, hgiven, hrow, hkey, rfl⟩ := insertRow_eq_ok.1 hr
  have htable := hsound.tables name t ht
  refine ⟨t.put key row, row, key, ?_, ?_, ?_, ?_⟩
  · exact (SortedMap.get?_insert ..).trans (if_pos rfl)
  · exact Schema.builds_of_complete htable.schema hgiven hrow
  · exact (Table.mem_values_put htable).2 (.inl rfl)
  · exact (Schema.keyOf_eq_ok.1 hkey).1

theorem Holds.checkComparison (h : c.Holds name values t row key) (hsound : c.Sound)
    {column : String} {v : Value} (hv : row.get? column = some v) (hset : v ≠ .unset) :
    t.schema.checkComparison column v = .ok () := by
  have htable := hsound.tables name t h.table
  exact (htable.rows row h.mem).checkComparison htable.schema hv hset

theorem Holds.key_ne_unset (h : c.Holds name values t row key) (hsound : c.Sound) :
    key ≠ .unset := by
  obtain ⟨key', -, hkey', hset, -⟩ := ((hsound.tables name t h.table).rows row h.mem).key
  rwa [Option.some.inj (h.key.symm.trans hkey')]

theorem Holds.select_key (h : c.Holds name values t row key) (hsound : c.Sound) :
    (c.execute (.select name [] (some (t.keyCondition key)))).outcome =
      .ok (.scan t.schema.columnNames (t.matching (some (t.keyCondition key)))) := by
  apply select_matching h.table (hsound.tables name t h.table)
  rintro f ⟨⟩
  exact h.checkComparison hsound h.key (h.key_ne_unset hsound)

/-! ## Keys after a run -/

/-- Keys of different rows are not identical, and not even equal unless both are zeros. -/
theorem keys_pairwise {t : Table} (h : t.Sound) :
    t.rows.values.Pairwise fun a b => ∀ j k, a.get? t.schema.primaryKey = some j →
      b.get? t.schema.primaryKey = some k →
        j ≠ k ∧ (j.equals k → j.isFloatZero ∧ k.isFloatZero) := by
  refine (rows_nodup h).imp_of_mem fun {a b} ha hb hab j k hj hk => ?_
  have hne : j ≠ k := by
    rintro rfl
    exact hab (h.eq_of_key ha hb hj hk)
  refine ⟨hne, fun hequals => ?_⟩
  obtain ⟨-, rfl⟩ | hzeros := Value.equals_iff.1 hequals
  · exact absurd rfl hne
  · exact hzeros

/-- In every table that a run leaves, rows have different primary keys, and keys that are equal in
conditions only if they are the zeros of both signs. After an accepted insertion the condition on
the new row's key finds this row alone, unless the key is no number, which no condition finds, or a
zero, which finds the rows under both zeros. -/
theorem select_key_run (history : List Statement) :
    (∀ name t, (empty.run history).get? name = some t →
      t.rows.values.Pairwise fun a b => ∀ j k, a.get? t.schema.primaryKey = some j →
        b.get? t.schema.primaryKey = some k →
          j ≠ k ∧ (j.equals k → j.isFloatZero ∧ k.isFloatZero)) ∧
    ∀ name values answer,
      ((empty.run history).execute (.insert name values)).outcome = .ok answer →
      let after := ((empty.run history).execute (.insert name values)).catalog
      ∃ t row key rows, after.Holds name values t row key ∧
        (after.execute (.select name [] (some (t.keyCondition key)))).outcome =
          .ok (.scan t.schema.columnNames rows) ∧
        (key.isNaN → rows = []) ∧
        (key.isFloatZero → row ∈ rows ∧ rows.length ≤ 2 ∧ ∀ r, r ∈ rows ↔
          r ∈ t.rows.values ∧ ∃ k, r.get? t.schema.primaryKey = some k ∧ k.isFloatZero) ∧
        (key.isNaN = false → key.isFloatZero = false → rows = [row]) := by
  have hsound := sound_empty.run history
  refine ⟨fun name t ht => keys_pairwise (hsound.tables name t ht), fun name values answer h => ?_⟩
  have hafter : ((empty.run history).execute (.insert name values)).catalog.Sound :=
    hsound.run [.insert name values]
  obtain ⟨t, row, key, hholds⟩ := exists_holds_of_insert hsound h
  have htable := hafter.tables name t hholds.table
  refine ⟨t, row, key, _, hholds, hholds.select_key hafter, ?_, ?_, ?_⟩
  · exact Table.matching_key_of_isNaN
  · intro hzero
    refine ⟨?_, htable.length_matching_key_of_isFloatZero hzero, fun r => ?_⟩
    · exact (Table.mem_matching_key_of_isFloatZero hzero).2 ⟨hholds.mem, key, hholds.key, hzero⟩
    · exact Table.mem_matching_key_of_isFloatZero hzero
  · exact htable.matching_key hholds.mem hholds.key

/-! ## Points on a line -/

/-- A table of points on a line. -/
def points : Catalog := empty.run [.create ⟨"points", [⟨"x", .float⟩], "x"⟩]

def pointRow (x : Binary64) : Row := SortedMap.ofList [("x", .float x)]

def insertPoint (x : Binary64) : Statement := .insert "points" (.positional [.float x])

def selectPoint (x : Binary64) : Statement := .select "points" [] (some ⟨"x", .float x⟩)

/-- The point 1.5 is found beside the point zero. -/
theorem select_key_points :
    let before := points.run [insertPoint ⟨0⟩]
    let values := NewRow.positional [.float ⟨0x3FF8000000000000⟩]
    let after := (before.execute (.insert "points" values)).catalog
    (∃ t, before.get? "points" = some t ∧
      t.rows.values.Pairwise fun a b => ∀ j k, a.get? t.schema.primaryKey = some j →
        b.get? t.schema.primaryKey = some k →
          j ≠ k ∧ (j.equals k → j.isFloatZero ∧ k.isFloatZero)) ∧
    (before.execute (.insert "points" values)).outcome = .ok (.inserted 1) ∧
    ∃ t row, after.Holds "points" values t row (.float ⟨0x3FF8000000000000⟩) ∧
      (after.execute (.select "points" []
        (some (t.keyCondition (.float ⟨0x3FF8000000000000⟩))))).outcome =
        .ok (.scan t.schema.columnNames [row]) := by
  intro before values after
  have hrun := select_key_run
    [.create ⟨"points", [⟨"x", .float⟩], "x"⟩, insertPoint ⟨0⟩]
  have hinsert : (before.execute (.insert "points" values)).outcome = .ok (.inserted 1) := by
    decide +kernel
  refine ⟨⟨_, rfl, hrun.1 "points" _ rfl⟩, hinsert, ?_⟩
  obtain ⟨t, row, key, rows, hholds, hselect, -, -, hone⟩ := hrun.2 "points" values _ hinsert
  have hschema : t.schema = ⟨"points", [⟨"x", .float⟩], "x"⟩ := by
    have hmap : (after.get? "points").map Table.schema =
        some ⟨"points", [⟨"x", .float⟩], "x"⟩ := by decide +kernel
    exact Option.some.inj ((congrArg (Option.map Table.schema) hholds.table).symm.trans hmap)
  have hkey : key = .float ⟨0x3FF8000000000000⟩ := by
    have hrow := hholds.key.symm.trans (hholds.builds _)
    rw [hschema] at hrow
    exact Option.some.inj hrow
  subst hkey
  rw [hone (by decide) (by decide)] at hselect
  exact ⟨t, row, hholds, hselect⟩

/-- Equal keys stand in one table, and a condition on a new row's key can find two rows or none. -/
theorem select_zero_and_nan :
    (∃ t, (points.run [insertPoint ⟨0⟩, insertPoint ⟨0x8000000000000000⟩]).get? "points" = some t ∧
      ∃ a ∈ t.rows.values, ∃ b ∈ t.rows.values, a ≠ b ∧ ∃ j k,
        a.get? t.schema.primaryKey = some j ∧ b.get? t.schema.primaryKey = some k ∧ j.equals k) ∧
    ((points.run [insertPoint ⟨0⟩]).execute (insertPoint ⟨0x8000000000000000⟩)).outcome =
      .ok (.inserted 1) ∧
    ((points.run [insertPoint ⟨0⟩, insertPoint ⟨0x8000000000000000⟩]).execute
      (selectPoint ⟨0x8000000000000000⟩)).outcome =
      .ok (.scan ["x"] [pointRow ⟨0⟩, pointRow ⟨0x8000000000000000⟩]) ∧
    (points.execute (insertPoint ⟨0x7FF8000000000000⟩)).outcome = .ok (.inserted 1) ∧
    ((points.run [insertPoint ⟨0x7FF8000000000000⟩]).execute
      (selectPoint ⟨0x7FF8000000000000⟩)).outcome = .ok (.scan ["x"] []) := by
  refine ⟨⟨_, rfl, pointRow ⟨0⟩, ?_, pointRow ⟨0x8000000000000000⟩, ?_, ?_, .float ⟨0⟩,
    .float ⟨0x8000000000000000⟩, ?_⟩, ?_⟩
  all_goals decide +kernel

end Catalog

end RowStore
