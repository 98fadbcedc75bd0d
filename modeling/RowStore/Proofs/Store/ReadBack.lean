import RowStore.Proofs.Statement.Supplied
import RowStore.Proofs.Store.Key
import RowStore.Proofs.Store.Request

/-!
# Reading back what a text has stored

Texts put no value with a sign into a catalog, and values without a sign are equal only if they are
identical. So a row is found under each of its values right after a text has inserted it, and under
its primary key it alone is found and deleted (`Catalog.read_back_texts`).
-/

namespace RowStore

/-! ## Rows without signs -/

/-- No value of the row has a sign. -/
def Row.Unsigned (row : Row) : Prop := ∀ column v, row.get? column = some v → v.Unsigned

namespace Schema

variable {s : Schema} {values : NewRow} {given row : Row} {column : String} {v : Value}

theorem mem_values_of_supplied (hwf : s.WellFormed) (h : s.supplied values = .ok given)
    (hv : given.get? column = some v) : v ∈ values.values := by
  cases values with
  | named values =>
    obtain rfl : values = given := Except.ok.inj h
    exact SortedMap.mem_values_iff.2 ⟨column, hv⟩
  | positional values =>
    obtain ⟨hlength, rfl⟩ := supplied_positional_eq_ok.1 h
    have hnodup := hwf.nodup_zip hlength
    exact (List.of_mem_zip ((SortedMap.get?_ofList_eq_some hnodup).1 hv)).2

/-- Values that were not given are unset, which is no sign. -/
theorem unsigned_of_complete (hgiven : given.Unsigned) (h : s.complete given = .ok row) :
    row.Unsigned := by
  intro column v hv
  rw [get?_of_complete h] at hv
  split at hv
  · obtain rfl := Option.some.inj hv
    cases hw : given.get? column with
    | none => trivial
    | some w => exact hgiven column w hw
  · cases hv

end Schema

namespace Table

variable {t : Table} {row : Row} {f : Condition}

def Unsigned (t : Table) : Prop := ∀ row ∈ t.rows.values, row.Unsigned

theorem Unsigned.put (h : t.Unsigned) (hrow : row.Unsigned) (key : Value) :
    (t.put key row).Unsigned := by
  intro r hr
  obtain rfl | hr := SortedMap.mem_values_of_insert hr
  · exact hrow
  · exact h r hr

theorem Unsigned.without (h : t.Unsigned) (f : Condition) : (t.without f).Unsigned :=
  fun r hr => h r (mem_values_without.1 hr).1

/-- A condition without a sign finds the rows with its very value. -/
theorem Unsigned.mem_matching (h : t.Unsigned) (hf : f.value.Unsigned) :
    row ∈ t.matching (some f) ↔ row ∈ t.rows.values ∧ row.get? f.column = some f.value := by
  rw [Table.mem_matching, Condition.holds_iff]
  refine and_congr_right fun hrow => ?_
  constructor
  · rintro ⟨v, hv, hequals⟩
    rw [hv, (Value.equals_iff_eq (h row hrow _ _ hv) hf).1 hequals]
  · exact fun hv => ⟨_, hv, (Value.equals_iff_eq hf hf).2 rfl⟩

end Table

/-! ## Catalogs without signs -/

namespace Catalog

variable {c : Catalog} {name : String} {t : Table}

/-- The value stands in a row of a table. -/
def Stores (c : Catalog) (v : Value) : Prop :=
  ∃ name t row column, c.get? name = some t ∧ row ∈ t.rows.values ∧ row.get? column = some v

def Unsigned (c : Catalog) : Prop := ∀ name t, c.get? name = some t → t.Unsigned

theorem Unsigned.value (h : c.Unsigned) {v : Value} (hv : c.Stores v) : v.Unsigned := by
  obtain ⟨name, t, row, column, ht, hrow, hvalue⟩ := hv
  exact h name t ht row hrow column v hvalue

theorem Unsigned.insert (h : c.Unsigned) (ht : t.Unsigned) : Unsigned (c.insert name t) := by
  intro n u hu
  obtain ⟨-, rfl⟩ | hu := SortedMap.get?_of_get?_insert hu
  · exact ht
  · exact h n u hu

theorem Unsigned.erase (h : c.Unsigned) : Unsigned (c.erase name) :=
  fun n u hu => h n u (SortedMap.get?_of_get?_erase hu)

/-- An accepted statement that supplies no sign stores none. -/
theorem Unsigned.effect (h : c.Unsigned) (hsound : c.Sound) {s : Statement} (hs : s.Unsigned)
    {r : Effect} (hr : c.effect s = .ok r) : r.catalog.Unsigned := by
  cases s with
  | create schema =>
    obtain ⟨-, -, rfl⟩ := createTable_eq_ok.1 hr
    exact h.insert (by simp [Table.Unsigned, SortedMap.values, SortedMap.empty])
  | select name columns filter =>
    obtain ⟨_, _, -, -, -, rfl⟩ := selectRows_eq_ok.1 hr
    exact h
  | insert name values =>
    obtain ⟨t, given, row, key, ht, hgiven, hrow, -, rfl⟩ := insertRow_eq_ok.1 hr
    have hwf := (hsound.tables name t ht).schema
    have hunsigned : given.Unsigned :=
      fun column v hv => hs v (Schema.mem_values_of_supplied hwf hgiven hv)
    exact h.insert ((h name t ht).put (Schema.unsigned_of_complete hunsigned hrow) key)
  | delete name filter =>
    obtain ⟨t, ht, -, rfl⟩ := deleteRows_eq_ok.1 hr
    exact h.insert ((h name t ht).without filter)
  | drop name =>
    obtain ⟨_, -, rfl⟩ := dropTable_eq_ok.1 hr
    exact h.erase

theorem Unsigned.run (h : c.Unsigned) (hsound : c.Sound) {history : List Statement}
    (hs : ∀ s ∈ history, s.Unsigned) : (c.run history).Unsigned := by
  refine (run_induction_mem (P := fun c => c.Sound ∧ c.Unsigned) ⟨hsound, h⟩ ?_).2
  intro c s r hmem hc hr
  exact ⟨hc.1.effect hr, hc.2.effect hc.1 (hs s hmem) hr⟩

theorem unsigned_empty : Unsigned empty := by simp [Unsigned, empty]

/-! ## After texts -/

/-- The catalog after texts one after the other. -/
def afterTexts (texts : List String) : Catalog := empty.serve (texts.map Request.text)

/-- The statements that texts are read as. -/
def readTexts (texts : List String) : List Statement :=
  texts.filterMap fun text => (Statement.ofText text).toOption

theorem afterTexts_eq_run (texts : List String) :
    afterTexts texts = empty.run (readTexts texts) := by
  rw [afterTexts, serve_eq_run, List.filterMap_map]
  rfl

theorem sound_afterTexts (texts : List String) : (afterTexts texts).Sound := by
  rw [afterTexts_eq_run]
  exact sound_empty.run _

/-- Texts store no sign. -/
theorem unsigned_afterTexts (texts : List String) : (afterTexts texts).Unsigned := by
  rw [afterTexts_eq_run]
  refine unsigned_empty.run sound_empty fun s hs => ?_
  obtain ⟨text, -, htext⟩ := List.mem_filterMap.1 hs
  cases hread : Statement.ofText text with
  | error e =>
    rw [hread] at htext
    cases htext
  | ok s' =>
    rw [hread] at htext
    obtain rfl : s' = s := Option.some.inj htext
    exact Statement.unsigned_ofText hread

theorem afterTexts_concat (texts : List String) (text : String) :
    afterTexts (texts ++ [text]) = ((afterTexts texts).executeText text).catalog := by
  simp [afterTexts, serve, respond]

/-! ## The row that was stored -/

/-- What requests on a row are answered: a query for one of its values finds it, and under its
primary key it alone is found and deleted. -/
structure ReadsBack (c : Catalog) (name : String) (t : Table) (row : Row) (key : Value) :
    Prop where
  select : ∀ q column v, row.get? column = some v → v ≠ .unset →
    q.read = .ok (.select name [] (some ⟨column, v⟩)) →
      ∃ rows, (c.respond q).outcome = .ok (.scan t.schema.columnNames rows) ∧ row ∈ rows
  selectKey : ∀ q, q.read = .ok (.select name [] (some (t.keyCondition key))) →
    (c.respond q).outcome = .ok (.scan t.schema.columnNames [row])
  /-- The other rows and the other tables stay. -/
  delete : ∀ q, q.read = .ok (.delete name (t.keyCondition key)) →
    (c.respond q).outcome = .ok (.deleted 1) ∧
      ∃ t', (c.respond q).catalog = c.insert name t' ∧ t'.schema = t.schema ∧
        t'.rows.values = t.rows.values.filter (· ≠ row)

variable {values : NewRow} {row : Row} {key : Value}

/-- Without signs, the row is the only one that is found under its key. -/
theorem Holds.matching_key (h : c.Holds name values t row key) (hsound : c.Sound)
    (hunsigned : c.Unsigned) : t.matching (some (t.keyCondition key)) = [row] := by
  have htable := hsound.tables name t h.table
  have hvalue {r k} (hr : r ∈ t.rows.values) (hk : r.get? t.schema.primaryKey = some k) :
      k.Unsigned := hunsigned name t h.table r hr _ k hk
  refine htable.matching_key_of_equals h.mem h.key fun r hr k hk => ?_
  exact Value.equals_iff_eq (hvalue hr hk) (hvalue h.mem h.key)

theorem Holds.values_without_key (h : c.Holds name values t row key) (hsound : c.Sound)
    (hunsigned : c.Unsigned) :
    (t.without (t.keyCondition key)).rows.values = t.rows.values.filter (· ≠ row) := by
  rw [Table.values_without]
  refine List.filter_congr fun r hr => ?_
  have hmatch := h.matching_key hsound hunsigned
  have hholds : (t.keyCondition key).holds r ↔ r = row := by
    rw [← List.mem_singleton (a := r), ← hmatch, Table.mem_matching]
    exact (and_iff_right hr).symm
  rw [Bool.eq_iff_iff, Bool.not_eq_true', ← Bool.not_eq_true, decide_eq_true_eq, hholds]

theorem Holds.readsBack (h : c.Holds name values t row key) (hsound : c.Sound)
    (hunsigned : c.Unsigned) : c.ReadsBack name t row key := by
  have htable := hsound.tables name t h.table
  refine ⟨fun q column v hv hset hread => ?_, fun q hread => ?_, fun q hread => ?_⟩
  · refine ⟨t.matching (some ⟨column, v⟩), ?_, ?_⟩
    · rw [(respond_of_read c hread).1]
      apply select_matching h.table htable
      rintro f ⟨⟩
      exact h.checkComparison hsound hv hset
    · have hvalue : v.Unsigned := hunsigned name t h.table row h.mem column v hv
      exact ((hunsigned name t h.table).mem_matching hvalue).2 ⟨h.mem, hv⟩
  · rw [(respond_of_read c hread).1, h.select_key hsound, h.matching_key hsound hunsigned]
  · have hcheck := h.checkComparison hsound h.key (h.key_ne_unset hsound)
    obtain ⟨houtcome, hcatalog⟩ := delete_matching (f := t.keyCondition key) h.table hcheck
    rw [(respond_of_read c hread).1, (respond_of_read c hread).2, houtcome, hcatalog,
      h.matching_key hsound hunsigned]
    exact ⟨rfl, _, rfl, rfl, h.values_without_key hsound hunsigned⟩

/-- Texts store no negative integer, no double with a sign and none that is no number. Right after a
text has inserted a row, requests for its values find it, and it alone is found and deleted under
its primary key. -/
theorem read_back_texts (texts : List String) :
    (∀ n, (afterTexts texts).Stores (.integer n) → 0 ≤ n) ∧
    (∀ x, (afterTexts texts).Stores (.float x) → x.isNaN = false ∧ x.negative = false) ∧
    ∀ text name values answer, Statement.ofText text = .ok (.insert name values) →
      ((afterTexts texts).executeText text).outcome = .ok answer →
      let after := ((afterTexts texts).executeText text).catalog
      ∃ t row key, after.Holds name values t row key ∧ after.ReadsBack name t row key := by
  refine ⟨fun n => (unsigned_afterTexts texts).value, fun x => (unsigned_afterTexts texts).value,
    fun text name values answer hread houtcome => ?_⟩
  obtain ⟨houtcome', hcatalog⟩ := respond_of_read (q := .text text) (afterTexts texts) hread
  obtain ⟨t, row, key, hholds⟩ :=
    exists_holds_of_insert (sound_afterTexts texts) (houtcome'.symm.trans houtcome)
  rw [← hcatalog] at hholds
  have hsound := sound_afterTexts (texts ++ [text])
  have hunsigned := unsigned_afterTexts (texts ++ [text])
  rw [afterTexts_concat] at hsound hunsigned
  exact ⟨t, row, key, hholds, hholds.readsBack hsound hunsigned⟩

def sampleTexts : List String :=
  ["create table points (x float primary key, label string)",
    "insert into points values (0.0, 'origin')"]

/-- A point without a label is read back beside the origin. -/
theorem read_back_sampleTexts :
    let c := afterTexts sampleTexts
    let text := "insert into points (x) values (2.5)"
    let values := NewRow.named (SortedMap.ofList [("x", .float ⟨0x4004000000000000⟩)])
    (∀ n, c.Stores (.integer n) → 0 ≤ n) ∧
    (∀ x, c.Stores (.float x) → x.isNaN = false ∧ x.negative = false) ∧
    Statement.ofText text = .ok (.insert "points" values) ∧
    (c.executeText text).outcome = .ok (.inserted 1) ∧
    ∃ t row key, (c.executeText text).catalog.Holds "points" values t row key ∧
      (c.executeText text).catalog.ReadsBack "points" t row key := by
  intro c text values
  have hread : Statement.ofText text = .ok (.insert "points" values) := by decide +kernel
  have houtcome : (c.executeText text).outcome = .ok (.inserted 1) := by decide +kernel
  obtain ⟨hintegers, hfloats, hrow⟩ := read_back_texts sampleTexts
  exact ⟨hintegers, hfloats, hread, houtcome, hrow text "points" values _ hread houtcome⟩

end Catalog

end RowStore
