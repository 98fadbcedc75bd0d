import RowStore.Proofs.Statement.Acceptance
import RowStore.Proofs.Store.Insertion

/-!
# Spellings of an insertion

The same new row can be written in several ways: its values in the order of the columns, or by
name, with or without the columns that stay unset, and by name in any order. All of them have the
same effect. What two new rows must agree in for this is `Schema.SameRow`.
-/

namespace RowStore

namespace Schema

/-- Two new rows say the same: they give the same set values, and the same beside the columns. -/
structure SameRow (s : Schema) (a b : NewRow) : Prop where
  left_count : s.CountFits a
  right_count : s.CountFits b
  set : ∀ column v, v ≠ .unset → (a.value? s column = some v ↔ b.value? s column = some v)
  undeclared : ∀ column, column ∉ s.columnNames → a.value? s column = b.value? s column

/-- A row by name gives values that also go by position, and may leave out unset ones. -/
structure ByName (s : Schema) (values : List Value) (row : Row) : Prop where
  mem_zip : ∀ column v, row.get? column = some v → (column, v) ∈ s.columnNames.zip values
  set : ∀ column v, (column, v) ∈ s.columnNames.zip values → v ≠ .unset →
    row.get? column = some v

variable {s : Schema} {a b : NewRow} {values : List Value} {row : Row} {column : String} {v : Value}
  {e : Error}

/-! ## New rows that say the same -/

namespace SameRow

theorem symm (h : s.SameRow a b) : s.SameRow b a :=
  ⟨h.right_count, h.left_count, fun column v hset => (h.set column v hset).symm,
    fun column hcolumn => (h.undeclared column hcolumn).symm⟩

theorem misfitAt (h : s.SameRow a b) (hmisfit : s.MisfitAt (a.value? s) column e) :
    s.MisfitAt (b.value? s) column e := by
  obtain ⟨v, hv, hunknown | ⟨hdecl, hkind, hne⟩⟩ := hmisfit
  · exact ⟨v, h.undeclared column hunknown ▸ hv, .unknown hunknown⟩
  · have hset : v ≠ .unset := by
      rintro rfl
      cases hkind
    exact ⟨v, (h.set column v hset).1 hv, .kind hdecl hkind hne⟩

theorem firstMisfit (h : s.SameRow a b) (hfirst : s.FirstMisfit (a.value? s) column e) :
    s.FirstMisfit (b.value? s) column e :=
  ⟨h.misfitAt hfirst.misfit, fun other e' hother => hfirst.first other e' (h.symm.misfitAt hother)⟩

theorem keyGiven (h : s.SameRow a b) (hkey : s.KeyGiven a) : s.KeyGiven b := by
  obtain ⟨v, hv, hset⟩ := hkey
  exact ⟨v, (h.set _ v hset).1 hv, hset⟩

theorem refusesRow (h : s.SameRow a b) (hrefuses : s.RefusesRow a e) : s.RefusesRow b e := by
  cases hrefuses with
  | count given ne => exact absurd (h.left_count _ given) ne
  | key _ missing => exact .key h.right_count (mt h.symm.keyGiven missing)
  | misfit _ key first => exact .misfit h.right_count (h.keyGiven key) (h.firstMisfit first)

theorem acceptsRow (h : s.SameRow a b) (haccepts : s.AcceptsRow a) : s.AcceptsRow b :=
  ⟨h.right_count, h.keyGiven haccepts.key,
    fun column e hmisfit => haccepts.fits column e (h.symm.misfitAt hmisfit)⟩

theorem getD_unset (h : s.SameRow a b) (column : String) :
    (a.value? s column).getD .unset = (b.value? s column).getD .unset := by
  have hset := h.set column
  cases ha : a.value? s column <;> cases hb : b.value? s column <;> grind +splitImp

theorem builds (h : s.SameRow a b) (hbuilds : s.Builds a row) : s.Builds b row := by
  intro column
  rw [hbuilds column, h.getD_unset]

end SameRow

/-! ## By position and by name -/

theorem value?_positional (hwf : s.WellFormed) (hlength : values.length = s.columns.length) :
    (NewRow.positional values).value? s column = some v ↔
      (column, v) ∈ s.columnNames.zip values := by
  have hnodup := hwf.nodup_zip hlength
  rw [NewRow.value?, ← SortedMap.lookup_eq_list_lookup, ← SortedMap.get?_ofList_of_nodup hnodup,
    SortedMap.get?_ofList_eq_some hnodup]

theorem ByName.sameRow (h : s.ByName values row) (hwf : s.WellFormed)
    (hlength : values.length = s.columns.length) :
    s.SameRow (.named row) (.positional values) where
  left_count := nofun
  right_count := fun _ hn => Option.some.inj hn ▸ hlength
  set column v hset := by
    rw [value?_positional hwf hlength]
    exact ⟨h.mem_zip column v, fun hv => h.set column v hv hset⟩
  undeclared column hcolumn := by
    have hmem {v : Value} : (column, v) ∉ s.columnNames.zip values :=
      fun h => hcolumn (List.of_mem_zip h).1
    have hrow : row.get? column = none :=
      Option.eq_none_iff_forall_ne_some.2 fun v hv => hmem (h.mem_zip column v hv)
    have hvalues : (NewRow.positional values).value? s column = none :=
      Option.eq_none_iff_forall_ne_some.2 fun v hv => hmem ((value?_positional hwf hlength).1 hv)
    exact hrow.trans hvalues.symm

/-- Some of the columns with their values, and among them those with a set one. -/
theorem byName_ofList (hwf : s.WellFormed) (hlength : values.length = s.columns.length)
    {entries : List (String × Value)} (hsub : entries.Sublist (s.columnNames.zip values))
    (hset : ∀ entry ∈ s.columnNames.zip values, entry.2 ≠ .unset → entry ∈ entries) :
    s.ByName values (SortedMap.ofList entries) := by
  have hnodup : (entries.map (·.1)).Nodup :=
    (hwf.nodup_zip hlength).sublist (hsub.map _)
  refine ⟨fun column v hv => ?_, fun column v hv hne => ?_⟩
  · exact hsub.subset ((SortedMap.get?_ofList_eq_some hnodup).1 hv)
  · exact (SortedMap.get?_ofList_eq_some hnodup).2 (hset _ hv hne)

end Schema

/-! ## The order of named columns -/

/-- An insertion of values by name, as it is written. -/
def insertionTokens (table word : String) (pairs : List (String × Literal)) : List Token :=
  [.keyword .insert, .keyword .into, .ident table, .openParen] ++ nameTokens (pairs.map (·.1)) ++
    [.closeParen, .ident word, .openParen] ++ literalTokens (pairs.map (·.2)) ++ [.closeParen]

section Written

variable {table word : String} {pairs pairs' : List (String × Literal)}

theorem denotes_of_perm (hnodup : (pairs.map (·.1)).Nodup) (hperm : pairs'.Perm pairs) :
    (Shape.insert table (some (pairs'.map (·.1))) (pairs'.map (·.2))).Denotes
      (.insert table (.named (SortedMap.ofList (pairs.map fun p => (p.1, p.2.value))))) := by
  refine .insertColumns ((hperm.map _).nodup_iff.2 hnodup) (by simp) fun column v => ?_
  have hkeys : ((pairs.map fun p => (p.1, p.2.value)).map (·.1)).Nodup := by
    rwa [List.map_map]
  rw [SortedMap.get?_ofList_eq_some hkeys, List.map_map, List.zip_map', ← (hperm.map _).mem_iff]
  rfl

theorem ofTokens_insertionTokens (hne : pairs ≠ []) (hnodup : (pairs.map (·.1)).Nodup)
    (hperm : pairs'.Perm pairs) (hword : IsValuesWord word) :
    Statement.ofTokens (insertionTokens table word pairs') =
      .ok (.insert table (.named (SortedMap.ofList (pairs.map fun p => (p.1, p.2.value))))) := by
  have hne' {α : Type} (f : String × Literal → α) : pairs'.map f ≠ [] := by
    rw [Ne, List.map_eq_nil_iff]
    rintro rfl
    exact hne hperm.nil_eq.symm
  exact Statement.ofTokens_of_isForm (.insertColumns (hne' _) hword (hne' _))
    (denotes_of_perm hnodup hperm)

end Written

namespace Catalog

variable {c : Catalog} {name : String} {t : Table} {a b : NewRow}

/-- New rows that say the same are answered in the same way and leave the same behind. -/
theorem execute_insert_congr (ht : c.get? name = some t) (hsound : t.Sound)
    (h : t.schema.SameRow a b) : c.execute (.insert name a) = c.execute (.insert name b) := by
  have heffect : c.insertRow name a = c.insertRow name b := by
    cases hr : c.insertRow name a with
    | error e =>
      have hrefuses := h.refusesRow ((insertRow_eq_error ht hsound).1 hr)
      exact ((insertRow_eq_error ht hsound).2 hrefuses).symm
    | ok r =>
      have haccepts := ((insertRow_answer ht hsound).1 ⟨r, hr, rfl⟩).2
      obtain ⟨key, row, hkey, hbuilds, hok⟩ := insertRow_of_accepts ht hsound haccepts
      obtain ⟨key', row', hkey', hbuilds', hok'⟩ :=
        insertRow_of_accepts ht hsound (h.acceptsRow haccepts)
      -- The primary key is set, so both rows give the same one.
      obtain ⟨v, hv, hset⟩ := haccepts.key
      obtain rfl : v = key := Option.some.inj (hv.symm.trans hkey)
      obtain rfl : v = key' := Option.some.inj (((h.set _ v hset).1 hv).symm.trans hkey')
      obtain rfl : row = row' := Schema.builds_unique (h.builds hbuilds) hbuilds'
      rw [← hr, hok, hok']
  rw [execute_eq, execute_eq, effect, effect, heffect]
  rfl

theorem execute_insert_byName (ht : c.get? name = some t) (hsound : t.Sound) {values : List Value}
    {row : Row} (hlength : values.length = t.schema.columns.length)
    (h : t.schema.ByName values row) :
    c.execute (.insert name (.named row)) = c.execute (.insert name (.positional values)) :=
  execute_insert_congr ht hsound (h.sameRow hsound.schema hlength)

/-- All ways to write the same insertion agree: after every history by position, by name and by name
without the unset columns, and read from tokens with the named columns in any order. -/
theorem execute_insert_spellings (history : List Statement) :
    let c := empty.run history
    (∀ name t values, c.get? name = some t → values.length = t.schema.columns.length →
      let given := t.schema.columnNames.zip values
      let fewer := given.filter fun entry => entry.1 = t.schema.primaryKey ∨ entry.2 ≠ .unset
      c.execute (.insert name (.named (SortedMap.ofList given))) =
          c.execute (.insert name (.positional values)) ∧
        c.execute (.insert name (.named (SortedMap.ofList fewer))) =
          c.execute (.insert name (.positional values))) ∧
    ∀ table word pairs pairs', pairs ≠ [] → (pairs.map (·.1)).Nodup → pairs'.Perm pairs →
      IsValuesWord word → Statement.ofTokens (insertionTokens table word pairs') =
        .ok (.insert table (.named (SortedMap.ofList (pairs.map fun p => (p.1, p.2.value))))) := by
  intro c
  refine ⟨fun name t values ht hlength => ?_, fun table word pairs pairs' hne hnodup hperm hword =>
    ofTokens_insertionTokens hne hnodup hperm hword⟩
  have hsound := (sound_empty.run history).tables name t ht
  constructor
  · exact execute_insert_byName ht hsound hlength <|
      Schema.byName_ofList hsound.schema hlength (.refl _) fun _ hentry _ => hentry
  · refine execute_insert_byName ht hsound hlength <|
      Schema.byName_ofList hsound.schema hlength List.filter_sublist fun entry hentry hset => ?_
    exact List.mem_filter.2 ⟨hentry, decide_eq_true (.inr hset)⟩

/-- A note without a text, by position and by name; and a note whose columns are named in either
order. -/
theorem execute_insert_noteSpellings :
    let c := empty.run notesHistory
    let note : SortedMap String Value := .ofList [("id", .integer 2), ("done", .boolean true)]
    c.execute (.insert "notes" (.named note)) =
        c.execute (.insert "notes" (.positional [.integer 2, .unset, .boolean true])) ∧
      Statement.ofTokens
          (insertionTokens "notes" "Values" [("text", .string "one"), ("id", .integer 1)]) =
        .ok (.insert "notes"
          (.named (SortedMap.ofList [("id", .integer 1), ("text", .string "one")]))) := by
  intro c note
  obtain ⟨t, ht⟩ : ∃ t, c.get? "notes" = some t := Option.isSome_iff_exists.1 (by decide +kernel)
  obtain ⟨hexecute, htokens⟩ := execute_insert_spellings notesHistory
  constructor
  · have hschema : (c.get? "notes").map Table.schema =
        some ⟨"notes", [⟨"id", .integer⟩, ⟨"text", .string⟩, ⟨"done", .boolean⟩], "id"⟩ := by
      decide +kernel
    rw [ht, Option.map_some, Option.some.injEq] at hschema
    have hlength : [Value.integer 2, .unset, .boolean true].length = t.schema.columns.length := by
      rw [hschema]
      rfl
    have hagree := (hexecute "notes" t _ ht hlength).2
    rw [hschema] at hagree
    exact hagree
  · exact htokens "notes" "Values" [("id", .integer 1), ("text", .string "one")] _ (by simp)
      (by decide) (.swap _ _ _) (isValuesWord_iff.2 (by decide +kernel))

end Catalog

end RowStore
