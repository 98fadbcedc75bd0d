import RowStore.Proofs.Store.Deletion
import RowStore.Proofs.Store.Projection
import RowStore.Proofs.Store.Spelling

/-!
# Creations

That columns have different names and that the primary key is one of them is checked by the parser,
field by field, and again where the table is created. The same schemas pass both times, so a
creation that was read from tokens is refused for nothing but a name that is taken.
-/

namespace RowStore

/-- The faults of a declaration by itself, whatever tables there are. -/
inductive Error.OfDeclaration : Error → Prop
  | primaryKeyNotDefined {table} : OfDeclaration (.primaryKeyNotDefined table)
  | duplicateColumn {column} : OfDeclaration (.duplicateColumn column)

/-! ## Fields as they are written -/

section Written

variable {f g : FieldText} {fs gs : List FieldText} {u v : List Token}

/-- A field ends where no mark of the primary key follows. -/
theorem FieldText.tokens_append_inj (hu : u.head? ≠ some (.keyword .primary))
    (hv : v.head? ≠ some (.keyword .primary)) (h : f.tokens ++ u = g.tokens ++ v) :
    f = g ∧ u = v := by
  obtain ⟨name, kind, isKey⟩ := f
  obtain ⟨name', kind', isKey'⟩ := g
  simp only [tokens, List.cons_append, List.cons.injEq, Token.ident.injEq] at h
  obtain ⟨rfl, rfl, h⟩ := h
  cases isKey with
  | false =>
    cases isKey' with
    | false => exact ⟨rfl, h⟩
    | true => exact absurd (congrArg List.head? h) hu
  | true =>
    cases isKey' with
    | false => exact absurd (congrArg List.head? h).symm hv
    | true => exact ⟨rfl, by simpa using h⟩

theorem furtherFields_append_inj
    (h : (fs.flatMap fun f => .comma :: f.tokens) ++ .closeParen :: u =
      (gs.flatMap fun g => .comma :: g.tokens) ++ .closeParen :: v) : fs = gs ∧ u = v := by
  induction fs generalizing gs with
  | nil =>
    cases gs with
    | nil => exact ⟨rfl, by simpa using h⟩
    | cons g gs => simp at h
  | cons f fs ih =>
    cases gs with
    | nil => simp at h
    | cons g gs =>
      simp only [List.flatMap_cons, List.cons_append, List.append_assoc, List.cons.injEq,
        true_and] at h
      obtain ⟨rfl, hrest⟩ :=
        FieldText.tokens_append_inj (by cases fs <;> simp) (by cases gs <;> simp) h
      obtain ⟨rfl, huv⟩ := ih hrest
      exact ⟨rfl, huv⟩

/-- Tokens in brackets are those of one list of fields only. -/
theorem fieldTokens_append_inj
    (h : fieldTokens fs ++ .closeParen :: u = fieldTokens gs ++ .closeParen :: v) :
    fs = gs ∧ u = v := by
  cases fs with
  | nil =>
    cases gs with
    | nil => exact ⟨rfl, by simpa [fieldTokens, separated] using h⟩
    | cons g gs => simp [fieldTokens, separated, FieldText.tokens] at h
  | cons f fs =>
    cases gs with
    | nil => simp [fieldTokens, separated, FieldText.tokens] at h
    | cons g gs =>
      simp only [fieldTokens, separated, List.append_assoc] at h
      obtain ⟨rfl, hrest⟩ :=
        FieldText.tokens_append_inj (by cases fs <;> simp) (by cases gs <;> simp) h
      obtain ⟨rfl, huv⟩ := furtherFields_append_inj hrest
      exact ⟨rfl, huv⟩

end Written

/-- A declaration of a table, as it is written. -/
def declarationTokens (table : String) (fields : List FieldText) : List Token :=
  [.keyword .create, .keyword .table, .ident table, .openParen] ++ fieldTokens fields ++
    [.closeParen]

theorem Statement.ofTokens_declarationTokens {table : String} {fields : List FieldText}
    {p : Statement} (hne : fields ≠ []) :
    ofTokens (declarationTokens table fields) = .ok p ↔ (Shape.create table fields).Denotes p := by
  constructor
  · intro h
    obtain ⟨form, rest, shape, hform, hp, hrest, -⟩ := exists_form_of_ofTokens h
    cases hform with
    | create =>
      simp only [declarationTokens, List.cons_append, List.nil_append, List.append_assoc,
        List.cons.injEq, Token.ident.injEq, true_and] at hrest
      obtain ⟨rfl, hfields⟩ := hrest
      obtain ⟨rfl, -⟩ := fieldTokens_append_inj hfields
      exact hp
    | _ => simp [declarationTokens] at hrest
  · exact ofTokens_of_isForm (.create hne)

/-- What a declaration denotes passes the checks of a schema. -/
theorem Shape.Denotes.wellFormed {shape : Shape} {s : Schema} (h : shape.Denotes (.create s)) :
    s.WellFormed := by
  cases h with
  | @create table fields columns key kinds distinct oneKey =>
    have hnames := map_name_of_declares kinds
    have hkey : key ∈ fields.filter FieldText.isKey := oneKey ▸ List.mem_singleton_self key
    have hmem := List.mem_map_of_mem (f := FieldText.name) (List.mem_of_mem_filter hkey)
    rw [hnames] at distinct hmem
    exact ⟨distinct, hmem⟩

theorem declares_functional : Relator.RightUnique FieldText.Declares := by
  rintro f ⟨name, kind⟩ ⟨name', kind'⟩ ⟨rfl, hkind⟩ ⟨rfl, hkind'⟩
  rw [hkind, Option.some.injEq] at hkind'
  exact congrArg _ hkind'

namespace Schema

variable {s : Schema} {fields : List FieldText} {p : Statement}

/-- The fields write the columns of a schema one by one, and mark each that has the name of the
primary key. -/
def WrittenAs (s : Schema) (fields : List FieldText) : Prop :=
  List.Forall₂ (fun f c => f.Declares c ∧ (f.isKey ↔ c.name = s.primaryKey)) fields s.columns

/-- The fields of a schema, each kind by its name. -/
def fieldTexts (s : Schema) : List FieldText :=
  s.columns.map fun c => ⟨c.name, c.kind.name, c.name = s.primaryKey⟩

theorem writtenAs_fieldTexts (s : Schema) : s.WrittenAs s.fieldTexts := by
  rw [WrittenAs, fieldTexts, List.forall₂_map_left_iff, List.forall₂_same]
  intro c _
  exact ⟨⟨rfl, c.kind.ofName?_name⟩, decide_eq_true_iff⟩

theorem WrittenAs.declares (h : s.WrittenAs fields) :
    List.Forall₂ FieldText.Declares fields s.columns :=
  h.imp fun _ _ hf => hf.1

theorem WrittenAs.ne_nil (h : s.WrittenAs fields) (hne : s.columns ≠ []) : fields ≠ [] := by
  rintro rfl
  exact hne (List.forall₂_nil_left_iff.1 h)

theorem WrittenAs.map_name_filter (h : s.WrittenAs fields) :
    (fields.filter FieldText.isKey).map FieldText.name =
      s.columnNames.filter fun name => name = s.primaryKey := by
  unfold WrittenAs at h
  unfold columnNames
  generalize s.columns = columns at h
  induction h with
  | nil => rfl
  | cons hf _ ih =>
    simp only [List.map_cons, List.filter_cons, decide_eq_true_eq, ← hf.2]
    split
    · rw [List.map_cons, ih, hf.1.1]
    · exact ih

/-- What is written denotes the creation of the schema, if the schema is well formed. -/
theorem WrittenAs.denotes_iff (h : s.WrittenAs fields) :
    (Shape.create s.name fields).Denotes p ↔ s.WellFormed ∧ p = .create s := by
  have hkeys := h.map_name_filter
  constructor
  · intro hp
    have hcreate : p = .create s := by
      obtain @⟨_, _, columns, key, kinds, -, oneKey⟩ := hp
      obtain rfl : columns = s.columns := declares_functional.forall₂ kinds h.declares
      rw [oneKey, List.map_singleton] at hkeys
      have hkey := List.of_mem_filter (hkeys ▸ List.mem_singleton_self key.name)
      rw [of_decide_eq_true hkey]
    subst hcreate
    exact ⟨hp.wellFormed, rfl⟩
  · rintro ⟨hwf, rfl⟩
    rw [List.filter_eq, List.count_eq_one_of_mem hwf.names_nodup hwf.key_mem,
      List.replicate_one] at hkeys
    obtain ⟨key, oneKey, hname⟩ := List.map_eq_singleton_iff.1 hkeys
    have hdistinct : (fields.map FieldText.name).Nodup :=
      map_name_of_declares h.declares ▸ hwf.names_nodup
    have hdenotes : (Shape.create s.name fields).Denotes (.create ⟨s.name, s.columns, key.name⟩) :=
      .create h.declares hdistinct oneKey
    rwa [hname] at hdenotes

/-! ## Faults of a declaration -/

variable {column : String} {columns : List String} {filter : Option Condition} {v : Value}
  {values : NewRow} {e : Error}

theorem Incomparable.not_ofDeclaration (h : s.Incomparable column v e) : ¬ e.OfDeclaration := by
  intro he
  cases h <;> cases he

theorem RefusesQuery.not_ofDeclaration (h : s.RefusesQuery columns filter e) :
    ¬ e.OfDeclaration := by
  cases h with
  | column => exact nofun
  | condition _ _ incomparable => exact incomparable.not_ofDeclaration

theorem RefusesRow.not_ofDeclaration (h : s.RefusesRow values e) : ¬ e.OfDeclaration := by
  cases h with
  | count => exact nofun
  | key => exact nofun
  | misfit _ _ first =>
    obtain ⟨_, -, hmisfit⟩ := first.misfit
    intro he
    cases hmisfit <;> cases he

end Schema

namespace Catalog

variable {c : Catalog} {s : Schema} {p : Statement} {e : Error}

/-- A well-formed schema is refused for its name only. -/
theorem createTable_eq_error (hwf : s.WellFormed) :
    c.createTable s = .error e ↔ c.get? s.name ≠ none ∧ e = .tableAlreadyExists s.name := by
  cases hname : c.get? s.name with
  | none =>
    rw [createTable_eq_ok.2 ⟨hwf, hname, rfl⟩]
    simp
  | some t =>
    simp [createTable, SortedMap.contains, hname, hwf.key_mem, bind, Except.bind, throw, throwThe,
      MonadExceptOf.throw, eq_comm]

/-- A fault of a declaration is found in nothing but the creation of an ill-formed schema. -/
theorem not_wellFormed_of_effect (h : c.Sound) (hp : c.effect p = .error e)
    (he : e.OfDeclaration) : ∃ s, p = .create s ∧ ¬ s.WellFormed := by
  have hselect {name columns filter} : c.selectRows name columns filter ≠ .error e := by
    intro hq
    cases ht : c.get? name with
    | none =>
      rw [selectRows, table_bind_of_get?_none ht] at hq
      cases hq
      cases he
    | some t =>
      exact absurd he ((selectRows_eq_error ht (h.tables name t ht)).1 hq).not_ofDeclaration
  cases p with
  | create s =>
    refine ⟨s, rfl, fun hwf => ?_⟩
    obtain ⟨-, rfl⟩ := (createTable_eq_error hwf).1 hp
    cases he
  | select name columns filter => exact absurd hp hselect
  | delete name filter => exact absurd (effect_delete_eq_error.1 hp) hselect
  | insert name values =>
    cases ht : c.get? name with
    | none =>
      rw [effect, insertRow, table_bind_of_get?_none ht] at hp
      cases hp
      cases he
    | some t =>
      exact absurd he ((insertRow_eq_error ht (h.tables name t ht)).1 hp).not_ofDeclaration
  | drop name =>
    simp only [effect, dropTable, Except.bind_eq_error, table_eq_error, pure, Except.pure,
      reduceCtorEq, and_false, exists_false, or_false] at hp
    obtain ⟨-, rfl⟩ := hp
    cases he

/-- The parser accepts the declaration of a schema exactly if the schema passes its own check, and
reads its creation. So after every history a creation that was read is accepted if its name is free
and refused for a taken name otherwise, and no statement that was read has a fault of a
declaration. -/
theorem creation_checks_agree :
    (∀ (s : Schema) (fields : List FieldText), s.columns ≠ [] → s.WrittenAs fields →
      let read := Statement.ofTokens (declarationTokens s.name fields)
      ((∃ p, read = .ok p) ↔ s.WellFormed) ∧ ((∃ t, Table.ofSchema s = .ok t) ↔ s.WellFormed) ∧
        ∀ p, read = .ok p → p = .create s) ∧
    ∀ (history : List Statement) (tokens : List Token) (p : Statement),
      Statement.ofTokens tokens = .ok p →
      let c := empty.run history
      let outcome := (c.execute p).outcome
      (∀ s, p = .create s →
        (∀ a, outcome = .ok a ↔ c.get? s.name = none ∧ a = .tableCreated s.name) ∧
        ∀ e, outcome = .error e ↔ c.get? s.name ≠ none ∧ e = .tableAlreadyExists s.name) ∧
      ∀ e, outcome = .error e → ¬ e.OfDeclaration := by
  refine ⟨fun s fields hne hfields => ?_, fun history tokens p hp => ?_⟩
  · simp only [Statement.ofTokens_declarationTokens (hfields.ne_nil hne), hfields.denotes_iff,
      ofSchema_eq_ok, exists_and_left, exists_eq, and_true, and_imp, imp_self, implies_true]
  · intro c outcome
    obtain ⟨-, -, shape, -, hdenotes, -⟩ := Statement.exists_form_of_ofTokens hp
    have hsound : c.Sound := sound_empty.run history
    refine ⟨?_, fun e he hfault => ?_⟩
    · rintro s rfl
      have hwf := hdenotes.wellFormed
      refine ⟨fun a => ?_, fun e => outcome_eq_error.trans (createTable_eq_error hwf)⟩
      rw [outcome_eq_ok]
      constructor
      · rintro ⟨r, hr, rfl⟩
        obtain ⟨-, hname, rfl⟩ := createTable_eq_ok.1 hr
        exact ⟨hname, rfl⟩
      · rintro ⟨hname, rfl⟩
        exact ⟨_, createTable_eq_ok.2 ⟨hwf, hname, rfl⟩, rfl⟩
    · obtain ⟨s, rfl, hs⟩ :=
        not_wellFormed_of_effect hsound (outcome_eq_error.1 he) hfault
      exact hs hdenotes.wellFormed

/-- Notes are declared, and declared once more; two columns of one name are no declaration. -/
theorem creation_checks_agree_notes :
    let notes : Schema := ⟨"notes", [⟨"id", .integer⟩, ⟨"text", .string⟩], "id"⟩
    let fields : List FieldText := [⟨"id", "Integer", true⟩, ⟨"text", "STRING", false⟩]
    let twice : Schema := ⟨"notes", [⟨"id", .integer⟩, ⟨"id", .string⟩], "id"⟩
    notes.WrittenAs fields ∧
      Statement.ofTokens (declarationTokens "notes" fields) = .ok (.create notes) ∧
      (¬ ∃ p, Statement.ofTokens (declarationTokens "notes" twice.fieldTexts) = .ok p) ∧
      (¬ ∃ t, Table.ofSchema twice = .ok t) ∧
      (empty.execute (.create notes)).outcome = .ok (.tableCreated "notes") ∧
      ((empty.run [.create notes]).execute (.create notes)).outcome =
        .error (.tableAlreadyExists "notes") := by
  intro notes fields twice
  obtain ⟨hdeclared, hexecuted⟩ := creation_checks_agree
  have hnotes : notes.WrittenAs fields :=
    .cons ⟨⟨rfl, by decide +kernel⟩, by decide⟩ (.cons ⟨⟨rfl, by decide +kernel⟩, by decide⟩ .nil)
  obtain ⟨hreads, -, hread⟩ := hdeclared notes fields (by decide) hnotes
  obtain ⟨p, hp⟩ := hreads.2 ⟨by decide, by decide⟩
  obtain rfl : p = .create notes := hread p hp
  obtain ⟨hparsed, hbuilt, -⟩ := hdeclared twice _ (by decide) twice.writtenAs_fieldTexts
  have hrepeated : ¬ twice.WellFormed := fun hwf => absurd hwf.names_nodup (by decide)
  refine ⟨hnotes, hp, mt hparsed.1 hrepeated, mt hbuilt.1 hrepeated, ?_, ?_⟩
  · exact (((hexecuted [] _ _ hp).1 notes rfl).1 _).2 ⟨by decide +kernel, rfl⟩
  · exact (((hexecuted [.create notes] _ _ hp).1 notes rfl).2 _).2 ⟨by decide +kernel, rfl⟩

end Catalog

end RowStore
