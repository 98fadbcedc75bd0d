import RowStore.Proofs.Statement.Reading
import RowStore.Proofs.SortedMap

/-!
# Laws of the parts of a statement

What fields, lists of names, conditions and the optional parts of a statement take from the tokens,
and what they read. Where a parser mixes a part with what comes after it, it is shown to equal one
that reads the part by itself.
-/

namespace RowStore

open List (Forall₂)

/-- The field that a text is read as. -/
def FieldText.ReadAs (f : FieldText) (x : Parser.Field) : Prop :=
  f.Declares x.column ∧ x.isKey = f.isKey

theorem map_name_of_declares {fields : List FieldText} {columns : List Column}
    (h : Forall₂ FieldText.Declares fields columns) :
    fields.map FieldText.name = columns.map Column.name := by
  induction h with
  | nil => rfl
  | cons hf _ ih => rw [List.map_cons, List.map_cons, ih, hf.1]

namespace Parser

variable {c c' : Cursor} {rest : List Token}

/-! ## Fields -/

/-- Two fields that can stand in one declaration. -/
def Field.Compatible (x y : Field) : Prop :=
  x.column.name ≠ y.column.name ∧ ¬(x.isKey ∧ y.isKey)

/-- A text is read as a field that can stand behind the earlier ones. -/
def ReadsField (earlier : List Field) (f : FieldText) (x : Field) : Prop :=
  f.ReadAs x ∧ ∀ y ∈ earlier, y.Compatible x

/-- The mark of the primary key, if it is there. -/
def keyMark : Parser Bool := do
  if ← accept (.keyword .primary) then
    expect (.keyword .key)
    return true
  else return false

/-- A field that can stand in one declaration with those before it. -/
def checkField (earlier : List Field) (x : Field) : Parser Field :=
  if earlier.any fun f => f.column.name = x.column.name then throw (.duplicateColumn x.column.name)
  else
    match earlier.find? Field.isKey with
    | some first =>
      if x.isKey then throw (.duplicatePrimaryKey first.column.name x.column.name) else pure x
    | none => pure x

/-- A field is read, and only then compared with those before it. -/
theorem field_eq (earlier : List Field) : field earlier = (do
    let name ← ident
    let word ← ident
    match Kind.ofName? word with
    | none => throw (.unknownKind word)
    | some kind => do
      let isKey ← keyMark
      checkField earlier ⟨⟨name, kind⟩, isKey⟩) := by
  unfold field keyMark
  refine congrArg _ (funext fun name => congrArg _ (funext fun word => ?_))
  cases Kind.ofName? word with
  | none => rfl
  | some kind =>
    simp only [bind_assoc]
    refine congrArg _ (funext fun isKey => ?_)
    cases isKey with
    | true =>
      simp only [if_true, bind_assoc, pure_bind]
      refine congrArg _ (funext fun _ => ?_)
      unfold checkField
      split <;> rfl
    | false =>
      simp only [Bool.false_eq_true, if_false, pure_bind]
      unfold checkField
      split <;> rfl

theorem keyMark_rest {b : Bool} (h : keyMark c = .ok (b, c')) :
    c.rest = (if b then [.keyword .primary, .keyword .key] else []) ++ c'.rest := by
  obtain ⟨marked, d, haccept, h⟩ := bind_eq_ok.1 h
  cases marked with
  | false =>
    obtain ⟨rfl, rfl⟩ := pure_eq_ok.1 h
    rw [accept_false_eq haccept]
    rfl
  | true =>
    obtain ⟨_, e, hkey, h⟩ := bind_eq_ok.1 h
    obtain ⟨rfl, rfl⟩ := pure_eq_ok.1 h
    rw [accept_true_rest haccept, expect_rest hkey]
    rfl

theorem reads_keyMark (b : Bool) (h : rest.head? ≠ some (.keyword .primary)) :
    keyMark.Reads ((if b then [.keyword .primary, .keyword .key] else []) ++ rest) b rest := by
  cases b with
  | false => exact (reads_accept_of_ne h).bind (reads_pure _ _)
  | true => exact (reads_accept _).bind ((reads_expect _).bind (reads_pure _ _))

variable {x y : Field} {earlier : List Field}

theorem checkField_eq_ok :
    checkField earlier x c = .ok (y, c') ↔ (∀ z ∈ earlier, z.Compatible x) ∧ x = y ∧ c = c' := by
  have accepts (h : ∀ z ∈ earlier, z.Compatible x) : (pure x : Parser Field) c = .ok (y, c') ↔
      (∀ z ∈ earlier, z.Compatible x) ∧ x = y ∧ c = c' := by
    rw [pure_eq_ok]
    exact (and_iff_right h).symm
  unfold checkField
  split
  · next hany =>
    obtain ⟨z, hz, hname⟩ := List.any_eq_true.1 hany
    refine iff_of_false throw_ne_ok ?_
    intro h
    exact (h.1 z hz).1 (of_decide_eq_true hname)
  · next hany =>
    have hnames : ∀ z ∈ earlier, z.column.name ≠ x.column.name := by simpa using hany
    cases hfind : earlier.find? Field.isKey with
    | none =>
      have hkeys : ∀ z ∈ earlier, ¬z.isKey := List.find?_eq_none.1 hfind
      apply accepts
      intro z hz
      exact ⟨hnames z hz, fun hk => hkeys z hz hk.1⟩
    | some first =>
      have hfirst : first.isKey := List.find?_some hfind
      have hmem : first ∈ earlier := List.mem_of_find?_eq_some hfind
      by_cases hx : x.isKey
      · simp only [hx, if_true]
        refine iff_of_false throw_ne_ok ?_
        intro h
        exact (h.1 first hmem).2 ⟨hfirst, hx⟩
      · simp only [if_neg hx]
        apply accepts
        intro z hz
        exact ⟨hnames z hz, fun hk => hx hk.2⟩

theorem field_rest (h : field earlier c = .ok (x, c')) :
    ∃ f, ReadsField earlier f x ∧ c.rest = f.tokens ++ c'.rest := by
  rw [field_eq] at h
  obtain ⟨name, d, hname, h⟩ := bind_eq_ok.1 h
  obtain ⟨word, e, hword, h⟩ := bind_eq_ok.1 h
  rw [ident_rest hname, ident_rest hword]
  cases hkind : Kind.ofName? word with
  | none => simp [hkind, throw_ne_ok] at h
  | some kind =>
    simp only [hkind] at h
    obtain ⟨isKey, g, hmark, h⟩ := bind_eq_ok.1 h
    obtain ⟨hearlier, rfl, rfl⟩ := checkField_eq_ok.1 h
    exact ⟨⟨name, word, isKey⟩, ⟨⟨⟨rfl, hkind⟩, rfl⟩, hearlier⟩, by rw [keyMark_rest hmark]; rfl⟩

theorem reads_field {f : FieldText} (hf : ReadsField earlier f x)
    (hrest : rest.head? ≠ some (.keyword .primary)) :
    (field earlier).Reads (f.tokens ++ rest) x rest := by
  obtain ⟨⟨⟨hname, hkind⟩, hkey⟩, hearlier⟩ := hf
  rw [field_eq]
  refine (reads_ident f.name).bind ((reads_ident f.kind).bind ?_)
  simp only [hkind]
  refine (reads_keyMark f.isKey hrest).bind fun n => ⟨n, checkField_eq_ok.2 ?_⟩
  rw [← hname, ← hkey]
  exact ⟨hearlier, rfl, rfl⟩

/-! ## Lists -/

theorem names_rest {columns : List String} (h : names c = .ok (columns, c')) :
    columns ≠ [] ∧ c.rest = nameTokens columns ++ c'.rest := by
  obtain ⟨names, hne, hread, hrest⟩ :=
    commaSeparated_rest (fun _ b x => id b = x) (fun name => [.ident name])
      (fun _ _ x _ h => ⟨x, rfl, ident_rest h⟩) h
  obtain rfl := readAfter_map.1 hread
  rw [List.map_id]
  exact ⟨hne, hrest⟩

theorem reads_names {columns : List String} (hne : columns ≠ [])
    (hcomma : rest.head? ≠ some .comma) (hprimary : rest.head? ≠ some (.keyword .primary)) :
    names.Reads (nameTokens columns ++ rest) columns rest :=
  reads_commaSeparated (fun _ b x => id b = x) (fun name => [.ident name])
    (by rintro _ name _ rest rfl -; exact reads_ident name)
    hcomma hprimary hne (readAfter_map.2 (List.map_id _))

theorem literals_rest {vs : List Value} (h : commaSeparated (fun _ => literal) c = .ok (vs, c')) :
    ∃ ls, ls ≠ [] ∧ ls.map Literal.value = vs ∧ c.rest = literalTokens ls ++ c'.rest := by
  obtain ⟨ls, hne, hread, hrest⟩ :=
    commaSeparated_rest (fun _ l v => Literal.value l = v) (fun l => [l.token])
      (fun _ _ _ _ h => literal_rest h) h
  exact ⟨ls, hne, readAfter_map.1 hread, hrest⟩

theorem reads_literals {ls : List Literal} (hne : ls ≠ [])
    (hcomma : rest.head? ≠ some .comma) (hprimary : rest.head? ≠ some (.keyword .primary)) :
    (commaSeparated fun _ => literal).Reads (literalTokens ls ++ rest) (ls.map Literal.value)
      rest :=
  reads_commaSeparated (fun _ l v => Literal.value l = v) (fun l => [l.token])
    (by rintro _ l _ rest rfl -; exact reads_literal l)
    hcomma hprimary hne (readAfter_map.2 rfl)

variable {xs : List Field} {fs : List FieldText}

theorem fields_rest (h : commaSeparated field c = .ok (xs, c')) :
    ∃ fs, fs ≠ [] ∧ Forall₂ FieldText.ReadAs fs xs ∧ xs.Pairwise Field.Compatible ∧
      c.rest = fieldTokens fs ++ c'.rest := by
  obtain ⟨fs, hne, hread, hrest⟩ :=
    commaSeparated_rest ReadsField FieldText.tokens (fun _ _ _ _ h => field_rest h) h
  obtain ⟨hfs, hxs, -⟩ := readAfter_iff.1 hread
  exact ⟨fs, hne, hfs, hxs, hrest⟩

theorem reads_fields (hne : fs ≠ []) (hfs : Forall₂ FieldText.ReadAs fs xs)
    (hxs : xs.Pairwise Field.Compatible) (hcomma : rest.head? ≠ some .comma)
    (hprimary : rest.head? ≠ some (.keyword .primary)) :
    (commaSeparated field).Reads (fieldTokens fs ++ rest) xs rest :=
  reads_commaSeparated ReadsField FieldText.tokens (fun _ _ _ _ h => reads_field h)
    hcomma hprimary hne (readAfter_iff.2 ⟨hfs, hxs, by simp⟩)

/-! ## Declarations -/

theorem declares_columns (h : Forall₂ FieldText.ReadAs fs xs) :
    Forall₂ FieldText.Declares fs (xs.map Field.column) :=
  List.forall₂_map_right_iff.2 (h.imp fun _ _ hf => hf.1)

theorem exists_fields {columns : List Column} (h : Forall₂ FieldText.Declares fs columns) :
    ∃ xs, Forall₂ FieldText.ReadAs fs xs ∧ xs.map Field.column = columns := by
  induction h with
  | nil => exact ⟨[], .nil, rfl⟩
  | @cons f column _ _ hf _ ih =>
    obtain ⟨xs, hxs, rfl⟩ := ih
    exact ⟨⟨column, f.isKey⟩ :: xs, .cons ⟨hf, rfl⟩ hxs, rfl⟩

theorem map_name_eq (h : Forall₂ FieldText.ReadAs fs xs) :
    xs.map (·.column.name) = fs.map FieldText.name := by
  rw [map_name_of_declares (declares_columns h), List.map_map]
  rfl

theorem map_name_filter_eq (h : Forall₂ FieldText.ReadAs fs xs) :
    (xs.filter Field.isKey).map (·.column.name) =
      (fs.filter FieldText.isKey).map FieldText.name := by
  induction h with
  | nil => rfl
  | cons hf _ ih =>
    rw [List.filter_cons, List.filter_cons, hf.2]
    split
    · rw [List.map_cons, List.map_cons, ih, hf.1.1]
    · exact ih

theorem pairwise_false_iff {α : Type} {l : List α} :
    l.Pairwise (fun _ _ => False) ↔ l.length ≤ 1 := by
  match l with
  | [] => simp
  | [_] => simp
  | x :: y :: l =>
    exact iff_of_false (fun h => List.rel_of_pairwise_cons h List.mem_cons_self) (by simp)

theorem pairwise_compatible_iff : xs.Pairwise Field.Compatible ↔
    (xs.map (·.column.name)).Nodup ∧ (xs.filter Field.isKey).length ≤ 1 := by
  have hkeys : xs.Pairwise (fun x y => ¬(x.isKey ∧ y.isKey)) ↔
      (xs.filter Field.isKey).length ≤ 1 := by
    rw [← pairwise_false_iff, List.pairwise_filter]
    simp only [not_and]
  rw [← hkeys, List.Nodup, List.pairwise_map, ← List.pairwise_and_iff]
  rfl

/-- One field is marked, and it is the first that is. -/
theorem filter_isKey_eq_singleton {key : Field} :
    xs.filter Field.isKey = [key] ↔
      (xs.filter Field.isKey).length ≤ 1 ∧ xs.find? Field.isKey = some key := by
  rw [← List.head?_filter]
  generalize xs.filter Field.isKey = keys
  match keys with
  | [] => simp
  | [x] => simp
  | x :: y :: zs => simp

/-- A declaration denotes what its fields are read as, the first marked one giving the key. -/
theorem denotes_create_iff {table : String} {s : Statement} :
    (Shape.create table fs).Denotes s ↔
      ∃ xs key, Forall₂ FieldText.ReadAs fs xs ∧ xs.Pairwise Field.Compatible ∧
        xs.find? Field.isKey = some key ∧
        s = .create ⟨table, xs.map Field.column, key.column.name⟩ := by
  constructor
  · intro h
    obtain @⟨_, _, columns, text, kinds, distinct, oneKey⟩ := h
    obtain ⟨xs, hfs, rfl⟩ := exists_fields kinds
    have hkeys := map_name_filter_eq hfs
    rw [oneKey, List.map_singleton] at hkeys
    obtain ⟨key, hkey, hname⟩ := List.map_eq_singleton_iff.1 hkeys
    obtain ⟨hone, hfind⟩ := filter_isKey_eq_singleton.1 hkey
    rw [← map_name_eq hfs] at distinct
    exact ⟨xs, key, hfs, pairwise_compatible_iff.2 ⟨distinct, hone⟩, hfind, hname ▸ rfl⟩
  · intro h
    obtain ⟨xs, key, hfs, hxs, hfind, rfl⟩ := h
    obtain ⟨distinct, hone⟩ := pairwise_compatible_iff.1 hxs
    have hkeys := map_name_filter_eq hfs
    rw [filter_isKey_eq_singleton.2 ⟨hone, hfind⟩, List.map_singleton] at hkeys
    obtain ⟨text, oneKey, hname⟩ := List.map_eq_singleton_iff.1 hkeys.symm
    rw [map_name_eq hfs] at distinct
    exact hname ▸ .create (declares_columns hfs) distinct oneKey

/-! ## Named values -/

theorem pairUp_eq_ok {columns : List String} {vs : List Value} {row : Row} :
    pairUp columns vs = .ok row ↔ columns.Nodup ∧ columns.length = vs.length ∧
      ∀ column v, row.get? column = some v ↔ (column, v) ∈ columns.zip vs := by
  unfold pairUp
  by_cases hlen : columns.length = vs.length
  · rw [if_neg (not_not.2 hlen)]
    have hkeys : (columns.zip vs).map (·.1) = columns := List.map_fst_zip (Nat.le_of_eq hlen)
    cases hrep : firstRepeated? [] columns with
    | some column =>
      refine iff_of_false nofun ?_
      intro h
      have hnone : firstRepeated? [] columns = none := firstRepeated?_eq_none.2 ⟨h.1, by simp⟩
      rw [hnone] at hrep
      cases hrep
    | none =>
      have hnodup : columns.Nodup := (firstRepeated?_eq_none.1 hrep).1
      have hget (column : String) (v : Value) :
          (SortedMap.ofList (columns.zip vs)).get? column = some v ↔
            (column, v) ∈ columns.zip vs :=
        SortedMap.get?_ofList_eq_some (hkeys.symm ▸ hnodup)
      constructor
      · intro h
        cases h
        exact ⟨hnodup, hlen, hget⟩
      · intro h
        obtain ⟨-, -, hrow⟩ := h
        have heq : SortedMap.ofList (columns.zip vs) = row := by
          apply SortedMap.ext_get?
          intro column
          ext v
          rw [hget, hrow]
        rw [heq]
  · rw [if_pos hlen]
    refine iff_of_false nofun ?_
    intro h
    exact hlen h.2.1

/-! ## Parts of a query and of an insertion -/

def selectedColumns : Parser (List String) := do
  if ← accept .asterisk then return []
  else names

def optionalFilter : Parser (Option Condition) := do
  if ← accept (.keyword .where) then some <$> condition
  else return none

def optionalColumns : Parser (Option (List String)) := do
  if ← accept .openParen then
    let columns ← names
    expect .closeParen
    return some columns
  else return none

theorem select_eq : select = (do
    let columns ← selectedColumns
    expect (.keyword .from)
    let table ← ident
    let filter ← optionalFilter
    return .select table columns filter) := by
  unfold select selectedColumns optionalFilter
  simp only [ite_bind, bind_assoc, pure_bind]

theorem insert_eq : insert = (do
    expect (.keyword .into)
    let table ← ident
    let columns ← optionalColumns
    values
    expect .openParen
    let literals ← commaSeparated fun _ => literal
    expect .closeParen
    match columns with
    | none => return .insert table (.positional literals)
    | some columns =>
      let row ← liftM (pairUp columns literals)
      return .insert table (.named row)) := by
  unfold insert optionalColumns
  simp only [ite_bind, bind_assoc, pure_bind]

theorem condition_rest {filter : Condition} (h : condition c = .ok (filter, c')) :
    ∃ text : ConditionText, text.condition = filter ∧ c.rest = text.tokens ++ c'.rest := by
  obtain ⟨column, d, hcolumn, h⟩ := bind_eq_ok.1 h
  obtain ⟨_, e, hequal, h⟩ := bind_eq_ok.1 h
  obtain ⟨v, f, hv, h⟩ := bind_eq_ok.1 h
  obtain ⟨rfl, rfl⟩ := pure_eq_ok.1 h
  obtain ⟨l, rfl, he⟩ := literal_rest hv
  exact ⟨⟨column, l⟩, rfl, by rw [ident_rest hcolumn, expect_rest hequal, he]; rfl⟩

theorem reads_condition (text : ConditionText) :
    condition.Reads (text.tokens ++ rest) text.condition rest :=
  (reads_ident _).bind ((reads_expect _).bind ((reads_literal _).bind (reads_pure _ _)))

theorem optionalFilter_rest {filter : Option Condition} (h : optionalFilter c = .ok (filter, c')) :
    ∃ text : Option ConditionText,
      text.map ConditionText.condition = filter ∧ c.rest = whereTokens text ++ c'.rest := by
  obtain ⟨filtered, d, haccept, h⟩ := bind_eq_ok.1 h
  cases filtered with
  | false =>
    obtain ⟨rfl, rfl⟩ := pure_eq_ok.1 h
    exact ⟨none, rfl, by rw [accept_false_eq haccept]; rfl⟩
  | true =>
    rw [if_pos rfl, ← bind_pure_comp] at h
    obtain ⟨filter, e, hfilter, h⟩ := bind_eq_ok.1 h
    obtain ⟨rfl, rfl⟩ := pure_eq_ok.1 h
    obtain ⟨text, rfl, hd⟩ := condition_rest hfilter
    exact ⟨some text, rfl, by rw [accept_true_rest haccept, hd]; rfl⟩

theorem reads_optionalFilter (text : Option ConditionText)
    (h : rest.head? ≠ some (.keyword .where)) :
    optionalFilter.Reads (whereTokens text ++ rest) (text.map ConditionText.condition) rest := by
  cases text with
  | none => exact (reads_accept_of_ne h).bind (reads_pure _ _)
  | some text => exact (reads_accept _).bind (reads_condition text).map

theorem selectedColumns_rest {columns : List String}
    (h : selectedColumns c = .ok (columns, c')) :
    columns = [] ∧ c.rest = .asterisk :: c'.rest ∨
      columns ≠ [] ∧ c.rest = nameTokens columns ++ c'.rest := by
  obtain ⟨all, d, haccept, h⟩ := bind_eq_ok.1 h
  cases all with
  | false =>
    rw [accept_false_eq haccept] at h
    exact .inr (names_rest h)
  | true =>
    obtain ⟨rfl, rfl⟩ := pure_eq_ok.1 h
    exact .inl ⟨rfl, accept_true_rest haccept⟩

theorem reads_selectedColumns {columns : List String} (hne : columns ≠ [])
    (hcomma : rest.head? ≠ some .comma) (hprimary : rest.head? ≠ some (.keyword .primary)) :
    selectedColumns.Reads (nameTokens columns ++ rest) columns rest := by
  refine (reads_accept_of_ne ?_).bind (reads_names hne hcomma hprimary)
  cases columns with
  | nil => exact absurd rfl hne
  | cons name names => simp [nameTokens, separated]

theorem optionalColumns_rest {columns : Option (List String)}
    (h : optionalColumns c = .ok (columns, c')) :
    columns = none ∧ c.rest = c'.rest ∨ ∃ names, columns = some names ∧ names ≠ [] ∧
      c.rest = .openParen :: nameTokens names ++ .closeParen :: c'.rest := by
  obtain ⟨listed, d, haccept, h⟩ := bind_eq_ok.1 h
  cases listed with
  | false =>
    obtain ⟨rfl, rfl⟩ := pure_eq_ok.1 h
    exact .inl ⟨rfl, by rw [accept_false_eq haccept]⟩
  | true =>
    obtain ⟨names, e, hnames, h⟩ := bind_eq_ok.1 h
    obtain ⟨_, f, hclose, h⟩ := bind_eq_ok.1 h
    obtain ⟨rfl, rfl⟩ := pure_eq_ok.1 h
    obtain ⟨hne, hd⟩ := names_rest hnames
    refine .inr ⟨names, rfl, hne, ?_⟩
    rw [accept_true_rest haccept, hd, expect_rest hclose, List.cons_append]

theorem reads_optionalColumns {columns : List String} (hne : columns ≠ []) :
    optionalColumns.Reads (.openParen :: nameTokens columns ++ .closeParen :: rest) (some columns)
      rest :=
  (reads_accept _).bind
    ((reads_names hne (by simp) (by simp)).bind ((reads_expect _).bind (reads_pure _ _)))

end Parser

end RowStore
