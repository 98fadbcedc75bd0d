import RowStore.Proofs.Statement.Prefixes

/-!
# Where the grammar refuses a list of tokens

Tokens of a form are read, or refused for a kind, a name or a count, but not by the grammar. So
where the grammar does refuse, no sentence begins with the tokens up to the one pointed at: a
sentence would have to agree with them there, and the parser looks no further.
-/

namespace RowStore

/-- The faults of tokens that are a sentence all the same. -/
inductive Error.BeyondGrammar : Error → Prop
  | unknownKind {name} : BeyondGrammar (.unknownKind name)
  | duplicateColumn {column} : BeyondGrammar (.duplicateColumn column)
  | duplicatePrimaryKey {first second} : BeyondGrammar (.duplicatePrimaryKey first second)
  | primaryKeyNotDefined {table} : BeyondGrammar (.primaryKeyNotDefined table)
  | columnCountMismatch {columns values} : BeyondGrammar (.columnCountMismatch columns values)

namespace Parser

variable {α β : Type} {p : Parser α} {f : α → Parser β} {x : α} {ts mid rest : List Token}

/-- The grammar lets the parser go from `ts` to `rest`. -/
def Passes (p : Parser α) (ts rest : List Token) : Prop :=
  ∀ n, (∃ x m, p ⟨n, ts⟩ = .ok (x, ⟨m, rest⟩)) ∨ ∃ e : Error, e.BeyondGrammar ∧ p ⟨n, ts⟩ = .error e

theorem Reads.passes (h : p.Reads ts x rest) : p.Passes ts rest := by
  intro n
  obtain ⟨m, hm⟩ := h n
  exact .inl ⟨x, m, hm⟩

theorem passes_throw {e : Error} (he : e.BeyondGrammar) : (throw e : Parser α).Passes ts rest :=
  fun _ => .inr ⟨e, he, rfl⟩

theorem Passes.bind (hp : p.Passes ts mid) (hf : ∀ x, (f x).Passes mid rest) :
    (p >>= f).Passes ts rest := by
  intro n
  rcases hp n with ⟨x, m, hx⟩ | ⟨e, he, hx⟩
  · rcases hf x m with ⟨y, k, hy⟩ | ⟨e, he, hy⟩
    · exact .inl ⟨y, k, bind_eq_ok.2 ⟨x, ⟨m, mid⟩, hx, hy⟩⟩
    · exact .inr ⟨e, he, bind_eq_error.2 (.inr ⟨x, ⟨m, mid⟩, hx, hy⟩)⟩
  · exact .inr ⟨e, he, bind_eq_error.2 (.inl hx)⟩

theorem Reads.bind_passes (hp : p.Reads ts x mid) (hf : (f x).Passes mid rest) :
    (p >>= f).Passes ts rest := by
  intro n
  obtain ⟨m, hm⟩ := hp n
  rcases hf m with ⟨y, k, hy⟩ | ⟨e, he, hy⟩
  · exact .inl ⟨y, k, bind_eq_ok.2 ⟨x, ⟨m, mid⟩, hm, hy⟩⟩
  · exact .inr ⟨e, he, bind_eq_error.2 (.inr ⟨x, ⟨m, mid⟩, hm, hy⟩)⟩

/-! ## Declarations -/

theorem passes_checkField (earlier : List Field) (x : Field) (rest : List Token) :
    (checkField earlier x).Passes rest rest := by
  unfold checkField
  split
  · exact passes_throw .duplicateColumn
  · split
    · split
      · exact passes_throw .duplicatePrimaryKey
      · exact (reads_pure _ _).passes
    · exact (reads_pure _ _).passes

theorem passes_field (earlier : List Field) (f : FieldText)
    (hrest : rest.head? ≠ some (.keyword .primary)) :
    (field earlier).Passes (f.tokens ++ rest) rest := by
  rw [field_eq]
  refine (reads_ident f.name).bind_passes ((reads_ident f.kind).bind_passes ?_)
  split
  · exact passes_throw .unknownKind
  · exact (reads_keyMark f.isKey hrest).bind_passes (passes_checkField _ _ _)

variable {item : List α → Parser α} {tokens : β → List Token}

theorem passes_moreItems
    (hitem : ∀ earlier b rest, rest.head? ≠ some (.keyword .primary) →
      (item earlier).Passes (tokens b ++ rest) rest)
    (hcomma : rest.head? ≠ some .comma) (hprimary : rest.head? ≠ some (.keyword .primary))
    (bs : List β) (earlier : List α) {n : Nat} (hn : bs.length ≤ n) :
    (moreItems item earlier n).Passes ((bs.flatMap fun b => .comma :: tokens b) ++ rest) rest := by
  induction bs generalizing earlier n with
  | nil =>
    cases n with
    | zero => exact (reads_pure _ _).passes
    | succ n =>
      intro k
      rw [List.flatMap_nil, List.nil_append, moreItems, accept_bind_of_ne hcomma]
      exact (reads_pure _ rest).passes k
  | cons b bs ih =>
    cases n with
    | zero => simp at hn
    | succ n =>
      simp only [List.flatMap_cons, List.cons_append, List.append_assoc]
      intro k
      rw [moreItems, accept_bind_cons]
      refine Passes.bind (hitem earlier b _ ?_) (fun x => ih _ (Nat.le_of_succ_le_succ hn)) (k + 1)
      cases bs <;> simp [hprimary]

theorem passes_commaSeparated
    (hitem : ∀ earlier b rest, rest.head? ≠ some (.keyword .primary) →
      (item earlier).Passes (tokens b ++ rest) rest)
    (hcomma : rest.head? ≠ some .comma) (hprimary : rest.head? ≠ some (.keyword .primary))
    {bs : List β} (hne : bs ≠ []) :
    (commaSeparated item).Passes (separated tokens bs ++ rest) rest := by
  cases bs with
  | nil => exact absurd rfl hne
  | cons b bs =>
    rw [separated, List.append_assoc]
    refine (hitem [] b _ ?_).bind fun x n => ?_
    · cases bs <;> simp [hprimary]
    · refine passes_moreItems hitem hcomma hprimary bs [x] ?_ n
      have hlen := length_le_length_flatMap tokens bs
      simp only [List.length_append]
      omega

/-! ## Sentences -/

theorem passes_pairUp (columns : List String) (vs : List Value) (rest : List Token) :
    (liftM (pairUp columns vs) : Parser Row).Passes rest rest := by
  unfold pairUp
  split
  · exact passes_throw .columnCountMismatch
  · split
    · exact passes_throw .duplicateColumn
    · exact (reads_pure _ _).passes

theorem statement_cons {t : Token} {p : Parser Statement} (h : afterVerb? t = some p) (n : Nat)
    (ts : List Token) : statement ⟨n, t :: ts⟩ = p ⟨n + 1, ts⟩ := by
  simp [statement, next, h, bind, StateT.bind, Except.bind]

theorem passes_statement {form : List Token} {shape : Shape} (hform : IsForm form shape)
    (hrest : rest.head? ≠ some (.keyword .where)) : statement.Passes (form ++ rest) rest := by
  have hdenotes {s : Statement} (hs : shape.Denotes s) : statement.Passes (form ++ rest) rest :=
    (reads_statement hform hs hrest).passes
  cases hform with
  | @create table fields hne =>
    simp only [List.append_assoc, List.cons_append, List.nil_append]
    intro n
    rw [statement_cons rfl]
    refine Reads.bind_passes (reads_expect _) ((reads_ident table).bind_passes
      ((reads_expect _).bind_passes ?_)) (n + 1)
    refine (passes_commaSeparated (fun earlier f _ => passes_field earlier f) (by simp) (by simp)
      hne).bind fun xs => (reads_expect _).bind_passes ?_
    split
    · exact (reads_pure _ _).passes
    · exact passes_throw .primaryKeyNotDefined
  | selectAll => exact hdenotes .select
  | select => exact hdenotes .select
  | insert => exact hdenotes .insert
  | @insertColumns table columns word values hcolumns hword hne =>
    simp only [List.append_assoc, List.cons_append, List.nil_append]
    intro n
    rw [statement_cons rfl, insert_eq]
    refine Reads.bind_passes (reads_expect _) ((reads_ident table).bind_passes
      ((reads_optionalColumns hcolumns).bind_passes ((reads_values hword).bind_passes
      ((reads_expect _).bind_passes ?_)))) (n + 1)
    refine (reads_literals hne (by simp) (by simp)).bind_passes ((reads_expect _).bind_passes ?_)
    exact (passes_pairUp _ _ rest).bind fun row => (reads_pure _ _).passes
  | delete => exact hdenotes .delete
  | drop => exact hdenotes .drop

theorem passes_complete {shape : Shape} (h : Sentence ts shape) : complete.Passes ts [] := by
  obtain ⟨form, hform, hts⟩ := h
  have hread {rest : List Token} (hrest : rest = [] ∨ rest = [.semicolon]) :
      complete.Passes (form ++ rest) [] := by
    have hwhere : rest.head? ≠ some (.keyword .where) := by
      rcases hrest with rfl | rfl <;> simp
    refine (passes_statement hform hwhere).bind fun s => ?_
    exact (reads_ending hrest).bind_passes (reads_pure _ _).passes
  rcases hts with rfl | rfl
  · simpa using hread (.inl rfl)
  · exact hread (.inr rfl)

end Parser

namespace Statement

variable {tokens : List Token} {shape : Shape}

/-- A sentence is read, or refused for a fault beyond the grammar. -/
theorem ofTokens_of_sentence (h : Sentence tokens shape) :
    (∃ s, ofTokens tokens = .ok s) ∨ ∃ e, ofTokens tokens = .error e ∧ e.BeyondGrammar := by
  rcases Parser.passes_complete h 0 with ⟨s, m, hs⟩ | ⟨e, he, hs⟩
  · exact .inl ⟨s, ofTokens_eq_ok.2 ⟨_, hs⟩⟩
  · exact .inr ⟨e, ofTokens_eq_error.2 hs, he⟩

theorem not_sentence {n : Nat} {fault : GrammarFault}
    (h : ofTokens tokens = .error (.malformed n fault)) (shape : Shape) :
    ¬ Sentence tokens shape := by
  intro hsentence
  rcases ofTokens_of_sentence hsentence with ⟨s, hs⟩ | ⟨e, hs, he⟩
  · rw [h] at hs
    cases hs
  · rw [h] at hs
    cases hs
    cases he

theorem sentence_of_ofTokens {s : Statement} (h : ofTokens tokens = .ok s) :
    ∃ shape, Sentence tokens shape := by
  obtain ⟨form, rest, shape, hform, -, rfl, hrest⟩ := exists_form_of_ofTokens h
  refine ⟨shape, form, hform, ?_⟩
  rcases hrest with rfl | rfl
  · exact .inl (List.append_nil form)
  · exact .inr rfl

/-- The tokens begin a sentence. -/
def Viable (tokens : List Token) : Prop := ∃ rest shape, Sentence (tokens ++ rest) shape

/-- A refusal by the grammar points at the first token with which the tokens begin no sentence, or
at their end. What is a sentence is never refused by the grammar, and nothing else is read. -/
theorem malformed_position (tokens : List Token) :
    (∀ position fault, ofTokens tokens = .error (.malformed position fault) →
      (∀ shape, ¬ Sentence tokens shape) ∧ position ≤ tokens.length ∧
      Viable (tokens.take position) ∧
      (position < tokens.length → ¬ Viable (tokens.take (position + 1)))) ∧
    (∀ shape, Sentence tokens shape →
      (∃ s, ofTokens tokens = .ok s) ∨ ∃ e, ofTokens tokens = .error e ∧ e.BeyondGrammar) ∧
    ∀ s, ofTokens tokens = .ok s → ∃ shape, Sentence tokens shape := by
  refine ⟨fun position fault h => ?_, fun shape => ofTokens_of_sentence, fun s =>
    sentence_of_ofTokens⟩
  obtain ⟨w, after, rfl, rfl, ⟨v, shape, hv⟩, hlocal⟩ := ofTokens_stops h
  refine ⟨not_sentence h, by simp, ⟨v, shape, by rwa [List.take_left]⟩, ?_⟩
  rintro hlt ⟨rest, shape', hsentence⟩
  -- A sentence that begins so would have to be refused at the same token.
  cases after with
  | nil => simp at hlt
  | cons t after =>
    rw [List.take_length_add_append, List.take_succ_cons, List.take_zero, List.append_assoc,
      List.singleton_append] at hsentence
    exact not_sentence (hlocal (t :: rest) rfl) shape' hsentence

/-- A mark of the primary key that is cut short; and a column that is named twice. -/
theorem malformed_position_samples :
    let cut : List Token := [.keyword .create, .keyword .table, .ident "notes", .openParen,
      .ident "id", .ident "integer", .keyword .primary, .comma, .ident "text"]
    let twice : List Token := [.keyword .insert, .keyword .into, .ident "notes", .openParen,
      .ident "id", .comma, .ident "id", .closeParen, .ident "values", .openParen, .integer 1,
      .comma, .integer 2, .closeParen]
    ofTokens cut =
        .error (.malformed 7 (.unexpected (.token (.keyword .key)) (some .comma))) ∧
      Viable (cut.take 7) ∧ ¬ Viable (cut.take 8) ∧
      Sentence twice (.insert "notes" (some ["id", "id"]) [.integer 1, .integer 2]) ∧
      ∃ e, ofTokens twice = .error e ∧ e.BeyondGrammar := by
  intro cut twice
  have hcut : ofTokens cut =
      .error (.malformed 7 (.unexpected (.token (.keyword .key)) (some .comma))) := by
    decide +kernel
  obtain ⟨-, -, hviable, hnot⟩ := (malformed_position cut).1 _ _ hcut
  have hword : IsValuesWord "values" := isValuesWord_iff.2 (by decide +kernel)
  have hform : IsForm _ (.insert "notes" (some ["id", "id"]) [.integer 1, .integer 2]) :=
    .insertColumns (by simp) hword (by simp)
  have hsentence : Sentence twice (.insert "notes" (some ["id", "id"]) [.integer 1, .integer 2]) :=
    ⟨_, hform, .inl rfl⟩
  refine ⟨hcut, hviable, hnot (by decide), hsentence, ?_⟩
  rcases (malformed_position twice).2.1 _ hsentence with ⟨s, hs⟩ | hrefused
  · have htwice : ofTokens twice = .error (.duplicateColumn "id") := by decide +kernel
    rw [htwice] at hs
    cases hs
  · exact hrefused

end Statement

end RowStore
