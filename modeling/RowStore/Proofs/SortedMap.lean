import RowStore.SortedMap.Lemmas

/-!
# Sorted maps: insertion of many entries

What `get?` gives after entries have been inserted one after the other. Two cases are enough for a
row store: entries computed from their keys, as in a blank row or a projection, and entries with
different keys, as in the columns of a new row.
-/

namespace RowStore.SortedMap

variable {κ ν : Type} [Ord κ]

/-! ## Views of the entries -/

theorem mem_values_iff [Std.LawfulEqOrd κ] {m : SortedMap κ ν} {v : ν} :
    v ∈ m.values ↔ ∃ k, m.get? k = some v := by
  simp only [values, List.mem_map, get?_eq_some]
  exact ⟨fun ⟨e, he, hv⟩ => ⟨e.1, hv ▸ he⟩, fun ⟨k, hk⟩ => ⟨(k, v), hk, rfl⟩⟩

theorem isSome_get?_iff [Std.LawfulEqOrd κ] {m : SortedMap κ ν} {k : κ} :
    (m.get? k).isSome ↔ k ∈ m.keys := contains_iff

/-- Among entries with different keys look-up finds each. -/
theorem lookup_eq_some_of_nodup [Std.LawfulEqOrd κ] {es : List (κ × ν)} (h : (es.map (·.1)).Nodup)
    {k : κ} {v : ν} : lookup k es = some v ↔ (k, v) ∈ es := by
  induction es with
  | nil => simp [lookup]
  | cons e es ih =>
    obtain ⟨hne, hes⟩ := List.nodup_cons.1 h
    have := ih hes
    grind [lookup, Std.compare_eq_iff_eq]

/-- The map with the same keys and the images of the values. -/
def mapValues {μ : Type} (f : ν → μ) (m : SortedMap κ ν) : SortedMap κ μ :=
  ⟨m.entries.map fun e => (e.1, f e.2), List.pairwise_map.2 m.ascending⟩

theorem keys_mapValues {μ : Type} (f : ν → μ) (m : SortedMap κ ν) :
    (m.mapValues f).keys = m.keys := by
  simp [mapValues, keys]

theorem get?_mapValues {μ : Type} (f : ν → μ) (m : SortedMap κ ν) (k : κ) :
    (m.mapValues f).get? k = (m.get? k).map f := by
  simp only [get?, mapValues]
  induction m.entries with
  | nil => rfl
  | cons e es ih =>
    rw [List.map_cons, lookup, lookup, ih]
    split <;> rfl

/-- An entry comes behind those with lesser keys and before those with greater ones. -/
theorem ascending_split {m : SortedMap κ ν} {before after : List (κ × ν)} {e : κ × ν}
    (h : m.entries = before ++ e :: after) :
    (∀ a ∈ before, compare a.1 e.1 = .lt) ∧ ∀ a ∈ after, compare e.1 a.1 = .lt := by
  have hascending := m.ascending
  rw [h, List.pairwise_append, List.pairwise_cons] at hascending
  exact ⟨fun a ha => hascending.2.2 a ha e List.mem_cons_self, hascending.2.1.1⟩

variable [Std.TransOrd κ] [Std.LawfulEqOrd κ]

/-! ## What a changed map holds -/

section Changes

variable {m : SortedMap κ ν} {j k : κ} {v w : ν}

theorem get?_of_get?_insert [DecidableEq κ] (h : (m.insert k v).get? j = some w) :
    j = k ∧ w = v ∨ m.get? j = some w := by
  rw [get?_insert] at h
  split at h
  · next hj => exact .inl ⟨hj, (Option.some.inj h).symm⟩
  · exact .inr h

omit [Std.TransOrd κ] in
theorem get?_of_get?_erase [DecidableEq κ] (h : (m.erase k).get? j = some w) :
    m.get? j = some w := by
  rw [get?_erase] at h
  split at h
  · cases h
  · exact h

theorem get?_insert_self [DecidableEq κ] (m : SortedMap κ ν) (k : κ) (v : ν) :
    (m.insert k v).get? k = some v := by
  rw [get?_insert, if_pos rfl]

/-- Of two values under one key the later one stays. -/
theorem insert_insert [DecidableEq κ] (m : SortedMap κ ν) (k : κ) (v w : ν) :
    (m.insert k v).insert k w = m.insert k w := by
  apply ext_get?
  intro j
  simp only [get?_insert]
  split <;> rfl

theorem insert_of_get? [DecidableEq κ] (h : m.get? k = some v) : m.insert k v = m := by
  apply ext_get?
  intro j
  rw [get?_insert]
  split
  · next hj => rw [hj, h]
  · rfl

theorem erase_of_get?_eq_none [DecidableEq κ] (h : m.get? k = none) : m.erase k = m := by
  apply ext_get?
  intro j
  rw [get?_erase]
  split
  · next hj => rw [hj, h]
  · rfl

theorem mem_values_of_insert [DecidableEq κ] (h : w ∈ (m.insert k v).values) :
    w = v ∨ w ∈ m.values := by
  obtain ⟨j, hj⟩ := mem_values_iff.1 h
  exact (get?_of_get?_insert hj).imp And.right fun hw => mem_values_iff.2 ⟨j, hw⟩

theorem mapValues_insert [DecidableEq κ] {μ : Type} (f : ν → μ) (m : SortedMap κ ν) (k : κ)
    (v : ν) : (m.insert k v).mapValues f = (m.mapValues f).insert k (f v) := by
  apply ext_get?
  intro j
  simp only [get?_mapValues, get?_insert]
  split <;> rfl

theorem mapValues_erase [DecidableEq κ] {μ : Type} (f : ν → μ) (m : SortedMap κ ν) (k : κ) :
    (m.erase k).mapValues f = (m.mapValues f).erase k := by
  apply ext_get?
  intro j
  simp only [get?_mapValues, get?_erase]
  split <;> rfl

end Changes

/-! ## insertMany, ofList -/

@[simp] theorem insertMany_nil (m : SortedMap κ ν) : m.insertMany [] = m := rfl

@[simp] theorem insertMany_cons (m : SortedMap κ ν) (e : κ × ν) (es : List (κ × ν)) :
    m.insertMany (e :: es) = (m.insert e.1 e.2).insertMany es := rfl

variable [DecidableEq κ]

/-- Entries computed from their keys: a repeated key brings the same value again. -/
theorem get?_insertMany_map (f : κ → ν) (ks : List κ) (m : SortedMap κ ν) (k : κ) :
    (m.insertMany (ks.map fun j => (j, f j))).get? k =
      if k ∈ ks then some (f k) else m.get? k := by
  induction ks generalizing m with
  | nil => simp
  | cons j ks ih =>
    simp only [List.map_cons, insertMany_cons, ih, get?_insert, List.mem_cons]
    grind

/-- Entries with different keys: each key that is not among them keeps its value. -/
theorem get?_insertMany_of_nodup {es : List (κ × ν)} (h : (es.map (·.1)).Nodup)
    (m : SortedMap κ ν) (k : κ) :
    (m.insertMany es).get? k = (lookup k es).or (m.get? k) := by
  induction es generalizing m with
  | nil => rfl
  | cons e es ih =>
    rw [List.map_cons, List.nodup_cons] at h
    rw [insertMany_cons, ih h.2, get?_insert]
    by_cases hk : k = e.1
    · have hnone : lookup k es = none :=
        lookup_eq_none.2 fun a ha hak => h.1 (List.mem_map.2 ⟨a, ha, hak.trans hk⟩)
      simp [lookup, hk ▸ hnone, hk]
    · have hne : compare k e.1 ≠ .eq := fun he => hk (Std.LawfulEqCmp.eq_of_compare he)
      simp [lookup, hk, hne]

/-- One map over another: the entries of the second come first. -/
theorem get?_insertMany_entries (m n : SortedMap κ ν) (k : κ) :
    (m.insertMany n.entries).get? k = (n.get? k).or (m.get? k) :=
  get?_insertMany_of_nodup n.keys_nodup m k

/-- The order of entries with different keys does not matter. -/
theorem insertMany_perm {es fs : List (κ × ν)} (h : es.Perm fs) (hnodup : (es.map (·.1)).Nodup)
    (m : SortedMap κ ν) : m.insertMany es = m.insertMany fs := by
  apply ext_get?
  intro k
  have hnodup' : (fs.map (·.1)).Nodup := (h.map _).nodup_iff.1 hnodup
  have hlookup : lookup k es = lookup k fs := by
    ext v
    rw [lookup_eq_some_of_nodup hnodup, lookup_eq_some_of_nodup hnodup', h.mem_iff]
  rw [get?_insertMany_of_nodup hnodup, get?_insertMany_of_nodup hnodup', hlookup]

theorem get?_ofList_map (f : κ → ν) (ks : List κ) (k : κ) :
    (ofList (ks.map fun j => (j, f j))).get? k = if k ∈ ks then some (f k) else none :=
  get?_insertMany_map f ks empty k

theorem get?_ofList_of_nodup {es : List (κ × ν)} (h : (es.map (·.1)).Nodup) (k : κ) :
    (ofList es).get? k = lookup k es := by
  rw [ofList, get?_insertMany_of_nodup h, get?_empty, Option.or_none]

theorem get?_ofList_eq_some {es : List (κ × ν)} (h : (es.map (·.1)).Nodup) {k : κ} {v : ν} :
    (ofList es).get? k = some v ↔ (k, v) ∈ es := by
  rw [get?_ofList_of_nodup h]
  exact lookup_eq_some_of_nodup h

/-- A map is the map of its entries. -/
theorem ofList_entries (m : SortedMap κ ν) : ofList m.entries = m :=
  ext_get? fun k => get?_ofList_of_nodup m.keys_nodup k

omit [Std.TransOrd κ] in
/-- Look-up is the one of lists without an order on the keys. -/
theorem lookup_eq_list_lookup (k : κ) (es : List (κ × ν)) : lookup k es = es.lookup k := by
  induction es with
  | nil => rfl
  | cons e es ih =>
    obtain ⟨j, v⟩ := e
    rw [lookup, List.lookup_cons, ih]
    by_cases hk : k = j
    · simp [hk]
    · have hbeq : (k == j) = false := by simpa using hk
      simp [hk, hbeq]

end RowStore.SortedMap
