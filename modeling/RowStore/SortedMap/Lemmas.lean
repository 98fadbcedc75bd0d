import RowStore.SortedMap.Basic

/-!
# Look-up laws of sorted maps

Each operation is described by what `get?` gives afterwards, and maps with the same look-ups are
equal.
-/

namespace RowStore.SortedMap

variable {κ ν : Type} [Ord κ]

@[simp] theorem get?_empty (k : κ) : (empty : SortedMap κ ν).get? k = none := rfl

theorem keys_ascending (m : SortedMap κ ν) : m.keys.Pairwise fun a b => compare a b = .lt :=
  List.pairwise_map.2 m.ascending

section Lookup

variable [Std.LawfulEqOrd κ]

theorem lookup_eq_none {k : κ} {es : List (κ × ν)} :
    lookup k es = none ↔ ∀ e ∈ es, e.1 ≠ k := by
  fun_induction lookup k es <;> grind [Std.compare_eq_iff_eq]

theorem lookup_insertEntry [DecidableEq κ] (j k : κ) (v : ν) (es : List (κ × ν)) :
    lookup j (insertEntry k v es) = if j = k then some v else lookup j es := by
  fun_induction insertEntry k v es <;> grind [lookup, Std.compare_eq_iff_eq]

/-- Look-up finds the entries and nothing else. -/
theorem lookup_eq_some {k : κ} {v : ν} {es : List (κ × ν)}
    (h : es.Pairwise fun a b => compare a.1 b.1 = .lt) :
    lookup k es = some v ↔ (k, v) ∈ es := by
  induction es with
  | nil => simp [lookup]
  | cons e es ih =>
    have hne : ∀ b ∈ es, b.1 ≠ e.1 := fun b hb he => by
      have := List.rel_of_pairwise_cons h hb
      simp [he] at this
    have := ih h.of_cons
    grind [lookup, Std.compare_eq_iff_eq]

theorem get?_eq_some {m : SortedMap κ ν} {k : κ} {v : ν} :
    m.get? k = some v ↔ (k, v) ∈ m.entries :=
  lookup_eq_some m.ascending

theorem get?_eq_none {m : SortedMap κ ν} {k : κ} : m.get? k = none ↔ k ∉ m.keys := by
  simp only [get?, lookup_eq_none, keys, List.mem_map]
  grind

theorem mem_keys_iff {m : SortedMap κ ν} {k : κ} : k ∈ m.keys ↔ ∃ v, m.get? k = some v := by
  simp only [get?_eq_some, keys, List.mem_map]
  grind

theorem contains_iff {m : SortedMap κ ν} {k : κ} : m.contains k ↔ k ∈ m.keys := by
  rw [mem_keys_iff, contains, Option.isSome_iff_exists]

theorem keys_nodup (m : SortedMap κ ν) : m.keys.Nodup :=
  m.keys_ascending.imp fun h e => by simp [e] at h

end Lookup

variable [Std.TransOrd κ] [Std.LawfulEqOrd κ]

@[simp] theorem get?_insert [DecidableEq κ] (m : SortedMap κ ν) (j k : κ) (v : ν) :
    (m.insert k v).get? j = if j = k then some v else m.get? j :=
  lookup_insertEntry j k v m.entries

omit [Std.TransOrd κ] in
theorem get?_filter (p : κ → ν → Bool) (m : SortedMap κ ν) (k : κ) :
    (m.filter p).get? k = (m.get? k).filter (p k) := by
  apply Option.ext
  intro v
  simp only [Option.filter_eq_some_iff, get?_eq_some, filter, List.mem_filter]

omit [Std.TransOrd κ] in
@[simp] theorem get?_erase [DecidableEq κ] (m : SortedMap κ ν) (j k : κ) :
    (m.erase k).get? j = if j = k then none else m.get? j := by
  by_cases h : j = k
  · simp [erase, get?_filter, h]
  · cases hv : m.get? j <;> simp [erase, get?_filter, h, Ne.symm h, hv]

/-- Strictly ascending lists with the same members are equal. -/
theorem eq_of_mem_iff {es fs : List (κ × ν)}
    (he : es.Pairwise fun a b => compare a.1 b.1 = .lt)
    (hf : fs.Pairwise fun a b => compare a.1 b.1 = .lt)
    (h : ∀ a, a ∈ es ↔ a ∈ fs) : es = fs := by
  induction es generalizing fs with
  | nil =>
    cases fs with
    | nil => rfl
    | cons f fs => simpa using (h f).2 (by simp)
  | cons e es ih =>
    cases fs with
    | nil => simpa using (h e).1 (by simp)
    | cons f fs =>
      have irrefl : ∀ a : κ, compare a a ≠ .lt := fun a => by simp
      have asymm : ∀ {a b : κ}, compare a b = .lt → compare b a ≠ .lt := fun h h' =>
        irrefl _ (Std.TransCmp.lt_trans h h')
      have hef : e = f := by
        rcases List.mem_cons.1 ((h e).1 (by simp)) with hh | hh
        · exact hh
        rcases List.mem_cons.1 ((h f).2 (by simp)) with gg | gg
        · exact gg.symm
        · exact absurd (List.rel_of_pairwise_cons hf hh) (asymm (List.rel_of_pairwise_cons he gg))
      subst hef
      rw [ih he.of_cons hf.of_cons fun a => ?_]
      have ha := h a
      constructor <;> intro m
      · rcases List.mem_cons.1 (ha.1 (List.mem_cons_of_mem _ m)) with rfl | hh
        · exact absurd (List.rel_of_pairwise_cons he m) (irrefl _)
        · exact hh
      · rcases List.mem_cons.1 (ha.2 (List.mem_cons_of_mem _ m)) with rfl | hh
        · exact absurd (List.rel_of_pairwise_cons hf m) (irrefl _)
        · exact hh

/-- Maps with the same look-ups are equal. -/
theorem ext_get? {m n : SortedMap κ ν} (h : ∀ k, m.get? k = n.get? k) : m = n := by
  have : m.entries = n.entries := eq_of_mem_iff m.ascending n.ascending fun a => by
    rw [← get?_eq_some, ← get?_eq_some, h]
  cases m
  cases n
  simpa using this

theorem length_insertEntry (k : κ) (v : ν) {es : List (κ × ν)}
    (h : es.Pairwise fun a b => compare a.1 b.1 = .lt) :
    (insertEntry k v es).length = es.length + if (lookup k es).isSome then 0 else 1 := by
  fun_induction insertEntry k v es with
  | case1 => rfl
  | case2 e es hlt =>
    have hk : lookup k (e :: es) = none := by
      refine lookup_eq_none.2 fun a ha => ?_
      rintro rfl
      rcases List.mem_cons.1 ha with rfl | ha
      · simp at hlt
      · simpa using Std.TransCmp.lt_trans hlt (List.rel_of_pairwise_cons h ha)
    simp [hk]
  | case3 e es heq => simp [lookup, heq]
  | case4 e es hgt ih =>
    have hne : compare k e.1 ≠ .eq := by simp [hgt]
    simp only [lookup, if_neg hne, List.length_cons, ih h.of_cons]
    omega

/-- A new key adds one entry, a known one adds none. -/
theorem size_insert (m : SortedMap κ ν) (k : κ) (v : ν) :
    (m.insert k v).size = m.size + if (m.get? k).isSome then 0 else 1 :=
  length_insertEntry k v m.ascending

end RowStore.SortedMap
