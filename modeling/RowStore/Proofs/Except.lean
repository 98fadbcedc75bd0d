import RowStore.Proofs.List

/-!
# Results that may be errors

When steps that may fail succeed one after the other, and which error they give if they do not: the
first one.
-/

namespace RowStore.Except

variable {ε α β γ : Type}

theorem bind_eq_ok {x : Except ε α} {f : α → Except ε β} {b : β} :
    x >>= f = .ok b ↔ ∃ a, x = .ok a ∧ f a = .ok b := by
  cases x <;> simp [bind, Except.bind]

theorem bind_eq_error {x : Except ε α} {f : α → Except ε β} {e : ε} :
    x >>= f = .error e ↔ x = .error e ∨ ∃ a, x = .ok a ∧ f a = .error e := by
  cases x <;> simp [bind, Except.bind]

theorem map_bind (x : Except ε α) (f : α → Except ε β) (g : β → γ) :
    (x >>= f).map g = x >>= fun a => (f a).map g := by
  cases x <;> rfl

theorem map_pure (a : α) (g : α → β) : (pure a : Except ε α).map g = .ok (g a) := rfl

theorem forM_eq_ok {f : α → Except ε Unit} {xs : List α} {u : Unit} :
    xs.forM f = .ok u ↔ ∀ x ∈ xs, f x = .ok () := by
  induction xs with
  | nil => exact iff_of_true rfl (List.forall_mem_nil _)
  | cons x xs ih =>
    have hcons : (x :: xs).forM f = f x >>= fun _ => xs.forM f := rfl
    rw [hcons, bind_eq_ok, List.forall_mem_cons, ← ih]
    exact ⟨fun ⟨_, hx, hxs⟩ => ⟨hx, hxs⟩, fun ⟨hx, hxs⟩ => ⟨(), hx, hxs⟩⟩

section mapM

variable {f : α → Except ε β} {g : γ → Except ε β} {xs : List α} {zs : List γ}

theorem mapM_congr (h : List.Forall₂ (fun x z => f x = g z) xs zs) : xs.mapM f = zs.mapM g := by
  induction h with
  | nil => rfl
  | cons head _ ih => rw [List.mapM_cons, List.mapM_cons, head, ih]

theorem mapM_eq_ok {ys : List β} :
    xs.mapM f = .ok ys ↔ List.Forall₂ (fun x y => f x = .ok y) xs ys := by
  induction xs generalizing ys with
  | nil => simp [pure, Except.pure, eq_comm]
  | cons x xs ih =>
    simp only [List.mapM_cons, bind_eq_ok, ih, List.forall₂_cons_left_iff]
    constructor
    · rintro ⟨y, hy, ys', hys, ⟨⟩⟩
      exact ⟨y, ys', hy, hys, rfl⟩
    · rintro ⟨y, ys', hy, hys, rfl⟩
      exact ⟨y, hy, ys', hys, rfl⟩

/-- Each result comes from a member. -/
theorem exists_of_mem_mapM {ys : List β} {y : β} (h : xs.mapM f = .ok ys) (hy : y ∈ ys) :
    ∃ x ∈ xs, f x = .ok y := exists_of_forall₂ (mapM_eq_ok.1 h).flip hy

theorem exists_of_mapM_of_mem {ys : List β} {x : α} (h : xs.mapM f = .ok ys) (hx : x ∈ xs) :
    ∃ y, f x = .ok y := by
  obtain ⟨y, -, hy⟩ := exists_of_forall₂ (mapM_eq_ok.1 h) hx
  exact ⟨y, hy⟩

theorem mapM_eq_error {e : ε} :
    xs.mapM f = .error e ↔ ∃ before x after, xs = before ++ x :: after ∧
      (∀ z ∈ before, ∃ y, f z = .ok y) ∧ f x = .error e := by
  induction xs with
  | nil => simp [pure, Except.pure]
  | cons x xs ih =>
    have hrest {y : β} : (xs.mapM f >>= fun ys => pure (y :: ys)) = .error e ↔
        xs.mapM f = .error e := by
      simp [bind_eq_error, pure, Except.pure]
    simp only [List.mapM_cons, bind_eq_error, hrest, ih]
    constructor
    · rintro (he | ⟨y, hy, before, z, after, rfl, hbefore, he⟩)
      · exact ⟨[], x, xs, rfl, by simp, he⟩
      · exact ⟨x :: before, z, after, rfl, List.forall_mem_cons.2 ⟨⟨y, hy⟩, hbefore⟩, he⟩
    · rintro ⟨before, z, after, hxs, hbefore, he⟩
      cases before with
      | nil =>
        obtain ⟨rfl, rfl⟩ := List.cons.inj hxs
        exact .inl he
      | cons b before =>
        obtain ⟨rfl, rfl⟩ := List.cons.inj hxs
        obtain ⟨⟨y, hy⟩, hbefore⟩ := List.forall_mem_cons.1 hbefore
        exact .inr ⟨y, hy, before, z, after, rfl, hbefore, he⟩

end mapM

theorem forM_eq_map_mapM (f : α → Except ε Unit) (xs : List α) :
    xs.forM f = (xs.mapM f).map fun _ => () := by
  induction xs with
  | nil => rfl
  | cons x xs ih =>
    have hcons : (x :: xs).forM f = f x >>= fun _ => xs.forM f := rfl
    simp only [hcons, ih, List.mapM_cons, map_bind, map_pure]
    cases f x <;> cases xs.mapM f <;> rfl

/-- The first member that is refused gives its error. -/
theorem forM_eq_error {f : α → Except ε Unit} {xs : List α} {e : ε} :
    xs.forM f = .error e ↔ ∃ before x after, xs = before ++ x :: after ∧
      (∀ z ∈ before, f z = .ok ()) ∧ f x = .error e := by
  have hmap : xs.forM f = .error e ↔ xs.mapM f = .error e := by
    rw [forM_eq_map_mapM]
    cases xs.mapM f <;> simp [Except.map]
  have hunit (x : α) : (∃ y, f x = .ok y) ↔ f x = .ok () := ⟨fun ⟨_, h⟩ => h, fun h => ⟨(), h⟩⟩
  simp only [hmap, mapM_eq_error, hunit]

/-! ## A state beside the result -/

section StateT

variable {σ : Type} {p : StateT σ (Except ε) α} {f : α → StateT σ (Except ε) β} {s t : σ}

theorem stateT_bind_eq_ok {b : β} : (p >>= f) s = .ok (b, t) ↔
    ∃ a u, p s = .ok (a, u) ∧ f a u = .ok (b, t) := by
  change (p s >>= fun x => f x.1 x.2) = _ ↔ _
  rw [bind_eq_ok]
  exact Prod.exists

theorem stateT_pure_eq_ok {a b : α} : (pure a : StateT σ (Except ε) α) s = .ok (b, t) ↔
    a = b ∧ s = t := by
  change Except.ok (a, s) = _ ↔ _
  simp

theorem stateT_throw_ne_ok {e : ε} {a : α} :
    (throw e : StateT σ (Except ε) α) s ≠ .ok (a, t) := nofun

theorem stateT_map_eq_ok {g : α → β} {b : β} : (g <$> p) s = .ok (b, t) ↔
    ∃ a, p s = .ok (a, t) ∧ g a = b := by
  simp only [map_eq_pure_bind, stateT_bind_eq_ok, stateT_pure_eq_ok]
  constructor
  · rintro ⟨a, u, ha, rfl, rfl⟩
    exact ⟨a, ha, rfl⟩
  · rintro ⟨a, ha, rfl⟩
    exact ⟨a, t, ha, rfl, rfl⟩

end StateT

end RowStore.Except
