import CodeHabits.Table
import Mathlib.Data.List.Forall2

/-!
# `CodeHabits.Proofs.Except`: peeling results apart

Readers are chains of steps that may fail. `bind_eq_ok` peels the first step
off a chain that gave a result, and `bind_eq_error` tells which step a fault
came from. `mapM_eq_ok_iff` does the same for a whole list: there is a result
exactly when every item has one.
-/

set_option autoImplicit false

namespace CodeHabits.Except

variable {ε ε' α β : Type}

@[simp] theorem ok_bind (a : α) (f : α → Except ε β) : (Except.ok a >>= f) = f a :=
  rfl

@[simp] theorem error_bind (e : ε) (f : α → Except ε β) :
    ((Except.error e : Except ε α) >>= f) = .error e :=
  rfl

@[simp] theorem throw_eq (e : ε) : (throw e : Except ε α) = .error e :=
  rfl

@[simp] theorem pure_eq (a : α) : (pure a : Except ε α) = .ok a :=
  rfl

theorem bind_eq_ok {x : Except ε α} {f : α → Except ε β} {b : β} :
    x >>= f = .ok b ↔ ∃ a, x = .ok a ∧ f a = .ok b := by
  cases x <;> simp

theorem bind_eq_error {x : Except ε α} {f : α → Except ε β} {e : ε} :
    x >>= f = .error e ↔ x = .error e ∨ ∃ a, x = .ok a ∧ f a = .error e := by
  cases x <;> simp

theorem map_eq_ok {x : Except ε α} {f : α → β} {b : β} :
    x.map f = .ok b ↔ ∃ a, x = .ok a ∧ f a = b := by
  cases x <;> simp [Except.map]

theorem map_eq_error {x : Except ε α} {f : α → β} {e : ε} :
    x.map f = .error e ↔ x = .error e := by
  cases x <;> simp [Except.map]

theorem mapError_eq_ok {x : Except ε α} {g : ε → ε'} {a : α} :
    x.mapError g = .ok a ↔ x = .ok a := by
  cases x <;> simp [Except.mapError]

theorem mapError_eq_error {x : Except ε α} {g : ε → ε'} {e' : ε'} :
    x.mapError g = .error e' ↔ ∃ e, x = .error e ∧ g e = e' := by
  cases x <;> simp [Except.mapError]

theorem toOption_eq_some {x : Except ε α} {a : α} : x.toOption = some a ↔ x = .ok a := by
  cases x <;> simp [Except.toOption]

theorem exists_of_isOk {x : Except ε α} (h : x.isOk = true) : ∃ a, x = .ok a := by
  cases x with
  | error e => cases h
  | ok a => exact ⟨a, rfl⟩

/-- A check that does not fail has one result. -/
theorem eq_ok_unit {x : Except ε Unit} (h : x.isOk = true) : x = .ok () := by
  obtain ⟨_, h⟩ := exists_of_isOk h
  exact h

/-- A list has a result exactly when every item has one, and then it is the
list of these. -/
theorem mapM_eq_ok_iff {f : α → Except ε β} {xs : List α} {ys : List β} :
    xs.mapM f = .ok ys ↔ List.Forall₂ (fun x y => f x = .ok y) xs ys := by
  induction xs generalizing ys with
  | nil =>
    rw [List.mapM_nil]
    constructor
    · intro h
      cases h
      exact .nil
    · intro h
      cases h
      rfl
  | cons x rest ih =>
    rw [List.mapM_cons]
    constructor
    · intro h
      obtain ⟨y, hy, h⟩ := bind_eq_ok.1 h
      obtain ⟨rest', hrest, h⟩ := bind_eq_ok.1 h
      cases h
      exact .cons hy (ih.1 hrest)
    · intro h
      cases h with
      | cons hy hrest =>
        rw [hy, ok_bind, ih.2 hrest]
        rfl

theorem exists_mapM_eq_ok {f : α → Except ε β} {xs : List α} :
    (∃ ys, xs.mapM f = .ok ys) ↔ ∀ x ∈ xs, ∃ y, f x = .ok y := by
  induction xs with
  | nil => simp
  | cons x rest ih =>
    rw [List.forall_mem_cons, ← ih, List.mapM_cons]
    constructor
    · rintro ⟨ys, h⟩
      obtain ⟨y, hy, h⟩ := bind_eq_ok.1 h
      obtain ⟨rest', hrest, _⟩ := bind_eq_ok.1 h
      exact ⟨⟨y, hy⟩, rest', hrest⟩
    · rintro ⟨⟨y, hy⟩, ys, hys⟩
      exact ⟨y :: ys, by rw [hy, ok_bind, hys, ok_bind, pure_eq]⟩

/-- If asking about each item has an answer, the items with the answer yes are picked out. -/
theorem filterM_eq_filter {f : α → Except ε Bool} {wanted : α → Bool} {xs : List α}
    (h : ∀ x ∈ xs, f x = .ok (wanted x)) : xs.filterM f = .ok (xs.filter wanted) := by
  -- What is picked out is collected in reverse, so the induction is about collecting.
  have hreversed : ∀ found, xs.filterAuxM f found = .ok ((xs.filter wanted).reverse ++ found) := by
    induction xs with
    | nil => exact fun found => rfl
    | cons x rest ih =>
      intro found
      obtain ⟨hx, hrest⟩ := List.forall_mem_cons.1 h
      rw [List.filterAuxM, hx, ok_bind, ih hrest]
      cases hwanted : wanted x with
      | true => simp [hwanted]
      | false => simp [hwanted]
  rw [List.filterM, hreversed, List.append_nil, ok_bind, List.reverse_reverse]
  rfl

/-- Picking out items does not fail if asking about each of them does not. -/
theorem exists_filterM_eq_ok {f : α → Except ε Bool} {xs : List α}
    (h : ∀ x ∈ xs, ∃ answer, f x = .ok answer) : ∃ ys, xs.filterM f = .ok ys := by
  have hanswers : ∀ x ∈ xs, f x = .ok ((f x).toOption.getD false) := by
    intro x hx
    obtain ⟨answer, hanswer⟩ := h x hx
    rw [hanswer]
    rfl
  exact ⟨_, filterM_eq_filter hanswers⟩

/-- Checks that none of several things fails. -/
theorem forM_eq_ok {f : α → Except ε Unit} {xs : List α} (h : ∀ x ∈ xs, f x = .ok ()) :
    xs.forM f = .ok () := by
  induction xs with
  | nil => rfl
  | cons x rest ih =>
    rw [List.forM_eq_forM, List.forM_cons, h x (by simp), ok_bind]
    exact ih fun other hother => h other (by simp [hother])

/-- Where the first step gives what the rest needs, a chain has a result. -/
theorem exists_bind {x : Except ε α} {f : α → Except ε β} {P : α → Prop} {Q : β → Prop}
    (hx : ∃ a, x = .ok a ∧ P a) (hf : ∀ a, P a → ∃ b, f a = .ok b ∧ Q b) :
    ∃ b, x >>= f = .ok b ∧ Q b := by
  obtain ⟨a, rfl, ha⟩ := hx
  exact hf a ha

/-- A list has a result of which that is true which is true of the result of every
item. -/
theorem exists_mapM {f : α → Except ε β} {xs : List α} {P : β → Prop}
    (h : ∀ x ∈ xs, ∃ y, f x = .ok y ∧ P y) : ∃ ys, xs.mapM f = .ok ys ∧ ∀ y ∈ ys, P y := by
  induction xs with
  | nil => exact ⟨[], rfl, by simp⟩
  | cons x rest ih =>
    obtain ⟨y, hy, hPy⟩ := h x (by simp)
    obtain ⟨ys, hys, hPys⟩ := ih fun other hother => h other (by simp [hother])
    refine ⟨y :: ys, ?_, List.forall_mem_cons.2 ⟨hPy, hPys⟩⟩
    rw [List.mapM_cons, hy, ok_bind, hys, ok_bind, pure_eq]

/-- A fold whose steps keep an invariant and do not fail has a result with it. -/
theorem exists_foldlM {σ : Type} {f : σ → α → Except ε σ} {xs : List α} {P : σ → Prop}
    (h : ∀ s, ∀ x ∈ xs, P s → ∃ t, f s x = .ok t ∧ P t) {s : σ} (hs : P s) :
    ∃ t, xs.foldlM f s = .ok t ∧ P t := by
  induction xs generalizing s with
  | nil => exact ⟨s, rfl, hs⟩
  | cons x rest ih =>
    rw [List.foldlM_cons]
    obtain ⟨t, ht, hPt⟩ := h s x (by simp) hs
    rw [ht, ok_bind]
    exact ih (fun s other hother => h s other (by simp [hother])) hPt

/-- A list fails with the fault of the first item that fails. -/
theorem mapM_eq_error_iff {f : α → Except ε β} {xs : List α} {e : ε} :
    xs.mapM f = .error e ↔
      ∃ before x after, xs = before ++ x :: after ∧ (∃ ys, before.mapM f = .ok ys) ∧
        f x = .error e := by
  induction xs with
  | nil =>
    rw [List.mapM_nil]
    simp
  | cons x rest ih =>
    rw [List.mapM_cons]
    constructor
    · intro h
      rcases bind_eq_error.1 h with hx | ⟨y, hy, h⟩
      · exact ⟨[], x, rest, rfl, ⟨[], rfl⟩, hx⟩
      · rcases bind_eq_error.1 h with hrest | ⟨_, _, h⟩
        · obtain ⟨before, z, after, rfl, ⟨ys, hys⟩, hz⟩ := ih.1 hrest
          refine ⟨x :: before, z, after, rfl, ⟨y :: ys, ?_⟩, hz⟩
          rw [List.mapM_cons, hy, hys]
          rfl
        · cases h
    · rintro ⟨before, z, after, hsplit, ⟨ys, hys⟩, hz⟩
      -- What comes before the item has results, so the chain gets as far as to the item.
      cases before with
      | nil =>
        cases hsplit
        rw [hz, error_bind]
      | cons first before =>
        cases hsplit
        rw [List.mapM_cons] at hys
        obtain ⟨y, hy, hys⟩ := bind_eq_ok.1 hys
        obtain ⟨ys', hys', _⟩ := bind_eq_ok.1 hys
        rw [hy, ok_bind, ih.2 ⟨before, z, after, rfl, ⟨ys', hys'⟩, hz⟩, error_bind]

theorem bind_ne_error {x : Except ε α} {f : α → Except ε β} {e : ε} (hx : x ≠ .error e)
    (hf : ∀ a, f a ≠ .error e) : x >>= f ≠ .error e := by
  intro h
  rcases bind_eq_error.1 h with h | ⟨a, _, h⟩
  · exact hx h
  · exact hf a h

theorem mapM_ne_error {f : α → Except ε β} {xs : List α} {e : ε} (h : ∀ x, f x ≠ .error e) :
    xs.mapM f ≠ .error e := by
  intro hall
  obtain ⟨_, x, _, _, _, hx⟩ := mapM_eq_error_iff.1 hall
  exact h x hx

/-- Where no item fails in another way, one that fails makes the list fail. -/
theorem mapM_error {f : α → Except ε β} {xs : List α} {e : ε}
    (h : ∀ x ∈ xs, (∃ y, f x = .ok y) ∨ f x = .error e) {x : α} (hx : x ∈ xs)
    (hfails : f x = .error e) : xs.mapM f = .error e := by
  induction xs with
  | nil => cases hx
  | cons first rest ih =>
    rw [List.mapM_cons]
    rcases h first (by simp) with ⟨y, hy⟩ | hfirst
    · rcases List.mem_cons.1 hx with rfl | hmem
      · rw [hy] at hfails
        cases hfails
      · rw [hy, ok_bind, ih (fun other hother => h other (by simp [hother])) hmem, error_bind]
    · rw [hfirst, error_bind]

/-- A fold fails where its step first fails, on the state that the items before
lead to. -/
theorem foldlM_eq_error_iff {σ : Type} {f : σ → α → Except ε σ} {xs : List α} {s : σ} {e : ε} :
    xs.foldlM f s = .error e ↔
      ∃ before x after t, xs = before ++ x :: after ∧ before.foldlM f s = .ok t ∧
        f t x = .error e := by
  induction xs generalizing s with
  | nil =>
    rw [List.foldlM_nil]
    simp
  | cons x rest ih =>
    rw [List.foldlM_cons]
    constructor
    · intro h
      rcases bind_eq_error.1 h with hx | ⟨t, ht, h⟩
      · exact ⟨[], x, rest, s, rfl, rfl, hx⟩
      · obtain ⟨before, z, after, u, rfl, hu, hz⟩ := ih.1 h
        refine ⟨x :: before, z, after, u, rfl, ?_, hz⟩
        rw [List.foldlM_cons, ht, ok_bind, hu]
    · rintro ⟨before, z, after, u, hsplit, hu, hz⟩
      cases before with
      | nil =>
        cases hsplit
        cases hu
        rw [hz, error_bind]
      | cons first before =>
        cases hsplit
        rw [List.foldlM_cons] at hu
        obtain ⟨t, ht, hu⟩ := bind_eq_ok.1 hu
        rw [ht, ok_bind]
        exact ih.2 ⟨before, z, after, u, rfl, hu, hz⟩

/-- Every result of a list is that of an item. -/
theorem exists_mem_of_mapM {f : α → Except ε β} {xs : List α} {ys : List β}
    (h : xs.mapM f = .ok ys) {y : β} (hy : y ∈ ys) : ∃ x ∈ xs, f x = .ok y := by
  have hall := mapM_eq_ok_iff.1 h
  clear h
  induction hall with
  | nil => cases hy
  | cons hhead _ ih =>
    rcases List.mem_cons.1 hy with rfl | hmem
    · exact ⟨_, List.mem_cons_self, hhead⟩
    · obtain ⟨x, hx, hfx⟩ := ih hmem
      exact ⟨x, List.mem_cons_of_mem _ hx, hfx⟩

/-- Every item of a list has its result among those of the list. -/
theorem exists_result_of_mapM {f : α → Except ε β} {xs : List α} {ys : List β}
    (h : xs.mapM f = .ok ys) {x : α} (hx : x ∈ xs) : ∃ y ∈ ys, f x = .ok y := by
  have hall := mapM_eq_ok_iff.1 h
  clear h
  induction hall with
  | nil => cases hx
  | cons hhead _ ih =>
    rcases List.mem_cons.1 hx with rfl | hmem
    · exact ⟨_, List.mem_cons_self, hhead⟩
    · obtain ⟨y, hy, hfx⟩ := ih hmem
      exact ⟨y, List.mem_cons_of_mem _ hy, hfx⟩

/-- What the results tell of the items. -/
theorem map_of_mapM {γ : Type} {f : α → Except ε β} {xs : List α} {ys : List β} {about : α → γ}
    {told : β → γ} (h : xs.mapM f = .ok ys) (htold : ∀ x y, f x = .ok y → told y = about x) :
    ys.map told = xs.map about := by
  have hall := mapM_eq_ok_iff.1 h
  clear h
  induction hall with
  | nil => rfl
  | cons hhead _ ih => rw [List.map_cons, List.map_cons, htold _ _ hhead, ih]

/-- Items that all have a result. -/
theorem mapM_ok {f : α → Except ε β} {g : α → β} {xs : List α}
    (h : ∀ x ∈ xs, f x = .ok (g x)) : xs.mapM f = .ok (xs.map g) := by
  rw [mapM_eq_ok_iff, List.forall₂_map_right_iff, List.forall₂_same]
  exact h

end CodeHabits.Except
