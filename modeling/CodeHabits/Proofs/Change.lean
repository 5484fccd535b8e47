import CodeHabits.Pattern.Record

/-!
# `CodeHabits.Proofs.Change`: running changes step by step

A `Change` leaves a state behind also when it fails. The `outcome` equations
run a change one step at a time: an operation gives its result and the state
that is left, and `outcome_bind` says that the rest runs on that state unless
the operation failed.

`Change.Keeps P x` says that `x` leads from states with `P` to states with `P`,
whatever its result. `keeps_bind` and its relatives reduce this to the
operations that a change is made of, so that an invariant of a long operation
needs one fact for each thing that it writes. `Change.Gives P x Q` says more: from
states with `P` the change does not fail.
-/

set_option autoImplicit false

namespace CodeHabits.Change

variable {σ τ α β : Type}

@[simp] theorem outcome_pure (a : α) (s : σ) : (pure a : Change σ α).outcome s = (.ok a, s) :=
  rfl

@[simp] theorem outcome_throw (f : Fault) (s : σ) :
    (throw f : Change σ α).outcome s = (.error f, s) :=
  rfl

/-- A sequence of two changes: the second runs on the state that the first
leaves, if the first does not fail. -/
theorem outcome_bind (x : Change σ α) (f : α → Change σ β) (s : σ) :
    (x >>= f).outcome s =
      match x.outcome s with
      | (.ok a, s') => (f a).outcome s'
      | (.error e, s') => (.error e, s') := by
  show (ExceptT.run (x >>= f)).run s = _
  simp only [outcome, ExceptT.run_bind, StateT.run_bind]
  rcases (ExceptT.run x).run s with ⟨_ | _, s'⟩ <;> rfl

/-- Dropping the result changes nothing. -/
theorem outcome_drop (x : Change σ α) (s : σ) :
    ((do let _ ← x : Change σ Unit).outcome s).2 = (x.outcome s).2 := by
  rw [outcome_bind]
  rcases x.outcome s with ⟨_ | _, _⟩ <;> rfl

@[simp] theorem outcome_get (s : σ) : (get : Change σ σ).outcome s = (.ok s, s) :=
  rfl

@[simp] theorem outcome_set (s' s : σ) :
    (set s' : Change σ PUnit).outcome s = (.ok ⟨⟩, s') :=
  rfl

@[simp] theorem outcome_modify (f : σ → σ) (s : σ) :
    (modify f : Change σ PUnit).outcome s = (.ok ⟨⟩, f s) :=
  rfl

@[simp] theorem outcome_ofExcept (x : Except Fault α) (s : σ) :
    (ofExcept x : Change σ α).outcome s = (x, s) := by
  cases x <;> rfl

@[simp] theorem outcome_bind_get (f : σ → Change σ β) (s : σ) :
    (get >>= f).outcome s = (f s).outcome s := by
  rw [outcome_bind, outcome_get]

@[simp] theorem outcome_bind_set (f : PUnit → Change σ β) (s' s : σ) :
    (set s' >>= f).outcome s = (f ⟨⟩).outcome s' := by
  rw [outcome_bind, outcome_set]

@[simp] theorem outcome_bind_ofExcept_ok (a : α) (f : α → Change σ β) (s : σ) :
    (ofExcept (.ok a) >>= f).outcome s = (f a).outcome s := by
  rw [outcome_bind, outcome_ofExcept]

@[simp] theorem outcome_bind_ofExcept_error (e : Fault) (f : α → Change σ β) (s : σ) :
    (ofExcept (.error e) >>= f).outcome s = (.error e, s) := by
  rw [outcome_bind, outcome_ofExcept]

/-- A change of a part: the part is left as the change leaves it, and the rest
stays. -/
@[simp] theorem outcome_within (get : σ → τ) (set : σ → τ → σ) (x : Change τ α) (s : σ) :
    (within get set x).outcome s
      = ((x.outcome (get s)).1, set s (x.outcome (get s)).2) := by
  rw [within, outcome_bind_get, outcome_bind]
  show (ofExcept (x.outcome (get s)).1).outcome (set s (x.outcome (get s)).2) = _
  rw [outcome_ofExcept]

theorem bind_eq_ok {x : Change σ α} {f : α → Change σ β} {s t : σ} {b : β} :
    (x >>= f).outcome s = (.ok b, t) ↔
      ∃ a u, x.outcome s = (.ok a, u) ∧ (f a).outcome u = (.ok b, t) := by
  rw [outcome_bind]
  rcases x.outcome s with ⟨e | a, u⟩ <;> simp [and_assoc]

/-- A sequence fails in its first part, or in its second on the state that the
first leaves. -/
theorem bind_eq_error {x : Change σ α} {f : α → Change σ β} {s t : σ} {e : Fault} :
    (x >>= f).outcome s = (.error e, t) ↔
      x.outcome s = (.error e, t) ∨
        ∃ a u, x.outcome s = (.ok a, u) ∧ (f a).outcome u = (.error e, t) := by
  rw [outcome_bind]
  rcases x.outcome s with ⟨e | a, u⟩ <;> simp [and_assoc]

/-- A result that passes a test is there. -/
theorem exists_ok_of_any {x : Change σ α} {s : σ} {p : α → Bool}
    (h : (x.outcome s).1.toOption.any p = true) :
    ∃ a t, x.outcome s = (.ok a, t) ∧ p a = true := by
  rcases hrun : x.outcome s with ⟨fault | a, t⟩
  · rw [hrun] at h
    cases h
  · rw [hrun] at h
    exact ⟨a, t, rfl, h⟩

theorem ofExcept_eq_ok {x : Except Fault α} {s t : σ} {a : α} :
    (ofExcept x).outcome s = (.ok a, t) ↔ x = .ok a ∧ s = t := by
  rw [outcome_ofExcept, Prod.mk.injEq]

theorem ofExcept_eq_error {x : Except Fault α} {s t : σ} {e : Fault} :
    (ofExcept x).outcome s = (.error e, t) ↔ x = .error e ∧ s = t := by
  rw [outcome_ofExcept, Prod.mk.injEq]

/-! ### What a change keeps -/

/-- From a state with `P` the change leads to a state with `P`, also when it
fails. -/
def Keeps (P : σ → Prop) (x : Change σ α) : Prop :=
  ∀ s, P s → P (x.outcome s).2

section
variable {P : σ → Prop}

/-- What is kept holds of the state that is left. -/
theorem Keeps.of_outcome {x : Change σ α} (hx : Keeps P x) {s t : σ} {result : Except Fault α}
    (hrun : x.outcome s = (result, t)) (hs : P s) : P t := by
  have ht := hx s hs
  rw [hrun] at ht
  exact ht

theorem keeps_pure (a : α) : Keeps P (pure a) :=
  fun _ h => h

theorem keeps_throw (f : Fault) : Keeps P (throw f : Change σ α) :=
  fun _ h => h

theorem keeps_get : Keeps P (get : Change σ σ) :=
  fun _ h => h

theorem keeps_ofExcept (x : Except Fault α) : Keeps P (ofExcept x) := by
  intro s h
  rw [outcome_ofExcept]
  exact h

theorem keeps_modify {f : σ → σ} (h : ∀ s, P s → P (f s)) :
    Keeps P (modify f : Change σ PUnit) :=
  h

/-- What the first part of a sequence leaves with `P`, the rest keeps so. -/
theorem left_bind {x : Change σ α} {f : α → Change σ β} {s : σ} (hx : P (x.outcome s).2)
    (hf : ∀ a, Keeps P (f a)) : P ((x >>= f).outcome s).2 := by
  rw [outcome_bind]
  rcases hrun : x.outcome s with ⟨e | a, s'⟩ <;> rw [hrun] at hx
  · exact hx
  · exact hf a s' hx

theorem keeps_bind {x : Change σ α} {f : α → Change σ β} (hx : Keeps P x)
    (hf : ∀ a, Keeps P (f a)) : Keeps P (x >>= f) :=
  fun s h => left_bind (hx s h) hf

/-- A change that begins by reading the state may use what the invariant says
of it. -/
theorem keeps_bind_get {f : σ → Change σ β} (h : ∀ s, P s → P ((f s).outcome s).2) :
    Keeps P (get >>= f) := by
  intro s hs
  rw [outcome_bind_get]
  exact h s hs

/-- The fault that is taken over is that of `x`, so the rest only matters where
`x` has a result. -/
theorem keeps_bind_ofExcept {x : Except Fault α} {f : α → Change σ β}
    (h : ∀ a, x = .ok a → Keeps P (f a)) : Keeps P (ofExcept x >>= f) := by
  cases x with
  | error e => exact fun s hs => by rw [outcome_bind_ofExcept_error]; exact hs
  | ok a => exact fun s hs => by rw [outcome_bind_ofExcept_ok]; exact h a rfl s hs

theorem keeps_within {Q : τ → Prop} {get : σ → τ} {set : σ → τ → σ} {x : Change τ α}
    (hget : ∀ s, P s → Q (get s)) (hset : ∀ s part, P s → Q part → P (set s part))
    (hx : Keeps Q x) : Keeps P (within get set x) := by
  intro s h
  rw [outcome_within]
  exact hset s _ h (hx _ (hget s h))

theorem keeps_mapM {f : α → Change σ β} {xs : List α} (h : ∀ a ∈ xs, Keeps P (f a)) :
    Keeps P (xs.mapM f) := by
  induction xs with
  | nil => exact keeps_pure _
  | cons x rest ih =>
    rw [List.mapM_cons]
    refine keeps_bind (h x (by simp)) fun _ => ?_
    exact keeps_bind (ih fun a ha => h a (by simp [ha])) fun _ => keeps_pure _

theorem keeps_forM {f : α → Change σ PUnit} {xs : List α} (h : ∀ a ∈ xs, Keeps P (f a)) :
    Keeps P (xs.forM f) := by
  induction xs with
  | nil => exact keeps_pure _
  | cons x rest ih =>
    show Keeps P (f x >>= fun _ => rest.forM f)
    exact keeps_bind (h x (by simp)) fun _ => ih fun a ha => h a (by simp [ha])

end

/-! ### What a change gives -/

/-- From a state with `P` the change does not fail, and `Q` holds of its result and of
the state that it leaves. -/
def Gives (P : σ → Prop) (x : Change σ α) (Q : α → σ → Prop) : Prop :=
  ∀ s, P s → ∃ a t, x.outcome s = (.ok a, t) ∧ Q a t

section

variable {P : σ → Prop} {Q : α → σ → Prop} {R : β → σ → Prop}

theorem gives_pure {a : α} (h : ∀ s, P s → Q a s) : Gives P (pure a) Q :=
  fun s hs => ⟨a, s, rfl, h s hs⟩

theorem gives_get {R : σ → σ → Prop} (h : ∀ s, P s → R s s) : Gives P (get : Change σ σ) R :=
  fun s hs => ⟨s, s, rfl, h s hs⟩

theorem gives_modify {f : σ → σ} {R : PUnit → σ → Prop} (h : ∀ s, P s → R ⟨⟩ (f s)) :
    Gives P (modify f : Change σ PUnit) R :=
  fun s hs => ⟨⟨⟩, f s, rfl, h s hs⟩

theorem gives_ofExcept {x : Except Fault α} {a : α} (hx : x = .ok a) (h : ∀ s, P s → Q a s) :
    Gives P (ofExcept x) Q :=
  fun s hs => ⟨a, s, by rw [hx]; rfl, h s hs⟩

/-- What a change keeps, it keeps where it does not fail. -/
theorem Gives.keeps {x : Change σ α} (hx : Gives P x fun _ _ => True) (hkeeps : Keeps P x) :
    Gives P x fun _ => P := by
  intro s hs
  obtain ⟨a, t, hrun, _⟩ := hx s hs
  exact ⟨a, t, hrun, hkeeps.of_outcome hrun hs⟩

/-- A change that gives something does not fail. -/
theorem Gives.not_error {x : Change σ α} (hx : Gives P x Q) {s t : σ} (hs : P s) {fault : Fault} :
    x.outcome s ≠ (.error fault, t) := by
  intro hfails
  obtain ⟨a, u, hrun, _⟩ := hx s hs
  rw [hrun] at hfails
  cases hfails

theorem gives_bind {x : Change σ α} {f : α → Change σ β} (hx : Gives P x Q)
    (hf : ∀ a, Gives (Q a) (f a) R) : Gives P (x >>= f) R := by
  intro s hs
  obtain ⟨a, t, hrun, ht⟩ := hx s hs
  obtain ⟨b, u, hrest, hu⟩ := hf a t ht
  exact ⟨b, u, bind_eq_ok.2 ⟨a, t, hrun, hrest⟩, hu⟩

/-- What is read from the state may be used by what comes after. -/
theorem gives_bind_get {f : σ → Change σ β} (h : ∀ s, P s → Gives (· = s) (f s) R) :
    Gives P (get >>= f) R := by
  intro s hs
  rw [outcome_bind_get]
  exact h s hs s rfl

theorem gives_bind_ofExcept {x : Except Fault α} {f : α → Change σ β} {a : α} (hx : x = .ok a)
    (h : Gives P (f a) R) : Gives P (ofExcept x >>= f) R := by
  intro s hs
  rw [hx, outcome_bind_ofExcept_ok]
  exact h s hs

theorem gives_within {get : σ → τ} {set : σ → τ → σ} {x : Change τ α} {part : τ → Prop}
    {left : α → τ → Prop} (hx : Gives part x left) (hget : ∀ s, P s → part (get s))
    (hset : ∀ s a t, P s → left a t → Q a (set s t)) : Gives P (within get set x) Q := by
  intro s hs
  obtain ⟨a, t, hrun, ht⟩ := hx (get s) (hget s hs)
  refine ⟨a, set s t, ?_, hset s a t hs ht⟩
  rw [outcome_within, hrun]

/-- Where each step gives what the next one needs, all of them have a result. -/
theorem gives_mapM {f : α → Change σ β} {xs : List α} (h : ∀ a ∈ xs, Gives P (f a) fun _ => P) :
    Gives P (xs.mapM f) fun _ => P := by
  induction xs with
  | nil => exact gives_pure fun _ hs => hs
  | cons x rest ih =>
    rw [List.mapM_cons]
    refine gives_bind (h x (by simp)) fun _ => ?_
    refine gives_bind (ih fun a ha => h a (by simp [ha])) fun _ => ?_
    exact gives_pure fun _ hs => hs

/-- And the state that they leave is what their states fold to. -/
theorem exists_mapM_outcome {f : α → Change σ β} {xs : List α}
    (h : ∀ a ∈ xs, Gives P (f a) fun _ => P) {s : σ} (hs : P s) :
    ∃ ys, (xs.mapM f).outcome s = (.ok ys, xs.foldl (fun s a => ((f a).outcome s).2) s) := by
  induction xs generalizing s with
  | nil => exact ⟨[], rfl⟩
  | cons x rest ih =>
    obtain ⟨y, t, hrun, ht⟩ := h x (by simp) s hs
    obtain ⟨ys, hrest⟩ := ih (fun a ha => h a (by simp [ha])) ht
    refine ⟨y :: ys, ?_⟩
    rw [List.mapM_cons, List.foldl_cons, outcome_bind, hrun]
    dsimp only
    rw [outcome_bind, hrest]
    rfl

theorem gives_forM {f : α → Change σ PUnit} {xs : List α}
    (h : ∀ a ∈ xs, Gives P (f a) fun _ => P) : Gives P (xs.forM f) fun _ => P := by
  induction xs with
  | nil => exact gives_pure fun _ hs => hs
  | cons x rest ih =>
    show Gives P (f x >>= fun _ => rest.forM f) _
    exact gives_bind (h x (by simp)) fun _ => ih fun a ha => h a (by simp [ha])

end

end CodeHabits.Change
