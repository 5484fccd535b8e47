import CodeHabits.Proofs.Change
import CodeHabits.Proofs.Except
import CodeHabits.Store

/-!
# `CodeHabits.Proofs.Store.Straying`: learning fails outside of the domain

The faults of the domain answer a request by themselves. None of them comes from learning:
what may go wrong there is that a value is no number, no label or no object, or too large a
number. `Strays` says this of a computation, and there is one lemma for each way in which
the computations of a store are put together. `strays_upsert` is what they lead to. So a
fault of the domain comes from what is done before anything is learned.
-/

set_option autoImplicit false

namespace CodeHabits

open Time (Timestamp)

/-! ### Computations that stray -/

/-- If the computation fails, then not with a fault of the domain. -/
def Except.Strays {α : Type} (x : Except Fault α) : Prop :=
  ∀ fault, x = .error fault → fault.isDomain = false

/-- If the change fails, then not with a fault of the domain. -/
def Change.Strays {σ α : Type} (x : Change σ α) : Prop :=
  ∀ s fault t, x.outcome s = (.error fault, t) → fault.isDomain = false

namespace Except

variable {α β : Type}

theorem strays_ok (a : α) : Strays (Except.ok a) :=
  nofun

theorem strays_error {fault : Fault} (h : fault.isDomain = false) :
    Strays (Except.error fault : Except Fault α) := by
  intro other hother
  cases hother
  exact h

theorem strays_bind {x : Except Fault α} {f : α → Except Fault β} (hx : Strays x)
    (hf : ∀ a, Strays (f a)) : Strays (x >>= f) := by
  intro fault h
  rcases Except.bind_eq_error.1 h with h | ⟨a, _, h⟩
  · exact hx fault h
  · exact hf a fault h

end Except

namespace Change

variable {σ τ α β : Type}

theorem strays_pure (a : α) : Strays (pure a : Change σ α) :=
  nofun

theorem strays_get : Strays (get : Change σ σ) :=
  nofun

theorem strays_set (s : σ) : Strays (set s : Change σ PUnit) :=
  nofun

theorem strays_modify (f : σ → σ) : Strays (modify f : Change σ PUnit) :=
  nofun

theorem strays_throw {fault : Fault} (h : fault.isDomain = false) :
    Strays (throw fault : Change σ α) := by
  intro s other t hother
  cases hother
  exact h

theorem strays_ofExcept {x : Except Fault α} (h : Except.Strays x) :
    Strays (ofExcept x : Change σ α) := by
  intro s fault t hfails
  exact h fault (ofExcept_eq_error.1 hfails).1

theorem strays_bind {x : Change σ α} {f : α → Change σ β} (hx : Strays x)
    (hf : ∀ a, Strays (f a)) : Strays (x >>= f) := by
  intro s fault t h
  rcases bind_eq_error.1 h with h | ⟨a, u, _, h⟩
  · exact hx s fault t h
  · exact hf a u fault t h

theorem strays_within {get : σ → τ} {set : σ → τ → σ} {x : Change τ α} (hx : Strays x) :
    Strays (within get set x) := by
  intro s fault t h
  rw [outcome_within] at h
  have hfails : (x.outcome (get s)).1 = .error fault := congrArg Prod.fst h
  exact hx (get s) fault _ (Prod.ext hfails rfl)

theorem strays_forM {f : α → Change σ PUnit} {xs : List α} (h : ∀ a ∈ xs, Strays (f a)) :
    Strays (xs.forM f) := by
  induction xs with
  | nil => exact strays_pure _
  | cons x rest ih =>
    show Strays (f x >>= fun _ => rest.forM f)
    exact strays_bind (h x (by simp)) fun _ => ih fun a ha => h a (by simp [ha])

theorem strays_mapM {f : α → Change σ β} {xs : List α} (h : ∀ a ∈ xs, Strays (f a)) :
    Strays (xs.mapM f) := by
  induction xs with
  | nil => exact strays_pure _
  | cons x rest ih =>
    rw [List.mapM_cons]
    refine strays_bind (h x (by simp)) fun _ => ?_
    exact strays_bind (ih fun a ha => h a (by simp [ha])) fun _ => strays_pure _

end Change

open Change (strays_bind strays_get strays_modify strays_ofExcept strays_pure strays_within)

/-! ### Values -/

namespace Value

theorem strays_toNumber (value : Value) : Except.Strays value.toNumber := by
  unfold toNumber
  split
  · exact Except.strays_ok _
  · exact Except.strays_error rfl

theorem strays_toLabel (value : Value) : Except.Strays value.toLabel := by
  unfold toLabel
  split
  · exact Except.strays_ok _
  · exact Except.strays_error rfl

theorem strays_toMembers (value : Value) : Except.Strays value.toMembers := by
  unfold toMembers
  split
  · exact Except.strays_ok _
  · exact Except.strays_error rfl

/-- What arithmetic fails at is no number, or the result is too large. -/
theorem strays_onNumbers (operation : Number → Number → Option Number) (a b : Value) :
    Except.Strays (onNumbers (fun m n => Number.orOverflow (operation m n)) a b) := by
  refine Except.strays_bind (strays_toNumber a) fun m => ?_
  refine Except.strays_bind (strays_toNumber b) fun n => ?_
  refine Except.strays_bind ?_ fun _ => Except.strays_ok _
  show Except.Strays (Number.orOverflow (operation m n))
  unfold Number.orOverflow
  split
  · exact Except.strays_ok _
  · exact Except.strays_error rfl

theorem strays_add (a b : Value) : Except.Strays (Magnitude.add a b) :=
  strays_onNumbers Number.add? a b

theorem strays_sub (a b : Value) : Except.Strays (Magnitude.sub a b) :=
  strays_onNumbers Number.sub? a b

theorem strays_mul (a b : Value) : Except.Strays (Magnitude.mul a b) :=
  strays_onNumbers Number.mul? a b

theorem strays_lt (a b : Value) : Except.Strays (Magnitude.lt a b) := by
  show Except.Strays (compareBy _ _ a b)
  unfold compareBy
  split
  · exact Except.strays_ok _
  · refine Except.strays_bind (strays_toNumber _) fun m => ?_
    exact Except.strays_bind (strays_toNumber _) fun n => Except.strays_ok _

theorem strays_clampConfidence (value : Value) : Except.Strays (clampConfidence value) := by
  refine Except.strays_bind ?_ fun least => ?_
  · exact Except.strays_bind (strays_lt _ _) fun _ => Except.strays_ok _
  · exact Except.strays_bind (strays_lt _ _) fun _ => Except.strays_ok _

end Value

theorem Smoothing.strays_toward (m : Smoothing Value) (confidence : Value) :
    Except.Strays (m.toward confidence) := by
  refine Except.strays_bind (Value.strays_mul _ _) fun _ => ?_
  refine Except.strays_bind (Value.strays_sub _ _) fun _ => ?_
  refine Except.strays_bind (Value.strays_mul _ _) fun _ => ?_
  exact Except.strays_bind (Value.strays_add _ _) fun _ => Value.strays_clampConfidence _

theorem Tallies.strays_tallyOne (habit : String) (seen : Value) :
    Change.Strays (tallyOne habit seen) := by
  unfold tallyOne
  refine strays_bind (strays_modify _) fun _ => ?_
  refine strays_bind (strays_ofExcept (Value.strays_toLabel seen)) fun _ => ?_
  refine strays_bind strays_get fun _ => ?_
  exact strays_bind (strays_ofExcept (Value.strays_add _ _)) fun _ => strays_modify _

theorem Tallies.strays_tally (style : Value) : Change.Strays (tally style) := by
  unfold tally
  refine strays_bind (strays_ofExcept (Value.strays_toMembers style)) fun members => ?_
  exact Change.strays_forM fun entry _ => strays_tallyOne entry.1 entry.2

/-! ### Sightings -/

namespace Store

variable {m : Smoothing Value} {now : Timestamp} {c : Sighting}

theorem strays_countStyle (c : Sighting) :
    Change.Strays (countStyle c : Change (Pattern Value) Unit) :=
  strays_within (Tallies.strays_tally c.style)

theorem strays_seeAgain (m : Smoothing Value) (now : Timestamp) (c : Sighting) :
    Change.Strays (seeAgain m now c) := by
  unfold seeAgain
  refine strays_bind strays_get fun _ => ?_
  refine strays_bind (strays_ofExcept (Value.strays_add _ _)) fun _ => ?_
  refine strays_bind (strays_modify _) fun _ => ?_
  refine strays_bind strays_get fun _ => ?_
  refine strays_bind (strays_ofExcept (m.strays_toward _)) fun _ => ?_
  refine strays_bind (strays_modify _) fun _ => ?_
  refine strays_bind (strays_countStyle c) fun _ => ?_
  refine strays_bind (strays_modify _) fun _ => ?_
  refine strays_bind strays_get fun _ => ?_
  -- Only a retired pattern is compared with the floor.
  split
  · refine strays_bind (strays_ofExcept (Value.strays_lt _ _)) fun _ => ?_
    split
    · exact strays_modify _
    · exact strays_pure _
  · exact strays_pure _

theorem strays_firstSighting (m : Smoothing Value) (id : Label) (now : Timestamp) (c : Sighting) :
    Except.Strays (firstSighting m id now c) :=
  Except.strays_bind (Value.strays_clampConfidence _) fun _ => Except.strays_ok _

theorem strays_alter {α : Type} (id : Label) {x : Change (Pattern Value) α}
    (hx : Change.Strays x) : Change.Strays (alter id x) := by
  unfold alter
  refine strays_bind strays_get fun s => ?_
  cases s.get? id with
  | none => exact Change.strays_throw rfl
  | some p => exact strays_within hx

/-- Learning from a sighting does not fail with a fault of the domain. -/
theorem strays_upsert (idOf : IdScheme) (now : Timestamp) (c : Sighting) :
    Change.Strays (upsert idOf now c : Change (Store Value) Label) := by
  unfold upsert
  refine strays_bind strays_get fun s => ?_
  cases s.lookup? c.language c.signature with
  | some id =>
    refine strays_bind (strays_alter id (strays_seeAgain _ now c)) fun _ => ?_
    exact strays_pure _
  | none =>
    refine strays_bind (strays_ofExcept (strays_firstSighting _ _ now c)) fun p => ?_
    refine strays_bind (strays_ofExcept ?_) fun _ => ?_
    · intro fault hfails
      exact strays_countStyle c p fault _ (Prod.ext hfails rfl)
    · exact strays_bind (Change.strays_set _) fun _ => strays_pure _

end Store

end CodeHabits
