import CodeHabits.Budget
import CodeHabits.Concrete.Lowering

/-!
# `CodeHabits.Proofs.Budget`: parsing under a budget

What a front-end makes of a source text depends on how much of its budget is left. Much
that matters does not: `Timed.Ends P x` says that whatever the budget and however much of
it is used, `P` holds of the result of `x`, and a fault of `x` is one of reading
(`Fault.OfReading`). `Reporting.Ends` says the same of computations that report problems
on the way. There is one lemma for each way in which such computations are put together.
-/

set_option autoImplicit false

namespace CodeHabits

/-- What reading a source text may fail with: a fault of the domain, a text that the
grammar refuses as no text of its language at all, and a declaration without parts. -/
def Fault.OfReading (fault : Fault) : Prop :=
  fault.isDomain = true ∨ fault = .refused .unreadable ∨ fault = .outOfRange

namespace Timed

variable {α β : Type} {P : α → Prop} {Q : β → Prop}

/-- However much of whatever budget is used, a result has `P`, and a fault is one of
reading. -/
def Ends (P : α → Prop) (x : Timed α) : Prop :=
  ∀ budget used, ∃ result left, (x.run budget).run.run used = (result, left) ∧
    ((∃ a, result = .ok a ∧ P a) ∨ ∃ fault, result = .error fault ∧ fault.OfReading)

theorem ends_pure {a : α} (h : P a) : Ends P (pure a) := by
  intro budget used
  exact ⟨.ok a, used, rfl, .inl ⟨a, rfl, h⟩⟩

theorem ends_throw {fault : Fault} (h : fault.OfReading) : Ends P (throw fault) := by
  intro budget used
  exact ⟨.error fault, used, rfl, .inr ⟨fault, rfl, h⟩⟩

/-- A sequence ends as its parts do: the second part knows what the first one gives. -/
theorem ends_bind {x : Timed α} {f : α → Timed β} (hx : Ends P x)
    (hf : ∀ a, P a → Ends Q (f a)) : Ends Q (x >>= f) := by
  intro budget used
  obtain ⟨result, left, hrun, ⟨a, rfl, ha⟩ | ⟨fault, rfl, hfault⟩⟩ := hx budget used
  · obtain ⟨result, rest, hrest, hends⟩ := hf a ha budget left
    refine ⟨result, rest, ?_, hends⟩
    rw [ReaderT.run_bind, ExceptT.run_bind, StateT.run_bind, hrun]
    exact hrest
  · refine ⟨.error fault, left, ?_, .inr ⟨fault, rfl, hfault⟩⟩
    rw [ReaderT.run_bind, ExceptT.run_bind, StateT.run_bind, hrun]
    rfl

theorem ends_ofExcept {x : Except Fault α}
    (h : (∃ a, x = .ok a ∧ P a) ∨ ∃ fault, x = .error fault ∧ fault.OfReading) :
    Ends P (ofExcept x) := by
  rcases h with ⟨a, rfl, ha⟩ | ⟨fault, rfl, hfault⟩
  · exact ends_pure ha
  · exact ends_throw hfault

/-- A look at the budget at worst finds that it is used up. -/
theorem ends_check : Ends (fun _ => True) check := by
  unfold check
  refine ends_bind (P := fun _ => True) ?_ fun used _ => ?_
  · intro budget used
    exact ⟨.ok used, used + 1, rfl, .inl ⟨used, rfl, trivial⟩⟩
  refine ends_bind (P := fun _ => True) ?_ fun budget _ => ?_
  · intro budget used
    exact ⟨.ok budget, used, rfl, .inl ⟨budget, rfl, trivial⟩⟩
  cases budget.allowed with
  | none => exact ends_pure trivial
  | some most =>
    dsimp only
    split
    · exact ends_throw (.inl rfl)
    · exact ends_pure trivial

theorem ends_checkTimes (count : Nat) : Ends (fun _ => True) (checkTimes count) := by
  induction count with
  | zero => exact ends_pure trivial
  | succ count ih =>
    rw [checkTimes]
    exact ends_bind ends_check fun _ _ => ih

/-- A fold ends well if each step keeps what it begins with. -/
theorem ends_foldlM {σ : Type} {R : σ → Prop} {f : σ → α → Timed σ} {xs : List α}
    (h : ∀ s, ∀ x ∈ xs, R s → Ends R (f s x)) {s : σ} (hs : R s) : Ends R (xs.foldlM f s) := by
  induction xs generalizing s with
  | nil => exact ends_pure hs
  | cons x rest ih =>
    rw [List.foldlM_cons]
    refine ends_bind (h s x (by simp) hs) fun t ht => ?_
    exact ih (fun s other hother => h s other (by simp [hother])) ht

/-- What is said of every run is said of the one from the beginning. -/
theorem Ends.outcome {x : Timed α} (h : Ends P x) (budget : Budget) :
    (∃ a, (x.outcome budget).1 = .ok a ∧ P a) ∨
      ∃ fault, (x.outcome budget).1 = .error fault ∧ fault.OfReading := by
  obtain ⟨result, left, hrun, hends⟩ := h budget 0
  have houtcome : (x.outcome budget).1 = result := by
    rw [Timed.outcome, hrun]
  rw [houtcome]
  exact hends

end Timed

namespace Concrete

/-- Whatever was reported before, the computation ends with `P` or a fault of reading. -/
def Reporting.Ends {α : Type} (P : α → Prop) (x : Reporting α) : Prop :=
  ∀ reports, Timed.Ends (fun result => P result.1) (x.run reports)

namespace Reporting

variable {α β : Type} {P : α → Prop} {Q : β → Prop}

theorem ends_pure {a : α} (h : P a) : Ends P (pure a) :=
  fun _ => Timed.ends_pure h

theorem ends_throw {fault : Fault} (h : fault.OfReading) : Ends P (throw fault) :=
  fun _ => Timed.ends_throw h

theorem ends_bind {x : Reporting α} {f : α → Reporting β} (hx : Ends P x)
    (hf : ∀ a, P a → Ends Q (f a)) : Ends Q (x >>= f) :=
  fun reports => Timed.ends_bind (hx reports) fun result hresult => hf result.1 hresult result.2

/-- A look at the budget reports nothing. -/
theorem ends_check : Ends (fun _ => True) (Timed.check : Reporting Unit) :=
  fun _ => Timed.ends_bind Timed.ends_check fun _ _ => Timed.ends_pure trivial

end Reporting

end Concrete

/-!
## A budget only cuts off

A computation may look at its budget and use the answer for nothing but to go on or to
stop. Such a computation is `Metered`: the run whose budget never runs out has a result
and a number of looks; a budget that allows at least so many looks changes neither, and a
budget that allows fewer ends the run at the first look that it does not allow.

Looks before the computation count too, since the number taken is handed on. A run is
therefore described from any number of looks on (`Timed.MeteredFrom`), and a sequence is
metered if its parts are: where the budget is used up in the second part, the first part
has had enough.
-/

namespace Timed

variable {α β : Type}

/-- The run of a computation under a budget of which so many looks have been taken. -/
def runFrom (x : Timed α) (budget : Budget) (used : Nat) : Except Fault α × Nat :=
  (x.run budget).run.run used

/-- From `used` looks on, the computation comes to `result` after `left` looks in all,
unless the budget ends it before. -/
structure MeteredFrom (x : Timed α) (used : Nat) (result : Except Fault α) (left : Nat) :
    Prop where
  le : used ≤ left
  /-- Without a limit, what the budget was given as does not matter. -/
  free : ∀ given seconds, x.runFrom ⟨none, given, seconds⟩ used = (result, left)
  enough : ∀ most given seconds, left ≤ most →
    x.runFrom ⟨some most, given, seconds⟩ used = (result, left)
  short : ∀ most given seconds, used ≤ most → most < left →
    x.runFrom ⟨some most, given, seconds⟩ used = (.error (.outOfTime given seconds), most + 1)

/-- The budget only cuts off. -/
def Metered (x : Timed α) : Prop :=
  ∀ used, ∃ result left, x.MeteredFrom used result left

/-- A sequence whose first part gives a value goes on with the second. -/
theorem runFrom_bind_ok {x : Timed α} {f : α → Timed β} {budget : Budget} {used left : Nat}
    {a : α} (h : x.runFrom budget used = (.ok a, left)) :
    (x >>= f).runFrom budget used = (f a).runFrom budget left := by
  unfold runFrom at h ⊢
  rw [ReaderT.run_bind, ExceptT.run_bind, StateT.run_bind, h]
  rfl

/-- A sequence whose first part fails is over. -/
theorem runFrom_bind_error {x : Timed α} {f : α → Timed β} {budget : Budget} {used left : Nat}
    {fault : Fault} (h : x.runFrom budget used = (.error fault, left)) :
    (x >>= f).runFrom budget used = (.error fault, left) := by
  unfold runFrom at h ⊢
  rw [ReaderT.run_bind, ExceptT.run_bind, StateT.run_bind, h]
  rfl

/-- What takes no look is metered: nothing is there to cut off. -/
theorem metered_of_runFrom {x : Timed α} {result : Except Fault α}
    (h : ∀ budget used, x.runFrom budget used = (result, used)) : Metered x := by
  intro used
  refine ⟨result, used, ?_⟩
  constructor
  case le => exact Nat.le_refl used
  case free => exact fun given seconds => h _ used
  case enough => exact fun most given seconds _ => h _ used
  case short =>
    intro most given seconds hused hleft
    omega

theorem metered_pure (a : α) : Metered (pure a) :=
  metered_of_runFrom fun _ _ => rfl

theorem metered_throw (fault : Fault) : Metered (throw fault : Timed α) :=
  metered_of_runFrom fun _ _ => rfl

theorem metered_ofExcept (x : Except Fault α) : Metered (ofExcept x) := by
  cases x with
  | ok a => exact metered_pure a
  | error fault => exact metered_throw fault

/-- The first part of a sequence either ends it or says where the second one begins. -/
theorem metered_bind {x : Timed α} {f : α → Timed β} (hx : Metered x)
    (hf : ∀ a, Metered (f a)) : Metered (x >>= f) := by
  intro used
  obtain ⟨result, middle, hx⟩ := hx used
  cases result with
  | error fault =>
    refine ⟨.error fault, middle, ?_⟩
    constructor
    case le => exact hx.le
    case free => exact fun given seconds => runFrom_bind_error (hx.free given seconds)
    case enough =>
      exact fun most given seconds hmost => runFrom_bind_error (hx.enough most given seconds hmost)
    case short =>
      exact fun most given seconds hused hmost =>
        runFrom_bind_error (hx.short most given seconds hused hmost)
  | ok a =>
    obtain ⟨result, left, hf⟩ := hf a middle
    have hle : middle ≤ left := hf.le
    refine ⟨result, left, ?_⟩
    constructor
    case le => exact Nat.le_trans hx.le hle
    case free =>
      intro given seconds
      rw [runFrom_bind_ok (hx.free given seconds)]
      exact hf.free given seconds
    case enough =>
      intro most given seconds hmost
      rw [runFrom_bind_ok (hx.enough most given seconds (by omega))]
      exact hf.enough most given seconds hmost
    case short =>
      intro most given seconds hused hmost
      by_cases hmiddle : most < middle
      · exact runFrom_bind_error (hx.short most given seconds hused hmiddle)
      · -- The first part has had enough, so the cut is in the second.
        rw [runFrom_bind_ok (hx.enough most given seconds (by omega))]
        exact hf.short most given seconds (by omega) hmost

/-- A look is where a budget cuts off. -/
theorem metered_check : Metered check := by
  intro used
  have hlimited : ∀ most given seconds, check.runFrom ⟨some most, given, seconds⟩ used =
      (if most ≤ used then .error (.outOfTime given seconds) else .ok (), used + 1) := by
    intro most given seconds
    show ((if most ≤ used then throw (.outOfTime given seconds) else pure () : Timed Unit)).runFrom
      ⟨some most, given, seconds⟩ (used + 1) = _
    split <;> rfl
  refine ⟨.ok (), used + 1, ?_⟩
  constructor
  case le => omega
  case free => exact fun _ _ => rfl
  case enough =>
    intro most given seconds hmost
    rw [hlimited, if_neg (by omega)]
  case short =>
    intro most given seconds hused hmost
    have hlast : most = used := by omega
    rw [hlimited, if_pos (by omega), hlast]

theorem metered_checkTimes (count : Nat) : Metered (checkTimes count) := by
  induction count with
  | zero => exact metered_pure ()
  | succ count ih =>
    rw [checkTimes]
    exact metered_bind metered_check fun _ => ih

/-- Without a limit every look finds something left. -/
theorem runFrom_checkTimes (count used : Nat) :
    (checkTimes count).runFrom .unlimited used = (.ok (), used + count) := by
  induction count generalizing used with
  | zero => rfl
  | succ count ih =>
    have hcheck : check.runFrom .unlimited used = (.ok (), used + 1) := rfl
    rw [checkTimes, runFrom_bind_ok hcheck, ih]
    congr 1
    omega

/-- A fold is metered if each step is. -/
theorem metered_foldlM {σ : Type} {f : σ → α → Timed σ} (h : ∀ s x, Metered (f s x))
    (xs : List α) (s : σ) : Metered (xs.foldlM f s) := by
  induction xs generalizing s with
  | nil => exact metered_pure s
  | cons x rest ih =>
    rw [List.foldlM_cons]
    exact metered_bind (h s x) ih

/-- A computation that is metered takes a number of looks of its own. A budget that allows
them all is as good as one without a limit, and a smaller one ends the run at the first
look too many. -/
theorem Metered.outcome_eq {x : Timed α} (h : Metered x) (most : Nat) (given : Value)
    (seconds : Float) :
    x.outcome ⟨some most, given, seconds⟩ =
      if (x.outcome .unlimited).2 ≤ most then x.outcome .unlimited
      else (.error (.outOfTime given seconds), most + 1) := by
  obtain ⟨result, left, h⟩ := h 0
  have hfree : x.outcome .unlimited = (result, left) := h.free (.int 0) 0.0
  rw [hfree]
  by_cases hmost : left ≤ most
  · rw [if_pos hmost]
    exact h.enough most given seconds hmost
  · rw [if_neg hmost]
    exact h.short most given seconds (Nat.zero_le most) (by omega)

/-- Without a limit, what the budget was given as does not matter. -/
theorem Metered.outcome_free {x : Timed α} (h : Metered x) (given : Value) (seconds : Float) :
    x.outcome ⟨none, given, seconds⟩ = x.outcome .unlimited := by
  obtain ⟨result, left, h⟩ := h 0
  exact (h.free given seconds).trans (h.free (.int 0) 0.0).symm

end Timed

namespace Concrete

/-- Whatever was reported before, the budget only cuts off. -/
def Reporting.Metered {α : Type} (x : Reporting α) : Prop :=
  ∀ reports, Timed.Metered (x.run reports)

namespace Reporting

variable {α β : Type}

theorem metered_pure (a : α) : Metered (pure a) :=
  fun reports => Timed.metered_pure (a, reports)

theorem metered_throw (fault : Fault) : Metered (throw fault : Reporting α) :=
  fun _ => Timed.metered_throw fault

theorem metered_bind {x : Reporting α} {f : α → Reporting β} (hx : Metered x)
    (hf : ∀ a, Metered (f a)) : Metered (x >>= f) :=
  fun reports => Timed.metered_bind (hx reports) fun result => hf result.1 result.2

theorem metered_check : Metered (Timed.check : Reporting Unit) :=
  fun reports => Timed.metered_bind Timed.metered_check fun _ => Timed.metered_pure ((), reports)

theorem metered_modify (change : Reports → Reports) : Metered (modify change : Reporting Unit) :=
  fun reports => Timed.metered_pure ((), change reports)

end Reporting

end Concrete

end CodeHabits
