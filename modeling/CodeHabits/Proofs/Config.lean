import CodeHabits.Proofs.Except
import CodeHabits.Settings

/-!
# `CodeHabits.Proofs.Config`: what a checked configuration is known to have

`Config.validate` looks at one value after the other. `Checked` says what it looks
for, value by value, and `validate_eq_ok_iff` that it accepts exactly the
configurations that have it.

Some values are not looked at: the step of the weights and the factors of
suggestions. They may be anything. Others are only bounded from below, so the
recency window, the upper bound of the weights and the two thresholds may be
infinite or no number at all, as long as they are floating-point.
-/

set_option autoImplicit false

namespace CodeHabits

namespace Config

/-- A value of a section is a number of some kind. -/
def Has (values : Section) (name : String) (kind : Number → Prop) : Prop :=
  ∃ n, (valueOf values name).number? = some n ∧ kind n

theorem Has.isSome {values : Section} {name : String} {kind : Number → Prop}
    (h : Has values name kind) : (valueOf values name).number?.isSome := by
  obtain ⟨n, hn, _⟩ := h
  rw [hn]
  rfl

/-- From zero to one. -/
def ZeroToOne (n : Number) : Prop :=
  zero.le n = true ∧ n.le one = true

/-- Not below one. -/
def NotBelowOne (n : Number) : Prop :=
  n.lt (.int 1) = false

/-- What a configuration is checked for. -/
structure Checked (c : Config) : Prop where
  threshold : Has c.engine "confidence_threshold" ZeroToOne
  suggestions : Has c.engine "max_suggestions" NotBelowOne
  codeSize : Has c.engine "max_code_size" NotBelowOne
  timeout : Has c.engine "parse_timeout" fun n => n.le (.int 0) = false
  alpha : Has c.learning "smoothing_alpha" ZeroToOne
  base : Has c.learning "base_score" ZeroToOne
  gain : Has c.learning "gain" ZeroToOne
  floor : Has c.learning "forgetting_floor" ZeroToOne
  /-- Of a rejection and a modification, the rejection lowers more. -/
  penalties : Has c.learning "penalty" fun penalty => zero.lt penalty = true ∧
    Has c.learning "modify_factor" fun modify => penalty.lt modify = true ∧ modify.le one = true
  decay : Has c.learning "decay_factor" fun n => zero.lt n = true ∧ n.lt one = true
  window : Has c.learning "recency_window_hours" fun n => n.lt (.int 0) = false
  ignored : Has c.learning "ignore_streak_threshold" NotBelowOne
  least : Has c.learning "min_weight" fun n => zero.lt n = true ∧ n.le one = true
  most : Has c.learning "max_weight" fun n => one.le n = true
  preference : Has c.learning "preference_threshold" NotBelowOne

theorem need_eq_ok {bound : Bound} {holds : Bool} : need bound holds = .ok () ↔ holds = true := by
  cases holds <;> simp [need]

theorem number_eq_ok {values : Section} {name : String} {n : Number} :
    number values name = .ok n ↔ (valueOf values name).number? = some n := by
  unfold number valueOf
  cases ((values.get? name).getD .null).number? <;> simp

/-- A check of a number succeeds where the number is there and has what comes
after. -/
theorem bind_number_eq_ok {values : Section} {name : String} {next : Number → Except Fault Unit} :
    number values name >>= next = .ok () ↔ Has values name fun n => next n = .ok () := by
  rw [Except.bind_eq_ok]
  simp only [number_eq_ok, Has]

/-- What does not depend on the value may be said of it or by itself. -/
theorem has_and {values : Section} {name : String} {kind : Number → Prop} {p : Prop} :
    (Has values name fun n => kind n ∧ p) ↔ Has values name kind ∧ p := by
  constructor
  · rintro ⟨n, hn, hkind, hp⟩
    exact ⟨⟨n, hn, hkind⟩, hp⟩
  · rintro ⟨⟨n, hn, hkind⟩, hp⟩
    exact ⟨n, hn, hkind, hp⟩

theorem needUnit_eq_ok {values : Section} {name : String} :
    needUnit values name = .ok () ↔ Has values name ZeroToOne := by
  rw [needUnit, bind_number_eq_ok]
  unfold ZeroToOne
  simp only [need_eq_ok, Bool.and_eq_true]

theorem needAtLeastOne_eq_ok {bound : Bound} {values : Section} {name : String} :
    needAtLeastOne bound values name = .ok () ↔ Has values name NotBelowOne := by
  rw [needAtLeastOne, bind_number_eq_ok]
  unfold NotBelowOne
  simp only [need_eq_ok, Bool.not_eq_true']

/-- One check after another. -/
theorem bind_check_eq_ok {x : Except Fault Unit} {next : Unit → Except Fault Unit} :
    x >>= next = .ok () ↔ x = .ok () ∧ next () = .ok () := by
  rw [Except.bind_eq_ok]
  constructor
  · rintro ⟨_, hx, h⟩
    exact ⟨hx, h⟩
  · rintro ⟨hx, h⟩
    exact ⟨_, hx, h⟩

theorem forM_eq_ok {names : List String} {check : String → Except Fault Unit} :
    names.forM check = .ok () ↔ ∀ name ∈ names, check name = .ok () := by
  induction names with
  | nil =>
    simp only [List.not_mem_nil, false_implies, implies_true, iff_true]
    rfl
  | cons name rest ih =>
    show check name >>= (fun _ => rest.forM check) = .ok () ↔ _
    rw [bind_check_eq_ok, ih, List.forall_mem_cons]

/-- A configuration is accepted exactly if it has what it is checked for. -/
theorem validate_eq_ok_iff {c : Config} : c.validate = .ok () ↔ c.Checked := by
  unfold validate
  simp only [bind_check_eq_ok, bind_number_eq_ok, needUnit_eq_ok, needAtLeastOne_eq_ok,
    need_eq_ok, forM_eq_ok, has_and, ← and_assoc (a := _ = true), Bool.and_eq_true,
    Bool.not_eq_true', List.forall_mem_cons]
  constructor
  · rintro ⟨threshold, suggestions, codeSize, timeout, ⟨alpha, base, gain, floor, _⟩, penalties,
      decay, window, ignored, least, most, preference⟩
    exact { threshold, suggestions, codeSize, timeout, alpha, base, gain, floor, penalties, decay,
            window, ignored, least, most, preference }
  · intro h
    exact ⟨h.threshold, h.suggestions, h.codeSize, h.timeout, ⟨h.alpha, h.base, h.gain, h.floor,
      by simp⟩, h.penalties, h.decay, h.window, h.ignored, h.least, h.most, h.preference⟩

end Config

end CodeHabits
