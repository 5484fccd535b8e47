import CodeHabits.Proofs.Config
import CodeHabits.Proofs.Table
import CodeHabits.Proofs.Value.Place

/-!
# `CodeHabits.Proofs.Config.Loaded`: what a configuration that was loaded is known to have

A value of a loaded configuration comes from the environment if there is a variable for it
that can be read, else from the file if the file has it, and else it is the default
(`get?_readSection`).

The bounds are said of places on the line of numbers, so they are said of exact values and
of the infinite numbers alike. What is no number stands nowhere on the line. A value that
has to be at least or at most something is refused then, as no comparison with it holds. A
value that must not be too small is let through for the same reason. `Bounded` takes the
meaning of these one-sided bounds as a parameter: `Value.Keeps` is what the messages say,
and `Value.KeepsOrNan` is what is checked (`validate_eq_ok_iff_bounded`).
-/

set_option autoImplicit false

namespace CodeHabits

/-! ### Numbers within bounds -/

namespace Number

variable {a b n : Number}

/-- Strictly less: both are on the line, one before the other. -/
theorem lt_iff_place : a.lt b = true ↔ a.OnLine ∧ b.OnLine ∧ a.place < b.place := by
  constructor
  · intro h
    obtain ⟨ha, hb⟩ := onLine_of_le (le_of_lt h)
    rw [lt_eq_place ha hb] at h
    exact ⟨ha, hb, of_decide_eq_true h⟩
  · rintro ⟨ha, hb, h⟩
    rw [lt_eq_place ha hb]
    exact decide_eq_true h

theorem le_iff_place : a.le b = true ↔ a.OnLine ∧ b.OnLine ∧ a.place ≤ b.place := by
  constructor
  · intro h
    obtain ⟨ha, hb⟩ := onLine_of_le h
    rw [le_eq_place ha hb] at h
    exact ⟨ha, hb, of_decide_eq_true h⟩
  · rintro ⟨ha, hb, h⟩
    rw [le_eq_place ha hb]
    exact decide_eq_true h

theorem onLine_iff {x : Float} : (Number.real x).OnLine ↔ Binary64.isNan x = false := by
  show (Key.ofReal x).OnLine ↔ _
  unfold Key.ofReal Binary64.isNan
  cases Binary64.decode x <;> simp [Key.OnLine]

theorem place_of_asRat? {q : Rat} (h : a.asRat? = some q) :
    a.OnLine ∧ a.place = ((q : WithTop Rat) : Place) := by
  have hkey := key_of_asRat? h
  exact ⟨by rw [OnLine, hkey]; trivial, by rw [place, hkey]; rfl⟩

theorem onLine_zero : Config.zero.OnLine := (place_of_asRat? asRat?_zero).1

theorem onLine_one : Config.one.OnLine := (place_of_asRat? asRat?_one).1

theorem place_zero : Config.zero.place = 0 := (place_of_asRat? asRat?_zero).2

theorem place_one : Config.one.place = 1 := (place_of_asRat? asRat?_one).2

end Number

namespace Value

/-- The value is a number whose place keeps a bound. -/
def Keeps (v : Value) (bound : Place → Prop) : Prop :=
  v.OnLine ∧ bound v.place

/-- The value is the floating-point number that is none. -/
def IsNan (v : Value) : Prop :=
  ∃ x, v = .real x ∧ Binary64.isNan x = true

/-- The value keeps a bound unless it is the floating-point number that is none. -/
def KeepsOrNan (v : Value) (bound : Place → Prop) : Prop :=
  v.Keeps bound ∨ v.IsNan

theorem place_of_number? {v : Value} {n : Number} (hn : v.number? = some n) :
    v.place = n.place := by
  rw [place, hn]
  rfl

theorem isNan_of_not_onLine {v : Value} {n : Number} (hn : v.number? = some n)
    (hline : ¬ n.OnLine) : v.IsNan := by
  cases n with
  | int m => exact absurd trivial hline
  | real x =>
    have hnan : Binary64.isNan x = true := by
      rw [Number.onLine_iff, Bool.not_eq_false] at hline
      exact hline
    cases v with
    | real y =>
      cases hn
      exact ⟨x, rfl, hnan⟩
    | _ => cases hn

theorem not_keeps_of_isNan {v : Value} {bound : Place → Prop} (h : v.IsNan) :
    ¬ v.Keeps bound := by
  obtain ⟨x, rfl, hnan⟩ := h
  rintro ⟨⟨n, hn, hline⟩, -⟩
  cases hn
  rw [Number.onLine_iff, hnan] at hline
  cases hline

end Value

namespace Config

/-! ### The bounds of a configuration -/

section

variable {values : Section} {name : String} {kind : Number → Prop} {bound : Place → Prop}

theorem has_iff_keeps (h : ∀ n, kind n ↔ n.OnLine ∧ bound n.place) :
    Has values name kind ↔ (valueOf values name).Keeps bound := by
  constructor
  · rintro ⟨n, hn, hkind⟩
    obtain ⟨hline, hbound⟩ := (h n).1 hkind
    refine ⟨⟨n, hn, hline⟩, ?_⟩
    rw [Value.place_of_number? hn]
    exact hbound
  · rintro ⟨⟨n, hn, hline⟩, hbound⟩
    rw [Value.place_of_number? hn] at hbound
    exact ⟨n, hn, (h n).2 ⟨hline, hbound⟩⟩

/-- What is only asked of numbers on the line is let through of the one that is not. -/
theorem has_iff_keepsOrNan (h : ∀ n, kind n ↔ (n.OnLine → bound n.place)) :
    Has values name kind ↔ (valueOf values name).KeepsOrNan bound := by
  constructor
  · rintro ⟨n, hn, hkind⟩
    by_cases hline : n.OnLine
    · refine .inl ⟨⟨n, hn, hline⟩, ?_⟩
      rw [Value.place_of_number? hn]
      exact (h n).1 hkind hline
    · exact .inr (Value.isNan_of_not_onLine hn hline)
  · rintro (⟨⟨n, hn, hline⟩, hbound⟩ | ⟨x, hx, hnan⟩)
    · rw [Value.place_of_number? hn] at hbound
      exact ⟨n, hn, (h n).2 fun _ => hbound⟩
    · refine ⟨.real x, ?_, (h _).2 fun hline => ?_⟩
      · rw [hx]
        rfl
      · rw [Number.onLine_iff, hnan] at hline
        cases hline

end

/-- The bounds that the messages state. The values that only must not be too small are bounded in
the sense of `keeps`. -/
structure Bounded (keeps : Value → (Place → Prop) → Prop) (c : Config) : Prop where
  threshold : (valueOf c.engine "confidence_threshold").Keeps fun x => 0 ≤ x ∧ x ≤ 1
  suggestions : keeps (valueOf c.engine "max_suggestions") fun x => 1 ≤ x
  codeSize : keeps (valueOf c.engine "max_code_size") fun x => 1 ≤ x
  timeout : keeps (valueOf c.engine "parse_timeout") fun x => 0 < x
  alpha : (valueOf c.learning "smoothing_alpha").Keeps fun x => 0 ≤ x ∧ x ≤ 1
  base : (valueOf c.learning "base_score").Keeps fun x => 0 ≤ x ∧ x ≤ 1
  gain : (valueOf c.learning "gain").Keeps fun x => 0 ≤ x ∧ x ≤ 1
  floor : (valueOf c.learning "forgetting_floor").Keeps fun x => 0 ≤ x ∧ x ≤ 1
  penalty : (valueOf c.learning "penalty").Keeps fun x => 0 < x
  modify : (valueOf c.learning "modify_factor").Keeps fun x =>
    (valueOf c.learning "penalty").place < x ∧ x ≤ 1
  decay : (valueOf c.learning "decay_factor").Keeps fun x => 0 < x ∧ x < 1
  window : keeps (valueOf c.learning "recency_window_hours") fun x => 0 ≤ x
  ignored : keeps (valueOf c.learning "ignore_streak_threshold") fun x => 1 ≤ x
  least : (valueOf c.learning "min_weight").Keeps fun x => 0 < x ∧ x ≤ 1
  most : (valueOf c.learning "max_weight").Keeps fun x => 1 ≤ x
  preference : keeps (valueOf c.learning "preference_threshold") fun x => 1 ≤ x

section

variable (n : Number)

theorem zeroToOne_iff : ZeroToOne n ↔ n.OnLine ∧ 0 ≤ n.place ∧ n.place ≤ 1 := by
  rw [ZeroToOne, Number.le_iff_place, Number.le_iff_place, Number.place_zero, Number.place_one]
  simp only [Number.onLine_zero, Number.onLine_one, true_and]
  tauto

theorem betweenZeroAndOne_iff :
    (zero.lt n = true ∧ n.lt one = true) ↔ n.OnLine ∧ 0 < n.place ∧ n.place < 1 := by
  rw [Number.lt_iff_place, Number.lt_iff_place, Number.place_zero, Number.place_one]
  simp only [Number.onLine_zero, Number.onLine_one, true_and]
  tauto

theorem aboveZeroToOne_iff :
    (zero.lt n = true ∧ n.le one = true) ↔ n.OnLine ∧ 0 < n.place ∧ n.place ≤ 1 := by
  rw [Number.lt_iff_place, Number.le_iff_place, Number.place_zero, Number.place_one]
  simp only [Number.onLine_zero, Number.onLine_one, true_and]
  tauto

theorem fromOne_iff : one.le n = true ↔ n.OnLine ∧ 1 ≤ n.place := by
  rw [Number.le_iff_place, Number.place_one]
  exact and_iff_right Number.onLine_one

theorem place_int_one : Number.place (.int 1) = 1 := by
  rw [Number.place_int, Int.cast_one]
  rfl

theorem place_int_zero : Number.place (.int 0) = 0 := by
  rw [Number.place_int, Int.cast_zero]
  rfl

/-- No comparison holds of what is no number, so it is not said to be less than anything. -/
theorem not_lt_int_iff {m : Int} :
    n.lt (.int m) = false ↔ (n.OnLine → Number.place (.int m) ≤ n.place) := by
  have hline : (Number.int m).OnLine := trivial
  rw [← Bool.not_eq_true, Number.lt_iff_place]
  simp only [hline, true_and, not_and, not_lt]

theorem not_le_int_iff {m : Int} :
    n.le (.int m) = false ↔ (n.OnLine → Number.place (.int m) < n.place) := by
  have hline : (Number.int m).OnLine := trivial
  rw [← Bool.not_eq_true, Number.le_iff_place]
  simp only [hline, true_and, not_and, not_le]

theorem notBelowOne_iff : NotBelowOne n ↔ (n.OnLine → 1 ≤ n.place) := by
  rw [NotBelowOne, not_lt_int_iff, place_int_one]

theorem notBelowZero_iff : n.lt (.int 0) = false ↔ (n.OnLine → 0 ≤ n.place) := by
  rw [not_lt_int_iff, place_int_zero]

theorem notUpToZero_iff : n.le (.int 0) = false ↔ (n.OnLine → 0 < n.place) := by
  rw [not_le_int_iff, place_int_zero]

end

theorem has_penalties_iff {values : Section} :
    (Has values "penalty" fun penalty => zero.lt penalty = true ∧
      Has values "modify_factor" fun modify => penalty.lt modify = true ∧ modify.le one = true) ↔
    ((valueOf values "penalty").Keeps fun x => 0 < x) ∧
      (valueOf values "modify_factor").Keeps fun x =>
        (valueOf values "penalty").place < x ∧ x ≤ 1 := by
  constructor
  · rintro ⟨p, hp, hpositive, m, hm, hless, hmost⟩
    obtain ⟨-, hpline, hpositive⟩ := Number.lt_iff_place.1 hpositive
    obtain ⟨-, hmline, hless⟩ := Number.lt_iff_place.1 hless
    obtain ⟨-, -, hmost⟩ := Number.le_iff_place.1 hmost
    rw [Number.place_zero] at hpositive
    rw [Number.place_one] at hmost
    refine ⟨⟨⟨p, hp, hpline⟩, ?_⟩, ⟨m, hm, hmline⟩, ?_, ?_⟩
    · rwa [Value.place_of_number? hp]
    · rwa [Value.place_of_number? hp, Value.place_of_number? hm]
    · rwa [Value.place_of_number? hm]
  · rintro ⟨⟨⟨p, hp, hpline⟩, hpositive⟩, ⟨m, hm, hmline⟩, hless, hmost⟩
    rw [Value.place_of_number? hp] at hpositive
    rw [Value.place_of_number? hp, Value.place_of_number? hm] at hless
    rw [Value.place_of_number? hm] at hmost
    refine ⟨p, hp, ?_, m, hm, ?_, ?_⟩
    · exact Number.lt_iff_place.2 ⟨Number.onLine_zero, hpline, by rwa [Number.place_zero]⟩
    · exact Number.lt_iff_place.2 ⟨hpline, hmline, hless⟩
    · exact Number.le_iff_place.2 ⟨hmline, Number.onLine_one, by rwa [Number.place_one]⟩

/-- What is checked are the bounds of the messages, but for values that only must not be too small:
they may be the floating-point number that is none. -/
theorem validate_eq_ok_iff_bounded {c : Config} :
    c.validate = .ok () ↔ c.Bounded Value.KeepsOrNan := by
  rw [validate_eq_ok_iff]
  constructor
  · intro h
    obtain ⟨penalty, modify⟩ := has_penalties_iff.1 h.penalties
    exact {
      threshold := (has_iff_keeps zeroToOne_iff).1 h.threshold
      suggestions := (has_iff_keepsOrNan notBelowOne_iff).1 h.suggestions
      codeSize := (has_iff_keepsOrNan notBelowOne_iff).1 h.codeSize
      timeout := (has_iff_keepsOrNan notUpToZero_iff).1 h.timeout
      alpha := (has_iff_keeps zeroToOne_iff).1 h.alpha
      base := (has_iff_keeps zeroToOne_iff).1 h.base
      gain := (has_iff_keeps zeroToOne_iff).1 h.gain
      floor := (has_iff_keeps zeroToOne_iff).1 h.floor
      penalty
      modify
      decay := (has_iff_keeps betweenZeroAndOne_iff).1 h.decay
      window := (has_iff_keepsOrNan notBelowZero_iff).1 h.window
      ignored := (has_iff_keepsOrNan notBelowOne_iff).1 h.ignored
      least := (has_iff_keeps aboveZeroToOne_iff).1 h.least
      most := (has_iff_keeps fromOne_iff).1 h.most
      preference := (has_iff_keepsOrNan notBelowOne_iff).1 h.preference }
  · intro h
    exact {
      threshold := (has_iff_keeps zeroToOne_iff).2 h.threshold
      suggestions := (has_iff_keepsOrNan notBelowOne_iff).2 h.suggestions
      codeSize := (has_iff_keepsOrNan notBelowOne_iff).2 h.codeSize
      timeout := (has_iff_keepsOrNan notUpToZero_iff).2 h.timeout
      alpha := (has_iff_keeps zeroToOne_iff).2 h.alpha
      base := (has_iff_keeps zeroToOne_iff).2 h.base
      gain := (has_iff_keeps zeroToOne_iff).2 h.gain
      floor := (has_iff_keeps zeroToOne_iff).2 h.floor
      penalties := has_penalties_iff.2 ⟨h.penalty, h.modify⟩
      decay := (has_iff_keeps betweenZeroAndOne_iff).2 h.decay
      window := (has_iff_keepsOrNan notBelowZero_iff).2 h.window
      ignored := (has_iff_keepsOrNan notBelowOne_iff).2 h.ignored
      least := (has_iff_keeps aboveZeroToOne_iff).2 h.least
      most := (has_iff_keeps fromOne_iff).2 h.most
      preference := (has_iff_keepsOrNan notBelowOne_iff).2 h.preference }

/-- The values that only must not be too small. -/
def oneSided (c : Config) : List Value :=
  ["max_suggestions", "max_code_size", "parse_timeout"].map (valueOf c.engine)
    ++ ["recency_window_hours", "ignore_streak_threshold", "preference_threshold"].map
      (valueOf c.learning)

/-- The bounds of the messages hold exactly if no value was let through for being no number. -/
theorem Bounded.keeps_iff {c : Config} (h : c.Bounded Value.KeepsOrNan) :
    c.Bounded Value.Keeps ↔ ∀ v ∈ c.oneSided, ¬ v.IsNan := by
  simp only [oneSided, List.map_cons, List.map_nil, List.cons_append, List.nil_append,
    List.forall_mem_cons]
  constructor
  · intro hkeeps
    have hnot {v : Value} {bound : Place → Prop} (hv : v.Keeps bound) : ¬ v.IsNan :=
      fun hnan => Value.not_keeps_of_isNan hnan hv
    exact ⟨hnot hkeeps.suggestions, hnot hkeeps.codeSize, hnot hkeeps.timeout, hnot hkeeps.window,
      hnot hkeeps.ignored, hnot hkeeps.preference, by simp⟩
  · rintro ⟨suggestions, codeSize, timeout, window, ignored, preference, -⟩
    exact {
      h with
      suggestions := h.suggestions.resolve_right suggestions
      codeSize := h.codeSize.resolve_right codeSize
      timeout := h.timeout.resolve_right timeout
      window := h.window.resolve_right window
      ignored := h.ignored.resolve_right ignored
      preference := h.preference.resolve_right preference }

/-! ### Where the values come from -/

/-- The sections of a configuration by their names. -/
def sections (c : Config) : Table String Section :=
  [("engine", c.engine), ("learning", c.learning), ("storage", c.storage), ("logging", c.logging)]

/-- The value of a key of a section. -/
def valueIn (c : Config) (name key : String) : Option Value :=
  (c.sections.get? name).bind fun values => values.get? key

/-- What a variable gives, if it is there and can be read. -/
def Binding.value? (env : Environment) (b : Binding) : Option Value :=
  (env.get? b.variableName).bind fun text => b.kind.read? text

/-- What the environment gives for a key. -/
def overriding (env : Environment) (name key : String) : Option Value :=
  (((bindings.get? name).getD []).find? fun b => b.name == key).bind (Binding.value? env)

/-- No section has two variables for one key. -/
theorem pairwise_bindings (name : String) :
    ((bindings.get? name).getD []).Pairwise fun a b => (a.name == b.name) = false := by
  have hall : ∀ entry ∈ bindings,
      entry.2.Pairwise fun a b => (a.name == b.name) = false := by decide
  cases hget : bindings.get? name with
  | none => exact .nil
  | some bs =>
    obtain ⟨entry, hentry, -, rfl⟩ := Table.exists_mem_of_get? hget
    exact hall entry hentry

theorem fromEnvironment_eq (env : Environment) (name : String) :
    fromEnvironment env name = ((bindings.get? name).getD []).filterMap fun b =>
      (b.value? env).map fun v => (b.name, v) := by
  refine List.filterMap_congr fun b _ => ?_
  rw [Binding.value?]
  cases env.get? b.variableName with
  | none => rfl
  | some text =>
    show ((b.kind.read? text).bind fun v => some (b.name, v)) = _
    cases hread : b.kind.read? text with
    | none => simp [hread]
    | some v => simp [hread]

/-- Of variables for different keys, the one for a key gives its value. -/
theorem get?_filterMap_bindings {bs : List Binding} (read : Binding → Option Value)
    (h : bs.Pairwise fun a b => (a.name == b.name) = false) (key : String) :
    Table.get? (bs.filterMap fun b => (read b).map fun v => (b.name, v)) key
      = (bs.find? fun b => b.name == key).bind read := by
  induction bs with
  | nil => rfl
  | cons b rest ih =>
    obtain ⟨hfirst, hrest⟩ := List.pairwise_cons.1 h
    have ih := ih hrest
    by_cases hkey : (b.name == key) = true
    · -- If this variable gives nothing, no other one does, as none of the rest is for the key.
      have hnone : (rest.find? fun other => other.name == key) = none := by
        rw [List.find?_eq_none]
        intro other hother hsame
        have hnot := hfirst other hother
        rw [eq_of_beq hkey, eq_of_beq hsame, beq_self_eq_true] at hnot
        cases hnot
      rw [List.find?_cons, hkey, Option.bind_some]
      rw [hnone, Option.bind_none] at ih
      cases hread : read b with
      | none => rw [List.filterMap_cons_none (by rw [hread]; rfl), ih]
      | some v =>
        rw [List.filterMap_cons_some (by rw [hread]; rfl), Table.get?_cons, if_pos hkey]
    · rw [List.find?_cons, Bool.eq_false_iff.2 hkey, ← ih]
      cases hread : read b with
      | none => rw [List.filterMap_cons_none (by rw [hread]; rfl)]
      | some v =>
        rw [List.filterMap_cons_some (by rw [hread]; rfl), Table.get?_cons, if_neg hkey]

theorem get?_fromEnvironment (env : Environment) (name key : String) :
    (fromEnvironment env name).get? key = overriding env name key := by
  rw [fromEnvironment_eq]
  exact get?_filterMap_bindings _ (pairwise_bindings name) key

theorem distinct_fromEnvironment (env : Environment) (name : String) :
    Table.Distinct (fromEnvironment env name) := by
  rw [fromEnvironment_eq, Table.Distinct, List.pairwise_filterMap]
  refine (pairwise_bindings name).imp ?_
  intro a b hab x hx y hy
  obtain ⟨_, _, rfl⟩ := Option.map_eq_some_iff.1 hx
  obtain ⟨_, _, rfl⟩ := Option.map_eq_some_iff.1 hy
  exact hab

/-- A value comes from the environment, else from the file, else it is the default. -/
theorem get?_readSection {entries : Table Label Value} {env : Environment} {name : String}
    {defaults values : Section} (hfile : Table.Distinct (fromFile entries name))
    (h : readSection entries env name defaults = .ok values) (key : String) :
    values.get? key = (overriding env name key).or
      (((fromFile entries name).get? key).or (defaults.get? key)) := by
  have henv := distinct_fromEnvironment env name
  rw [readSection, override] at h
  split at h
  · -- Two tables are laid over the defaults, the one of the environment over the one of the file.
    cases h
    rw [Table.get?_overlay (hfile.overlay _), Table.get?_overlay henv, get?_fromEnvironment,
      Option.or_assoc]
  · cases h

/-- The entries that a file gives; none if it is empty. -/
def fileEntries (content : Value) : Except Fault (Table Label Value) :=
  if content.truthy then content.toEntries else .ok []

/-- A section of the content of a file; empty if the file does not have it. -/
def fileSection (content : Value) (name : String) : Section :=
  match fileEntries content with
  | .ok entries => fromFile entries name
  | .error _ => []

/-- What was loaded was read section by section, and was accepted. -/
theorem exists_entries_of_load {content : Value} {env : Environment} {c : Config}
    (h : load content env = .ok c) :
    ∃ entries, fileEntries content = .ok entries ∧
      readSection entries env "engine" default.engine = .ok c.engine ∧
      readSection entries env "learning" default.learning = .ok c.learning ∧
      readSection entries env "storage" default.storage = .ok c.storage ∧
      readSection entries env "logging" default.logging = .ok c.logging ∧
      c.validate = .ok () := by
  have hload : load content env = fileEntries content >>= fun entries => do
      let c : Config :=
        ⟨← readSection entries env "engine" default.engine,
         ← readSection entries env "learning" default.learning,
         ← readSection entries env "storage" default.storage,
         ← readSection entries env "logging" default.logging⟩
      c.validate
      return c := by
    rw [load, fileEntries]
    split <;> rfl
  rw [hload] at h
  simp only [Except.bind_eq_ok] at h
  obtain ⟨entries, hentries, engine, hengine, learning, hlearning, storage, hstorage, logging,
    hlogging, _, hvalid, h⟩ := h
  cases h
  exact ⟨entries, hentries, hengine, hlearning, hstorage, hlogging, hvalid⟩

/-- Every value of a configuration that was loaded keeps the bound that the message for it states,
unless it only must not be too small and is the floating-point number that is none. So all of them
keep their bounds exactly if none of these six is that number. A value is what the environment gives
for its key, else what the file gives, and else the default. -/
theorem loaded_values {content : Value} {env : Environment} {c : Config}
    (hfile : ∀ name, Table.Distinct (fileSection content name)) (h : load content env = .ok c) :
    c.Bounded Value.KeepsOrNan ∧
      (c.Bounded Value.Keeps ↔ ∀ v ∈ c.oneSided, ¬ v.IsNan) ∧
      ∀ name ∈ ["engine", "learning", "storage", "logging"], ∀ key,
        c.valueIn name key = (overriding env name key).or
          (((fileSection content name).get? key).or (default.valueIn name key)) := by
  obtain ⟨entries, hentries, hengine, hlearning, hstorage, hlogging, hvalid⟩ :=
    exists_entries_of_load h
  have hsection (name : String) : fileSection content name = fromFile entries name := by
    rw [fileSection, hentries]
  simp only [hsection] at hfile ⊢
  have hbounded := validate_eq_ok_iff_bounded.1 hvalid
  refine ⟨hbounded, hbounded.keeps_iff, ?_⟩
  intro name hname key
  simp only [List.mem_cons, List.not_mem_nil, or_false] at hname
  rcases hname with rfl | rfl | rfl | rfl
  · exact get?_readSection (hfile _) hengine key
  · exact get?_readSection (hfile _) hlearning key
  · exact get?_readSection (hfile _) hstorage key
  · exact get?_readSection (hfile _) hlogging key

/-- A file with two numbers. -/
def twoNumbers : Value :=
  .object [("engine", .object [("max_suggestions", .int 7), ("max_code_size", .int 99)])]

/-- An environment with a number in place of one of the file, and a time limit that is no number. -/
def noTimeLimit : Environment :=
  [("CODEWHISPER_MAX_SUGGESTIONS", "9"), ("CODEWHISPER_PARSE_TIMEOUT", "nan")]

/-- The environment goes before the file, and its time limit is accepted, although it is not more
than zero. -/
theorem loaded_values_of_nan :
    ∃ c, load twoNumbers noTimeLimit = .ok c ∧
      c.valueIn "engine" "max_suggestions" = some (.int 9) ∧
      c.valueIn "engine" "max_code_size" = some (.int 99) ∧
      (valueOf c.engine "parse_timeout").IsNan ∧ c.Bounded Value.KeepsOrNan ∧
      ¬ c.Bounded Value.Keeps := by
  have hsome : (load twoNumbers noTimeLimit).toOption.isSome = true := by decide +kernel
  obtain ⟨c, hc⟩ := Option.isSome_iff_exists.1 hsome
  have hc := Except.toOption_eq_some.1 hc
  have hfile : ∀ name, Table.Distinct (fileSection twoNumbers name) := by
    intro name
    have hentries : fileEntries twoNumbers
        = .ok [(.text "engine",
            .object [("max_suggestions", .int 7), ("max_code_size", .int 99)])] := rfl
    rw [fileSection, hentries]
    dsimp only
    rw [fromFile, Table.get?_cons]
    cases (Label.text "engine" == Label.text name) with
    | true =>
      show Table.Distinct [("max_suggestions", Value.int 7), ("max_code_size", Value.int 99)]
      simp [Table.Distinct]
    | false => exact .nil
  obtain ⟨hbounded, hkeeps, hvalues⟩ := loaded_values hfile hc
  have hengine := hvalues "engine" (by decide)
  have hnan : (valueOf c.engine "parse_timeout").IsNan := by
    obtain ⟨x, hx, hnan⟩ := (Option.any_eq_true _ _).1
      (show (Decimal.readFloat? "nan").any Binary64.isNan = true by decide +kernel)
    have hgiven : overriding noTimeLimit "engine" "parse_timeout"
        = (Decimal.readFloat? "nan").map Value.real := rfl
    have htimeout : c.engine.get? "parse_timeout" = some (.real x) := by
      have hvalue := hengine "parse_timeout"
      rw [hgiven, hx] at hvalue
      exact hvalue
    refine ⟨x, ?_, hnan⟩
    rw [valueOf, htimeout]
    rfl
  refine ⟨c, hc, ?_, ?_, hnan, hbounded, fun h => hkeeps.1 h _ ?_ hnan⟩
  · rw [hengine]
    rfl
  · rw [hengine]
    rfl
  · simp [oneSided]

end Config

end CodeHabits
