import CodeHabits.Proofs.Memory.Retirement
import Mathlib.Algebra.Order.Archimedean.Basic

/-!
# `CodeHabits.Proofs.Memory.Forgetting`: what passes of forgetting come to

A pass goes over the live patterns of a store in the order of their ids. `Learning.Fades`
states what becomes of one pattern, with the two conditions of the loop apart: being stale
decides about the confidence, the floor about the retirement. `pass_exact` puts the patterns
together with the frame, the report and the order of the store. A report counts what it would
otherwise have to be compared with, so `DecayReport.Tells` is about the two memories alone.

One pass multiplies a stale confidence by the factor of fading or retires the pattern
(`Fades.retired_or_le`), so after `n` of them a live pattern is at most at the `n`-th power of
the factor, wherever in the unit interval it was at first (`retired_or_worn_le`). Together
with the floor, above which live patterns are after a pass, that retires all patterns
(`forgetting_finishes`). What a pass needs for it is an order of the ids: ids that cannot be
sorted, which only a snapshot can bring in, make every pass fail before it does anything.
-/

set_option autoImplicit false

namespace CodeHabits

open Time (Timestamp)

/-! ### One pattern -/

namespace Learning

variable {rules : Learning Rat} {window : Int} {now : Timestamp} {p q : Pattern Rat}

/-- What a pass of forgetting makes of a pattern. -/
structure Fades (rules : Learning Rat) (window : Int) (now : Timestamp) (p q : Pattern Rat) :
    Prop where
  rest : q = { p with confidence := q.confidence, retired := q.retired }
  retired : p.isRetired = true → q = p
  faded : p.isRetired = false → p.Stale window now → rules.floor < p.confidence →
    q.confidence = max (p.confidence * rules.decayFactor) rules.floor ∧
      rules.floor ≤ q.confidence ∧ q.confidence < p.confidence
  kept : ¬ (p.isRetired = false ∧ p.Stale window now ∧ rules.floor < p.confidence) →
    q.confidence = p.confidence
  retires : p.isRetired = false → (q.isRetired = true ↔ q.confidence ≤ rules.floor)
  live : q.isRetired = false → q.retired = p.retired

/-- The confidence that a pass leaves a live pattern. -/
theorem forgotten_of_live (rules : Learning Rat) (window : Int) (now : Timestamp)
    (hlive : p.isRetired = false) :
    ∃ confidence,
      rules.forgotten window now p
        = { p with
            confidence
            retired := if confidence ≤ rules.floor then .bool true else p.retired } ∧
      confidence = if p.Stale window now ∧ rules.floor < p.confidence then
        max (p.confidence * rules.decayFactor) rules.floor else p.confidence := by
  refine ⟨_, ?_, rfl⟩
  rw [forgotten, hlive, if_neg Bool.false_ne_true]
  rfl

theorem fades_forgotten (hfloor : 0 ≤ rules.floor) (hdecay : rules.decayFactor < 1)
    (window : Int) (now : Timestamp) (p : Pattern Rat) :
    rules.Fades window now p (rules.forgotten window now p) := by
  cases hretired : p.isRetired with
  | true =>
    rw [forgotten_of_retired hretired]
    exact ⟨rfl, fun _ => rfl, fun hlive => by simp [hretired] at hlive, fun _ => rfl,
      fun hlive => by simp [hretired] at hlive, fun _ => rfl⟩
  | false =>
    have hflag : p.retired.truthy = false := hretired
    obtain ⟨confidence, hq, hconfidence⟩ := forgotten_of_live rules window now hretired
    rw [hq]
    refine ⟨rfl, fun h => by simp [hretired] at h, fun _ hstale habove => ?_, fun hnot => ?_,
      fun _ => ?_, fun hlive => ?_⟩
    · rw [if_pos ⟨hstale, habove⟩] at hconfidence
      refine ⟨hconfidence, hconfidence ▸ le_max_right _ _, ?_⟩
      -- What is above the floor is above zero, so the factor makes less of it.
      have hpos : 0 < p.confidence := lt_of_le_of_lt hfloor habove
      show confidence < p.confidence
      rw [hconfidence]
      exact max_lt (mul_lt_of_lt_one_right hpos hdecay) habove
    · rw [if_neg fun h => hnot ⟨hretired, h.1, h.2⟩] at hconfidence
      exact hconfidence
    · show Value.truthy (if confidence ≤ rules.floor then _ else _) = true ↔ _
      by_cases hlow : confidence ≤ rules.floor
      · simp [hlow, Value.truthy]
      · simp [hlow, hflag]
    · by_cases hlow : confidence ≤ rules.floor
      · simp [hlow, Pattern.isRetired, Value.truthy] at hlive
      · simp [hlow]

namespace Fades

theorem confidence_le (h : rules.Fades window now p q) : q.confidence ≤ p.confidence := by
  by_cases hfades : p.isRetired = false ∧ p.Stale window now ∧ rules.floor < p.confidence
  · exact le_of_lt (h.faded hfades.1 hfades.2.1 hfades.2.2).2.2
  · exact le_of_eq (h.kept hfades)

theorem confidence_ne_iff (h : rules.Fades window now p q) :
    q.confidence ≠ p.confidence ↔
      p.isRetired = false ∧ p.Stale window now ∧ rules.floor < p.confidence := by
  constructor
  · intro hne
    by_contra hnot
    exact hne (h.kept hnot)
  · rintro ⟨hlive, hstale, habove⟩
    exact ne_of_lt (h.faded hlive hstale habove).2.2

/-- A pass over a stale pattern takes it one power of the factor further down, or retires
it. -/
theorem retired_or_le (h : rules.Fades window now p q) (hdecay : 0 ≤ rules.decayFactor)
    (hstale : p.Stale window now) {k : Nat}
    (hp : p.isRetired = true ∨ p.confidence ≤ rules.decayFactor ^ k) :
    q.isRetired = true ∨
      rules.floor < q.confidence ∧ q.confidence ≤ rules.decayFactor ^ (k + 1) := by
  cases hretired : p.isRetired with
  | true =>
    left
    rw [h.retired hretired]
    exact hretired
  | false =>
    rw [h.retires hretired, ← not_lt]
    by_cases hlow : rules.floor < q.confidence
    · right
      -- What is left is above the floor, so it was there before and the factor left it.
      have habove : rules.floor < p.confidence := lt_of_lt_of_le hlow h.confidence_le
      obtain ⟨hq, -, -⟩ := h.faded hretired hstale habove
      have hfactor : q.confidence = p.confidence * rules.decayFactor := by
        rcases max_choice (p.confidence * rules.decayFactor) rules.floor with hmax | hmax
        · rw [hq, hmax]
        · rw [hq, hmax] at hlow
          exact absurd hlow (lt_irrefl _)
      have hbound : p.confidence ≤ rules.decayFactor ^ k := hp.resolve_left (by simp [hretired])
      refine ⟨hlow, ?_⟩
      rw [hfactor, pow_succ]
      exact mul_le_mul_of_nonneg_right hbound hdecay
    · exact .inl hlow

end Fades

/-! ### One pattern in several passes -/

/-- A pattern after passes at several times. -/
def worn (rules : Learning Rat) (window : Int) (times : List Timestamp) (p : Pattern Rat) :
    Pattern Rat :=
  times.foldl (fun p now => rules.forgotten window now p) p

theorem worn_append_singleton (times : List Timestamp) (now : Timestamp) (p : Pattern Rat) :
    rules.worn window (times ++ [now]) p = rules.forgotten window now (rules.worn window times p) :=
  List.foldl_concat ..

/-- Passes change neither the id nor the time of the last touch. -/
theorem worn_keeps (times : List Timestamp) (p : Pattern Rat) :
    (rules.worn window times p).id = p.id ∧
      (rules.worn window times p).lastTouched = p.lastTouched := by
  induction times using List.reverseRecOn with
  | nil => exact ⟨rfl, rfl⟩
  | append_singleton times now ih =>
    obtain ⟨confidence, retired, hq, -⟩ :=
      forget_cases (forget_rat rules window now (rules.worn window times p))
    rw [worn_append_singleton, hq]
    exact ih

section

variable (hfloor : 0 ≤ rules.floor) (hlow : 0 ≤ rules.decayFactor) (hhigh : rules.decayFactor < 1)

include hfloor hlow hhigh

/-- However many passes find a pattern stale, it is retired or they have brought it down to
their power of the factor. After the first of them it is above the floor as well. -/
theorem retired_or_worn_le (hp : p.confidence ≤ 1) {times : List Timestamp}
    (hstale : ∀ time ∈ times, p.Stale window time) :
    (rules.worn window times p).isRetired = true ∨
      (times ≠ [] → rules.floor < (rules.worn window times p).confidence) ∧
        (rules.worn window times p).confidence ≤ rules.decayFactor ^ times.length := by
  induction times using List.reverseRecOn with
  | nil =>
    right
    simpa [worn] using hp
  | append_singleton times now ih =>
    rw [List.forall_mem_append, List.forall_mem_singleton] at hstale
    have hnow : (rules.worn window times p).Stale window now := by
      rw [Pattern.Stale, (worn_keeps times p).2]
      exact hstale.2
    have hbefore := (ih hstale.1).imp_right And.right
    have hfades := fades_forgotten hfloor hhigh window now (rules.worn window times p)
    rw [worn_append_singleton, List.length_append, List.length_singleton]
    refine (hfades.retired_or_le hlow hnow hbefore).imp_right ?_
    rintro ⟨habove, hle⟩
    exact ⟨fun _ => habove, hle⟩

theorem isRetired_worn (hp : p.confidence ≤ 1) {times : List Timestamp} (htimes : times ≠ [])
    (hstale : ∀ time ∈ times, p.Stale window time)
    (hpower : rules.decayFactor ^ times.length ≤ rules.floor) :
    (rules.worn window times p).isRetired = true := by
  -- A live pattern would be above the floor and at most at a power that is not.
  refine (retired_or_worn_le hfloor hlow hhigh hp hstale).resolve_right ?_
  rintro ⟨habove, hle⟩
  exact absurd (le_trans hle hpower) (not_le.2 (habove htimes))

end

end Learning

/-! ### Stores of the data model -/

/-- Patterns by their ids, which are texts. -/
structure Store.IsMap {ν : Type} (s : Store ν) : Prop where
  keyed : s.Keyed
  distinct : Table.Distinct s.patterns
  texts : s.Every fun p => p.id.IsText

namespace Store.IsMap

variable {ν : Type} {s t : Store ν} {id : Label} {p : Pattern ν} {ps : List (Pattern ν)}

theorem perm (h : s.IsMap) (hperm : t.patterns.Perm s.patterns) : t.IsMap where
  keyed entry hentry := h.keyed entry (hperm.mem_iff.1 hentry)
  distinct := h.distinct.perm hperm
  texts entry hentry := h.texts entry (hperm.mem_iff.1 hentry)

/-- What is found is in the store under its own id, which is the one it was looked for
under. -/
theorem get?_eq_some_iff (h : s.IsMap) :
    s.get? id = some p ↔ p ∈ s.patterns.map (·.2) ∧ p.id = id := by
  constructor
  · intro hget
    obtain ⟨entry, hentry, hkey, rfl⟩ := Table.exists_mem_of_get? hget
    refine ⟨List.mem_map_of_mem hentry, ?_⟩
    rw [h.keyed entry hentry] at hkey
    obtain ⟨text, htext⟩ := h.texts entry hentry
    obtain ⟨other, rfl⟩ := Label.IsText.of_beq ⟨text, htext⟩ hkey
    rw [htext] at hkey ⊢
    rw [Label.text_beq_text, beq_iff_eq] at hkey
    rw [hkey]
  · rintro ⟨hmem, rfl⟩
    obtain ⟨entry, hentry, rfl⟩ := List.mem_map.1 hmem
    rw [← h.keyed entry hentry]
    exact Table.get?_of_mem h.distinct hentry

theorem nodup_ids (h : s.IsMap) (horder : s.inOrder = .ok ps) : (ps.map (·.id)).Nodup := by
  rw [((perm_of_inOrder horder).map _).nodup_iff, List.map_map, List.nodup_iff_pairwise_ne,
    List.pairwise_map]
  refine h.distinct.imp_of_mem fun {a b} ha hb hab => ?_
  rw [h.keyed a ha, h.keyed b hb] at hab
  intro hsame
  rw [Function.comp_apply, Function.comp_apply] at hsame
  rw [hsame] at hab
  simp at hab

end Store.IsMap

/-! ### The report -/

namespace Memory

variable {rules : Learning Rat} {window : Int} {m n : Memory Rat} {now : Timestamp}
  {ps : List (Pattern Rat)}

/-- The ids of the patterns whose confidence is another one in the second memory. -/
def refaded (m n : Memory Rat) : List Label :=
  (m.store.patterns.map (·.1)).filter fun id =>
    (m.store.get? id).map (·.confidence) ≠ (n.store.get? id).map (·.confidence)

end Memory

/-- A report tells what is different in the second memory. -/
structure DecayReport.Tells (report : DecayReport) (m n : Memory Rat) : Prop where
  examined : report.examined = (m.store.patterns.filter fun entry => !entry.2.isRetired).length
  decayed : report.decayed = (Memory.refaded m n).length
  ascending : report.retiredIds.Pairwise fun a b => Precedence.label a b = some true
  retired : ∀ id, id ∈ report.retiredIds ↔ ∃ p q, m.store.get? id = some p ∧
    p.isRetired = false ∧ n.store.get? id = some q ∧ q.isRetired = true
  counted : report.document.member? "retired" = some (.ofNat report.retiredIds.length)

namespace Memory

variable {rules : Learning Rat} {window : Int} {m n : Memory Rat} {now : Timestamp}
  {ps : List (Pattern Rat)}

theorem keys_forgotten (window : Int) (now : Timestamp) (m : Memory Rat) :
    (forgotten rules window now m).store.patterns.map (·.1) = m.store.patterns.map (·.1) := by
  rw [forgotten, List.map_map]
  rfl

/-- The patterns whose confidence is another one after a pass are those that fade. -/
theorem length_refaded (hfloor : 0 ≤ rules.floor) (hdecay : rules.decayFactor < 1)
    (hstore : m.store.IsMap) (horder : m.store.inOrder = .ok ps) :
    (refaded m (forgotten rules window now m)).length
      = ((ps.filter fun p => !p.isRetired).filter fun p =>
          decide (p.Stale window now ∧ rules.floor < p.confidence)).length := by
  -- Both sides count patterns of the store, only the right side in the order of their ids.
  have hperm := (Store.perm_of_inOrder horder).filter fun p =>
    decide (p.Stale window now ∧ rules.floor < p.confidence) && !p.isRetired
  rw [List.filter_filter, hperm.length_eq, List.filter_map, List.length_map, refaded,
    List.filter_map, List.length_map]
  congr 1
  refine List.filter_congr fun entry hentry => ?_
  have hget : m.store.get? entry.1 = some entry.2 := Table.get?_of_mem hstore.distinct hentry
  have hfades := Learning.fades_forgotten hfloor hdecay window now entry.2
  rw [Function.comp_apply, Function.comp_apply, get?_forgotten, hget, Option.map_some,
    Option.map_some, Option.map_some, Bool.eq_iff_iff]
  simp only [ne_eq, Option.some.injEq, decide_eq_true_eq, Bool.and_eq_true, Bool.not_eq_true']
  rw [eq_comm, ← ne_eq, hfades.confidence_ne_iff, and_comm]

theorem mem_retiredIds_iff (hstore : m.store.IsMap) (horder : m.store.inOrder = .ok ps)
    (id : Label) :
    id ∈ (reported rules window now ps).retiredIds ↔ ∃ p q, m.store.get? id = some p ∧
      p.isRetired = false ∧ (forgotten rules window now m).store.get? id = some q ∧
      q.isRetired = true := by
  have hid : ∀ p, (rules.forgotten window now p).id = p.id := fun p =>
    (Learning.is_forget (Learning.forget_rat rules window now p)).1
  simp only [reported, List.mem_map, List.mem_filter, Bool.not_eq_true']
  constructor
  · rintro ⟨q, ⟨⟨p, ⟨hp, hlive⟩, rfl⟩, hretired⟩, rfl⟩
    have hget : m.store.get? p.id = some p :=
      hstore.get?_eq_some_iff.2 ⟨(Store.perm_of_inOrder horder).mem_iff.1 hp, rfl⟩
    refine ⟨p, _, ?_, hlive, ?_, hretired⟩
    · rwa [hid]
    · rw [hid, get?_forgotten, hget, Option.map_some]
  · rintro ⟨p, q, hget, hlive, hq, hretired⟩
    rw [get?_forgotten, hget, Option.map_some, Option.some.injEq] at hq
    obtain ⟨hp, rfl⟩ := hstore.get?_eq_some_iff.1 hget
    subst hq
    exact ⟨_, ⟨⟨p, ⟨(Store.perm_of_inOrder horder).mem_iff.2 hp, hlive⟩, rfl⟩, hretired⟩, hid p⟩

/-- The retired ids are listed as the ids of the patterns are. -/
theorem retiredIds_sublist (rules : Learning Rat) (window : Int) (now : Timestamp)
    (ps : List (Pattern Rat)) :
    (reported rules window now ps).retiredIds.Sublist (ps.map (·.id)) := by
  have hid : ps.map (·.id) = (ps.map (rules.forgotten window now)).map (·.id) := by
    rw [List.map_map]
    exact List.map_congr_left fun p _ =>
      (Learning.is_forget (Learning.forget_rat rules window now p)).1.symm
  rw [hid]
  exact (List.filter_sublist.trans (List.filter_sublist.map _)).map _

theorem tells_reported (hfloor : 0 ≤ rules.floor) (hdecay : rules.decayFactor < 1)
    (hstore : m.store.IsMap) (horder : m.store.inOrder = .ok ps)
    (hascending : Label.Ascending (ps.map (·.id))) :
    (reported rules window now ps).Tells m (forgotten rules window now m) where
  examined := by
    show (ps.filter fun p => !p.isRetired).length = _
    rw [((Store.perm_of_inOrder horder).filter _).length_eq, List.filter_map, List.length_map]
    rfl
  decayed := (length_refaded hfloor hdecay hstore horder).symm
  ascending := by
    have hsublist := retiredIds_sublist rules window now ps
    exact (hascending.sublist hsublist).before ((hstore.nodup_ids horder).sublist hsublist)
  retired := mem_retiredIds_iff hstore horder
  counted := rfl

/-- A report is the same for patterns that are the same in another order. -/
theorem reported_eq_of_perm {others : List (Pattern Rat)} (hperm : others.Perm ps)
    (hascending : Label.Ascending (ps.map (·.id)))
    (hothers : Label.Ascending (others.map (·.id))) :
    reported rules window now others = reported rules window now ps := by
  have hlive := hperm.filter fun p => !p.isRetired
  have hids := Label.Ascending.eq_of_perm
    (hothers.sublist (retiredIds_sublist rules window now others))
    (hascending.sublist (retiredIds_sublist rules window now ps))
    (((hlive.map _).filter _).map _)
  rw [reported, reported, DecayReport.mk.injEq]
  exact ⟨hlive.length_eq, (hlive.filter _).length_eq, hids⟩

/-- A pattern of a loop. -/
def loopNamed (id : String) (confidence : Rat) (touched : Int) (retired : Bool) : Pattern Rat :=
  { Store.first ⟨0, 0, 0⟩ (.text id) ⟨0, 0⟩
      ⟨.loopConstruct, .text "go", .text id, .null, .null, .object []⟩ [] with
    confidence, lastTouched := ⟨touched, 0⟩, retired := .bool retired }

/-- One pattern fades, one fades down to the floor, one is retired, and one is below the floor
but was touched a moment ago. -/
def fourLoops : Memory Rat :=
  ⟨.ofPatterns ⟨0, 0, 0⟩ [loopNamed "d" 1 0 false, loopNamed "b" (21 / 200) 0 false,
    loopNamed "c" 1 0 true, loopNamed "a" 0 (10 ^ 15) false], .none, 0⟩

/-- The memory after passes of forgetting at several times. -/
def passed (rules : Learning Rat) (times : List Timestamp) (m : Memory Rat) : Memory Rat :=
  times.foldl (fun m now => ((decay rules now).outcome m).2) m

/-- What a pass needs is there before the next one as well. -/
theorem keyed_forgotten (hkeyed : m.store.Keyed) (window : Int) (now : Timestamp) :
    (forgotten rules window now m).store.Keyed := by
  refine List.forall_mem_map.2 fun entry hentry => ?_
  show entry.1 = (rules.forgotten window now entry.2).id
  rw [(Learning.is_forget (Learning.forget_rat rules window now entry.2)).1]
  exact hkeyed entry hentry

section

variable (hkeyed : m.store.Keyed) (hsortable : Label.Sortable (m.store.patterns.map (·.1)))
  (hwindow : rules.window = .ok window)

include hkeyed hsortable hwindow

theorem exists_pass (now : Timestamp) : ∃ ps, m.store.inOrder = .ok ps ∧
    (decay rules now).outcome m
      = (.ok (reported rules window now ps), forgotten rules window now m) := by
  obtain ⟨ps, horder⟩ := Store.exists_inOrder_iff.2 hsortable
  exact ⟨ps, horder, outcome_decay_rat hkeyed horder hwindow⟩

/-- Several passes wear every pattern in its place. -/
theorem passed_eq (times : List Timestamp) :
    passed rules times m
      = { m with
          store :=
            { m.store with
              patterns := m.store.patterns.map fun entry =>
                (entry.1, rules.worn window times entry.2) } } := by
  -- The first pass leaves the keys, so the others find what it found.
  induction times generalizing m with
  | nil => simp [passed, Learning.worn]
  | cons now rest ih =>
    obtain ⟨ps, -, hrun⟩ := exists_pass hkeyed hsortable hwindow now
    have hkeys : Label.Sortable ((forgotten rules window now m).store.patterns.map (·.1)) := by
      rwa [keys_forgotten]
    rw [passed, List.foldl_cons, hrun]
    show passed rules rest (forgotten rules window now m) = _
    rw [ih (keyed_forgotten hkeyed window now) hkeys]
    simp only [forgotten, List.map_map]
    rfl

theorem keys_passed (times : List Timestamp) :
    (passed rules times m).store.patterns.map (·.1) = m.store.patterns.map (·.1) := by
  rw [passed_eq hkeyed hsortable hwindow, List.map_map]
  rfl

theorem keyed_passed (times : List Timestamp) : (passed rules times m).store.Keyed := by
  rw [passed_eq hkeyed hsortable hwindow]
  refine List.forall_mem_map.2 fun entry hentry => ?_
  rw [(Learning.worn_keeps times entry.2).1]
  exact hkeyed entry hentry

/-- A pass completes, and raises no confidence. -/
theorem exists_lowered (hfloor : 0 ≤ rules.floor) (hhigh : rules.decayFactor < 1)
    (now : Timestamp) : ∃ report n, (decay rules now).outcome m = (.ok report, n) ∧
      m.store.Carries (fun _ p q => q.confidence ≤ p.confidence) n.store := by
  obtain ⟨ps, -, hrun⟩ := exists_pass hkeyed hsortable hwindow now
  refine ⟨_, _, hrun, fun id p hget => ?_⟩
  refine ⟨_, ?_, (Learning.fades_forgotten hfloor hhigh window now p).confidence_le⟩
  rw [get?_forgotten, hget, Option.map_some]

theorem isRetired_passed (hfloor : 0 ≤ rules.floor) (hlow : 0 ≤ rules.decayFactor)
    (hhigh : rules.decayFactor < 1) (hunit : m.InUnit) {times : List Timestamp}
    (htimes : times ≠ []) (hstale : ∀ time ∈ times, ∀ entry ∈ m.store.patterns,
      entry.2.Stale window time)
    (hpower : rules.decayFactor ^ times.length ≤ rules.floor) :
    ∀ entry ∈ (passed rules times m).store.patterns, entry.2.isRetired = true := by
  rw [passed_eq hkeyed hsortable hwindow]
  refine List.forall_mem_map.2 fun entry hentry => ?_
  exact Learning.isRetired_worn hfloor hlow hhigh (hunit entry hentry).2 htimes
    (fun time htime => hstale time htime entry hentry) hpower

/-- A pass over retired patterns finds nothing to do. -/
theorem outcome_decay_of_retired (hall : ∀ entry ∈ m.store.patterns, entry.2.isRetired = true)
    (now : Timestamp) : (decay rules now).outcome m = (.ok ⟨0, 0, []⟩, m) := by
  obtain ⟨ps, horder, hrun⟩ := exists_pass hkeyed hsortable hwindow now
  have hnone : (ps.filter fun p => !p.isRetired) = [] := by
    refine List.filter_eq_nil_iff.2 fun p hp => ?_
    obtain ⟨entry, hentry, rfl⟩ := List.mem_map.1 ((Store.perm_of_inOrder horder).mem_iff.1 hp)
    simp [hall entry hentry]
  have hsame : m.store.patterns.map (fun entry => (entry.1, rules.forgotten window now entry.2))
      = m.store.patterns := by
    refine (List.map_congr_left fun entry hentry => ?_).trans (List.map_id _)
    rw [Learning.forgotten_of_retired (hall entry hentry)]
    rfl
  rw [hrun, reported, hnone, forgotten, hsame]
  rfl

end

/-- Ids that cannot be sorted stop a pass before it does anything. -/
theorem outcome_decay_of_unsortable (hunsortable : ¬ Label.Sortable (m.store.patterns.map (·.1)))
    (hwindow : rules.window = .ok window) (now : Timestamp) :
    (decay rules now).outcome m = (.error .wrongKind, m) := by
  unfold decay
  rw [hwindow, Change.outcome_bind_ofExcept_ok, Change.outcome_bind_get,
    Store.inOrder_eq_error hunsortable, Change.outcome_bind_ofExcept_error]

/-- Ids that were not taken in are texts. -/
theorem sortable_of_own {intake : Intake Rat} {setup : Setup Rat} (hrules : setup.rules.Bounded)
    (smoothing : Smoothing Rat) {deeds : List (Timestamp × Deed)}
    (hown : ∀ done ∈ deeds, done.2.IsOwn) :
    Label.Sortable
      ((runFrom intake setup (empty smoothing) deeds).store.patterns.map (·.1)) := by
  have hexact : Exact smoothing (runFrom intake setup (empty smoothing) deeds) :=
    (runFrom_own (P := fun _ => True) hrules (fun _ _ _ _ _ _ _ => trivial) hown
      (exact_empty smoothing) trivial).1
  exact .inr (.inl (List.forall_mem_map.2
    (hexact.coherent.keys_isText fun entry hentry => (hexact.patterns entry hentry).id)))

/-- Whatever was done before, under an accepted configuration with a floor above zero. If the
ids can be sorted, and they can unless snapshots were taken in, then passes of forgetting
complete, each of them lowers or keeps every confidence, and they come to an end: at times at
which every pattern is stale, as many passes as bring the power of the factor down to the floor
retire all patterns, and there are that many. No further pass does anything then. If the ids
cannot be sorted then every pass fails and leaves all as it was. -/
theorem forgetting_finishes {intake : Intake Rat} {setup : Setup Rat} {c : Config}
    (hvalid : c.validate = .ok ()) (hrules : c.rules.ReadsAs setup.rules)
    (hfloor : 0 < setup.rules.floor) (hwindow : setup.rules.window = .ok window)
    (smoothing : Smoothing Rat) (deeds : List (Timestamp × Deed)) :
    let m := runFrom intake setup (empty smoothing) deeds
    let ids := m.store.patterns.map (·.1)
    (∃ n, setup.rules.decayFactor ^ n ≤ setup.rules.floor) ∧
      ((∀ done ∈ deeds, done.2.IsOwn) → Label.Sortable ids) ∧
      (Label.Sortable ids →
        (∀ times now, ∃ report n,
          (decay setup.rules now).outcome (passed setup.rules times m) = (.ok report, n) ∧
            (passed setup.rules times m).store.Carries (fun _ p q => q.confidence ≤ p.confidence)
              n.store) ∧
        ∀ times, times ≠ [] →
          (∀ time ∈ times, ∀ entry ∈ m.store.patterns, entry.2.Stale window time) →
          setup.rules.decayFactor ^ times.length ≤ setup.rules.floor →
          let n := passed setup.rules times m
          n.store.patterns.map (·.1) = ids ∧
            (∀ entry ∈ n.store.patterns, entry.2.isRetired = true) ∧
            ∀ now, (decay setup.rules now).outcome n = (.ok ⟨0, 0, []⟩, n)) ∧
      (¬ Label.Sortable ids →
        ∀ now, (decay setup.rules now).outcome m = (.error .wrongKind, m)) := by
  intro m ids
  obtain ⟨hlow, hhigh⟩ := hrules.decayFactor_between hvalid
  obtain ⟨hdecay, hunitFloor⟩ := hrules.bounds hvalid
  -- No confidence is above one, where the powers of the factor begin.
  have hunit : m.InUnit :=
    runFrom_keeps (inUnit_perform hdecay hunitFloor) deeds (Store.every_empty smoothing)
  have hkeyed : m.store.Keyed :=
    structural_runFrom Store.structural_keyed intake setup smoothing deeds
  refine ⟨?_, sortable_of_own (hrules.bounded hvalid) smoothing, fun hsortable => ?_,
    fun hunsortable => outcome_decay_of_unsortable hunsortable hwindow⟩
  · obtain ⟨n, hn⟩ := exists_pow_lt_of_lt_one hfloor hhigh
    exact ⟨n, le_of_lt hn⟩
  · have hkeys := keys_passed hkeyed hsortable hwindow
    have hkept := keyed_passed hkeyed hsortable hwindow
    have hsorted : ∀ times,
        Label.Sortable ((passed setup.rules times m).store.patterns.map (·.1)) := by
      intro times
      rwa [hkeys]
    refine ⟨fun times => ?_, fun times htimes hstale hpower => ?_⟩
    · exact exists_lowered (hkept times) (hsorted times) hwindow hunitFloor.1 hhigh
    · have hall := isRetired_passed hkeyed hsortable hwindow hunitFloor.1 hdecay.1 hhigh hunit
        htimes hstale hpower
      exact ⟨hkeys times, hall,
        outcome_decay_of_retired (hkept times) (hsorted times) hwindow hall⟩

/-- A pattern that was seen once is retired after twenty-two passes under the default rules. -/
theorem forgetting_finishes_of_import :
    let m := runFrom (.exact ⟨0, 0, 0⟩) defaultsForGo (empty ⟨0, 0, 0⟩) [importSeen]
    let n := passed defaultsForGo.rules (List.replicate 22 ⟨10 ^ 15, 0⟩) m
    n.store.patterns.map (·.1.textOf) = ["p"] ∧
      (∀ entry ∈ n.store.patterns, entry.2.isRetired = true) ∧
      (decay defaultsForGo.rules ⟨10 ^ 15, 0⟩).outcome n = (.ok ⟨0, 0, []⟩, n) := by
  intro m n
  have hvalid : Config.default.validate = .ok () := Except.eq_ok_unit (by decide +kernel)
  have hwindow : defaultsForGo.rules.window = .ok 604800000000 :=
    Except.toOption_eq_some.1 (by decide +kernel)
  obtain ⟨-, hsortable, hsorted, -⟩ := @forgetting_finishes _ (.exact ⟨0, 0, 0⟩) defaultsForGo
    _ hvalid (Learning.readsAs_exactly _) (by decide +kernel) hwindow
    ⟨0, 0, 0⟩ [importSeen]
  obtain ⟨-, hfinish⟩ := hsorted (hsortable (by simp [importSeen, Deed.IsOwn]))
  obtain ⟨hids, hretired, hidle⟩ := hfinish (List.replicate 22 ⟨10 ^ 15, 0⟩) (by simp)
    (by decide +kernel) (by decide +kernel)
  refine ⟨?_, hretired, hidle _⟩
  have hnames := congrArg (List.map Label.textOf) hids
  rw [List.map_map] at hnames
  exact hnames.trans (by decide +kernel)

end Memory

end CodeHabits
