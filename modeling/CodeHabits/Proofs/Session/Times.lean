import CodeHabits.Proofs.Session.History
import CodeHabits.Proofs.Session.Ready

/-!
# `CodeHabits.Proofs.Session.Times`: the times of a pattern

A pattern remembers when it was seen first, when it was seen last, and when it was touched
last. `Times` tells what a deed does to these. Seeing a pattern sets the last two to the time
of the deed. A reaction that is not an ignored suggestion sets the last one to its own time,
whatever that is, unless its content shows the pattern once more.

So if the clock never goes back, a pattern was seen first no later than it was seen last, and
that is never in the future. But a reaction that is delivered late takes back when a pattern
was touched, perhaps to before it was seen (`times_in_order_of_late_acceptance`), and one that
is dated ahead will be taken back by the next sighting. Where reactions are punctual, neither
happens, and no deed makes a pattern stale (`times_in_order`).
-/

set_option autoImplicit false

namespace CodeHabits

open Time (Timestamp)

/-! ### One pattern -/

namespace Pattern

variable {ν : Type}

/-- What a deed at a time makes of the times of a pattern that is perhaps seen in it, and in
which it logs events. -/
structure Times (now : Timestamp) (seen : Bool) (es : List Event) (p q : Pattern ν) : Prop where
  first : q.firstSeen = p.firstSeen
  last : q.lastSeen = if seen then now else p.lastSeen
  touched : q.lastTouched = if seen then now else lastTouch es p.lastTouched

end Pattern

namespace Store

variable {ν : Type} [Magnitude ν] {m : Smoothing ν} {now : Timestamp} {c : Sighting}
  {cs : List Sighting} {es : List Event} {before? : Option (Pattern ν)} {p q : Pattern ν}

/-- A pattern that is seen is seen now, for the first time if it is new. -/
theorem Seen.times (h : Seen m now c before? q) :
    q.firstSeen = before?.elim now (·.firstSeen) ∧ q.lastSeen = now ∧ q.lastTouched = now := by
  cases before? with
  | none =>
    obtain ⟨id, hseen⟩ := h
    rw [hseen.rest]
    exact ⟨rfl, rfl, rfl⟩
  | some p =>
    have hseen : SeenAgain m now c p q := h
    rw [hseen.rest]
    exact ⟨rfl, rfl, rfl⟩

theorem SeenAll.times {after? : Option (Pattern ν)} (h : SeenAll m now cs before? after?) :
    (cs = [] ∧ after? = before?) ∨ (cs ≠ [] ∧ ∃ q, after? = some q ∧
      q.firstSeen = before?.elim now (·.firstSeen) ∧ q.lastSeen = now ∧ q.lastTouched = now) := by
  induction h with
  | nil => exact .inl ⟨rfl, rfl⟩
  | @cons c rest before? after? q hfirst _ ih =>
    refine .inr ⟨by simp, ?_⟩
    rcases ih with ⟨_, rfl⟩ | ⟨_, r, rfl, hr, hlast, htouched⟩
    · exact ⟨q, rfl, hfirst.times⟩
    · exact ⟨r, rfl, hr.trans hfirst.times.1, hlast, htouched⟩

/-- The times of a pattern that is known already. -/
theorem Course.times (h : Course m now cs es (some p) (some q)) :
    p.Times now (!cs.isEmpty) es q := by
  obtain ⟨_, hmarked, hseen⟩ := h
  cases hmarked with
  | some hmarked =>
    unfold Pattern.Marked at hmarked
    rcases hseen.times with ⟨rfl, hsame⟩ | ⟨hcs, r, hr, hfirst, hlast, htouched⟩
    · cases hsame
      exact ⟨by rw [hmarked], by rw [hmarked]; rfl, by rw [hmarked]; rfl⟩
    · cases hr
      have hsome : (!cs.isEmpty) = true := by simpa using hcs
      rw [hsome]
      refine ⟨?_, hlast, htouched⟩
      rw [hfirst, hmarked]
      rfl

/-- A new pattern was seen just now. -/
theorem Course.times_new (h : Course m now cs es none (some q)) :
    q.firstSeen = now ∧ q.lastSeen = now ∧ q.lastTouched = now := by
  obtain ⟨_, hmarked, hseen⟩ := h
  cases hmarked
  rcases hseen.times with ⟨_, hsame⟩ | ⟨_, r, hr, htimes⟩
  · cases hsame
  · cases hr
    exact htimes

end Store

/-! ### One deed -/

/-- Patterns with the same name are kept under the same id. -/
theorem Store.Coherent.id_of_name {ν : Type} {s : Store ν} (h : s.Coherent) {id other : Label}
    {p q : Pattern ν} (hget : s.get? id = some p) (hother : s.get? other = some q)
    (hname : (p.name == q.name) = true) : (id == other) = true := by
  have hsame : some p = some q := by
    rw [← h.named?_of_get? hget, ← h.named?_of_get? hother, s.named?_congr hname]
  cases hsame
  obtain ⟨_, _, _, hid⟩ := h.exists_mem_of_get? hget
  obtain ⟨_, _, _, hkept⟩ := h.exists_mem_of_get? hother
  exact PartialEquivBEq.trans (PartialEquivBEq.symm hid) hkept

namespace Memory

variable {setup : Setup Value} {m : Memory Value} {now : Timestamp} {intake : Intake Value}
  {deed : Deed} {id : Label} {p q : Pattern Value}

/-- What is logged in the pattern of a name is logged under its id. -/
theorem events_eq_news (h : m.store.Coherent) (hget : m.store.get? id = some p) (deed : Deed) :
    deed.events setup m p.name = news (deed.logs? setup m) id := by
  unfold Deed.events news
  rcases deed.logs? setup m with _ | ⟨target, e⟩
  · rfl
  dsimp only
  by_cases hid : (target == id) = true
  · rw [if_pos hid, m.store.get?_congr hid, hget]
    exact if_pos (by simp)
  · rw [if_neg hid]
    refine if_neg fun hany => hid ?_
    obtain ⟨known, hknown, hname⟩ := (Option.any_eq_true _ _).1 hany
    exact h.id_of_name hknown hget hname

/-- What a deed makes of the times of a pattern that is kept under an id. -/
def Deed.Times (setup : Setup Value) (m : Memory Value) (now : Timestamp) (deed : Deed)
    (id : Label) (p q : Pattern Value) : Prop :=
  p.Times now ((deed.sightings setup m).any (·.name == p.name)) (news (deed.logs? setup m) id) q

theorem not_isEmpty_filter {α : Type} (p : α → Bool) (xs : List α) :
    (!(xs.filter p).isEmpty) = xs.any p := by
  induction xs with
  | nil => rfl
  | cons x rest ih =>
    rw [List.filter_cons, List.any_cons, ← ih]
    cases p x <;> rfl

section

variable (setup) (hrules : setup.rules.Usable) (hready : m.store.Ready) (hdeed : deed.Simple)
  (hleft : ((perform intake setup now deed).outcome m).2.store.Coherent)

include hrules hready hdeed hleft

/-- A pattern that was there before is still there, and this became of its times. -/
theorem times_perform :
    m.store.Carries (fun id p q => q.name = p.name ∧ deed.Times setup m now id p q)
      ((perform intake setup now deed).outcome m).2.store := by
  intro id p hget
  obtain ⟨q, hq, hextends⟩ := carries_perform intake setup now hdeed.adds m id p hget
  have hcourse := course_perform intake hrules hready now hdeed p.name
  rw [hready.coherent.named?_of_get? hget, ← hextends.name, hleft.named?_of_get? hq, hextends.name,
    events_eq_news hready.coherent hget] at hcourse
  have htimes := hcourse.times
  rw [not_isEmpty_filter] at htimes
  exact ⟨q, hq, hextends.name, htimes⟩

/-- Every pattern that is left was there before, or was seen just now for the first time. -/
theorem times_left {id : Label} {q : Pattern Value}
    (hget : ((perform intake setup now deed).outcome m).2.store.get? id = some q) :
    (q.firstSeen = now ∧ q.lastSeen = now ∧ q.lastTouched = now) ∨
      ∃ other p, m.store.get? other = some p ∧ deed.Times setup m now other p q := by
  have hcourse := course_perform intake hrules hready now hdeed q.name
  rw [hleft.named?_of_get? hget] at hcourse
  cases hbefore : m.store.named? q.name with
  | none =>
    rw [hbefore] at hcourse
    exact .inl hcourse.times_new
  | some p =>
    obtain ⟨other, hlookup, hknown⟩ := Option.bind_eq_some_iff.1 hbefore
    obtain ⟨found, hfound, hname⟩ := hready.coherent.linked _ _ _ hlookup
    rw [hknown] at hfound
    cases hfound
    -- What became of that pattern has the name, and so it is this one.
    obtain ⟨r, hr, hsame, htimes⟩ := times_perform setup hrules hready hdeed hleft other p hknown
    rw [← hsame] at hname
    rw [← Store.get?_congr _ (hleft.id_of_name hr hget hname), hr] at hget
    cases hget
    exact .inr ⟨other, p, hknown, htimes⟩

end

end Memory

/-! ### Runs of a session -/

namespace Session

open Memory (Deed)

variable {idOf : IdScheme} {s t first : Session} {c : Call} {id : Label} {p q : Pattern Value}

/-- A session that is reached by calls, each of them allowed where it is made. -/
inductive Reaches (idOf : IdScheme) (allowed : Session → Call → Prop) (first : Session) :
    Session → Prop
  | here : Reaches idOf allowed first first
  | call {s : Session} {c : Call} (h : Reaches idOf allowed first s) (hc : allowed s c) :
      Reaches idOf allowed first (step idOf s c)

/-- What every allowed call keeps, is true of what is reached. -/
theorem Reaches.keeps {allowed : Session → Call → Prop} {P : Session → Prop}
    (h : Reaches idOf allowed first s) (hstep : ∀ s c, allowed s c → P s → P (step idOf s c))
    (hfirst : P first) : P s := by
  induction h with
  | here => exact hfirst
  | call _ hc ih => exact hstep _ _ hc ih

/-- What a call makes of the times of a pattern that is kept under an id. -/
def Call.Times (idOf : IdScheme) (s : Session) (c : Call) (id : Label) (p q : Pattern Value) :
    Prop :=
  p.Times c.now ((c.sightings idOf s).any (·.name == p.name)) (Memory.news (c.logs? idOf s) id) q

/-- The clock does not go back. -/
def Call.Forward (s : Session) (c : Call) : Prop :=
  c.Simple ∧ s.now.instant ≤ c.now.instant

/-- A reaction that touches a pattern is dated no earlier than the pattern was touched last,
and not in the future. -/
def Call.Punctual (idOf : IdScheme) (s : Session) (c : Call) : Prop :=
  ∀ id e p, c.logs? idOf s = some (id, e) → e.reaction ≠ .ignored →
    s.memory.store.get? id = some p →
      p.lastTouched.instant ≤ e.timestamp.instant ∧ e.timestamp.instant ≤ c.now.instant

/-- Whatever is left of punctual reactions, it is no earlier than before and not in the
future. -/
theorem Call.Punctual.lastTouch (h : c.Punctual idOf s) (hget : s.memory.store.get? id = some p) :
    p.lastTouched.instant
        ≤ (lastTouch (Memory.news (c.logs? idOf s) id) p.lastTouched).instant ∧
      (p.lastTouched.instant ≤ c.now.instant →
        (CodeHabits.lastTouch (Memory.news (c.logs? idOf s) id) p.lastTouched).instant
          ≤ c.now.instant) := by
  unfold Memory.news
  cases hlogs : c.logs? idOf s with
  | none => exact ⟨Int.le_refl _, fun hle => hle⟩
  | some entry =>
    obtain ⟨target, e⟩ := entry
    dsimp only
    split
    · rename_i hid
      rw [← s.memory.store.get?_congr hid] at hget
      by_cases hignored : e.reaction = .ignored
      · simp [CodeHabits.lastTouch, hignored]
      · obtain ⟨hlate, hfuture⟩ := h target e p hlogs hignored hget
        simp only [CodeHabits.lastTouch, List.foldl_cons, List.foldl_nil, if_neg hignored]
        exact ⟨hlate, fun _ => hfuture⟩
    · exact ⟨Int.le_refl _, fun hle => hle⟩

theorem times_step (idOf : IdScheme) (h : s.Sound) (hc : c.Simple) :
    s.memory.store.Carries (c.Times idOf s) (step idOf s c).memory.store := by
  have hleft := (h.step idOf hc).ready.coherent
  obtain ⟨deed, hdeed, hsimple⟩ := hc.exists_deed
  rw [memory_step hdeed] at hleft ⊢
  intro id p hget
  obtain ⟨q, hq, _, htimes⟩ := Memory.times_perform { s.setup with idOf } h.usable h.ready
    hsimple hleft id p hget
  refine ⟨q, hq, ?_⟩
  rw [Call.Times, Call.sightings, hdeed, logs?_eq_deed hdeed]
  exact htimes

theorem times_left_step (h : s.Sound) (hc : c.Simple)
    (hget : (step idOf s c).memory.store.get? id = some q) :
    (q.firstSeen = c.now ∧ q.lastSeen = c.now ∧ q.lastTouched = c.now) ∨
      ∃ other p, s.memory.store.get? other = some p ∧ c.Times idOf s other p q := by
  have hleft := (h.step idOf hc).ready.coherent
  obtain ⟨deed, hdeed, hsimple⟩ := hc.exists_deed
  rw [memory_step hdeed] at hleft hget
  rcases Memory.times_left { s.setup with idOf } h.usable h.ready hsimple hleft hget with
    hnew | ⟨other, p, hknown, htimes⟩
  · exact .inl hnew
  · refine .inr ⟨other, p, hknown, ?_⟩
    rw [Call.Times, Call.sightings, hdeed, logs?_eq_deed hdeed]
    exact htimes

/-- Patterns were seen first no later than last, and that is not in the future. -/
def Seen (s : Session) : Prop :=
  s.memory.store.Every fun p =>
    p.firstSeen.instant ≤ p.lastSeen.instant ∧ p.lastSeen.instant ≤ s.now.instant

/-- Patterns were touched no earlier than they were seen last, and that is not in the future. -/
def Touched (s : Session) : Prop :=
  s.memory.store.Every fun p =>
    p.lastSeen.instant ≤ p.lastTouched.instant ∧ p.lastTouched.instant ≤ s.now.instant

theorem seen_step (h : s.Sound) (hc : c.Forward s) (hseen : s.Seen) : (step idOf s c).Seen := by
  intro entry hentry
  have hget := (h.step idOf hc.1).ready.coherent.get?_of_mem hentry
  rw [now_step]
  rcases times_left_step h hc.1 hget with ⟨hfirst, hlast, _⟩ | ⟨other, p, hknown, htimes⟩
  · rw [hfirst, hlast]
    exact ⟨Int.le_refl _, Int.le_refl _⟩
  · obtain ⟨hp, hpast⟩ := hseen.of_get? hknown
    have hlater := hc.2
    rw [htimes.first, htimes.last]
    split
    · exact ⟨by omega, Int.le_refl _⟩
    · exact ⟨hp, by omega⟩

theorem touched_step (h : s.Sound) (hc : c.Forward s) (hpunctual : c.Punctual idOf s)
    (htouched : s.Touched) : (step idOf s c).Touched := by
  intro entry hentry
  have hget := (h.step idOf hc.1).ready.coherent.get?_of_mem hentry
  rw [now_step]
  rcases times_left_step h hc.1 hget with ⟨_, hlast, htouched⟩ | ⟨other, p, hknown, htimes⟩
  · rw [hlast, htouched]
    exact ⟨Int.le_refl _, Int.le_refl _⟩
  · obtain ⟨hp, hpast⟩ := htouched.of_get? hknown
    obtain ⟨hlate, hfuture⟩ := hpunctual.lastTouch hknown
    have hlater := hc.2
    rw [htimes.last, htimes.touched]
    split
    · exact ⟨Int.le_refl _, Int.le_refl _⟩
    · exact ⟨by omega, hfuture (by omega)⟩

/-- A call that is punctual takes back nothing, and makes no pattern stale. -/
theorem touched_later (h : s.Sound) (hc : c.Forward s) (hpunctual : c.Punctual idOf s)
    (htouched : s.Touched) :
    s.memory.store.Carries (fun _ p q => p.lastTouched.instant ≤ q.lastTouched.instant ∧
      ∀ window time, q.Stale window time → p.Stale window time) (step idOf s c).memory.store := by
  intro id p hget
  obtain ⟨q, hq, htimes⟩ := times_step idOf h hc.1 id p hget
  have hlater : p.lastTouched.instant ≤ q.lastTouched.instant := by
    have hpast := (htouched.of_get? hget).2
    have hnow := hc.2
    rw [htimes.touched]
    split
    · omega
    · exact (hpunctual.lastTouch hget).1
  refine ⟨q, hq, hlater, fun window time hstale => ?_⟩
  unfold Pattern.Stale at hstale ⊢
  omega

variable {config : Config} {settings : Settings}

/-- A session under a configuration that was checked analyses, takes in reactions and forgets,
and its clock never goes back. Then every pattern was seen first no later than last, and not
in the future. What a call makes of the times of a pattern depends on whether it sights the
pattern and which event it logs in it, and on nothing else. If all reactions were punctual,
every pattern was touched no earlier than it was seen last, and another punctual call takes
back nothing and makes no pattern stale. -/
theorem times_in_order (hvalid : config.validate = .ok ())
    (hsettings : config.settings = .ok settings) (grammars : Grammars) (files : Files)
    (start : Timestamp) (hs : Reaches idOf Call.Forward
      (Session.start settings grammars files start) s) :
    s.Seen ∧
      (∀ c : Call, c.Simple → s.memory.store.Carries (c.Times idOf s) (step idOf s c).memory.store) ∧
      (Reaches idOf (fun s c => c.Forward s ∧ c.Punctual idOf s)
          (Session.start settings grammars files start) s →
        s.Touched ∧ ∀ c : Call, c.Forward s → c.Punctual idOf s →
          s.memory.store.Carries (fun _ p q => p.lastTouched.instant ≤ q.lastTouched.instant ∧
            ∀ window time, q.Stale window time → p.Stale window time)
            (step idOf s c).memory.store) := by
  have hgrown : Grown idOf (Session.start settings grammars files start) :=
    .start hvalid hsettings grammars files start
  have hfirst := hgrown.sound
  have hboth : s.Sound ∧ s.Seen :=
    hs.keeps (P := fun s => s.Sound ∧ s.Seen)
      (fun s c hc h => ⟨h.1.step idOf hc.1, seen_step h.1 hc h.2⟩) ⟨hfirst, Store.every_empty _⟩
  obtain ⟨hsound, hseen⟩ := hboth
  refine ⟨hseen, fun c hc => times_step idOf hsound hc, fun hpunctual => ?_⟩
  have htouched : s.Sound ∧ s.Touched :=
    hpunctual.keeps (P := fun s => s.Sound ∧ s.Touched)
      (fun s c hc h => ⟨h.1.step idOf hc.1.1, touched_step h.1 hc.1 hc.2 h.2⟩)
      ⟨hfirst, Store.every_empty _⟩
  exact ⟨htouched.2, fun c hc hcall => touched_later hsound hc hcall htouched.2⟩

/-- A text in which a pattern is seen, one microsecond into the calendar. -/
def seenCall : Call :=
  ⟨⟨1, 0⟩, .empty, .analyze ⟨"x();\n", some "go", "a.go"⟩⟩

/-- The pattern is accepted at the same time, but the acceptance is dated one microsecond
earlier. -/
def lateCall : Call :=
  ⟨⟨1, 0⟩, .empty,
    .feedback (.text "pat_a84972b418f6") .accepted none ⟨.null, .null, none⟩ none (some ⟨0, 0⟩)⟩

/-- The acceptance takes back when the pattern was touched to before it was seen, and makes it
stale. -/
theorem times_in_order_of_late_acceptance :
    outlinedGo.validate = .ok () ∧ ∃ settings, outlinedGo.settings = .ok settings ∧
      let s := step .usual (withoutGrammars settings) seenCall
      Reaches .usual Call.Forward (withoutGrammars settings) s ∧ s.Seen ∧ lateCall.Forward s ∧
        ∃ id p q, s.memory.store.get? id = some p ∧
          (step .usual s lateCall).memory.store.get? id = some q ∧ lateCall.Times .usual s id p q ∧
          q.lastTouched.instant < p.lastTouched.instant ∧
          q.lastTouched.instant < q.lastSeen.instant ∧
          q.Stale 0 lateCall.now ∧ ¬ p.Stale 0 lateCall.now := by
  have hvalid : outlinedGo.validate = .ok () := Except.eq_ok_unit (by decide +kernel)
  have htimes : (outlinedGo.settings.toOption.any fun settings =>
      let s := step .usual (withoutGrammars settings) seenCall
      ((s.memory.store.get? (.text "pat_a84972b418f6")).any fun p =>
          decide (p.lastTouched.instant = 1)) &&
        (((step .usual s lateCall).memory.store.get? (.text "pat_a84972b418f6")).any fun q =>
          decide (q.lastSeen.instant = 1 ∧ q.lastTouched.instant = 0))) = true := by decide +kernel
  obtain ⟨settings, hsettings, htimes⟩ := (Option.any_eq_true _ _).1 htimes
  have hsettings := Except.toOption_eq_some.1 hsettings
  obtain ⟨hbefore, hafter⟩ := Bool.and_eq_true_iff.1 htimes
  obtain ⟨p, hp, hbefore⟩ := (Option.any_eq_true _ _).1 hbefore
  obtain ⟨q, hq, hafter⟩ := (Option.any_eq_true _ _).1 hafter
  have hpast : p.lastTouched.instant = 1 := of_decide_eq_true hbefore
  obtain ⟨hseen, htouched⟩ := of_decide_eq_true hafter
  refine ⟨hvalid, settings, hsettings, ?_⟩
  intro s
  have hreaches : Reaches .usual Call.Forward (withoutGrammars settings) s :=
    .call .here ⟨trivial, show Timestamp.instant ⟨0, 0⟩ ≤ _ by decide⟩
  obtain ⟨horder, hcalls, _⟩ := times_in_order hvalid hsettings _ _ _ hreaches
  obtain ⟨r, hr, hchanged⟩ := hcalls lateCall trivial _ p hp
  rw [hq] at hr
  cases hr
  have hstale : q.Stale 0 lateCall.now := by
    unfold Pattern.Stale
    rw [htouched]
    decide
  have hfresh : ¬ p.Stale 0 lateCall.now := by
    unfold Pattern.Stale
    rw [hpast]
    decide
  have hlate : s.now.instant ≤ lateCall.now.instant := by
    rw [now_step]
    decide
  refine ⟨hreaches, horder, ⟨trivial, hlate⟩, _, p, q, hp, hq, hchanged, ?_, ?_, hstale, hfresh⟩
  · rw [hpast, htouched]
    decide
  · rw [hseen, htouched]
    decide

end Session

end CodeHabits
