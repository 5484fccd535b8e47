import CodeHabits.Analysis
import CodeHabits.Proofs.Pattern.Keeping
import CodeHabits.Proofs.Store.Invariants

/-!
# `CodeHabits.Proofs.Memory.Keeping`: what every way of learning keeps

Analysing and reacting are made of a few steps: learning from a sighting,
logging a reaction, a pass of forgetting, and counting ignored suggestions.
Whatever these keep, the whole operations keep as well, also where they fail
half way. The theorems here say so for any property of memories, so an
invariant needs one fact for each of the steps.

All sightings come from candidates, which a front-end found: `reparse_eq_ok`
says it for modified content.
-/

set_option autoImplicit false

namespace CodeHabits

open Time (Timestamp)

variable {ν : Type} {P : Memory ν → Prop}

namespace Memory

theorem keeps_inStore {α : Type} {Q : Store ν → Prop} {x : Change (Store ν) α}
    (hx : Change.Keeps Q x) : Change.Keeps (fun m : Memory ν => Q m.store) (inStore x) :=
  Change.keeps_within (fun _ h => h) (fun _ _ _ h => h) hx

theorem keeps_inPreferences {α : Type} {Q : Preferences ν → Prop} {x : Change (Preferences ν) α}
    (hx : Change.Keeps Q x) :
    Change.Keeps (fun m : Memory ν => Q m.preferences) (inPreferences x) :=
  Change.keeps_within (fun _ h => h) (fun _ _ _ h => h) hx

/-- Sightings, if there are any, come from reading the modified content. -/
theorem resighted_eq_ok {reparse : Reparse} {m : Memory ν} {id : Label} {e : Event}
    {found : List Sighting × Option String} (h : m.resighted reparse id e = .ok found) :
    found.1 = [] ∨ ∃ content language, reparse content language = .ok found.1 := by
  unfold Memory.resighted at h
  split at h
  · split at h
    · cases h
      exact .inl rfl
    · split at h
      -- What the language comes from does not matter.
      all_goals
        dsimp only at h
        split at h
        · rename_i hparsed
          obtain ⟨language, _, hparsed⟩ := Except.bind_eq_ok.1 hparsed
          cases h
          exact .inr ⟨_, language, hparsed⟩
        · split at h <;> cases h
          exact .inl rfl
  · cases h
    exact .inl rfl

variable [Magnitude ν]

/-- A pass of forgetting changes patterns, and nothing else. -/
theorem keeps_decay {rules : Learning ν} {now : Timestamp}
    (hforget : ∀ window passed (m : Memory ν), P m →
      P { m with
        store :=
          { m.store with patterns := forgetEach rules window now passed m.store.patterns } }) :
    Change.Keeps P (decay rules now) := by
  unfold decay
  refine Change.keeps_bind (Change.keeps_ofExcept _) fun window => ?_
  refine Change.keeps_bind Change.keeps_get fun _ => ?_
  refine Change.keeps_bind (Change.keeps_ofExcept _) fun live => ?_
  refine Change.keeps_bind (Change.keeps_modify fun m h => hforget window _ m h) fun _ => ?_
  refine Change.keeps_bind (Change.keeps_ofExcept _) fun _ => ?_
  exact Change.keeps_bind (Change.keeps_ofExcept _) fun _ => Change.keeps_pure _

/-- What forgetting keeps of one pattern, it keeps of every pattern. -/
theorem every_forgetEach {Q : Pattern ν → Prop} {rules : Learning ν} {window : Int}
    {now : Timestamp} (hforget : ∀ p q, Q p → rules.forget window now p = .ok q → Q q)
    {passed : List (Pattern ν)} {patterns : Table Label (Pattern ν)}
    (h : ∀ entry ∈ patterns, Q entry.2) :
    ∀ entry ∈ forgetEach rules window now passed patterns, Q entry.2 := by
  refine List.forall_mem_map.2 fun entry hentry => ?_
  split
  · cases hforgotten : rules.forget window now entry.2 with
    | error fault => exact h entry hentry
    | ok q => exact hforget entry.2 q (h entry hentry) hforgotten
  · exact h entry hentry

theorem every_decay {Q : Pattern ν → Prop} {rules : Learning ν} {now : Timestamp}
    (hforget : ∀ window p q, Q p → rules.forget window now p = .ok q → Q q) :
    Change.Keeps (fun m => m.store.Every Q) (decay rules now) :=
  keeps_decay fun window _ _ h => every_forgetEach (hforget window) h

/-- What each writing of a reaction keeps of a pattern, a reaction that is taken in keeps of
every pattern. -/
theorem every_takeIn {Q : Pattern ν → Prop} {rules : Learning ν} {id : Label} {e : Event}
    (hlogged : ∀ p, Q p → Q { p with feedback := p.feedback ++ [e] })
    (hmoved : ∀ p confidence, Q p → Q { p with confidence })
    (htouched : ∀ p, Q p → Q { p with lastTouched := e.timestamp })
    (hrevived : ∀ p, Q p → Q { p with retired := .bool false }) :
    Change.Keeps (fun m => m.store.Every Q) (takeIn rules id e) := by
  unfold takeIn
  refine Change.keeps_bind (keeps_inStore (Store.every_edit fun p hp => ?_)) fun _ => ?_
  · refine Store.keeps_clampPattern hmoved _ (Change.left_bind ?_ fun _ => Change.keeps_get)
    exact Learning.keeps_learn_each hlogged hmoved (fun q _ => htouched q) hrevived hp
  · exact Change.keeps_within (Q := fun _ => True) (fun _ _ => trivial) (fun _ _ h _ => h)
      fun _ _ => trivial

/-- Counting ignored suggestions sets the count and may run a pass of
forgetting. -/
theorem keeps_countIgnored {rules : Learning ν} {e : Event}
    (hstreak : ∀ m n, P m → P { m with streak := n })
    (hdecay : Change.Keeps P (decay rules e.timestamp)) :
    Change.Keeps P (countIgnored rules e) := by
  unfold countIgnored
  split
  · refine Change.keeps_bind (Change.keeps_modify fun m h => hstreak m _ h) fun _ => ?_
    refine Change.keeps_bind Change.keeps_get fun _ => ?_
    refine Change.keeps_bind (Change.keeps_ofExcept _) fun reached => ?_
    split
    · refine Change.keeps_bind hdecay fun _ => ?_
      refine Change.keeps_bind (Change.keeps_modify fun m h => hstreak m _ h) fun _ => ?_
      exact Change.keeps_pure _
    · exact Change.keeps_pure _
  · refine Change.keeps_bind (Change.keeps_modify fun m h => hstreak m _ h) fun _ => ?_
    exact Change.keeps_pure _

/-- A reaction is logged, counted, and followed by the sightings in modified
content. -/
theorem keeps_feedback {idOf : IdScheme} {rules : Learning ν} {reparse : Reparse}
    {now : Timestamp} {e : Event} (hstreak : ∀ m n, P m → P { m with streak := n })
    (htake : ∀ id, Change.Keeps P (takeIn rules id e))
    (hdecay : Change.Keeps P (decay rules e.timestamp))
    (hlearn : ∀ content language sightings, reparse content language = .ok sightings →
      ∀ c ∈ sightings, Change.Keeps P (learn idOf now c)) :
    Change.Keeps P (feedback idOf rules reparse now e) := by
  unfold feedback
  refine Change.keeps_bind Change.keeps_get fun m => ?_
  refine Change.keeps_bind (Change.keeps_ofExcept _) fun target => ?_
  refine Change.keeps_bind_ofExcept fun resighted hresighted => ?_
  have hall : ∀ c ∈ resighted.1, Change.Keeps P (learn idOf now c) := by
    intro c hc
    rcases resighted_eq_ok hresighted with hnone | ⟨content, language, hread⟩
    · rw [hnone] at hc
      cases hc
    · exact hlearn content language resighted.1 hread c hc
  refine Change.keeps_bind (htake _) fun _ => ?_
  refine Change.keeps_bind (keeps_countIgnored hstreak hdecay) fun _ => ?_
  refine Change.keeps_bind (Change.keeps_mapM hall) fun _ => ?_
  exact Change.keeps_bind Change.keeps_get fun _ => Change.keeps_pure _

end Memory

namespace Setup

variable {setup : Setup ν}

/-- What modified content shows are the sightings of candidates. -/
theorem reparse_eq_ok {code : String} {language : Label} {sightings : List Sighting}
    (h : setup.reparse code language = .ok sightings) :
    ∃ candidates : List Candidate, sightings = candidates.map Candidate.sighting := by
  obtain ⟨_, _, h⟩ := Except.bind_eq_ok.1 h
  split at h
  · obtain ⟨parsed, _, h⟩ := Except.bind_eq_ok.1 h
    obtain ⟨candidates, _, h⟩ := Except.bind_eq_ok.1 h
    cases h
    exact ⟨candidates, rfl⟩
  · cases h

variable [Magnitude ν]

/-- Analysing learns from the candidates that were found. -/
theorem keeps_analyze_found {now : Timestamp} {t : SourceText}
    (hlearn : ∀ findings, setup.find t.code (languageOf t) t.file = .ok findings →
      ∀ c ∈ findings.candidates, Change.Keeps P (Memory.learn setup.idOf now c.sighting)) :
    Change.Keeps P (setup.analyze now t) := by
  unfold analyze
  refine Change.keeps_bind_ofExcept fun findings hfound => ?_
  refine Change.keeps_bind (Change.keeps_mapM fun c hc => ?_) fun _ => Change.keeps_pure _
  unfold Setup.learn
  refine Change.keeps_bind Change.keeps_get fun _ => ?_
  exact Change.keeps_bind (hlearn findings hfound c hc) fun _ => Change.keeps_pure _

theorem keeps_analyze {now : Timestamp} {t : SourceText}
    (hlearn : ∀ c : Candidate, Change.Keeps P (Memory.learn setup.idOf now c.sighting)) :
    Change.Keeps P (setup.analyze now t) :=
  keeps_analyze_found fun _ _ c _ => hlearn c

/-- The texts of a batch are analysed one after the other, each from the state
that the one before left. -/
theorem keeps_analyzeBatch_each {now : Timestamp}
    (hanalyze : ∀ t, Change.Keeps P (setup.analyze now t)) (b : Batch) (cancelAfter : Option Nat)
    (texts : List SourceText) : Change.Keeps P (setup.analyzeBatch now b cancelAfter texts) := by
  induction texts generalizing b cancelAfter with
  | nil =>
    unfold analyzeBatch
    exact Change.keeps_pure _
  | cons t rest ih =>
    by_cases hstop : cancelAfter = some 0
    · rw [hstop, analyzeBatch]
      exact Change.keeps_pure _
    · rw [analyzeBatch.eq_3 setup now b cancelAfter t rest hstop]
      refine Change.keeps_bind_get fun m hm => ?_
      have hleft : P ((setup.analyze now t).outcome m).2 := hanalyze t m hm
      rcases hrun : (setup.analyze now t).outcome m with ⟨result, m'⟩
      rw [hrun] at hleft
      show P ((set m' >>= fun _ => _ : Change (Memory ν) Batch).outcome m).2
      rw [Change.outcome_bind_set]
      refine (?_ : Change.Keeps P _) m' hleft
      cases result with
      | ok a => exact Change.keeps_bind (Change.keeps_pure _) fun _ => ih _ _
      | error fault =>
        by_cases hdomain : fault.isDomain = true
        · simp only [hdomain, if_true]
          exact Change.keeps_bind (Change.keeps_pure _) fun _ => ih _ _
        · simp only [hdomain]
          exact Change.keeps_bind (Change.keeps_throw _) fun _ => ih _ _

theorem keeps_analyzeBatch {now : Timestamp}
    (hlearn : ∀ c : Candidate, Change.Keeps P (Memory.learn setup.idOf now c.sighting))
    (b : Batch) (cancelAfter : Option Nat) (texts : List SourceText) :
    Change.Keeps P (setup.analyzeBatch now b cancelAfter texts) :=
  keeps_analyzeBatch_each (fun _ => keeps_analyze hlearn) b cancelAfter texts

/-- A reaction whose modified content is read by the front-ends. -/
theorem keeps_feedback {now : Timestamp} {e : Event}
    (hstreak : ∀ m n, P m → P { m with streak := n })
    (htake : ∀ id, Change.Keeps P (Memory.takeIn setup.rules id e))
    (hdecay : Change.Keeps P (Memory.decay setup.rules e.timestamp))
    (hlearn : ∀ c : Candidate, Change.Keeps P (Memory.learn setup.idOf now c.sighting)) :
    Change.Keeps P (setup.feedback now e) := by
  refine Memory.keeps_feedback hstreak htake hdecay fun content language sightings h c hc => ?_
  obtain ⟨candidates, rfl⟩ := reparse_eq_ok h
  obtain ⟨candidate, _, rfl⟩ := List.mem_map.1 hc
  exact hlearn candidate

end Setup

end CodeHabits
