import CodeHabits.Proofs.Memory.Deed
import CodeHabits.Proofs.Memory.Reacting
import CodeHabits.Proofs.Pattern.Keeping
import CodeHabits.Proofs.Pattern.Style
import CodeHabits.Proofs.Store.Invariants
import CodeHabits.Proofs.Store.Seeing

/-!
# `CodeHabits.Proofs.Memory.History`: what is only ever added to

Whatever is done to a memory short of replacing or clearing it, a pattern keeps its id,
its name and what was there at its first sighting. The files and the log of reactions are
continued at their ends, and no whole count of a style becomes less. `Extends es` says this
of one pattern, and that `es` are the events that were logged in between.

Of all deeds only reactions log anything. `logs?` tells which event a reaction logs, and
in the log of which pattern: none if the pattern is not known or the content cannot be
read, and else its own event in the log of its target. What happens after that may still
fail, but the event stays. So `carries_perform` knows the logs exactly after every deed.
-/

set_option autoImplicit false

namespace CodeHabits

open Time (Timestamp)

variable {ν : Type}

/-! ### One pattern -/

namespace Pattern

/-- A later state of a pattern, with more events in the log. -/
structure Extends (es : List Event) (p q : Pattern ν) : Prop where
  id : q.id = p.id
  kind : q.kind = p.kind
  language : q.language = p.language
  signature : q.signature = p.signature
  firstSeen : q.firstSeen = p.firstSeen
  sample : q.sample = p.sample
  log : q.feedback = p.feedback ++ es
  files : p.sourceFiles <+: q.sourceFiles
  styles : p.styles.Grows q.styles

variable {es : List Event} {p : Pattern ν}

theorem extends_refl (p : Pattern ν) : p.Extends [] p where
  id := rfl
  kind := rfl
  language := rfl
  signature := rfl
  firstSeen := rfl
  sample := rfl
  log := (List.append_nil _).symm
  files := List.prefix_rfl
  styles := fun _ _ n h => ⟨n, h, Int.le_refl n⟩

theorem Extends.name {q : Pattern ν} (h : p.Extends es q) : q.name = p.name :=
  Prod.ext h.language h.signature

theorem prefix_addSource (files : List Value) (file : Value) : files <+: addSource files file := by
  unfold addSource
  split
  · exact List.prefix_rfl
  · exact List.prefix_append _ _

theorem prefix_addSources (files others : List Value) :
    files <+: others.foldl addSource files := by
  induction others generalizing files with
  | nil => exact List.prefix_rfl
  | cons file rest ih => exact (prefix_addSource files file).trans (ih _)

end Pattern

variable [Magnitude ν] {es : List Event} {p q : Pattern ν} {rules : Learning ν} {now : Timestamp}
  {e : Event}

namespace Store

omit [Magnitude ν] in
theorem extends_countStyle (c : Sighting) : Change.Keeps (p.Extends es) (countStyle c) := by
  refine Change.keeps_within (Q := p.styles.Grows) (fun q hq => hq.styles)
    (fun q styles hq hstyles => ?_) (Tallies.grows_tally p.styles c.style)
  exact { hq with styles := hstyles }

theorem extends_seeAgain (m : Smoothing ν) (now : Timestamp) (c : Sighting) :
    Change.Keeps (p.Extends es) (seeAgain m now c) := by
  refine keeps_seeAgain_each (fun q frequency hq _ => ?_) (fun q _ hq => { hq with })
    (extends_countStyle c) (fun q hq => { hq with }) (fun q hq => { hq with })
  exact { hq with files := hq.files.trans (Pattern.prefix_addSource _ _) }

theorem extends_clampPattern : Change.Keeps (p.Extends es) clampPattern :=
  keeps_clampPattern fun _ _ hq => { hq with }

theorem extends_gain (other : Pattern ν) : Change.Keeps (p.Extends es) (gain other) := by
  refine keeps_gain_each fun q frequency hq _ => ?_
  exact { hq with files := hq.files.trans (Pattern.prefix_addSources _ _) }

end Store

/-- A reaction adds its event. -/
theorem Learning.extends_learn (rules : Learning ν) (e : Event) (p : Pattern ν) :
    p.Extends [e] ((rules.learn e).outcome p).2 := by
  refine keeps_learn_each (P := fun q => q = p) (fun q hq => ?_) (fun q _ hq => { hq with })
    (fun q _ hq => { hq with }) (fun q hq => { hq with }) rfl
  rw [hq]
  exact { Pattern.extends_refl p with log := rfl }

/-- So does a reaction that is taken in, as the confidence is all that is written then. -/
theorem Learning.extends_taken (rules : Learning ν) (e : Event) (p : Pattern ν) :
    p.Extends [e] (Store.clampPattern.outcome
      ((do rules.learn e; get : Change (Pattern ν) (Pattern ν)).outcome p).2).2 := by
  refine Store.extends_clampPattern _ ?_
  exact Change.left_bind (rules.extends_learn e p) fun _ => Change.keeps_get

theorem Learning.extends_forget {window : Int} {r : Pattern ν} (hq : p.Extends es q)
    (h : rules.forget window now q = .ok r) : p.Extends es r :=
  keeps_forget (P := p.Extends es) (fun _ _ hq => { hq with }) (fun _ _ hq => { hq with }) hq h

/-! ### One deed -/

namespace Memory

variable {R : Label → Pattern ν → Pattern ν → Prop} {s : Store ν} {setup : Setup ν} {m : Memory ν}
  {id : Label} {p : Pattern ν}

theorem carries_learn {idOf : IdScheme} {c : Sighting}
    (hagain : ∀ m id p, Change.Keeps (R id p) (Store.seeAgain m now c)) :
    Change.Keeps (fun n : Memory ν => s.Carries R n.store) (learn idOf now c) :=
  keeps_inStore (Store.carries_upsert hagain)

/-- A pass of forgetting lets a pattern be, or makes of it what the rules say. -/
theorem forgetEach_cons (rules : Learning ν) (window : Int) (now : Timestamp)
    (passed : List (Pattern ν)) (entry : Label × Pattern ν) (rest : Table Label (Pattern ν)) :
    ∃ q, forgetEach rules window now passed (entry :: rest)
        = (entry.1, q) :: forgetEach rules window now passed rest ∧
      (q = entry.2 ∨ rules.forget window now entry.2 = .ok q) := by
  rw [forgetEach, List.map_cons]
  split
  · cases hforget : rules.forget window now entry.2 with
    | error fault => exact ⟨entry.2, rfl, .inl rfl⟩
    | ok q => exact ⟨q, rfl, .inr rfl⟩
  · exact ⟨entry.2, rfl, .inl rfl⟩

/-- Under every id there is what was there, perhaps forgotten, or still nothing. -/
theorem get?_forgetEach (rules : Learning ν) (window : Int) (now : Timestamp)
    (passed : List (Pattern ν)) (patterns : Table Label (Pattern ν)) (id : Label) :
    Option.Rel (fun p q => q = p ∨ rules.forget window now p = .ok q) (patterns.get? id)
      ((forgetEach rules window now passed patterns).get? id) := by
  induction patterns with
  | nil => exact .none
  | cons entry rest ih =>
    obtain ⟨q, hcons, hforgotten⟩ := forgetEach_cons rules window now passed entry rest
    rw [hcons, Table.get?_cons, Table.get?_cons]
    dsimp only
    split
    · exact .some hforgotten
    · exact ih

theorem carries_decay
    (hforget : ∀ id p q r window, R id p q → rules.forget window now q = .ok r → R id p r) :
    Change.Keeps (fun n : Memory ν => s.Carries R n.store) (decay rules now) := by
  refine keeps_decay fun window passed n h id p hget => ?_
  obtain ⟨q, hq, hrelated⟩ := h id p hget
  have hleft := get?_forgetEach rules window now passed n.store.patterns id
  rw [show n.store.patterns.get? id = some q from hq] at hleft
  cases hr : (forgetEach rules window now passed n.store.patterns).get? id with
  | none =>
    rw [hr] at hleft
    cases hleft
  | some r =>
    rw [hr] at hleft
    refine ⟨r, hr, ?_⟩
    cases hleft with
    | some hforgotten =>
      rcases hforgotten with rfl | hforgotten
      · exact hrelated
      · exact hforget id p q r window hrelated hforgotten

/-- Only the store tells what a reaction does to the patterns. -/
theorem store_takeIn (rules : Learning ν) (id : Label) (e : Event) (m : Memory ν) :
    ((takeIn rules id e).outcome m).2.store
      = ((Store.edit id (do rules.learn e; get : Change (Pattern ν) (Pattern ν))).outcome
          m.store).2 := by
  rw [takeIn, inStore, Change.outcome_bind, Change.outcome_within]
  rcases (Store.edit id (do rules.learn e; get : Change (Pattern ν) (Pattern ν))).outcome m.store
    with ⟨fault | p, s⟩
  · rfl
  · dsimp only
    rw [inPreferences, Change.outcome_within]

/-- The event that a deed logs, and the label of the pattern in whose log it is then. -/
def Deed.logs? (setup : Setup ν) (m : Memory ν) : Deed → Option (Label × Event)
  | .feedback e =>
    match m.target e.patternId with
    | .error _ => none
    | .ok (id, _) => if (m.resighted setup.reparse id e).isOk then some (id, e) else none
  | _ => none

omit [Magnitude ν] in
/-- A reaction logs its event if its target is known and its content can be read. -/
theorem logs?_eq_some {e logged : Event} :
    Deed.logs? setup m (.feedback e) = some (id, logged) ↔
      logged = e ∧ ∃ before found, m.target e.patternId = .ok (id, before) ∧
        m.resighted setup.reparse id e = .ok found := by
  rw [Deed.logs?]
  constructor
  · intro h
    split at h
    · cases h
    · rename_i known before htarget
      split at h
      · rename_i hread
        obtain ⟨found, hread⟩ := Except.exists_of_isOk hread
        cases h
        exact ⟨rfl, before, found, htarget, hread⟩
      · cases h
  · rintro ⟨rfl, before, found, htarget, hread⟩
    rw [htarget]
    dsimp only
    rw [hread]
    rfl

/-- The events that an entry adds to the log of a pattern. -/
def news (logs? : Option (Label × Event)) (id : Label) : List Event :=
  match logs? with
  | some (target, e) => if target == id then [e] else []
  | none => []

/-- A reaction adds its event to the log of its target, and leaves the other patterns. -/
theorem carries_takeIn (rules : Learning ν) (id : Label) (e : Event) (m : Memory ν) :
    m.store.Carries (fun other => Pattern.Extends (news (some (id, e)) other))
      ((takeIn rules id e).outcome m).2.store := by
  intro other p hget
  rw [store_takeIn, Store.outcome_edit]
  by_cases hid : (id == other) = true
  · -- The target itself, under whatever label.
    rw [m.store.get?_congr hid, hget]
    refine ⟨_, by rw [Store.get?_replace, if_pos hid], ?_⟩
    have hnews : news (some (id, e)) other = [e] := if_pos hid
    dsimp only
    rw [hnews]
    exact rules.extends_taken e p
  · have hother : Pattern.Extends (news (some (id, e)) other) p p := by
      have hnews : news (some (id, e)) other = [] := if_neg hid
      rw [hnews]
      exact p.extends_refl
    cases hknown : m.store.get? id with
    | none => exact ⟨p, hget, hother⟩
    | some known => exact ⟨p, by rw [Store.get?_replace, if_neg hid]; exact hget, hother⟩

section

variable {newsOf : Label → List Event}

/-- What is fixed of the patterns and their logs, learning and forgetting keep. -/
theorem extends_learnt (idOf : IdScheme) (now : Timestamp) (c : Sighting) :
    Change.Keeps (fun n : Memory ν => s.Carries (fun id => Pattern.Extends (newsOf id)) n.store)
      (learn idOf now c) :=
  carries_learn fun m _ _ => Store.extends_seeAgain m now c

theorem extends_decay (rules : Learning ν) (now : Timestamp) :
    Change.Keeps (fun n : Memory ν => s.Carries (fun id => Pattern.Extends (newsOf id)) n.store)
      (decay rules now) :=
  carries_decay fun _ _ _ _ _ hq hforget => Learning.extends_forget hq hforget

end

/-- A reaction, whether it fails or not. -/
theorem carries_feedback (setup : Setup ν) (now : Timestamp) (e : Event) (m : Memory ν) :
    m.store.Carries (fun id => Pattern.Extends (news (Deed.logs? setup m (.feedback e)) id))
      ((setup.feedback now e).outcome m).2.store := by
  have hidle : m.store.Carries (fun id => Pattern.Extends (news none id)) m.store :=
    .refl (fun _ p => p.extends_refl) _
  rw [Setup.feedback, outcome_feedback, Deed.logs?]
  cases htarget : m.target e.patternId with
  | error fault => exact hidle
  | ok target =>
    obtain ⟨id, before⟩ := target
    dsimp only
    cases hread : m.resighted setup.reparse id e with
    | error fault => exact hidle
    | ok found =>
      -- The event is logged first, and what follows leaves the logs alone.
      have hlogged := carries_takeIn setup.rules id e m
      refine Change.left_bind (P := fun n : Memory ν =>
        m.store.Carries (fun other => Pattern.Extends (news (some (id, e)) other)) n.store)
        hlogged fun _ => ?_
      refine Change.keeps_bind (keeps_countIgnored (fun _ _ h => h)
        (extends_decay setup.rules e.timestamp)) fun _ => ?_
      refine Change.keeps_bind (Change.keeps_mapM fun c _ => extends_learnt setup.idOf now c)
        fun _ => ?_
      exact Change.keeps_bind Change.keeps_get fun _ => Change.keeps_pure _

/-- The deed adds to what is there: it neither clears the memory nor puts a snapshot in its
place. -/
def Deed.Adds : Deed → Prop
  | .takeSnapshot _ replace => replace = false
  | .clear => False
  | _ => True

/-- Every pattern goes on after a deed that adds, with the event of the deed in its log if
it is the target, and with no other one. -/
theorem carries_perform (intake : Intake ν) (setup : Setup ν) (now : Timestamp) {deed : Deed}
    (hdeed : deed.Adds) (m : Memory ν) :
    m.store.Carries (fun id => Pattern.Extends (news (deed.logs? setup m) id))
      ((perform intake setup now deed).outcome m).2.store := by
  let P := fun n : Memory ν => m.store.Carries (fun _ => Pattern.Extends []) n.store
  have hstart : P m := .refl (fun _ p => p.extends_refl) _
  have hlearn : ∀ c : Candidate, Change.Keeps P (learn setup.idOf now c.sighting) :=
    fun c => extends_learnt setup.idOf now c.sighting
  cases deed with
  | analyze text =>
    exact keeps_drop (Setup.keeps_analyze hlearn) m hstart
  | analyzeBatch cancelAfter texts =>
    exact keeps_drop (Setup.keeps_analyzeBatch hlearn _ _ _) m hstart
  | feedback e =>
    exact Change.left_bind (P := fun n : Memory ν => m.store.Carries
      (fun id => Pattern.Extends (news (Deed.logs? setup m (.feedback e)) id)) n.store)
      (carries_feedback setup now e m) fun _ => Change.keeps_pure _
  | decay time => exact keeps_drop (P := P) (extends_decay setup.rules time) m hstart
  | clear => cases hdeed
  | takeSnapshot document replace =>
    obtain rfl : replace = false := hdeed
    refine keeps_drop (P := P) ?_ m hstart
    unfold takeIntake
    refine Change.keeps_bind (Change.keeps_ofExcept _) fun members => ?_
    refine keeps_inStore (Store.carries_merge fun incoming _ entry _ => ?_)
    exact fun _ _ => Store.extends_gain entry.2

/-! ### Ids that are texts -/

/-- New patterns get texts for ids, and seeing a pattern again leaves its id. -/
theorem texts_learn (idOf : IdScheme) (now : Timestamp) (c : Sighting) :
    Change.Keeps (fun m : Memory ν => m.store.Every fun p => p.id.IsText) (learn idOf now c) := by
  apply keeps_inStore
  apply Store.every_upsert
  · intro s p hp
    show ((Store.seeAgain s now c).outcome p).2.id.IsText
    rw [(Store.extends_seeAgain s now c p p.extends_refl).id]
    exact hp
  · intro s id p hp
    show ((Store.countStyle c).outcome p).2.id.IsText
    rw [(Store.is_countStyle c p (Store.is_firstSighting hp)).1]
    exact ⟨id, rfl⟩

theorem texts_takeIn (rules : Learning ν) (id : Label) (e : Event) :
    Change.Keeps (fun m : Memory ν => m.store.Every fun p => p.id.IsText) (takeIn rules id e) :=
  every_takeIn (fun _ h => h) (fun _ _ h => h) (fun _ h => h) fun _ h => h

theorem texts_decay (rules : Learning ν) (now : Timestamp) :
    Change.Keeps (fun m : Memory ν => m.store.Every fun p => p.id.IsText) (decay rules now) := by
  apply every_decay
  intro window p q hp hforget
  rw [(Learning.extends_forget p.extends_refl hforget).id]
  exact hp

/-- What is merged in gets texts for ids, whatever ids it comes with. -/
theorem texts_merge (idOf : IdScheme) (document : Value) :
    Change.Keeps (fun m : Memory Value => m.store.Every fun p => p.id.IsText)
      (takeSnapshot idOf document false) := by
  unfold takeSnapshot
  refine Change.keeps_bind (Change.keeps_ofExcept _) fun members => ?_
  refine keeps_inStore (Store.every_merge fun incoming _ entry _ => ⟨?_, fun id => ⟨id, rfl⟩⟩)
  exact Store.keeps_gain_each fun _ _ h _ => h

end Memory

end CodeHabits
