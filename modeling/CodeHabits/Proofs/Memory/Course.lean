import CodeHabits.Proofs.Memory.Done
import CodeHabits.Proofs.Memory.History
import CodeHabits.Proofs.Memory.Ready
import CodeHabits.Proofs.Memory.Sightings
import CodeHabits.Proofs.Store.Gathering

/-!
# `CodeHabits.Proofs.Memory.Course`: what one deed makes of every pattern

A source text, a reaction and a pass of forgetting each treat every pattern in the same two
steps. First events are logged in it, and its confidence is moved; `Marked` says that nothing
else changes then. After that it is seen again, as often as there are sightings of its name.
`Store.Course` puts the two together, and tells it by names, so it also speaks of patterns
that are new.

`course_perform` says for each of these deeds which events and which sightings these are. It
holds whether the deed fails or not, as long as the rules are usable and the store is ready:
what can still fail then, fails between the two steps, and only where nothing is to be seen.
-/

set_option autoImplicit false

namespace CodeHabits

open Time (Timestamp)

variable {ν : Type}

/-! ### One pattern -/

/-- When a pattern was touched last, after events were logged. An ignored suggestion does not
touch it. -/
def lastTouch (es : List Event) (touched : Timestamp) : Timestamp :=
  es.foldl (fun last e => if e.reaction = .ignored then last else e.timestamp) touched

/-- Events were logged in a pattern, and at most its confidence was moved besides, with what
follows from it. -/
def Pattern.Marked (es : List Event) (p q : Pattern ν) : Prop :=
  q = { p with
    feedback := p.feedback ++ es
    lastTouched := lastTouch es p.lastTouched
    confidence := q.confidence
    retired := q.retired }

theorem Pattern.marked_refl (p : Pattern ν) : p.Marked [] p := by
  unfold Pattern.Marked
  rw [List.append_nil]
  rfl

namespace Learning

variable {rules : Learning Value} {e : Event} {es : List Event} {p q : Pattern Value}

/-- A reaction is logged. -/
theorem marked_logged (hrules : rules.Usable) (hp : p.Measured) :
    p.Marked [e] (rules.logged e p) := by
  obtain ⟨x, hx, _⟩ := hp.confidence
  obtain ⟨y, retired, _, hrun, _⟩ := outcome_learn (e := e) hrules hx
  obtain ⟨z, hclamp, _⟩ :=
    outcome_clampPattern (rfl : (reacted e p (.real y) retired).confidence = .real y)
  rw [logged, after, hrun, hclamp]
  rfl

theorem marked_forget {window : Int} {now : Timestamp} {r : Pattern Value} (hq : p.Marked es q)
    (h : rules.forget window now q = .ok r) : p.Marked es r := by
  obtain ⟨confidence, retired, rfl, _⟩ := forget_cases h
  unfold Pattern.Marked at hq ⊢
  rw [hq]

end Learning

/-! ### One name -/

namespace Store

variable [Magnitude ν]

/-- What a deed makes of the pattern of a name: events are logged in it, and then it is
seen. -/
def Course (m : Smoothing ν) (now : Timestamp) (cs : List Sighting) (es : List Event)
    (before? after? : Option (Pattern ν)) : Prop :=
  ∃ marked?, Option.Rel (Pattern.Marked es) before? marked? ∧ SeenAll m now cs marked? after?

omit [Magnitude ν] in
theorem marked_none (known? : Option (Pattern ν)) :
    Option.Rel (Pattern.Marked []) known? known? := by
  cases known? with
  | none => exact .none
  | some p => exact .some p.marked_refl

/-- Where nothing is logged, the pattern is only seen. -/
theorem SeenAll.course {m : Smoothing ν} {now : Timestamp} {cs : List Sighting}
    {before? after? : Option (Pattern ν)} (h : SeenAll m now cs before? after?) :
    Course m now cs [] before? after? :=
  ⟨before?, marked_none before?, h⟩

/-- Where nothing is seen, events are logged. -/
theorem course_marked {m : Smoothing ν} {now : Timestamp} {es : List Event}
    {before? after? : Option (Pattern ν)} (h : Option.Rel (Pattern.Marked es) before? after?) :
    Course m now [] es before? after? :=
  ⟨after?, h, .nil⟩

end Store

namespace Memory

variable {setup : Setup Value} {rules : Learning Value} {m n : Memory Value} {now : Timestamp}
  {id : Label} {before : Pattern Value} {e : Event} {es : List Event} {name : Label × Label}

/-- Forgetting leaves patterns marked as they are. -/
theorem marked_of_forgotten {window : Int} {before? marked? after? : Option (Pattern Value)}
    (h : Option.Rel (Pattern.Marked es) before? marked?)
    (hforgotten : Option.Rel (fun q r => r = q ∨ rules.forget window now q = .ok r) marked?
      after?) : Option.Rel (Pattern.Marked es) before? after? := by
  cases h with
  | none =>
    cases hforgotten
    exact .none
  | some hq =>
    cases hforgotten with
    | some hr =>
      rcases hr with rfl | hr
      · exact .some hq
      · exact .some (Learning.marked_forget hq hr)

/-- A pass of forgetting marks patterns, and logs nothing. -/
theorem marks_decay (rules : Learning Value) (now : Timestamp) {before? : Option (Pattern Value)} :
    Change.Keeps (fun n : Memory Value =>
      Option.Rel (Pattern.Marked es) before? (n.store.named? name)) (decay rules now) := by
  refine keeps_decay fun window passed n h => ?_
  have hforgotten : Option.Rel (fun q r => r = q ∨ rules.forget window now q = .ok r)
      ((n.store.lookup? name.1 name.2).bind n.store.get?)
      ((n.store.lookup? name.1 name.2).bind fun id =>
        (forgetEach rules window now passed n.store.patterns).get? id) := by
    cases n.store.lookup? name.1 name.2 with
    | none => exact .none
    | some id => exact get?_forgetEach rules window now passed n.store.patterns id
  exact marked_of_forgotten h hforgotten

/-- The events that a deed logs in the pattern of a name. -/
def Deed.events (setup : Setup ν) (m : Memory ν) (deed : Deed) (name : Label × Label) :
    List Event :=
  match deed.logs? setup m with
  | some (id, e) => if (m.store.get? id).any (·.name == name) then [e] else []
  | none => []

/-- A reaction is logged in its target, whether the weights can be moved or not. -/
theorem marks_takeIn (hrules : rules.Usable) (hcoherent : m.store.Coherent)
    (hget : m.store.get? id = some before) (hbefore : before.Measured) (name : Label × Label) :
    Option.Rel (Pattern.Marked (if before.name == name then [e] else []))
      (m.store.named? name) (((takeIn rules id e).outcome m).2.store.named? name) := by
  rw [outcome_takeIn hrules hget hbefore]
  show Option.Rel _ _ ((m.store.replace id (rules.logged e before)).named? name)
  rw [hcoherent.named?_replace hget]
  by_cases hname : (before.name == name) = true
  · rw [if_pos hname, if_pos hname, ← m.store.named?_congr hname, hcoherent.named?_of_get? hget]
    exact .some (Learning.marked_logged hrules hbefore)
  · rw [if_neg hname, if_neg hname]
    exact Store.marked_none _

/-! ### One deed -/

/-- A source text, a reaction, or a pass of forgetting. -/
def Deed.Simple : Deed → Prop
  | .analyze _ | .feedback _ | .decay _ => True
  | .analyzeBatch _ _ | .takeSnapshot _ _ | .clear => False

theorem Deed.Simple.adds {deed : Deed} (h : deed.Simple) : deed.Adds := by
  cases deed with
  | takeSnapshot document replace => cases h
  | clear => cases h
  | _ => trivial

/-- All sightings of a source text are learned. -/
theorem learns_analyze (hteachable : m.store.Teachable) (setup : Setup Value) (now : Timestamp)
    (t : SourceText) :
    ∃ s found, ((setup.analyze now t).outcome m).2 = { m with store := s } ∧
      Store.LearnedAll setup.idOf now (setup.sightingsIn t) m.store found s := by
  unfold Setup.analyze Setup.sightingsIn
  cases hfind : setup.find t.code (Setup.languageOf t) t.file with
  | error fault =>
    rw [Change.outcome_bind_ofExcept_error]
    exact ⟨m.store, [], rfl, .nil⟩
  | ok findings =>
    have hlearn := Change.gives_mapM (f := fun c : Candidate => setup.learn now c.sighting)
      fun c hc => setup.gives_learn now (Setup.countable_of_find hfind c hc)
    obtain ⟨found, left, hrun, _⟩ := hlearn m hteachable
    obtain ⟨s, rfl, hall⟩ := Setup.learnedAll_of_mapM hrun
    refine ⟨s, found, ?_, hall⟩
    rw [Change.outcome_bind_ofExcept_ok, Change.outcome_bind, hrun]
    rfl

/-- All that modified content shows is learned after the reaction is logged. -/
theorem learns_respond {found : List Sighting × Option String} (hrules : setup.rules.Usable)
    (hteachable : m.store.Teachable) (now : Timestamp) (hget : m.store.get? id = some before)
    (hread : m.resighted setup.reparse id e = .ok found) (hmodified : e.reaction = .modified) :
    ∃ s ids, ((respond setup.idOf setup.rules now e id before found).outcome m).2.store = s ∧
      Store.LearnedAll setup.idOf now found.1
        ((takeIn setup.rules id e).outcome m).2.store ids s := by
  have htaken := outcome_takeIn_of_neither (e := e) (m := m) hrules hget
    (hteachable.measured.of_get? hget) (by simp [hmodified]) (by simp [hmodified])
  have hcounted : (countIgnored setup.rules e).outcome (withLogged setup.rules e m id before)
      = (.ok none, { withLogged setup.rules e m id before with streak := 0 }) :=
    outcome_countIgnored_of_not_ignored (by simp [hmodified])
  have hleft : (withLogged setup.rules e m id before).store.Teachable :=
    (teachable_takeIn hrules id e).of_outcome htaken hteachable
  obtain ⟨ids, left, hrun, _⟩ := gives_learnAll setup.idOf now (countable_of_resighted hread)
    { withLogged setup.rules e m id before with streak := 0 } hleft
  obtain ⟨s, known, rfl, hall⟩ := learnedAll_of_learnAll hrun
  refine ⟨s, known, ?_, by rw [htaken]; exact hall⟩
  rw [respond, Change.outcome_bind, htaken]
  dsimp only
  rw [Change.outcome_bind, hcounted]
  dsimp only
  rw [Change.outcome_bind, hrun]
  rfl

theorem course_feedback (hrules : setup.rules.Usable) (hready : m.store.Ready) (now : Timestamp)
    (e : Event) (name : Label × Label) :
    Store.Course m.store.smoothing now
      ((Deed.sightings setup m (.feedback e)).filter (·.name == name))
      (Deed.events setup m (.feedback e) name) (m.store.named? name)
      (((setup.feedback now e).outcome m).2.store.named? name) := by
  have hidle : Store.Course m.store.smoothing now [] [] (m.store.named? name)
      (m.store.named? name) := Store.course_marked (Store.marked_none _)
  rw [Setup.feedback, outcome_feedback, Deed.sightings]
  rcases htarget : m.target e.patternId with fault | ⟨id, before⟩
  · have hnothing : Deed.events setup m (.feedback e) name = [] := by
      rw [Deed.events, Deed.logs?, htarget]
    rw [hnothing]
    exact hidle
  have hget := (target_eq_ok.1 htarget).2
  have hmeasured := hready.measured.of_get? hget
  dsimp only
  cases hread : m.resighted setup.reparse id e with
  | error fault =>
    have hnothing : Deed.events setup m (.feedback e) name = [] := by
      rw [Deed.events, Deed.logs?, htarget]
      dsimp only
      rw [hread]
      rfl
    rw [hnothing]
    exact hidle
  | ok found =>
    have hevents : Deed.events setup m (.feedback e) name
        = if before.name == name then [e] else [] := by
      rw [Deed.events, logs?_eq_some.2 ⟨rfl, before, found, htarget, hread⟩]
      dsimp only
      rw [hget]
      rfl
    rw [hevents]
    have hmarked := marks_takeIn (e := e) hrules hready.coherent hget hmeasured name
    by_cases hmodified : e.reaction = .modified
    · obtain ⟨s, ids, hleft, hall⟩ :=
        learns_respond hrules hready.teachable now hget hread hmodified
      have hlinked : ((takeIn setup.rules id e).outcome m).2.store.Linked :=
        ofOutline_takeIn Store.linked_ofOutline setup.rules id e m hready.coherent.linked
      have hsmoothing : ((takeIn setup.rules id e).outcome m).2.store.smoothing
          = m.store.smoothing := by
        rw [outcome_takeIn hrules hget hmeasured]
        rfl
      have hseen := hall.seenAll hlinked name
      rw [hsmoothing] at hseen
      dsimp only
      rw [hleft]
      exact ⟨_, hmarked, hseen⟩
    · -- Nothing is to be seen, and counting marks patterns at most.
      rw [resighted_of_not_modified m id hmodified] at hread
      cases hread
      refine Store.course_marked ?_
      let P := fun n : Memory Value => Option.Rel
        (Pattern.Marked (if before.name == name then [e] else [])) (m.store.named? name)
        (n.store.named? name)
      refine Change.left_bind (P := P) hmarked fun _ => ?_
      refine Change.keeps_bind (keeps_countIgnored (fun _ _ h => h)
        (marks_decay setup.rules e.timestamp)) fun _ => ?_
      exact Change.keeps_bind (Change.keeps_pure _) fun _ =>
        Change.keeps_bind Change.keeps_get fun _ => Change.keeps_pure _

/-- What a deed makes of the pattern of each name. -/
theorem course_perform (intake : Intake Value) (hrules : setup.rules.Usable)
    (hready : m.store.Ready) (now : Timestamp) {deed : Deed} (hdeed : deed.Simple)
    (name : Label × Label) :
    Store.Course m.store.smoothing now ((deed.sightings setup m).filter (·.name == name))
      (deed.events setup m name) (m.store.named? name)
      (((perform intake setup now deed).outcome m).2.store.named? name) := by
  cases deed with
  | analyze t =>
    obtain ⟨s, found, hleft, hall⟩ := learns_analyze hready.teachable setup now t
    rw [perform, Change.outcome_drop, hleft]
    exact (hall.seenAll hready.coherent.linked name).course
  | feedback e =>
    rw [perform, Change.outcome_drop]
    exact course_feedback hrules hready now e name
  | decay time =>
    rw [perform, Change.outcome_drop]
    exact Store.course_marked (marks_decay setup.rules time m (Store.marked_none _))
  | analyzeBatch cancelAfter texts => cases hdeed
  | takeSnapshot document replace => cases hdeed
  | clear => cases hdeed

end Memory

end CodeHabits
