import CodeHabits.Proofs.Memory.Course

/-!
# `CodeHabits.Proofs.Memory.Gathering`: what deeds add to the patterns

A source text and a reaction add sightings and events to the pattern of each name, and a pass
of forgetting adds none (`gathers_perform`). Which ones these are does not depend on what was
done before, as long as the target of the reaction was known from the start: a pattern keeps
its id and its language, and no more than that is looked at (`adds_later`).

The confidence is moved by each of them. Where only source texts are analysed, it depends on
the number of sightings alone (`standing_analyze`).

Tallies are put together in the order in which values were seen, so their order does depend on
what came first. `Tidy` memories have tallies of which only the counts matter.
-/

set_option autoImplicit false

namespace CodeHabits

open Time (Timestamp)

variable {ν : Type}

/-! ### What was found has a file -/

theorem Setup.filed_sightingsIn {setup : Setup ν} {t : SourceText} :
    ∀ c ∈ setup.sightingsIn t, c.Filed := by
  unfold sightingsIn
  cases setup.find t.code (languageOf t) t.file with
  | error fault => simp
  | ok findings => exact List.forall_mem_map.2 fun c _ => ⟨c.sourceFile, rfl⟩

theorem Memory.filed_resighted {setup : Setup ν} {m : Memory ν} {id : Label} {e : Event}
    {found : List Sighting × Option String} (h : m.resighted setup.reparse id e = .ok found) :
    ∀ c ∈ found.1, c.Filed := by
  rcases resighted_eq_ok h with hnone | ⟨content, language, hread⟩
  · rw [hnone]
    simp
  · obtain ⟨candidates, hcandidates⟩ := Setup.reparse_eq_ok hread
    rw [hcandidates]
    exact List.forall_mem_map.2 fun c _ => ⟨c.sourceFile, rfl⟩

/-! ### One pattern -/

/-- Texts are spelled as they are. -/
theorem Tallies.Texts.respell {styles : Tallies} (h : styles.Texts) {manner : Manner Value}
    (hmanner : manner.Plain) : Pattern.respell manner.spell styles = styles := by
  refine (List.map_congr_left (g := id) fun habit hhabit => ?_).trans (List.map_id styles)
  refine Prod.ext rfl ((List.map_congr_left (g := id) fun entry hentry => ?_).trans
    (List.map_id habit.2))
  obtain ⟨text, htext⟩ := h habit hhabit entry hentry
  refine Prod.ext ?_ rfl
  show Label.text (manner.spell entry.1) = entry.1
  rw [htext, hmanner.spell]

namespace Store

variable [Magnitude ν] {m : Smoothing ν} {now : Timestamp} {cs : List Sighting} {es : List Event}
  {before? after? : Option (Pattern ν)}

/-- A pattern that events were logged in and that was seen has gathered all of them. Nothing
is logged in a pattern that is not there. -/
theorem Course.gathers (h : Course m now cs es before? after?) (hcs : ∀ c ∈ cs, c.Filed)
    (hnew : before? = none → es = []) : Gathers cs es before? after? := by
  obtain ⟨marked?, hmarked, hseen⟩ := h
  have hlogged : Gathers [] es before? marked? := by
    cases hmarked with
    | none =>
      rw [hnew rfl]
      exact .refl none
    | some hp =>
      refine Gathers.of_logged ?_ ?_ ?_ ?_
      · exact congrArg (·.frequency) hp
      · exact congrArg (·.sourceFiles) hp
      · exact congrArg (·.styles) hp
      · exact congrArg (·.feedback) hp
  have hall := hlogged.trans (hseen.gathers hcs)
  rw [List.nil_append, List.append_nil] at hall
  exact hall

end Store

namespace Memory

/-! ### One deed -/

section

variable {setup : Setup ν} {m n : Memory ν} {deed : Deed} {id : Label} {name : Label × Label}

theorem Deed.filed_sightings : ∀ c ∈ deed.sightings setup m, c.Filed := by
  cases deed with
  | analyze t => exact Setup.filed_sightingsIn
  | analyzeBatch cancelAfter texts =>
    intro c hc
    obtain ⟨t, _, hc⟩ := List.mem_flatMap.1 hc
    exact Setup.filed_sightingsIn c hc
  | feedback e =>
    rw [Deed.sightings]
    rcases m.target e.patternId with fault | ⟨id, before⟩
    · simp
    dsimp only
    cases hread : m.resighted setup.reparse id e with
    | error fault => simp
    | ok found => exact filed_resighted hread
  | decay time => simp [Deed.sightings]
  | takeSnapshot document replace => simp [Deed.sightings]
  | clear => simp [Deed.sightings]

/-- Nothing is logged in a pattern that is not there. -/
theorem Deed.events_eq_nil (h : m.store.Coherent) (hnew : m.store.named? name = none) :
    deed.events setup m name = [] := by
  unfold Deed.events
  rcases deed.logs? setup m with _ | ⟨id, e⟩
  · rfl
  refine if_neg fun hany => ?_
  obtain ⟨p, hget, hname⟩ := (Option.any_eq_true _ _).1 hany
  rw [← m.store.named?_congr hname, h.named?_of_get? hget] at hnew
  cases hnew

/-- A reaction has a target that is known. -/
def Deed.Known (m : Memory ν) : Deed → Prop
  | .feedback e => ∃ target, m.target e.patternId = .ok target
  | _ => True

/-- The patterns that were known before still are, under the same names. -/
def Later (m n : Memory ν) : Prop :=
  m.store.Carries (fun _ p q => q.name = p.name) n.store

theorem Later.target (h : m.Later n) {e : Event} {p : Pattern ν}
    (htarget : m.target e.patternId = .ok (id, p)) :
    ∃ q, n.target e.patternId = .ok (id, q) ∧ q.name = p.name := by
  obtain ⟨hlabel, hget⟩ := target_eq_ok.1 htarget
  obtain ⟨q, hq, hname⟩ := h id p hget
  exact ⟨q, target_eq_ok.2 ⟨hlabel, hq⟩, hname⟩

theorem Deed.Known.later (h : deed.Known m) (hlater : m.Later n) : deed.Known n := by
  cases deed with
  | feedback e =>
    obtain ⟨⟨id, p⟩, htarget⟩ := h
    obtain ⟨q, hq, _⟩ := hlater.target htarget
    exact ⟨_, hq⟩
  | _ => trivial

/-- Of the pattern that was modified only the language matters to what its content shows. -/
theorem Later.resighted (h : m.Later n) (setup : Setup ν) {p : Pattern ν}
    (hget : m.store.get? id = some p) (e : Event) : n.resighted setup.reparse id e = m.resighted setup.reparse id e := by
  obtain ⟨q, hq, hname⟩ := h id p hget
  have hlanguage : q.language = p.language := congrArg Prod.fst hname
  unfold Memory.resighted
  rw [hget, hq]
  simp only [Option.elim, hlanguage]

/-- A deed whose target was known does the same later as it does now: it shows the same
sightings, and logs the same in the patterns of the same names. -/
theorem adds_later (h : deed.Known m) (hlater : m.Later n) (setup : Setup ν)
    (name : Label × Label) :
    deed.sightings setup n = deed.sightings setup m ∧
      deed.events setup n name = deed.events setup m name := by
  cases deed with
  | feedback e =>
    obtain ⟨⟨id, p⟩, htarget⟩ := h
    obtain ⟨q, hq, hname⟩ := hlater.target htarget
    have hget := (target_eq_ok.1 htarget).2
    have hread := hlater.resighted setup hget e
    constructor
    · rw [Deed.sightings, Deed.sightings, htarget, hq]
      dsimp only
      rw [hread]
    · rw [Deed.events, Deed.events, Deed.logs?, Deed.logs?, htarget, hq]
      dsimp only
      rw [hread]
      cases (m.resighted setup.reparse id e).isOk with
      | false => rfl
      | true =>
        rw [if_pos rfl]
        dsimp only
        rw [hget, (target_eq_ok.1 hq).2, Option.any_some, Option.any_some, hname]
  | _ => exact ⟨rfl, rfl⟩

end

variable (intake : Intake Value) (setup : Setup Value) {m : Memory Value} {deed : Deed}

/-- A deed adds to the pattern of each name what it shows of it and what it logs in it. -/
theorem gathers_perform (hrules : setup.rules.Usable) (hready : m.store.Ready) (now : Timestamp)
    (hdeed : deed.Simple) (name : Label × Label) :
    Store.Gathers ((deed.sightings setup m).filter (·.name == name)) (deed.events setup m name)
      (m.store.named? name)
      (((perform intake setup now deed).outcome m).2.store.named? name) := by
  refine (course_perform intake hrules hready now hdeed name).gathers (fun c hc => ?_) fun hnew => ?_
  · exact Deed.filed_sightings c (List.mem_of_mem_filter hc)
  · exact Deed.events_eq_nil hready.coherent hnew

/-- What a source text makes of the standing of a pattern depends on how often it is seen. -/
theorem standing_analyze (hteachable : m.store.Teachable) (now : Timestamp) (t : SourceText)
    (name : Label × Label) :
    Store.standingOf (((perform intake setup now (.analyze t)).outcome m).2.store.named? name)
      = (Store.restand m.store.smoothing)^[((setup.sightingsIn t).filter (·.name == name)).length]
        (Store.standingOf (m.store.named? name)) := by
  obtain ⟨s, found, hleft, hall⟩ := learns_analyze hteachable setup now t
  rw [perform, Change.outcome_drop, hleft]
  exact (hall.seenAll hteachable.linked name).standing

/-! ### Tallies of which only the counts matter -/

/-- The tallies of all patterns are tidy. -/
def Tidy (m : Memory Value) : Prop :=
  m.store.Every fun p => p.styles.Tidy

theorem tidy_learn (idOf : IdScheme) (now : Timestamp) {c : Sighting} (hc : c.Countable) :
    Change.Keeps Tidy (learn idOf now c) := by
  have hstyle : Change.Keeps (fun p : Pattern Value => p.styles.Tidy) (Store.countStyle c) :=
    Change.keeps_within (fun _ h => h) (fun _ _ _ h => h) (Tallies.tidy_tally hc)
  refine keeps_inStore (Store.every_upsert (fun m => ?_) fun m id p hfirst => ?_)
  · exact Store.keeps_seeAgain_each (fun _ _ h _ => h) (fun _ _ h => h) hstyle (fun _ h => h)
      fun _ h => h
  · obtain ⟨confidence, _, hp⟩ := Except.bind_eq_ok.1 hfirst
    cases hp
    exact hstyle _ Tallies.tidy_nil

/-- Nothing but sightings and snapshots touches the tallies. -/
theorem tidy_perform (now : Timestamp)
    (hown : ∀ document replace, deed ≠ .takeSnapshot document replace) :
    Change.Keeps Tidy (perform intake setup now deed) := by
  refine keeps_found (fun _ _ h => h) (fun c hc _ => tidy_learn setup.idOf now hc)
    (fun e _ id => ?_) (fun time => ?_) (fun m _ => Store.every_empty m.store.smoothing) hown
  · exact every_takeIn (Q := fun p => p.styles.Tidy) (fun _ h => h) (fun _ _ h => h)
      (fun _ h => h) fun _ h => h
  · exact every_decay (Q := fun p => p.styles.Tidy) fun _ _ _ hp hq =>
      Learning.keeps_forget (P := fun p => p.styles.Tidy) (fun _ _ h => h) (fun _ _ h => h) hp hq

end Memory

end CodeHabits
