import CodeHabits.Proofs.Memory.Exact
import CodeHabits.Proofs.Memory.Setback

/-!
# `CodeHabits.Proofs.Memory.Done`: what deeds do in exact numbers

A source text leaves what its sightings leave one after the other, and so does a batch with
the texts that come before its end. A reaction is noted, and it is then followed by one of a
few things, which `Answered` lists.

`Done` puts these together: it says for each deed of what form the memory is that it
leaves, and `done_perform` that this is so. Whatever is to be shown of deeds is shown by
cases on it, and `runFrom_own` carries it over to runs.
-/

set_option autoImplicit false

namespace CodeHabits

open Time (Timestamp)

/-! ### What a deed shows -/

namespace Setup

variable {ν : Type} (setup : Setup ν)

/-- The sightings that a source text gives; none if nothing is found in it. -/
def sightingsIn (t : SourceText) : List Sighting :=
  match setup.find t.code (languageOf t) t.file with
  | .ok findings => findings.candidates.map Candidate.sighting
  | .error _ => []

/-- Whether a batch goes on after a text. -/
def goesOn (t : SourceText) : Bool :=
  match setup.find t.code (languageOf t) t.file with
  | .ok _ => true
  | .error fault => fault.isDomain

/-- The texts of a batch that come before its end. The text that ends it gives no
sightings, so it is left out. -/
def analysed (cancelAfter : Option Nat) (texts : List SourceText) : List SourceText :=
  (cancelAfter.elim texts texts.take).takeWhile setup.goesOn

theorem countable_of_sightingsIn {t : SourceText} : ∀ c ∈ setup.sightingsIn t, c.Countable := by
  unfold sightingsIn
  cases hfind : setup.find t.code (languageOf t) t.file with
  | error fault => simp
  | ok findings => exact List.forall_mem_map.2 (countable_of_find hfind)

end Setup

namespace Memory

/-- The sightings that a deed learns from. -/
def Deed.sightings {ν : Type} (setup : Setup ν) (m : Memory ν) : Deed → List Sighting
  | .analyze t => setup.sightingsIn t
  | .analyzeBatch cancelAfter texts => (setup.analysed cancelAfter texts).flatMap setup.sightingsIn
  | .feedback e =>
    match m.target e.patternId with
    | .error _ => []
    | .ok (id, _) =>
      match m.resighted setup.reparse id e with
      | .error _ => []
      | .ok found => found.1
  | _ => []

/-- A deed that learns from what is seen here, and not from a snapshot. -/
def Deed.IsOwn : Deed → Prop
  | .takeSnapshot _ _ => False
  | _ => True

/-- A deed runs a pass of forgetting: it asks for one, or it ignores a suggestion for the
last time that is borne. The recency window has to be one that can be reckoned with. -/
def Deed.Passes (setup : Setup Rat) (m : Memory Rat) : Deed → Prop
  | .decay _ => ∃ window, setup.rules.window = .ok window
  | .feedback e =>
    (∃ id p, m.target e.patternId = .ok (id, p)) ∧ e.reaction = .ignored ∧
      setup.rules.ignoreThreshold ≤ (m.streak + 1 : Nat) ∧
      ∃ window, setup.rules.window = .ok window
  | _ => False

variable {smoothing : Smoothing Rat} {setup : Setup Rat} {rules : Learning Rat} {m : Memory Rat}
  {now : Timestamp} {e : Event} {id : Label} {p : Pattern Rat}

/-! ### Reactions -/

/-- How a reaction leaves a memory. -/
inductive Answered (setup : Setup Rat) (now : Timestamp) (e : Event) (m : Memory Rat) :
    Memory Rat → Prop
  /-- There is no such pattern, or the modified content cannot be read. -/
  | refused (hidle : ¬ Deed.Passes setup m (.feedback e))
      (hnothing : Deed.sightings setup m (.feedback e) = []) : Answered setup now e m m
  /-- An accepted or rejected pattern is noted, and that is all. -/
  | judged {id : Label} {p : Pattern Rat} (htarget : m.target e.patternId = .ok (id, p))
      (hjudged : e.reaction = .accepted ∨ e.reaction = .rejected) :
      Answered setup now e m { noted setup.rules e m id p with streak := 0 }
  /-- A modified pattern is noted, and then what the content shows is learned. -/
  | modified {id : Label} {p : Pattern Rat} (htarget : m.target e.patternId = .ok (id, p))
      (hmodified : e.reaction = .modified) :
      Answered setup now e m
        (shown setup.idOf now (Deed.sightings setup m (.feedback e))
          { noted setup.rules e m id p with streak := 0 })
  /-- An ignored pattern is noted, and the streak grows. -/
  | ignored {id : Label} {p : Pattern Rat} (htarget : m.target e.patternId = .ok (id, p))
      (hignored : e.reaction = .ignored) (hidle : ¬ Deed.Passes setup m (.feedback e)) :
      Answered setup now e m { noted setup.rules e m id p with streak := m.streak + 1 }
  /-- If the streak is long enough, a pass of forgetting ends it. -/
  | passed {id : Label} {p : Pattern Rat} {window : Int}
      (htarget : m.target e.patternId = .ok (id, p)) (hignored : e.reaction = .ignored)
      (hunborne : setup.rules.ignoreThreshold ≤ (m.streak + 1 : Nat))
      (hwindow : setup.rules.window = .ok window) :
      Answered setup now e m
        { forgotten setup.rules window e.timestamp (noted setup.rules e m id p) with streak := 0 }

/-- An accepted or rejected pattern that is known is noted without a failure. -/
theorem exists_feedback_of_judged (h : Exact smoothing m) (hrules : setup.rules.Bounded)
    (htarget : m.target e.patternId = .ok (id, p))
    (hjudged : e.reaction = .accepted ∨ e.reaction = .rejected) :
    ∃ effect, (setup.feedback now e).outcome m
      = (.ok effect, { noted setup.rules e m id p with streak := 0 }) := by
  have hget := (target_eq_ok.1 htarget).2
  have hmodified : e.reaction ≠ .modified := by
    rcases hjudged with hjudged | hjudged <;> simp [hjudged]
  have hignored : e.reaction ≠ .ignored := by
    rcases hjudged with hjudged | hjudged <;> simp [hjudged]
  let left : Memory Rat := { noted setup.rules e m id p with streak := 0 }
  refine ⟨effectOf e left id p none none [], ?_⟩
  rw [Setup.feedback, outcome_feedback, htarget]
  dsimp only
  rw [resighted_of_not_modified m id hmodified]
  refine respond_eq_ok.2 ⟨noted setup.rules e m id p, left, none, [],
    outcome_takeIn_rat hrules hget (h.patterns.of_get? hget).unit, ?_, rfl, rfl⟩
  exact outcome_countIgnored_of_not_ignored hignored

/-- After a reaction is noted and counted, the sightings are learned. -/
theorem left_respond (hrules : setup.rules.Bounded) (hget : m.store.get? id = some p)
    (hp : p.InUnit) {found : List Sighting × Option String} {n : Memory Rat}
    {decay? : Option DecayReport}
    (hcounted : (countIgnored setup.rules e).outcome (noted setup.rules e m id p)
      = (.ok decay?, n)) :
    ((respond setup.idOf setup.rules now e id p found).outcome m).2
      = ((learnAll setup.idOf now found.1).outcome n).2 := by
  rw [respond, Change.outcome_bind, outcome_takeIn_rat hrules hget hp]
  dsimp only
  rw [Change.outcome_bind, hcounted]
  dsimp only
  rw [Change.outcome_bind]
  rcases (learnAll setup.idOf now found.1).outcome n with ⟨_ | _, _⟩ <;> rfl

/-- A reaction that counting fails at leaves what counting leaves. -/
theorem left_respond_of_error (hrules : setup.rules.Bounded) (hget : m.store.get? id = some p)
    (hp : p.InUnit) {found : List Sighting × Option String} {n : Memory Rat} {fault : Fault}
    (hcounted : (countIgnored setup.rules e).outcome (noted setup.rules e m id p)
      = (.error fault, n)) :
    ((respond setup.idOf setup.rules now e id p found).outcome m).2 = n := by
  rw [respond, Change.outcome_bind, outcome_takeIn_rat hrules hget hp]
  dsimp only
  rw [Change.outcome_bind, hcounted]

/-- Counting a suggestion that is ignored, while it is borne. -/
theorem outcome_countIgnored_borne (hignored : e.reaction = .ignored)
    (hborne : ¬ rules.ignoreThreshold ≤ (m.streak + 1 : Nat)) :
    (countIgnored rules e).outcome m = (.ok none, { m with streak := m.streak + 1 }) := by
  have hfew : Magnitude.le rules.ignoreThreshold (Magnitude.ofInt (m.streak + 1 : Nat))
      = .ok false := congrArg Except.ok (decide_eq_false (by exact_mod_cast hborne))
  rw [outcome_countIgnored_of_ignored hignored hfew, if_neg Bool.false_ne_true]

/-- And when it is not: what the pass of forgetting comes to. -/
theorem outcome_countIgnored_unborne (hignored : e.reaction = .ignored)
    (hunborne : rules.ignoreThreshold ≤ (m.streak + 1 : Nat)) :
    (countIgnored rules e).outcome m
      = match (decay rules e.timestamp).outcome { m with streak := m.streak + 1 } with
        | (.error fault, n) => (.error fault, n)
        | (.ok report, n) => (.ok (some report), { n with streak := 0 }) := by
  have henough : Magnitude.le rules.ignoreThreshold (Magnitude.ofInt (m.streak + 1 : Nat))
      = .ok true := congrArg Except.ok (decide_eq_true (by exact_mod_cast hunborne))
  rw [outcome_countIgnored_of_ignored hignored henough, if_pos rfl]
  rcases (decay rules e.timestamp).outcome { m with streak := m.streak + 1 } with ⟨_ | _, _⟩
  · rfl
  · rfl

/-- An ignored pattern is noted and counted, and a pass is run if the streak calls for one. -/
theorem answered_of_ignored (h : Exact smoothing m) (hrules : setup.rules.Bounded)
    (now : Timestamp) (htarget : m.target e.patternId = .ok (id, p))
    (hignored : e.reaction = .ignored) :
    Answered setup now e m
      ((respond setup.idOf setup.rules now e id p ([], none)).outcome m).2 := by
  have hget := (target_eq_ok.1 htarget).2
  have hp := (h.patterns.of_get? hget).unit
  have hnoted : Exact smoothing (noted setup.rules e m id p) := h.noted hrules hget
  -- The streak is counted in the memory that has the reaction noted already.
  by_cases hborne : setup.rules.ignoreThreshold ≤ (m.streak + 1 : Nat)
  · have hcounted :=
      outcome_countIgnored_unborne (m := noted setup.rules e m id p) hignored hborne
    cases hwindow : setup.rules.window with
    | error fault =>
      -- The pass fails at once, after the suggestion was counted.
      rw [outcome_decay_of_error hwindow] at hcounted
      rw [left_respond_of_error hrules hget hp hcounted]
      refine .ignored htarget hignored fun hpasses => ?_
      obtain ⟨_, _, _, window, hopen⟩ := hpasses
      rw [hwindow] at hopen
      cases hopen
    | ok window =>
      obtain ⟨report, hpass⟩ := exists_decay (hnoted.with_streak (m.streak + 1)) hwindow
      rw [show (noted setup.rules e m id p).streak = m.streak from rfl, hpass] at hcounted
      rw [left_respond hrules hget hp hcounted]
      exact .passed htarget hignored hborne hwindow
  · rw [left_respond hrules hget hp (outcome_countIgnored_borne hignored hborne)]
    refine .ignored htarget hignored fun hpasses => hborne ?_
    obtain ⟨_, _, hunborne, _⟩ := hpasses
    exact hunborne

/-- Every reaction leaves the memory in one of these ways. -/
theorem answered_feedback (h : Exact smoothing m) (hrules : setup.rules.Bounded)
    (now : Timestamp) (e : Event) :
    Answered setup now e m ((setup.feedback now e).outcome m).2 := by
  rcases htarget : m.target e.patternId with fault | ⟨id, p⟩
  · -- Nothing is noted of a pattern that is not known, and no pass is run for it.
    rw [Setup.feedback, outcome_feedback, htarget]
    refine .refused (fun hpasses => ?_) (by simp [Deed.sightings, htarget])
    obtain ⟨⟨_, _, hknown⟩, _⟩ := hpasses
    rw [htarget] at hknown
    cases hknown
  cases hreaction : e.reaction with
  | accepted | rejected =>
    have hjudged : e.reaction = .accepted ∨ e.reaction = .rejected := by simp [hreaction]
    obtain ⟨effect, hrun⟩ : ∃ effect, (setup.feedback now e).outcome m
        = (.ok effect, { noted setup.rules e m id p with streak := 0 }) :=
      exists_feedback_of_judged h hrules htarget hjudged
    rw [hrun]
    exact .judged htarget hjudged
  | modified =>
    rw [Setup.feedback, outcome_feedback, htarget]
    dsimp only
    cases hfound : m.resighted setup.reparse id e with
    | error fault =>
      -- The content is read before anything is noted.
      refine .refused (fun hpasses => ?_) (by simp [Deed.sightings, htarget, hfound])
      obtain ⟨_, hignored, _⟩ := hpasses
      rw [hreaction] at hignored
      cases hignored
    | ok found =>
      have hget := (target_eq_ok.1 htarget).2
      have hnoted : Exact smoothing (noted setup.rules e m id p) := h.noted hrules hget
      dsimp only
      rw [left_respond hrules hget (h.patterns.of_get? hget).unit
          (outcome_countIgnored_of_not_ignored (by simp [hreaction])),
        left_learnAll (hnoted.with_streak 0) (countable_of_resighted hfound)]
      have hseen : Deed.sightings setup m (.feedback e) = found.1 := by
        simp [Deed.sightings, htarget, hfound]
      rw [← hseen]
      exact .modified htarget hreaction
  | ignored =>
    rw [Setup.feedback, outcome_feedback, htarget]
    dsimp only
    rw [resighted_of_not_modified m id (by simp [hreaction])]
    exact answered_of_ignored h hrules now htarget hreaction

/-! ### Source texts -/

/-- Reading the result of a sighting changes nothing. -/
theorem left_learn (setup : Setup Rat) (now : Timestamp) (c : Sighting) (m : Memory Rat) :
    ((setup.learn now c).outcome m).2 = ((learn setup.idOf now c).outcome m).2 := by
  rw [Setup.learn, Change.outcome_bind_get, Change.outcome_bind]
  rcases (Memory.learn setup.idOf now c).outcome m with ⟨_ | _, _⟩ <;> rfl

/-- A source text is refused if nothing is found in it, and else all its sightings are
learned. -/
theorem outcome_analyze_rat (h : Exact smoothing m) (t : SourceText) :
    (∃ fault, setup.find t.code (Setup.languageOf t) t.file = .error fault ∧
      (setup.analyze now t).outcome m = (.error fault, m)) ∨
    ∃ findings analysis, setup.find t.code (Setup.languageOf t) t.file = .ok findings ∧
      (setup.analyze now t).outcome m
        = (.ok analysis, shown setup.idOf now (setup.sightingsIn t) m) := by
  unfold Setup.analyze Setup.sightingsIn
  cases hfind : setup.find t.code (Setup.languageOf t) t.file with
  | error fault =>
    rw [Change.outcome_bind_ofExcept_error]
    exact .inl ⟨fault, rfl, rfl⟩
  | ok findings =>
    -- No sighting of what was found can fail in an exact memory.
    have hlearn : ∀ c ∈ findings.candidates,
        Change.Gives (Exact smoothing) (setup.learn now c.sighting) fun _ => Exact smoothing := by
      intro c hc n hn
      obtain ⟨id, left, hrun, hleft⟩ :=
        gives_learn_rat setup.idOf now (Setup.countable_of_find hfind c hc) n hn
      let isNew := (n.store.lookup? c.sighting.language c.sighting.signature).isNone
      refine ⟨(id, isNew), left, ?_, hleft⟩
      rw [Setup.learn, Change.outcome_bind_get, Change.outcome_bind, hrun]
      rfl
    obtain ⟨learned, hrun⟩ := Change.exists_mapM_outcome hlearn h
    -- Learning tells also whether a pattern was new, and this changes nothing in the memory.
    have hshown : shown setup.idOf now (findings.candidates.map Candidate.sighting) m
        = findings.candidates.foldl (fun n c => ((setup.learn now c.sighting).outcome n).2) m := by
      rw [shown, List.foldl_map]
      simp only [left_learn]
    refine .inr ⟨findings, ⟨t.file, findings, (learned.map (·.1)).foldl Setup.includingId [],
      learned.countP (·.2)⟩, rfl, ?_⟩
    rw [Change.outcome_bind_ofExcept_ok, Change.outcome_bind, hrun, hshown]
    rfl

theorem left_analyze (h : Exact smoothing m) (t : SourceText) :
    ((setup.analyze now t).outcome m).2 = shown setup.idOf now (setup.sightingsIn t) m := by
  rcases outcome_analyze_rat h t with ⟨fault, hfind, hrun⟩ | ⟨findings, analysis, _, hrun⟩
  · rw [hrun, Setup.sightingsIn, hfind]
    rfl
  · rw [hrun]

theorem analysed_cons (setup : Setup Rat) {cancelAfter : Option Nat} (hgoing : cancelAfter ≠ some 0)
    (t : SourceText) (rest : List SourceText) :
    setup.analysed cancelAfter (t :: rest)
      = if setup.goesOn t then t :: setup.analysed (cancelAfter.map (· - 1)) rest else [] := by
  cases cancelAfter with
  | none => exact List.takeWhile_cons
  | some n =>
    cases n with
    | zero => exact absurd rfl hgoing
    | succ n => exact List.takeWhile_cons

/-- A batch learns from the texts that come before its end. -/
theorem left_analyzeBatch (h : Exact smoothing m) (b : Batch) (cancelAfter : Option Nat)
    (texts : List SourceText) :
    ((setup.analyzeBatch now b cancelAfter texts).outcome m).2
      = shown setup.idOf now ((setup.analysed cancelAfter texts).flatMap setup.sightingsIn) m := by
  -- With each text the count of texts that are left goes down by one, and the memory and
  -- the batch go on from what the text left.
  induction texts generalizing b cancelAfter m with
  | nil =>
    have hnone : setup.analysed cancelAfter [] = [] := by
      cases cancelAfter <;> simp [Setup.analysed]
    rw [hnone, Setup.analyzeBatch]
    rfl
  | cons t rest ih =>
    by_cases hstop : cancelAfter = some 0
    · rw [hstop, Setup.analyzeBatch]
      rfl
    · -- The batch is not cancelled yet, so it takes this text up.
      rw [Setup.analyzeBatch.eq_3 setup now b cancelAfter t rest hstop, Change.outcome_bind_get,
        analysed_cons setup hstop]
      rcases outcome_analyze_rat h t with
        ⟨fault, hfind, hrun⟩ | ⟨findings, analysis, hfind, hrun⟩
      · -- Nothing is found, and the batch goes on if the fault is of the domain.
        have hgoes : setup.goesOn t = fault.isDomain := by rw [Setup.goesOn, hfind]
        have hnone : setup.sightingsIn t = [] := by rw [Setup.sightingsIn, hfind]
        rw [hrun, hgoes]
        dsimp only
        rw [Change.outcome_bind_set]
        cases fault.isDomain with
        | false => rfl
        | true =>
          rw [if_pos rfl, if_pos rfl, List.flatMap_cons, hnone, List.nil_append]
          exact ih h _ _
      · have hgoes : setup.goesOn t = true := by rw [Setup.goesOn, hfind]
        rw [hrun, if_pos hgoes, List.flatMap_cons, shown_append]
        dsimp only
        rw [Change.outcome_bind_set]
        exact ih (h.shown setup.countable_of_sightingsIn) _ _

/-! ### Deeds -/

/-- What a deed does to a memory. -/
inductive Done (setup : Setup Rat) (now : Timestamp) (m : Memory Rat) : Deed → Memory Rat → Prop
  | analyze (t : SourceText) :
      Done setup now m (.analyze t)
        (shown setup.idOf now (Deed.sightings setup m (.analyze t)) m)
  | analyzeBatch (cancelAfter : Option Nat) (texts : List SourceText) :
      Done setup now m (.analyzeBatch cancelAfter texts)
        (shown setup.idOf now (Deed.sightings setup m (.analyzeBatch cancelAfter texts)) m)
  | feedback {e : Event} {n : Memory Rat} (h : Answered setup now e m n) :
      Done setup now m (.feedback e) n
  | decay (time : Timestamp) {window : Int} (hwindow : setup.rules.window = .ok window) :
      Done setup now m (.decay time) (forgotten setup.rules window time m)
  /-- The recency window cannot be reckoned with. -/
  | idle (time : Timestamp) (hidle : ¬ Deed.Passes setup m (.decay time)) :
      Done setup now m (.decay time) m
  | clear : Done setup now m .clear m.clear

variable {intake : Intake Rat} {deed : Deed}

/-- Leaving out the result of a change leaves the memory that it leaves. -/
theorem left_drop {α : Type} (x : Change (Memory Rat) α) (m : Memory Rat) :
    ((do let _ ← x : Change (Memory Rat) Unit).outcome m).2 = (x.outcome m).2 := by
  show ((x >>= fun _ => pure () : Change (Memory Rat) Unit).outcome m).2 = _
  rw [Change.outcome_bind]
  rcases x.outcome m with ⟨_ | _, _⟩ <;> rfl

theorem done_perform (intake : Intake Rat) (h : Exact smoothing m) (hrules : setup.rules.Bounded)
    (now : Timestamp) (hown : deed.IsOwn) :
    Done setup now m deed ((perform intake setup now deed).outcome m).2 := by
  cases deed with
  | analyze t =>
    rw [perform, left_drop, left_analyze h]
    exact .analyze t
  | analyzeBatch cancelAfter texts =>
    rw [perform, left_drop, left_analyzeBatch h]
    exact .analyzeBatch cancelAfter texts
  | feedback e =>
    rw [perform, left_drop]
    exact .feedback (answered_feedback h hrules now e)
  | decay time =>
    rw [perform, left_drop]
    cases hwindow : setup.rules.window with
    | error fault =>
      rw [outcome_decay_of_error hwindow]
      refine .idle time fun ⟨window, hopen⟩ => ?_
      rw [hwindow] at hopen
      cases hopen
    | ok window =>
      obtain ⟨report, hrun⟩ := exists_decay h hwindow
      rw [hrun]
      exact .decay time hwindow
  | takeSnapshot document replace => exact hown.elim
  | clear => exact .clear

theorem countable_of_sightings {deed : Deed} :
    ∀ c ∈ Deed.sightings setup m deed, c.Countable := by
  cases deed with
  | analyze t => exact setup.countable_of_sightingsIn
  | analyzeBatch cancelAfter texts =>
    intro c hc
    obtain ⟨t, _, ht⟩ := List.mem_flatMap.1 hc
    exact setup.countable_of_sightingsIn c ht
  | feedback e =>
    rcases htarget : m.target e.patternId with fault | ⟨id, p⟩
    · simp [Deed.sightings, htarget]
    · cases hfound : m.resighted setup.reparse id e with
      | error fault => simp [Deed.sightings, htarget, hfound]
      | ok found =>
        simp only [Deed.sightings, htarget, hfound]
        exact countable_of_resighted hfound
  | _ => simp [Deed.sightings]

/-- Every deed of one's own keeps a memory exact. -/
theorem Exact.done (h : Exact smoothing m) (hrules : setup.rules.Bounded) {n : Memory Rat}
    (hdone : Done setup now m deed n) : Exact smoothing n := by
  cases hdone with
  | analyze t => exact h.shown countable_of_sightings
  | analyzeBatch cancelAfter texts => exact h.shown countable_of_sightings
  | decay time _ => exact h.forgotten hrules _ time
  | idle time _ => exact h
  | clear =>
    rw [← h.smoothing]
    exact exact_empty m.store.smoothing
  | feedback hanswered =>
    cases hanswered with
    | refused _ _ => exact h
    | judged htarget _ => exact (h.noted hrules (target_eq_ok.1 htarget).2).with_streak _
    | modified htarget _ =>
      exact ((h.noted hrules (target_eq_ok.1 htarget).2).with_streak _).shown countable_of_sightings
    | ignored htarget _ _ => exact (h.noted hrules (target_eq_ok.1 htarget).2).with_streak _
    | passed htarget _ _ _ =>
      exact ((h.noted hrules (target_eq_ok.1 htarget).2).forgotten hrules _ _).with_streak _

/-- What holds at first and what each deed of one's own keeps in an exact memory holds
after any run of them. -/
theorem runFrom_own {P : Memory Rat → Prop} (hrules : setup.rules.Bounded)
    (hdone : ∀ now deed m n, Exact smoothing m → P m → Done setup now m deed n → P n)
    {deeds : List (Timestamp × Deed)} (hown : ∀ deed ∈ deeds, deed.2.IsOwn)
    (h : Exact smoothing m) (hm : P m) :
    Exact smoothing (runFrom intake setup m deeds) ∧ P (runFrom intake setup m deeds) := by
  induction deeds generalizing m with
  | nil => exact ⟨h, hm⟩
  | cons deed rest ih =>
    obtain ⟨hfirst, hrest⟩ := List.forall_mem_cons.1 hown
    have hstep := done_perform intake h hrules deed.1 hfirst
    exact ih hrest (h.done hrules hstep) (hdone deed.1 deed.2 m _ h hm hstep)

/-! ### A small setup -/

/-- The default rules for Go files, with one id for all patterns. -/
def defaultsForGo : Setup Rat :=
  ⟨.usual ["go"] (.int 100) (.int 1), ⟨fun _ _ => default, fun _ => .statements []⟩,
    Config.default.rules.exactly, fun _ _ => "p"⟩

/-- A line of a Go file is analysed. -/
def importSeen : Timestamp × Deed :=
  (⟨0, 0⟩, .analyze ⟨"import a\n", some "go", "a.go"⟩)

/-- A reaction to the pattern with that id. -/
def reactionToP (reaction : Reaction) : Timestamp × Deed :=
  (⟨0, 0⟩, .feedback ⟨.text "p", reaction, ⟨0, 0⟩, .null, .unknown, .null⟩)

end Memory

end CodeHabits
