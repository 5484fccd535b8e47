import CodeHabits.Proofs.FrontEnd
import CodeHabits.Proofs.Memory.Restoring
import CodeHabits.Proofs.Session.Run
import CodeHabits.Proofs.Value.Order

/-!
# `CodeHabits.Proofs.Memory.Deed`: runs for every kind of number

The rules of learning are stated for every kind of number, and so are the runs here.
`Deed` lists what can be done to a memory, `perform` does one thing, and `runFrom`
several of them, each on the memory that the one before left, failed or not.

Snapshots hold values, so a run also needs an `Intake`: how a number is read, and how
sightings move confidences in a store that is only read to be merged. With the intake
that programs use, a deed does to a memory what an action of a session does to the
memory of the session (`memory_act`).

What holds of a store however it came about holds after every run (`structural_runFrom`),
whatever the intake is.
-/

set_option autoImplicit false

namespace CodeHabits

open Time (Timestamp)

namespace Memory

/-- What snapshots are read with. -/
structure Intake (ν : Type) where
  number : Value → Except Fault ν
  smoothing : Smoothing ν

/-- What programs read snapshots with. -/
def Intake.usual : Intake Value :=
  ⟨fun value => value.toReal.map .real, .default⟩

section

variable {ν : Type} [Magnitude ν]

/-- The memory that a snapshot describes, in place of this one. -/
def rebuilt (intake : Intake ν) (m : Memory ν) (members : Table String Value) :
    Except Fault (Memory ν) :=
  m.restore (Draft.read intake.number) (Preferences.read intake.number) (Snapshot.records members)
    (Snapshot.preferences members)

/-- Takes a snapshot in, in place of what was learned or merged into it. -/
def takeIntake (intake : Intake ν) (idOf : IdScheme) (document : Value) (replace : Bool) :
    Change (Memory ν) Nat := do
  let members ← Change.ofExcept (Snapshot.migrate document)
  if replace then
    set (← Change.ofExcept ((← get).rebuilt intake members))
    return (← get).store.size
  else
    inStore (Store.merge idOf (Draft.read intake.number) intake.smoothing
      (Snapshot.records members))

/-- What can be done to a memory. -/
inductive Deed where
  | analyze (text : SourceText)
  | analyzeBatch (cancelAfter : Option Nat) (texts : List SourceText)
  | feedback (event : Event)
  | decay (time : Timestamp)
  | takeSnapshot (document : Value) (replace : Bool)
  | clear

/-- Does one thing at a time. -/
def perform (intake : Intake ν) (setup : Setup ν) (now : Timestamp) : Deed → Change (Memory ν) Unit
  | .analyze text => do
    let _ ← setup.analyze now text
  | .analyzeBatch cancelAfter texts => do
    let _ ← setup.analyzeBatch now ⟨[], [], false⟩ cancelAfter texts
  | .feedback event => do
    let _ ← setup.feedback now event
  | .decay time => do
    let _ ← decay setup.rules time
  | .takeSnapshot document replace => do
    let _ ← takeIntake intake setup.idOf document replace
  | .clear => modify clear

/-- The memory after several things were done. -/
def runFrom (intake : Intake ν) (setup : Setup ν) (m : Memory ν) (deeds : List (Timestamp × Deed)) :
    Memory ν :=
  deeds.foldl (fun m deed => ((perform intake setup deed.1 deed.2).outcome m).2) m

/-- The last deed of a run is done on what the others left. -/
theorem runFrom_concat (intake : Intake ν) (setup : Setup ν) (m : Memory ν)
    (deeds : List (Timestamp × Deed)) (last : Timestamp × Deed) :
    runFrom intake setup m (deeds ++ [last])
      = ((perform intake setup last.1 last.2).outcome (runFrom intake setup m deeds)).2 :=
  List.foldl_concat ..

variable {intake : Intake ν} {setup : Setup ν} {P : Memory ν → Prop} {now : Timestamp}

omit [Magnitude ν] in
/-- Leaving out the result keeps what the change keeps. -/
theorem keeps_drop {α : Type} {x : Change (Memory ν) α} (hx : Change.Keeps P x) :
    Change.Keeps P (do let _ ← x : Change (Memory ν) Unit) :=
  Change.keeps_bind hx fun _ => Change.keeps_pure _

/-- One thing that is done keeps what each of its steps keeps. -/
theorem keeps_perform (hstreak : ∀ m n, P m → P { m with streak := n })
    (hlearn : ∀ now (found : Candidate), Change.Keeps P (learn setup.idOf now found.sighting))
    (htake : ∀ e id, Change.Keeps P (takeIn setup.rules id e))
    (hdecay : ∀ now, Change.Keeps P (decay setup.rules now))
    (hsnapshot : ∀ document replace,
      Change.Keeps P (takeIntake intake setup.idOf document replace))
    (hclear : ∀ m, P m → P m.clear) (deed : Deed) :
    Change.Keeps P (perform intake setup now deed) := by
  cases deed with
  | analyze text => exact keeps_drop (Setup.keeps_analyze (hlearn now))
  | analyzeBatch cancelAfter texts =>
    exact keeps_drop (Setup.keeps_analyzeBatch (hlearn now) _ _ _)
  | feedback event =>
    exact keeps_drop (Setup.keeps_feedback hstreak (htake event) (hdecay _) (hlearn now))
  | decay time => exact keeps_drop (hdecay time)
  | takeSnapshot document replace => exact keeps_drop (hsnapshot document replace)
  | clear => exact Change.keeps_modify hclear

/-- One thing that is done here, other than taking a snapshot in, learns only from what was
found in a text. That can be counted, and its language is a text. -/
theorem keeps_found {deed : Deed} (hstreak : ∀ m n, P m → P { m with streak := n })
    (hlearn : ∀ c : Sighting, c.Countable → c.language.IsText →
      Change.Keeps P (learn setup.idOf now c))
    (htake : ∀ e, deed = .feedback e → ∀ id, Change.Keeps P (takeIn setup.rules id e))
    (hdecay : ∀ time, Change.Keeps P (decay setup.rules time)) (hclear : ∀ m, P m → P m.clear)
    (hown : ∀ document replace, deed ≠ .takeSnapshot document replace) :
    Change.Keeps P (perform intake setup now deed) := by
  have hanalyze : ∀ text, Change.Keeps P (setup.analyze now text) := fun text =>
    Setup.keeps_analyze_found fun _ hfound c hc =>
      hlearn c.sighting (Setup.countable_of_find hfound c hc) ⟨c.language, rfl⟩
  cases deed with
  | analyze text => exact keeps_drop (hanalyze text)
  | analyzeBatch cancelAfter texts =>
    exact keeps_drop (Setup.keeps_analyzeBatch_each hanalyze _ cancelAfter texts)
  | feedback e =>
    refine keeps_drop (keeps_feedback hstreak (htake e rfl) (hdecay _) ?_)
    intro code language sightings hread c hc
    -- Sightings of modified content carry the language that it was read in, which is a text.
    obtain ⟨candidates, rfl⟩ := Setup.reparse_eq_ok hread
    obtain ⟨candidate, _, rfl⟩ := List.mem_map.1 hc
    exact hlearn _ (Setup.countable_of_reparse hread _ hc) ⟨candidate.language, rfl⟩
  | decay time => exact keeps_drop (hdecay time)
  | takeSnapshot document replace => exact absurd rfl (hown document replace)
  | clear => exact Change.keeps_modify hclear

/-- What every deed keeps, every run keeps. -/
theorem runFrom_keeps (hdeed : ∀ now deed, Change.Keeps P (perform intake setup now deed))
    (deeds : List (Timestamp × Deed)) {m : Memory ν} (h : P m) :
    P (runFrom intake setup m deeds) := by
  induction deeds generalizing m with
  | nil => exact h
  | cons deed rest ih => exact ih (hdeed deed.1 deed.2 m h)

end

/-- With what programs read snapshots with, a snapshot is taken in as in programs. -/
theorem takeIntake_usual (idOf : IdScheme) (document : Value) (replace : Bool) :
    takeIntake .usual idOf document replace = takeSnapshot idOf document replace :=
  rfl

/-! ### What holds of a store however it came about -/

section

variable {ν : Type} [Magnitude ν] {P : Store ν → Prop}

/-- A snapshot makes the store anew or is merged into it. -/
theorem structural_takeIntake (hP : Store.Structural P) (intake : Intake ν) (idOf : IdScheme)
    (document : Value) (replace : Bool) :
    Change.Keeps (fun m : Memory ν => P m.store) (takeIntake intake idOf document replace) := by
  unfold takeIntake
  refine Change.keeps_bind (Change.keeps_ofExcept _) fun members => ?_
  cases replace with
  | false => exact keeps_inStore (hP.keeps_merge idOf _ _ _)
  | true =>
    refine Change.keeps_bind Change.keeps_get fun m => ?_
    refine Change.keeps_bind_ofExcept fun n hn => ?_
    refine Change.keeps_bind (fun _ _ => ?_) fun _ => ?_
    · obtain ⟨prefs, _, hn⟩ := Except.bind_eq_ok.1 hn
      obtain ⟨store, hstore, hn⟩ := Except.bind_eq_ok.1 hn
      obtain ⟨ps, _, hseparate, rfl⟩ := Store.ofRecords_eq_ok_iff.1 hstore
      cases hn
      exact hP.ofPatterns _ ps hseparate
    · exact Change.keeps_bind Change.keeps_get fun _ => Change.keeps_pure _

theorem structural_takeSnapshot {P : Store Value → Prop} (hP : Store.Structural P)
    (idOf : IdScheme) (document : Value) (replace : Bool) :
    Change.Keeps (fun m : Memory Value => P m.store) (takeSnapshot idOf document replace) :=
  structural_takeIntake hP .usual idOf document replace

/-- No deed breaks it. -/
theorem structural_perform (hP : Store.Structural P) (intake : Intake ν) (setup : Setup ν)
    (now : Timestamp) (deed : Deed) :
    Change.Keeps (fun m : Memory ν => P m.store) (perform intake setup now deed) := by
  apply keeps_perform
  · exact fun m n h => h
  · exact fun now found => keeps_inStore (hP.keeps_upsert setup.idOf now found.sighting)
  · exact fun e id => ofOutline_takeIn hP.ofOutline setup.rules id e
  · exact ofOutline_decay hP.ofOutline setup.rules
  · exact structural_takeIntake hP intake setup.idOf
  · exact fun m _ => hP.empty m.store.smoothing

theorem structural_runFrom (hP : Store.Structural P) (intake : Intake ν) (setup : Setup ν)
    (smoothing : Smoothing ν) (deeds : List (Timestamp × Deed)) :
    P (runFrom intake setup (empty smoothing) deeds).store :=
  runFrom_keeps (P := fun m => P m.store) (structural_perform hP intake setup) deeds
    (hP.empty smoothing)

end

end Memory

namespace Session

/-- What an action of a session does to its memory at a time. What a session loads
depends on its files, so loading is left out. -/
def Action.deed? (now : Timestamp) : Action → Option Memory.Deed
  | .analyze text => some (.analyze text)
  | .analyzeBatch cancelAfter texts => some (.analyzeBatch cancelAfter texts)
  | .feedback id reaction reason surroundings content at? =>
    some (.feedback
      { patternId := id, reaction, timestamp := at?.getD now, reason := .ofText? reason
        surroundings, modifiedContent := .ofText? content })
  | .decay at? => some (.decay (at?.getD now))
  | .takeSnapshot document replace => some (.takeSnapshot document replace)
  | .clear => some .clear
  | .load => none

/-- A session does to its memory what the deed does. -/
theorem memory_act {idOf : IdScheme} {s : Session} {action : Action} {deed : Memory.Deed}
    (h : action.deed? s.now = some deed) :
    ((act idOf action).outcome s).2.memory
      = ((Memory.perform .usual { s.setup with idOf } s.now deed).outcome s.memory).2 := by
  have hdrop : ∀ {α : Type} (x : Setup Value → Timestamp → Change (Memory Value) α),
      ((do let _ ← learning x : Change Session Unit).outcome s).2.memory
        = ((do let _ ← x s.setup s.now : Change (Memory Value) Unit).outcome s.memory).2 := by
    intro α x
    rw [Change.outcome_drop, Change.outcome_drop, outcome_learning]
  cases action with
  | clear =>
    cases h
    rfl
  | load => cases h
  | _ =>
    cases h
    exact hdrop _

/-- What a call does to the memory, the deed of its action does. -/
theorem memory_step {idOf : IdScheme} {s : Session} {c : Call} {deed : Memory.Deed}
    (h : c.action.deed? c.now = some deed) :
    (step idOf s c).memory
      = ((Memory.perform .usual { s.setup with idOf } c.now deed).outcome s.memory).2 :=
  memory_act (s := { s with now := c.now, files := c.files }) h

end Session

end CodeHabits
