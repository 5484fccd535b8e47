import CodeHabits.Proofs.Memory.Keeping
import CodeHabits.Session

/-!
# `CodeHabits.Proofs.Session.Run`: whatever a session is asked to do

A session learns from source texts and reactions, forgets, takes snapshots in,
loads what was saved, and is cleared. `Action` lists these operations with
their arguments, and `act` performs one. The ids of new patterns come from any
function: with the usual one, `act` does what the operations of a session do
(`act_usual`).

Between two calls the clock and the files may change in any way, so a call says
which time it is and which files are there. A run is a list of calls, each from
the state that the one before left, failed or not. `run_keeps` is the induction
over runs: what every call keeps, every run keeps.
-/

set_option autoImplicit false

namespace CodeHabits.Session

open Time (Timestamp)

/-- What changes the memory of a session. -/
inductive Action where
  | analyze (text : SourceText)
  | analyzeBatch (cancelAfter : Option Nat) (texts : List SourceText)
  | feedback (id : Value) (reaction : Reaction) (reason : Option String)
      (surroundings : Surroundings) (content : Option String) (at? : Option Timestamp)
  | decay (at? : Option Timestamp)
  | takeSnapshot (document : Value) (replace : Bool)
  | clear
  | load

/-- Performs an action with a function that proposes ids. -/
def act (idOf : IdScheme) : Action → Change Session Unit
  | .analyze text => do
    let _ ← learning fun setup now => { setup with idOf }.analyze now text
  | .analyzeBatch cancelAfter texts => do
    let _ ← learning fun setup now =>
      { setup with idOf }.analyzeBatch now ⟨[], [], false⟩ cancelAfter texts
  | .feedback id reaction reason surroundings content at? => do
    let _ ← learning fun setup now =>
      { setup with idOf }.feedback now
        { patternId := id, reaction, timestamp := at?.getD now, reason := .ofText? reason
          surroundings, modifiedContent := .ofText? content }
  | .decay at? => do
    let _ ← learning fun setup now => Memory.decay setup.rules (at?.getD now)
  | .takeSnapshot document replace => do
    let _ ← learning fun _ _ => Memory.takeSnapshot idOf document replace
  | .clear => modify clear
  | .load => do
    let _ ← load

/-- Only the setup of a session matters to a change of what it has learned. -/
theorem learning_congr {α : Type} {x y : Setup Value → Timestamp → Change (Memory Value) α}
    (h : ∀ s : Session, x s.setup s.now = y s.setup s.now) : learning x = learning y := by
  unfold learning
  congr 1
  funext s
  rw [h s]

/-- With the usual ids an action is the operation of the session. -/
theorem act_usual (action : Action) :
    act .usual action = (match action with
      | .analyze text => do
        let _ ← learning fun setup now => setup.analyze now text
      | .analyzeBatch cancelAfter texts => do
        let _ ← learning fun setup now =>
          setup.analyzeBatch now ⟨[], [], false⟩ cancelAfter texts
      | .feedback id reaction reason surroundings content at? => do
        let _ ← Session.feedback id reaction reason surroundings content at?
      | .decay at? => do
        let _ ← Session.decay at?
      | .takeSnapshot document replace => do
        let _ ← Session.takeSnapshot document replace
      | .clear => modify Session.clear
      | .load => do
        let _ ← Session.load) := by
  cases action with
  | analyze text => exact congrArg (· >>= fun _ => pure ()) (learning_congr fun _ => rfl)
  | analyzeBatch cancelAfter texts =>
    exact congrArg (· >>= fun _ => pure ()) (learning_congr fun _ => rfl)
  | feedback id reaction reason surroundings content at? =>
    exact congrArg (· >>= fun _ => pure ()) (learning_congr fun _ => rfl)
  | decay at? => rfl
  | takeSnapshot document replace =>
    exact congrArg (· >>= fun _ => pure ()) (learning_congr fun _ => rfl)
  | clear => rfl
  | load => rfl

/-- An action with the time at which it is performed and the files that are
there then. -/
structure Call where
  now : Timestamp
  files : Files
  action : Action

/-- The session after a call, whether it failed or not. -/
def step (idOf : IdScheme) (s : Session) (c : Call) : Session :=
  ((act idOf c.action).outcome { s with now := c.now, files := c.files }).2

/-- The session after several calls. -/
def run (idOf : IdScheme) (s : Session) (calls : List Call) : Session :=
  calls.foldl (step idOf) s

/-- What every call of some kind keeps, every run of such calls keeps. -/
theorem run_keeps {idOf : IdScheme} {P : Session → Prop} {allowed : Call → Prop}
    (hstep : ∀ s c, allowed c → P s → P (step idOf s c)) {calls : List Call}
    (hcalls : ∀ c ∈ calls, allowed c) {s : Session} (h : P s) : P (run idOf s calls) := by
  induction calls generalizing s with
  | nil => exact h
  | cons c rest ih =>
    exact ih (fun other hother => hcalls other (by simp [hother])) (hstep s c (hcalls c (by simp)) h)

/-- What every call keeps, every run keeps. -/
theorem runs_keep {idOf : IdScheme} {P : Memory Value → Prop}
    (hstep : ∀ s c, P s.memory → P (step idOf s c).memory) {calls : List Call} {s : Session}
    (h : P s.memory) : P (run idOf s calls).memory :=
  run_keeps (P := fun s => P s.memory) (fun s c (_ : True) => hstep s c) (fun _ _ => trivial) h

/-- A change of what was learned leaves what it leaves of the memory. -/
theorem outcome_learning {α : Type} (x : Setup Value → Timestamp → Change (Memory Value) α)
    (s : Session) :
    (learning x).outcome s
      = (((x s.setup s.now).outcome s.memory).1,
          { s with memory := ((x s.setup s.now).outcome s.memory).2 }) := by
  rw [learning, Change.outcome_bind_get, Change.outcome_within]

/-- Learning in a session keeps what it keeps in its memory. -/
theorem keeps_learning {α : Type} {P : Memory Value → Prop}
    {x : Setup Value → Timestamp → Change (Memory Value) α} {s : Session}
    (hx : Change.Keeps P (x s.setup s.now)) (h : P s.memory) :
    P ((do let _ ← learning x : Change Session Unit).outcome s).2.memory := by
  rw [Change.outcome_drop, outcome_learning]
  exact hx _ h

/-- Loading replaces the memory by the one that was loaded, or fails and changes
nothing. -/
theorem outcome_load (s : Session) :
    load.outcome s
      = match s.loaded with
        | .ok (memory, count) => (.ok count, { s with memory })
        | .error fault => (.error fault, s) := by
  rw [load, Change.outcome_bind_get]
  rcases s.loaded with fault | ⟨memory, count⟩
  · rw [Change.outcome_bind_ofExcept_error]
  · rw [Change.outcome_bind_ofExcept_ok]
    rfl

/-- A call may change the memory, and nothing else but the clock and the files. -/
theorem exists_step (idOf : IdScheme) (s : Session) (c : Call) :
    ∃ memory, step idOf s c = { s with memory, files := c.files, now := c.now } := by
  obtain ⟨now, files, action⟩ := c
  have hlearning : ∀ {α : Type} (x : Setup Value → Timestamp → Change (Memory Value) α)
      (s : Session), ∃ memory, ((do let _ ← learning x : Change Session Unit).outcome s).2
        = { s with memory } := by
    intro α x s
    rw [Change.outcome_drop, outcome_learning]
    exact ⟨_, rfl⟩
  cases action with
  | clear => exact ⟨_, rfl⟩
  | load =>
    show ∃ memory, (((do let _ ← load) : Change Session Unit).outcome _).2 = _
    rw [Change.outcome_drop, outcome_load]
    split
    · exact ⟨_, rfl⟩
    · exact ⟨_, rfl⟩
  | _ => exact hlearning _ _

/-- No action touches the settings. -/
theorem settings_step (idOf : IdScheme) (s : Session) (c : Call) :
    (step idOf s c).settings = s.settings := by
  obtain ⟨memory, hstep⟩ := exists_step idOf s c
  rw [hstep]

/-- What a session works with stays the same. -/
theorem setup_step (idOf : IdScheme) (s : Session) (c : Call) :
    (step idOf s c).setup = s.setup := by
  obtain ⟨memory, hstep⟩ := exists_step idOf s c
  rw [hstep]
  rfl

/-- A call is made at its time. -/
theorem now_step (idOf : IdScheme) (s : Session) (c : Call) : (step idOf s c).now = c.now := by
  obtain ⟨memory, hstep⟩ := exists_step idOf s c
  rw [hstep]

theorem settings_run (idOf : IdScheme) (s : Session) (calls : List Call) :
    (run idOf s calls).settings = s.settings := by
  induction calls generalizing s with
  | nil => rfl
  | cons c rest ih => exact (ih (step idOf s c)).trans (settings_step idOf s c)

/-- The event that a call logs, if it takes in a reaction. -/
def Call.event? (c : Call) : Option Event :=
  match c.action with
  | .feedback id reaction reason surroundings content at? =>
    some
      { patternId := id, reaction, timestamp := at?.getD c.now, reason := .ofText? reason
        surroundings, modifiedContent := .ofText? content }
  | _ => none

/-- One call, whether it fails or not: what each thing that it may do to the
memory keeps, the call keeps. -/
theorem keeps_step {P : Memory Value → Prop} {idOf : IdScheme} {s : Session} {c : Call}
    (hstreak : ∀ m n, P m → P { m with streak := n })
    (hlearn : ∀ found : Candidate, Change.Keeps P (Memory.learn idOf c.now found.sighting))
    (htake : ∀ e ∈ c.event?, ∀ id, Change.Keeps P (Memory.takeIn s.settings.rules id e))
    (hdecay : ∀ now, Change.Keeps P (Memory.decay s.settings.rules now))
    (hsnapshot : ∀ document replace, c.action = .takeSnapshot document replace →
      Change.Keeps P (Memory.takeSnapshot idOf document replace))
    (hload : c.action = .load → ∀ memory count,
      loaded { s with now := c.now, files := c.files } = .ok (memory, count) → P memory)
    (hclear : P s.memory.clear) (h : P s.memory) : P (step idOf s c).memory := by
  obtain ⟨now, files, action⟩ := c
  cases action with
  | analyze text =>
    refine keeps_learning ?_ h
    exact Setup.keeps_analyze hlearn
  | analyzeBatch cancelAfter texts =>
    refine keeps_learning ?_ h
    refine Setup.keeps_analyzeBatch (fun found => ?_) _ _ _
    exact hlearn found
  | feedback id reaction reason surroundings content at? =>
    refine keeps_learning ?_ h
    exact Setup.keeps_feedback hstreak (htake _ rfl) (hdecay _) hlearn
  | decay at? =>
    refine keeps_learning ?_ h
    exact hdecay _
  | takeSnapshot document replace =>
    refine keeps_learning ?_ h
    exact hsnapshot document replace rfl
  | clear => exact hclear
  | load =>
    show P ((do let _ ← load : Change Session Unit).outcome _).2.memory
    rw [Change.outcome_drop, outcome_load]
    split
    · rename_i memory count hloaded
      exact hload rfl memory count hloaded
    · exact h

end CodeHabits.Session
