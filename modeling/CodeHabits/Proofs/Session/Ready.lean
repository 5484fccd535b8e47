import CodeHabits.Proofs.Memory.Course
import CodeHabits.Proofs.Memory.Ready
import CodeHabits.Proofs.Preferences.Weights
import CodeHabits.Proofs.Session.Exchange

/-!
# `CodeHabits.Proofs.Session.Ready`: grown sessions are ready to learn

The settings of a grown session come from a configuration that was checked, whatever the
session has done (`Grown.exists_config`). So its rules are usable and parsing is limited.

What it has learned is ready to be learned more of (`Grown.ready`), and if the step of the
weights can be added to a floating-point number, then it can be added to all weights
(`Grown.carriesAll`).
-/

set_option autoImplicit false

namespace CodeHabits.Session

open Time (Timestamp)

variable {idOf : IdScheme} {s : Session}

theorem smoothing_of_settings {config : Config} {settings : Settings}
    (h : config.settings = .ok settings) : settings.smoothing = config.smoothing := by
  obtain ⟨registry, _, h⟩ := Except.bind_eq_ok.1 h
  obtain ⟨storage?, _, h⟩ := Except.bind_eq_ok.1 h
  cases h
  rfl

/-- The settings of a grown session are those of a configuration that was checked. -/
theorem Grown.exists_config (hs : Grown idOf s) :
    ∃ config : Config, config.validate = .ok () ∧ config.settings = .ok s.settings := by
  induction hs with
  | start hvalid hsettings grammars files now => exact ⟨_, hvalid, hsettings⟩
  | wait _ files now ih => exact ih
  | learn _ hc ih =>
    rw [settings_step]
    exact ih
  | exchange _ _ hmanner h now files replace ihs _ =>
    rw [settings_step]
    exact ihs

theorem Grown.usable (hs : Grown idOf s) : s.settings.rules.Usable := by
  obtain ⟨config, hvalid, hsettings⟩ := hs.exists_config
  rw [rules_of_settings hsettings]
  exact Config.usable_rules hvalid

theorem Grown.limited (hs : Grown idOf s) : s.settings.registry.Limited := by
  obtain ⟨config, hvalid, hsettings⟩ := hs.exists_config
  exact Config.limited_registry hvalid hsettings

/-- One call that takes nothing in from elsewhere. -/
theorem ready_step {c : Call} (hsnapshot : ∀ document replace, c.action ≠ .takeSnapshot document replace)
    (hload : c.action ≠ .load) (husable : s.settings.rules.Usable)
    (hfades : s.settings.rules.FadesInside) (h : s.memory.store.Ready) :
    (step idOf s c).memory.store.Ready := by
  refine keeps_step (P := fun m => m.store.Ready) (fun m n hm => hm) (fun found => ?_)
    (fun e _ id => ?_) (fun now => ?_)
    (fun document replace htakes => absurd htakes (hsnapshot document replace))
    (fun hloads => absurd hloads hload) (Memory.ready_empty h.smoothing) h
  · exact Memory.ready_learn idOf c.now found.sighting
  · exact Memory.ready_takeIn husable id e
  · exact Memory.ready_decay hfades now

/-- One call that learns or forgets. -/
theorem ready_step_of_learns {c : Call} (hc : c.Learns) (husable : s.settings.rules.Usable)
    (hfades : s.settings.rules.FadesInside) (h : s.memory.store.Ready) :
    (step idOf s c).memory.store.Ready := by
  have haction := hc.2.2
  refine ready_step (fun document replace htakes => ?_) (fun hloads => ?_) husable hfades h
  · rw [htakes] at haction
    cases haction
  · rw [hloads] at haction
    cases haction

/-- The store of a grown session can learn from whatever is sighted next. -/
theorem Grown.ready (hs : Grown idOf s) : s.memory.store.Ready := by
  induction hs with
  | start hvalid hsettings grammars files now =>
    refine Memory.ready_empty ?_
    rw [smoothing_of_settings hsettings]
    exact Config.usable_smoothing hvalid
  | wait _ files now ih => exact ih
  | learn hs hc ih => exact ready_step_of_learns hc hs.usable hs.settled.2 ih
  | exchange _ ht hmanner h now files replace ihs iht =>
    refine keeps_learning (P := fun m => m.store.Ready) ?_ ihs
    exact Memory.ready_takeSnapshot idOf ht.settled.1 iht hmanner h replace

/-- If the step can be added to a floating-point number, no weight keeps it from being
added. -/
theorem Grown.carriesAll (hs : Grown idOf s) (h : s.settings.rules.Weighs) :
    s.settings.rules.CarriesAll s.memory.preferences := by
  refine hs.preferences ?_ (fun prefs hprefs => ?_) fun reaction id p => ?_
  · exact Learning.carriesAll_none
  · exact Learning.carriesAll_of_floating hprefs
  · exact Learning.carriesAll_prefer h reaction id p

end CodeHabits.Session

/-!
## Calls that analyse, react or forget

These are the calls of which `Memory.course_perform` tells what they make of the pattern of
each name (`Call.Simple`). They keep a session sound, so what is told of one of them can be
told of any number of them.
-/

namespace CodeHabits.Session

open Memory (Deed)
open Time (Timestamp)

variable {idOf : IdScheme} {s : Session} {c : Call}

/-- The call analyses a source text, takes in a reaction, or runs a pass of forgetting. -/
def Call.Simple (c : Call) : Prop :=
  match c.action with
  | .analyze _ | .feedback .. | .decay _ => True
  | _ => False

theorem Call.Simple.exists_deed (h : c.Simple) :
    ∃ deed, c.action.deed? c.now = some deed ∧ deed.Simple := by
  obtain ⟨now, files, action⟩ := c
  cases action with
  | analyze text => exact ⟨_, rfl, trivial⟩
  | feedback id reaction reason surroundings content at? => exact ⟨_, rfl, trivial⟩
  | decay at? => exact ⟨_, rfl, trivial⟩
  | _ => cases h

/-- What a call sights. -/
def Call.sightings (idOf : IdScheme) (s : Session) (c : Call) : List Sighting :=
  (c.action.deed? c.now).elim [] (·.sightings { s.setup with idOf } s.memory)

/-- The rules can be used and the store can be learned to. -/
structure Sound (s : Session) : Prop where
  usable : s.settings.rules.Usable
  fades : s.settings.rules.FadesInside
  ready : s.memory.store.Ready

theorem Sound.step (h : s.Sound) (idOf : IdScheme) (hc : c.Simple) : (step idOf s c).Sound := by
  have hsettings := settings_step idOf s c
  refine ⟨by rw [hsettings]; exact h.usable, by rw [hsettings]; exact h.fades, ?_⟩
  refine ready_step (fun document replace haction => ?_) (fun haction => ?_) h.usable h.fades h.ready
  · rw [Call.Simple, haction] at hc
    cases hc
  · rw [Call.Simple, haction] at hc
    cases hc

theorem Grown.sound (hs : Grown idOf s) : s.Sound :=
  ⟨hs.usable, hs.settled.2, hs.ready⟩

end CodeHabits.Session
