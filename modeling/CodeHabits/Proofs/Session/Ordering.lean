import CodeHabits.Proofs.Memory.Gathering
import CodeHabits.Proofs.Session.History
import CodeHabits.Proofs.Session.Ready

/-!
# `CodeHabits.Proofs.Session.Ordering`: requests in any order

Source texts and reactions to known patterns can be taken in in any order. The confidences may
come out differently, and with them what is retired and what a pass of forgetting does. But
they decide about no sighting and no event, so this stays where it is: in the end there are
the same patterns, sighted equally often, in the same files and with the same styles, and with
the same events in their logs (`agree_in_any_order`).

A run gathers for each name what its calls add (`gathers_run`), and what a call adds can be
told from the session in which the run begins. Two orders of the same calls add the same.
-/

set_option autoImplicit false

namespace CodeHabits

namespace Session

open Memory (Deed)
open Time (Timestamp)

variable {idOf : IdScheme} {s : Session} {c : Call} {calls others : List Call}
  {name : Label × Label}

/-! ### Tidy sessions -/

theorem tidy_step_of_learns (hc : c.Learns) (h : s.memory.Tidy) : (step idOf s c).memory.Tidy := by
  obtain ⟨_, _, haction⟩ := hc
  obtain ⟨now, files, action⟩ := c
  cases action with
  | takeSnapshot document replace => cases haction
  | load => cases haction
  | _ =>
    rw [memory_step rfl]
    refine Memory.tidy_perform .usual _ now (fun document replace => ?_) s.memory h
    exact nofun

/-- The tallies of a grown session are tidy. -/
theorem Grown.tidy (hs : Grown idOf s) : s.memory.Tidy := by
  induction hs with
  | start hvalid hsettings grammars files now => exact Store.every_empty _
  | wait _ files now ih => exact ih
  | learn _ hc ih => exact tidy_step_of_learns hc ih
  | @exchange s t manner members _ ht hmanner h now files replace ihs iht =>
    refine keeps_learning (P := Memory.Tidy) ?_ ihs
    refine ht.settled.1.every_takeSnapshot hmanner h (fun entry hentry => ?_) idOf replace
    -- Texts are the same when they come back.
    have hback : (entry.2.reread manner.spell).styles.Tidy := by
      show (Pattern.respell manner.spell entry.2.styles).Tidy
      rw [(iht entry hentry).texts.respell hmanner]
      exact iht entry hentry
    exact ⟨hback, Store.keeps_gain_each fun _ _ h _ => h, fun _ => hback⟩

/-! ### What calls add -/

/-- What a call asks for. At which time a source text is analysed is not part of it. -/
def Call.deed? (c : Call) : Option Deed :=
  c.action.deed? c.now

/-- The call analyses a source text, runs a pass of forgetting, or takes in a reaction to a
pattern that the session knows. -/
def Call.Movable (s : Session) (c : Call) : Prop :=
  ∃ deed, c.deed? = some deed ∧ deed.Simple ∧ deed.Known s.memory

/-- The events that a call logs in the pattern of a name. -/
def Call.events (idOf : IdScheme) (s : Session) (name : Label × Label) (c : Call) : List Event :=
  c.deed?.elim [] (·.events { s.setup with idOf } s.memory name)

theorem Call.Movable.simple (h : c.Movable s) : c.Simple := by
  obtain ⟨deed, hdeed, hsimple, _⟩ := h
  obtain ⟨now, files, action⟩ := c
  cases action with
  | analyze text => trivial
  | feedback id reaction reason surroundings content at? => trivial
  | decay at? => trivial
  | load => cases hdeed
  | _ =>
    cases hdeed
    exact hsimple.elim

/-- One call adds to the pattern of each name. -/
theorem gathers_step (h : s.Sound) (hc : c.Movable s) (name : Label × Label) :
    Store.Gathers ((c.sightings idOf s).filter (·.name == name)) (c.events idOf s name)
      (s.memory.store.named? name) ((step idOf s c).memory.store.named? name) := by
  obtain ⟨deed, hdeed, hsimple, _⟩ := hc
  rw [memory_step hdeed, Call.sightings, Call.events, hdeed]
  have hdeed : c.action.deed? c.now = some deed := hdeed
  rw [hdeed]
  exact Memory.gathers_perform .usual { s.setup with idOf } h.usable h.ready c.now hsimple name

/-- The patterns are still known after it. -/
theorem later_step (hc : c.Simple) : s.memory.Later (step idOf s c).memory := by
  obtain ⟨deed, hdeed, hsimple⟩ := hc.exists_deed
  rw [memory_step hdeed]
  intro id p hget
  obtain ⟨q, hq, hextends⟩ :=
    Memory.carries_perform .usual { s.setup with idOf } c.now hsimple.adds s.memory id p hget
  exact ⟨q, hq, hextends.name⟩

/-- What a call adds, it adds after other calls as well. -/
theorem Call.Movable.later {first : Call} (hc : c.Movable s) (idOf : IdScheme)
    (name : Label × Label) (hfirst : first.Simple) :
    c.Movable (step idOf s first) ∧ c.sightings idOf (step idOf s first) = c.sightings idOf s ∧
      c.events idOf (step idOf s first) name = c.events idOf s name := by
  obtain ⟨deed, hdeed, hsimple, hknown⟩ := hc
  have hlater : s.memory.Later (step idOf s first).memory := later_step hfirst
  have hadds := Memory.adds_later hknown hlater { s.setup with idOf } name
  refine ⟨⟨deed, hdeed, hsimple, hknown.later hlater⟩, ?_, ?_⟩
  · rw [Call.sightings, Call.sightings, show c.action.deed? c.now = some deed from hdeed,
      setup_step]
    exact hadds.1
  · rw [Call.events, Call.events, hdeed, setup_step]
    exact hadds.2

/-- A run adds what its calls add. -/
theorem gathers_run (h : s.Sound) (hcalls : ∀ c ∈ calls, c.Movable s) (name : Label × Label) :
    Store.Gathers ((calls.flatMap (·.sightings idOf s)).filter (·.name == name))
      (calls.flatMap (·.events idOf s name)) (s.memory.store.named? name)
      ((run idOf s calls).memory.store.named? name) := by
  induction calls generalizing s with
  | nil => exact .refl _
  | cons c rest ih =>
    obtain ⟨hc, hrest⟩ := List.forall_mem_cons.1 hcalls
    have hlater := fun d hd => (hrest d hd).later idOf name hc.simple
    have hleft := ih (h.step idOf hc.simple) fun d hd => (hlater d hd).1
    -- What the rest adds after the first call, it adds from the start.
    rw [List.flatMap_congr fun d hd => (hlater d hd).2.1,
      List.flatMap_congr fun d hd => (hlater d hd).2.2] at hleft
    rw [List.flatMap_cons, List.flatMap_cons, List.filter_append]
    exact (gathers_step h hc name).trans hleft

/-- Patterns stay tidy. -/
theorem tidy_run (hcalls : ∀ c ∈ calls, c.Movable s) (h : s.memory.Tidy) :
    (run idOf s calls).memory.Tidy := by
  have hsimple : ∀ c ∈ calls, c.Simple := fun c hc => (hcalls c hc).simple
  refine run_keeps (P := fun s => s.memory.Tidy) (fun s c hc h => ?_) hsimple h
  obtain ⟨deed, hdeed, hsimple⟩ := hc.exists_deed
  rw [memory_step hdeed]
  refine Memory.tidy_perform .usual _ c.now (fun document replace htakes => ?_) s.memory h
  rw [htakes] at hsimple
  exact hsimple

theorem sound_run (hcalls : ∀ c ∈ calls, c.Movable s) (h : s.Sound) : (run idOf s calls).Sound := by
  have hsimple : ∀ c ∈ calls, c.Simple := fun c hc => (hcalls c hc).simple
  exact run_keeps (P := Sound) (fun _ _ hc h => h.step idOf hc) hsimple h

/-! ### Source texts alone -/

/-- The call analyses a source text. -/
def Call.Reads (c : Call) : Prop :=
  ∃ t, c.deed? = some (.analyze t)

theorem Call.Reads.movable (h : c.Reads) : c.Movable s := by
  obtain ⟨t, hdeed⟩ := h
  exact ⟨_, hdeed, trivial, trivial⟩

/-- A run of source texts moves the standing of a pattern as often as they show it. -/
theorem standing_run (h : s.Sound) (hcalls : ∀ c ∈ calls, c.Reads) (name : Label × Label) :
    Store.standingOf ((run idOf s calls).memory.store.named? name)
      = (Store.restand s.memory.store.smoothing)^[((calls.flatMap (·.sightings idOf s)).filter
          (·.name == name)).length] (Store.standingOf (s.memory.store.named? name)) := by
  induction calls generalizing s with
  | nil => rfl
  | cons c rest ih =>
    obtain ⟨⟨t, hdeed⟩, hrest⟩ := List.forall_mem_cons.1 hcalls
    have hc : c.Simple := (Call.Reads.movable ⟨t, hdeed⟩ : c.Movable s).simple
    have hlater := fun d hd =>
      ((hrest d hd).movable (s := s)).later idOf name hc
    have hleft := ih (h.step idOf hc) hrest
    have hsmoothing : (step idOf s c).memory.store.smoothing = s.memory.store.smoothing :=
      smoothing_run (P := (· = s.memory.store.smoothing)) [c] rfl
    have hfirst := Memory.standing_analyze .usual { s.setup with idOf }
      h.ready.teachable c.now t name
    rw [← memory_step hdeed] at hfirst
    rw [List.flatMap_congr fun d hd => (hlater d hd).2.1, hsmoothing, hfirst,
      ← Function.iterate_add_apply] at hleft
    rw [List.flatMap_cons, List.filter_append, List.length_append, Nat.add_comm]
    have hshown : c.sightings idOf s = ({ s.setup with idOf } : Setup Value).sightingsIn t := by
      rw [Call.sightings, show c.action.deed? c.now = some (.analyze t) from hdeed]
      rfl
    rw [hshown]
    exact hleft

/-! ### Two orders -/

/-- What is asked for in another order can be moved as well. -/
theorem movable_of_perm (horder : (calls.map Call.deed?).Perm (others.map Call.deed?))
    (hcalls : ∀ c ∈ calls, c.Movable s) : ∀ c ∈ others, c.Movable s := by
  intro c hc
  obtain ⟨d, hd, hsame⟩ := List.mem_map.1 (horder.mem_iff.2 (List.mem_map_of_mem hc))
  obtain ⟨deed, hdeed, hmovable⟩ := hcalls d hd
  exact ⟨deed, hsame.symm.trans hdeed, hmovable⟩

theorem perm_sightings (idOf : IdScheme) (s : Session)
    (horder : (calls.map Call.deed?).Perm (others.map Call.deed?)) (name : Label × Label) :
    ((calls.flatMap (·.sightings idOf s)).filter (·.name == name)).Perm
      ((others.flatMap (·.sightings idOf s)).filter (·.name == name)) := by
  let shown : Option Deed → List Sighting := fun deed? =>
    deed?.elim [] (·.sightings { s.setup with idOf } s.memory)
  have hperm := horder.flatMap_right shown
  rw [List.flatMap_map, List.flatMap_map] at hperm
  exact hperm.filter _

theorem perm_events (idOf : IdScheme) (s : Session)
    (horder : (calls.map Call.deed?).Perm (others.map Call.deed?)) (name : Label × Label) :
    (calls.flatMap (·.events idOf s name)).Perm (others.flatMap (·.events idOf s name)) := by
  let logged : Option Deed → List Event := fun deed? =>
    deed?.elim [] (·.events { s.setup with idOf } s.memory name)
  have hperm := horder.flatMap_right logged
  rw [List.flatMap_map, List.flatMap_map] at hperm
  exact hperm

/-- After a grown session source texts are analysed and reactions to patterns that it knows
are taken in, in any order, at any times and whatever fails of it. Two orders of the same
leave patterns of the same names. Those of one name were sighted equally often, in the same
files and with the same styles, so the same style dominates, and the same events are in their
logs. If source texts alone are analysed, they have the same confidence as well, and are
retired alike. -/
theorem agree_in_any_order (hs : Grown idOf s) (hcalls : ∀ c ∈ calls, c.Movable s)
    (horder : (calls.map Call.deed?).Perm (others.map Call.deed?)) :
    let m := (run idOf s calls).memory
    let n := (run idOf s others).memory
    (∀ name, Option.Rel (fun p q => p.Agrees q ∧ p.styles.dominant = q.styles.dominant)
        (m.store.named? name) (n.store.named? name)) ∧
      (∀ id p, m.store.get? id = some p → m.store.named? p.name = some p) ∧
      (∀ id q, n.store.get? id = some q → n.store.named? q.name = some q) ∧
      ((∀ c ∈ calls, c.Reads) → ∀ name,
        Store.standingOf (m.store.named? name) = Store.standingOf (n.store.named? name)) := by
  intro m n
  have hothers := movable_of_perm horder hcalls
  have hm : (run idOf s calls).Sound := sound_run hcalls hs.sound
  have hn : (run idOf s others).Sound := sound_run hothers hs.sound
  have hmtidy : m.Tidy := tidy_run hcalls hs.tidy
  have hntidy : n.Tidy := tidy_run hothers hs.tidy
  refine ⟨fun name => ?_, fun id p => hm.ready.coherent.named?_of_get?,
    fun id q => hn.ready.coherent.named?_of_get?, fun hreads name => ?_⟩
  · have hagrees : Option.Rel Pattern.Agrees (m.store.named? name) (n.store.named? name) :=
      (gathers_run hs.sound hcalls name).agrees (gathers_run hs.sound hothers name)
        (perm_sightings idOf s horder name) (perm_events idOf s horder name)
    rcases hp : m.store.named? name with _ | p <;> rcases hq : n.store.named? name with _ | q <;>
      rw [hp, hq] at hagrees
    case none.none => exact .none
    case none.some => cases hagrees
    case some.none => cases hagrees
    case some.some =>
      cases hagrees with
      | some hagrees =>
        refine .some ⟨hagrees, Tallies.dominant_congr (hmtidy.of_named? hp) (hntidy.of_named? hq)
          ?_ ?_ hagrees.styles⟩
        · exact hm.ready.counted.of_named? hp
        · exact hn.ready.counted.of_named? hq
  · have hothers : ∀ c ∈ others, c.Reads := by
      intro c hc
      obtain ⟨d, hd, hsame⟩ := List.mem_map.1 (horder.mem_iff.2 (List.mem_map_of_mem hc))
      obtain ⟨t, ht⟩ := hreads d hd
      exact ⟨t, hsame.symm.trans ht⟩
    rw [standing_run hs.sound hreads name, standing_run hs.sound hothers name,
      (perm_sightings idOf s horder name).length_eq]

/-- The call that is known is rejected, and a text is analysed that shows it twice more. -/
def mixedCalls : List Call :=
  [⟨⟨1, 0⟩, .empty,
      .feedback (.text "pat_a84972b418f6") .rejected none ⟨.null, .null, none⟩ none none⟩,
    ⟨⟨2, 0⟩, .empty, .analyze ⟨"x(); y();\n", some "go", "b.go"⟩⟩]

/-- In one order the confidence falls first and grows then, in the other one it grows first.
It comes out differently, and nothing else does. -/
theorem agree_in_any_order_of_rejection :
    ∃ settings, outlinedGo.settings = .ok settings ∧
      let s := run .usual (withoutGrammars settings) (acceptedCalls.take 1)
      Grown .usual s ∧ (∀ c ∈ mixedCalls, c.Movable s) ∧ ∃ name p q,
        (run .usual s mixedCalls).memory.store.named? name = some p ∧
          (run .usual s mixedCalls.reverse).memory.store.named? name = some q ∧ p.Agrees q ∧
            p.styles.dominant = q.styles.dominant ∧ p.frequency.same (.int 3) = true ∧
              p.feedback.length = 1 ∧ p.confidence.same q.confidence = false := by
  have hvalid : outlinedGo.validate = .ok () := Except.eq_ok_unit (by decide +kernel)
  have hruns : (outlinedGo.settings.toOption.any fun settings =>
      let s := run .usual (withoutGrammars settings) (acceptedCalls.take 1)
      (s.memory.target (.text "pat_a84972b418f6")).isOk &&
        ((run .usual s mixedCalls).memory.store.get? (.text "pat_a84972b418f6")).any fun p =>
          ((run .usual s mixedCalls.reverse).memory.store.named? p.name).any fun q =>
            p.frequency.same (.int 3) && decide (p.feedback.length = 1) &&
              !p.confidence.same q.confidence) = true := by decide +kernel
  obtain ⟨settings, hsettings, hruns⟩ := (Option.any_eq_true _ _).1 hruns
  have hsettings := Except.toOption_eq_some.1 hsettings
  obtain ⟨hknown, hruns⟩ := Bool.and_eq_true_iff.1 hruns
  obtain ⟨p, hp, hruns⟩ := (Option.any_eq_true _ _).1 hruns
  obtain ⟨q, hq, hruns⟩ := (Option.any_eq_true _ _).1 hruns
  simp only [Bool.and_eq_true, Bool.not_eq_true', decide_eq_true_eq] at hruns
  obtain ⟨⟨hthrice, hlogged⟩, hdiffers⟩ := hruns
  refine ⟨settings, hsettings, ?_⟩
  intro s
  have hgrown : Grown .usual s := grown_analyzed hvalid hsettings
  have hmovable : ∀ c ∈ mixedCalls, c.Movable s := by
    have htarget := Except.exists_of_isOk hknown
    refine List.forall_mem_cons.2 ⟨⟨_, rfl, trivial, htarget⟩, List.forall_mem_singleton.2 ?_⟩
    exact ⟨_, rfl, trivial, trivial⟩
  obtain ⟨hagree, hnamed, _, _⟩ :=
    agree_in_any_order hgrown hmovable ((List.reverse_perm mixedCalls).symm.map Call.deed?)
  have hp := hnamed _ p hp
  have hboth := hagree p.name
  rw [hp, hq] at hboth
  cases hboth with
  | some hboth =>
    exact ⟨hgrown, hmovable, p.name, p, q, hp, hq, hboth.1, hboth.2, hthrice, hlogged, hdiffers⟩

end Session

end CodeHabits
