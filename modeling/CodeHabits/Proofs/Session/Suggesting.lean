import CodeHabits.Proofs.Memory.Ranking
import CodeHabits.Proofs.Session.Adding
import CodeHabits.Proofs.Session.History

/-!
# `CodeHabits.Proofs.Session.Suggesting`: sessions that suggest patterns

A session answers every request for suggestions from one ranking of its patterns
(`suggestions_ranked`). The request says how many of them are wanted and which scores are
high enough, or the configuration does.

This is so for every session whose memory is of the data model and has a score for each
pattern that is asked about. Sessions that learn by themselves have such a memory, unless
they took in weights or factors that a confidence cannot be multiplied with
(`Life.rankable`).
-/

set_option autoImplicit false

namespace CodeHabits.Session

open Memory (Rankable Ranked Rearranged)

/-- How many suggestions there may be. -/
def limit (s : Session) (most? : Option Int) : Value :=
  (most?.map Value.int).getD s.settings.suggestions

/-- The least score of a suggestion. -/
def leastScore (s : Session) (threshold? : Option Value) : Value :=
  threshold?.getD s.settings.threshold

variable {s : Session} {language : String} {recent : List String}

/-- Any limit cuts the same ranking. -/
theorem exists_ranking {threshold? : Option Value}
    (h : s.memory.Rankable s.settings.rules (normalizeLanguage language) recent)
    (hthreshold : (s.leastScore threshold?).number?.isSome) :
    ∃ all, s.memory.Ranked s.settings.rules (normalizeLanguage language) recent
        (s.leastScore threshold?) all ∧ (∀ u ∈ all, Memory.Suggestible u) ∧
      ∀ most? n, (s.limit most?).number? = some (.int n) →
        s.suggest language recent most? threshold? = .ok (all.take n.toNat) := by
  obtain ⟨all, hall, hranked, hsuggestible⟩ := Memory.exists_ranked h hthreshold
  refine ⟨all, hranked, hsuggestible, ?_⟩
  intro most? n hn
  exact Memory.suggest_eq_take (hall (s.limit most?)) hn

/-- Sessions with the same settings, which know the same, suggest the same. -/
theorem suggest_of_rearranged {t : Session} {threshold? : Option Value}
    (h : s.memory.Rankable s.settings.rules (normalizeLanguage language) recent)
    (hthreshold : (s.leastScore threshold?).number?.isSome) (hsettings : t.settings = s.settings)
    (hsame : s.memory.Rearranged t.memory) (most? : Option Int) :
    t.suggest language recent most? threshold? = s.suggest language recent most? threshold? := by
  obtain ⟨all, hall, hranked, _⟩ := Memory.exists_ranked h hthreshold
  obtain ⟨others, hothers, hother, _⟩ := Memory.exists_ranked (hsame.rankable h) hthreshold
  have hequal := (hsame.ranked h hranked).unique hother
  have hlimit : t.limit most? = s.limit most? := by rw [limit, limit, hsettings]
  have hleast : t.leastScore threshold? = s.leastScore threshold? := by
    rw [leastScore, leastScore, hsettings]
  show Memory.suggest t.settings.rules t.memory
      ⟨normalizeLanguage language, recent, t.limit most?, t.leastScore threshold?⟩
    = Memory.suggest s.settings.rules s.memory
      ⟨normalizeLanguage language, recent, s.limit most?, s.leastScore threshold?⟩
  rw [hsettings, hlimit, hleast]
  apply Memory.suggest_congr
  rw [hall, hothers, hequal]

/-- A session that has only learned by itself can rank its patterns, if the weights and the
factors of its scores can be multiplied with. -/
theorem Life.rankable (idOf : IdScheme) (l : Life) (hcalls : ∀ c ∈ l.calls, c.LearnsAlone)
    (htellable : ∀ c ∈ l.calls, ∀ e ∈ c.event?, e.Tellable) (hboost : l.settings.rules.boost.Mixes)
    (havoidance : l.settings.rules.avoidancePenalty.Mixes)
    (hweights : ∀ weight ∈ (l.session idOf).memory.preferences.weights, weight.Mixes)
    (language : String) (recent : List String) :
    (l.session idOf).memory.Rankable (l.session idOf).settings.rules language recent where
  keyed := l.structural Store.structural_keyed
  distinct := l.structural Store.structural_distinct
  measured := l.measured
  serviceable := serviceable_run hcalls htellable (Store.every_empty _)
  scores := by
    intro p hp
    have hsettings : (l.session idOf).settings = l.settings := settings_run idOf _ l.calls
    obtain ⟨entry, hmem, rfl⟩ := List.mem_map.1 hp.stored
    rw [hsettings]
    exact Memory.exists_score hboost havoidance hweights (l.measured entry hmem)

/-- One call is found in two files and another one in one of them. -/
def callsTwiceAndOnce : List Call :=
  [⟨⟨0, 0⟩, .empty, .analyze ⟨"x();\n", some "go", "a.go"⟩⟩,
   ⟨⟨0, 0⟩, .empty, .analyze ⟨"y(1);\n", some "go", "a.go"⟩⟩,
   ⟨⟨0, 0⟩, .empty, .analyze ⟨"x();\n", some "go", "b.go"⟩⟩]

theorem learnsAlone_twiceAndOnce : ∀ c ∈ callsTwiceAndOnce, c.LearnsAlone ∧ c.event? = none := by
  intro c hc
  simp only [callsTwiceAndOnce, List.mem_cons, List.not_mem_nil, or_false] at hc
  rcases hc with rfl | rfl | rfl
  · exact ⟨trivial, rfl⟩
  · exact ⟨trivial, rfl⟩
  · exact ⟨trivial, rfl⟩

end CodeHabits.Session
