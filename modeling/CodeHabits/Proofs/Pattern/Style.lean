import CodeHabits.Proofs.Pattern.Serviceable

/-!
# `CodeHabits.Proofs.Pattern.Style`: what tallies come to

Tallies are tables of tables, and the order in them tells what was seen first. What they
say about style does not depend on that order: `count?` tells how often a value of a habit
was counted, and `count?_tally` how counting changes this, value by value.

The style seen most often depends on these counts alone (`dominant_congr`), if no habit
and no value stands twice, the values are texts and the counts are whole. Tallies that were
counted by sightings are tidy in this way (`tidy_tally`).
-/

set_option autoImplicit false

namespace CodeHabits.Tallies

variable {tallies t u : Tallies} {habit : String} {label : Label}

/-- The count of a value of a habit. -/
def count? (tallies : Tallies) (habit : String) (label : Label) : Option Value :=
  (tallies.get? habit).bind fun counts => Table.get? counts label

/-- No habit and no value stands twice, and the values are texts. -/
structure Tidy (tallies : Tallies) : Prop where
  habits : Table.Distinct tallies
  values : ∀ habit ∈ tallies, Table.Distinct habit.2
  texts : tallies.Texts

theorem tidy_nil : Tidy [] :=
  ⟨.nil, by simp, by simp [Texts]⟩

/-! ### Counting -/

theorem count?_put (tallies : Tallies) (habit : String) (counts : Table Label Value)
    (other : String) (label : Label) :
    count? (tallies.put habit counts) other label
      = if habit == other then counts.get? label else tallies.count? other label := by
  rw [count?, Table.get?_put]
  split <;> rfl

/-- A habit of which nothing was counted does not count. -/
theorem count?_putNew (tallies : Tallies) (habit other : String) (label : Label) :
    count? (tallies.putNew habit []) other label = tallies.count? other label := by
  cases hknown : tallies.has habit with
  | true => rw [Table.putNew_of_has hknown]
  | false =>
    rw [Table.putNew, hknown]
    show count? (tallies.put habit []) other label = _
    rw [count?_put]
    split
    · rename_i hsame
      rw [count?, ← eq_of_beq hsame, Table.get?_eq_none_iff.2 hknown]
      rfl
    · rfl

/-- A count that is put in the place of the one before is the only one that changes. -/
theorem count?_counted {count : Value}
    (hcount : next (((tallies.get? habit).getD []).get? label) = .ok count) (other : String)
    (value : Label) :
    count? (tallies.put habit (((tallies.get? habit).getD []).put label count)) other value
      = if habit == other && label == value then (next (tallies.count? other value)).toOption
        else tallies.count? other value := by
  have hbefore : ∀ value, ((tallies.get? habit).getD []).get? value
      = tallies.count? habit value := by
    intro value
    rw [count?]
    cases tallies.get? habit <;> rfl
  rw [count?_put]
  by_cases hhabit : (habit == other) = true
  · have hsame : habit = other := eq_of_beq hhabit
    subst hsame
    rw [if_pos hhabit, Table.get?_put, hhabit, Bool.true_and]
    by_cases hvalue : (label == value) = true
    · have hcongr : tallies.count? habit label = tallies.count? habit value := by
        rw [← hbefore, ← hbefore, Table.get?_congr _ hvalue]
      rw [if_pos hvalue, if_pos hvalue, ← hcongr, ← hbefore, hcount]
      rfl
    · rw [if_neg hvalue, if_neg hvalue, hbefore]
  · rw [if_neg hhabit, Bool.eq_false_iff.2 hhabit, Bool.false_and]
    rfl

/-- What counting one value leaves, if it can be counted. -/
theorem tallyOne_eq_ok {seen : Value} (h : (tallyOne habit seen).outcome t = (.ok (), u)) :
    ∃ label count, seen.toLabel = .ok label ∧
      next ((((t.putNew habit []).get? habit).getD []).get? label) = .ok count ∧
      u = (t.putNew habit []).put habit
        ((((t.putNew habit []).get? habit).getD []).put label count) := by
  unfold tallyOne at h
  rw [Change.outcome_bind, Change.outcome_modify] at h
  dsimp only at h
  obtain ⟨label, _, hseen, h⟩ := Change.bind_eq_ok.1 h
  obtain ⟨hlabel, rfl⟩ := Change.ofExcept_eq_ok.1 hseen
  rw [Change.outcome_bind_get] at h
  obtain ⟨count, _, hnext, h⟩ := Change.bind_eq_ok.1 h
  obtain ⟨hcount, rfl⟩ := Change.ofExcept_eq_ok.1 hnext
  cases h
  exact ⟨label, count, hlabel, hcount, rfl⟩

/-- One value of a habit is counted, and the counts of all others stay. -/
theorem count?_tallyOne {seen : Value} (h : (tallyOne habit seen).outcome t = (.ok (), u)) :
    ∃ label, seen.toLabel = .ok label ∧ ∀ other value,
      u.count? other value
        = if habit == other && label == value then (next (t.count? other value)).toOption
          else t.count? other value := by
  obtain ⟨label, count, hlabel, hcount, rfl⟩ := tallyOne_eq_ok h
  refine ⟨label, hlabel, fun other value => ?_⟩
  rw [count?_counted hcount, count?_putNew]

/-- The habit of the value that is counted is among the habits from then on. -/
theorem has_tallyOne {seen : Value} (h : (tallyOne habit seen).outcome t = (.ok (), u))
    (other : String) : u.has other = (t.has other || habit == other) := by
  obtain ⟨_, _, _, _, rfl⟩ := tallyOne_eq_ok h
  rw [Table.has_put]
  cases hknown : t.has habit with
  | true => rw [Table.putNew_of_has hknown]
  | false =>
    have hnew : Table.has (t.putNew habit []) other = (t.has other || habit == other) := by
      rw [Table.putNew, hknown]
      exact Table.has_put t habit [] other
    rw [hnew, Bool.or_assoc, Bool.or_self]

/-- Whole counts are still there, and none of them is less than it was. -/
def Grows (t u : Tallies) : Prop :=
  ∀ habit label n, t.count? habit label = some (.int n) →
    ∃ k, u.count? habit label = some (.int k) ∧ n ≤ k

/-- Counting takes nothing away, whether it fails or not. -/
theorem grows_tallyOne (t : Tallies) (habit : String) (seen : Value) :
    Change.Keeps (Grows t) (tallyOne habit seen) := by
  unfold tallyOne
  refine Change.keeps_bind (Change.keeps_modify fun u h => ?_) fun _ => ?_
  · intro other label n hcount
    rw [count?_putNew]
    exact h other label n hcount
  refine Change.keeps_bind (Change.keeps_ofExcept _) fun label => ?_
  refine Change.keeps_bind_get fun u h => ?_
  dsimp only
  cases hnext : next (((u.get? habit).getD []).get? label) with
  | error fault =>
    rw [Change.outcome_bind_ofExcept_error]
    exact h
  | ok count =>
    rw [Change.outcome_bind_ofExcept_ok, Change.outcome_modify]
    intro other value n hcount
    obtain ⟨k, hk, hle⟩ := h other value n hcount
    rw [count?_counted hnext, hk]
    split
    · exact ⟨k + 1, rfl, by omega⟩
    · exact ⟨k, rfl, hle⟩

theorem grows_tally (t : Tallies) (style : Value) : Change.Keeps (Grows t) (tally style) :=
  Change.keeps_bind (Change.keeps_ofExcept _) fun _ =>
    Change.keeps_forM fun entry _ => grows_tallyOne t entry.1 entry.2

/-- One more of a count, as long as it can be counted. -/
def another (count? : Option Value) : Option Value :=
  (next count?).toOption

/-- How often the members of a style show a value of a habit. -/
def shown (members : Table String Value) (habit : String) (label : Label) : Nat :=
  members.countP fun entry => entry.1 == habit && entry.2.toLabel.toOption.any (· == label)

/-- Every value is counted as often as the members show it. -/
theorem count?_forM {members : Table String Value}
    (h : (members.forM fun entry => tallyOne entry.1 entry.2).outcome t = (.ok (), u))
    (habit : String) (label : Label) :
    u.count? habit label = another^[shown members habit label] (t.count? habit label) := by
  induction members generalizing t with
  | nil =>
    cases h
    rfl
  | cons entry rest ih =>
    obtain ⟨_, v, hfirst, h⟩ := Change.bind_eq_ok.1 h
    obtain ⟨seen, hseen, hcounted⟩ := count?_tallyOne hfirst
    have hlabel : entry.2.toLabel.toOption.any (· == label) = (seen == label) := by
      rw [hseen]
      rfl
    rw [ih h, hcounted, shown, shown, List.countP_cons, Function.iterate_add_apply, hlabel]
    split <;> rfl

theorem has_forM {members : Table String Value}
    (h : (members.forM fun entry => tallyOne entry.1 entry.2).outcome t = (.ok (), u))
    (habit : String) : u.has habit = (t.has habit || members.has habit) := by
  induction members generalizing t with
  | nil =>
    cases h
    exact (Bool.or_false _).symm
  | cons entry rest ih =>
    obtain ⟨_, v, hfirst, h⟩ := Change.bind_eq_ok.1 h
    rw [ih h, has_tallyOne hfirst, Bool.or_assoc]
    rfl

/-- Every value is counted as often as the style shows it. -/
theorem count?_tally {style : Value} (h : (tally style).outcome t = (.ok (), u)) :
    ∃ members, style.toMembers = .ok members ∧ ∀ habit label,
      u.count? habit label = another^[shown members habit label] (t.count? habit label) := by
  obtain ⟨members, _, hmembers, h⟩ := Change.bind_eq_ok.1 h
  obtain ⟨hstyle, rfl⟩ := Change.ofExcept_eq_ok.1 hmembers
  exact ⟨members, hstyle, count?_forM h⟩

/-- The habits are those from before and those of the style. -/
theorem has_tally {style : Value} (h : (tally style).outcome t = (.ok (), u)) :
    ∃ members, style.toMembers = .ok members ∧ ∀ habit,
      u.has habit = (t.has habit || members.has habit) := by
  obtain ⟨members, _, hmembers, hcounted⟩ := Change.bind_eq_ok.1 h
  obtain ⟨hstyle, rfl⟩ := Change.ofExcept_eq_ok.1 hmembers
  exact ⟨members, hstyle, has_forM hcounted⟩

theorem Tidy.put (h : tallies.Tidy) (habit : String) {counts : Table Label Value}
    (hvalues : Table.Distinct counts) (htexts : ∀ entry ∈ counts, entry.1.IsText) :
    Tidy (tallies.put habit counts) where
  habits := h.habits.put habit counts
  values := Table.forall_values_put (P := Table.Distinct) h.values hvalues
  texts := h.texts.put habit htexts

theorem tidy_tallyOne (habit text : String) : Change.Keeps Tidy (tallyOne habit (.text text)) := by
  unfold tallyOne
  refine Change.keeps_bind (Change.keeps_modify fun tallies h => ?_) fun _ => ?_
  · unfold Table.putNew
    split
    · exact h
    · exact h.put habit .nil (by simp)
  refine Change.keeps_bind_ofExcept fun label hlabel => ?_
  obtain rfl : Label.text text = label := Except.ok.inj hlabel
  refine Change.keeps_bind_get fun tallies h => ?_
  -- What was counted of the habit before is as tidy as everything.
  have hcounts : Table.Distinct ((tallies.get? habit).getD []) ∧
      ∀ entry ∈ (tallies.get? habit).getD [], entry.1.IsText := by
    cases hget : tallies.get? habit with
    | none => exact ⟨.nil, by simp⟩
    | some counts =>
      obtain ⟨known, hmem, _, rfl⟩ := Table.exists_mem_of_get? hget
      exact ⟨h.values known hmem, h.texts known hmem⟩
  refine (Change.keeps_bind_ofExcept (P := Tidy) fun count _ => ?_) tallies h
  refine Change.keeps_modify fun other hother => ?_
  exact hother.put habit (hcounts.1.put _ _) (Table.forall_keys_put hcounts.2 ⟨text, rfl⟩)

/-- Counting what can be counted keeps tallies tidy. -/
theorem tidy_tally {c : Sighting} (hc : c.Countable) : Change.Keeps Tidy (tally c.style) := by
  obtain ⟨style, hstyle, htexts⟩ := hc
  rw [hstyle]
  refine Change.keeps_bind_ofExcept fun members hmembers => ?_
  obtain rfl : style = members := Except.ok.inj hmembers
  refine Change.keeps_forM fun habit hhabit => ?_
  obtain ⟨text, htext⟩ := htexts habit hhabit
  rw [htext]
  exact tidy_tallyOne habit.1 text

/-! ### The style that was seen most often -/

/-- By their counts a value goes before all others: it has the greatest count, and is the
least of those that have it. -/
def Leads (counts : Label → Option Value) (label : Label) : Prop :=
  ∃ s n, label = .text s ∧ counts (.text s) = some (.int n) ∧
    ∀ t k, counts (.text t) = some (.int k) → k < n ∨ k = n ∧ s ≤ t

/-- Only one value leads. -/
theorem Leads.unique {counts : Label → Option Value} {label other : Label}
    (h : Leads counts label) (hother : Leads counts other) : label = other := by
  obtain ⟨s, n, rfl, hs, hsbest⟩ := h
  obtain ⟨t, k, rfl, ht, htbest⟩ := hother
  rcases hsbest t k ht with hless | ⟨hsame, hst⟩
  · rcases htbest s n hs with hmore | ⟨hmore, _⟩ <;> omega
  · rcases htbest s n hs with hmore | ⟨_, hts⟩
    · omega
    · rw [String.le_antisymm hst hts]

theorem goesBefore_text (s t : String) (n k : Int) :
    goesBefore (.text s, .int n) (.text t, .int k)
      = .ok (decide (k < n ∨ k = n ∧ s < t)) := by
  have hlabels : Precedence.label (.text s) (.text t) = some (decide (s < t)) := rfl
  have hlt : (Number.int k).lt (.int n) = decide (k < n) := rfl
  have hle : (Number.int k).le (.int n) = decide (k ≤ n) := rfl
  rw [goesBefore, hlabels, hlt, hle]
  by_cases hless : k < n
  · simp [hless]
  · by_cases hsame : k = n
    · simp [hsame]
    · have hmore : ¬ k ≤ n := by omega
      simp [hless, hsame, hmore]

/-- The value seen most often goes before the best so far and before all that follow. -/
theorem mostSeen_eq_ok {entries : List (Label × Value)} {s : String} {n : Int} {label : Label}
    (htexts : ∀ entry ∈ entries, entry.1.IsText) (hwhole : ∀ entry ∈ entries, ∃ n, entry.2 = .int n)
    (h : mostSeen (.text s, .int n) entries = .ok label) :
    ∃ t k, label = .text t ∧ (t = s ∧ k = n ∨ (Label.text t, Value.int k) ∈ entries) ∧
      (n < k ∨ n = k ∧ t ≤ s) ∧
      ∀ r m, (Label.text r, Value.int m) ∈ entries → m < k ∨ m = k ∧ t ≤ r := by
  induction entries generalizing s n with
  | nil =>
    cases h
    exact ⟨s, n, rfl, .inl ⟨rfl, rfl⟩, .inr ⟨rfl, String.le_refl s⟩, by simp⟩
  | cons entry rest ih =>
    obtain ⟨hentry, hrest⟩ := List.forall_mem_cons.1 htexts
    obtain ⟨hcount, hcounts⟩ := List.forall_mem_cons.1 hwhole
    obtain ⟨first, value⟩ := entry
    obtain ⟨r, rfl⟩ : ∃ r, first = .text r := hentry
    obtain ⟨m, rfl⟩ : ∃ m, value = .int m := hcount
    have hcounted : counted (.text r, .int m) = .ok (.text r, .int m) := rfl
    rw [mostSeen, hcounted, Except.ok_bind, goesBefore_text, Except.ok_bind] at h
    -- The better one of the two goes on against the rest.
    by_cases hbefore : n < m ∨ n = m ∧ r < s
    · rw [if_pos (decide_eq_true hbefore)] at h
      obtain ⟨t, k, rfl, hfound, hbest, hothers⟩ := ih hrest hcounts h
      refine ⟨t, k, rfl, .inr ?_, ?_, ?_⟩
      · rcases hfound with ⟨rfl, rfl⟩ | hfound
        · exact List.mem_cons_self
        · exact List.mem_cons_of_mem _ hfound
      · rcases hbefore with hless | ⟨rfl, hrs⟩
        · rcases hbest with hbest | ⟨rfl, _⟩
          · exact .inl (by omega)
          · exact .inl hless
        · rcases hbest with hbest | ⟨rfl, htr⟩
          · exact .inl hbest
          · exact .inr ⟨rfl, String.le_trans htr (String.not_lt.1 (String.lt_asymm hrs))⟩
      · intro r' m' hmem
        rcases List.mem_cons.1 hmem with hhead | htail
        · cases hhead
          rcases hbest with hbest | ⟨rfl, htr⟩
          · exact .inl hbest
          · exact .inr ⟨rfl, htr⟩
        · exact hothers r' m' htail
    · rw [if_neg (by simpa using hbefore)] at h
      obtain ⟨t, k, rfl, hfound, hbest, hothers⟩ := ih hrest hcounts h
      refine ⟨t, k, rfl, hfound.imp_right (List.mem_cons_of_mem _), hbest, ?_⟩
      intro r' m' hmem
      rcases List.mem_cons.1 hmem with hhead | htail
      · cases hhead
        -- The new one does not go before the best so far, which the leader goes before.
        rw [not_or, not_and, String.not_lt] at hbefore
        obtain ⟨hmn, hsr⟩ := hbefore
        rcases hbest with hbest | ⟨rfl, hts⟩
        · exact .inl (by omega)
        · by_cases hsame : n = m
          · exact .inr ⟨hsame.symm, String.le_trans hts (hsr hsame)⟩
          · exact .inl (by omega)
      · exact hothers r' m' htail

/-- What is found in counts of texts is what stands in them. -/
theorem get?_text_iff {counts : Table Label Value} (hd : Table.Distinct counts) {s : String}
    {value : Value} (htexts : ∀ entry ∈ counts, entry.1.IsText) :
    counts.get? (.text s) = some value ↔ (Label.text s, value) ∈ counts := by
  constructor
  · intro hget
    obtain ⟨⟨label, _⟩, hmem, hkey, rfl⟩ := Table.exists_mem_of_get? hget
    obtain ⟨t, rfl⟩ : ∃ t, label = .text t := htexts _ hmem
    have hsame : t = s := Key.text.inj (Label.beq_iff.1 hkey)
    rw [← hsame]
    exact hmem
  · exact fun hmem => Table.get?_of_mem hd hmem

/-- The value seen most often leads. -/
theorem leads_mostSeen {counts : Table Label Value} {first : Label × Value}
    {rest : List (Label × Value)} {label : Label} {best : Label × Number}
    (hcounts : counts = first :: rest) (hd : Table.Distinct counts)
    (htexts : ∀ entry ∈ counts, entry.1.IsText) (hwhole : ∀ entry ∈ counts, ∃ n, entry.2 = .int n)
    (hbest : counted first = .ok best) (h : mostSeen best rest = .ok label) :
    Leads counts.get? label := by
  subst hcounts
  obtain ⟨⟨s, hs⟩, hrest⟩ := List.forall_mem_cons.1 htexts
  obtain ⟨⟨n, hn⟩, hcounts⟩ := List.forall_mem_cons.1 hwhole
  obtain ⟨firstLabel, value⟩ := first
  dsimp only at hs hn
  subst hs hn
  cases hbest
  obtain ⟨t, k, rfl, hfound, hsbest, hothers⟩ := mostSeen_eq_ok hrest hcounts h
  refine ⟨t, k, rfl, (get?_text_iff hd htexts).2 ?_, fun r m hget => ?_⟩
  · rcases hfound with ⟨rfl, rfl⟩ | hfound
    · exact List.mem_cons_self
    · exact List.mem_cons_of_mem _ hfound
  · rcases List.mem_cons.1 ((get?_text_iff hd htexts).1 hget) with hhead | htail
    · cases hhead
      rcases hsbest with hless | ⟨rfl, hts⟩
      · exact .inl hless
      · exact .inr ⟨rfl, hts⟩
    · exact hothers r m htail

/-- The habits of which something was counted, in order. -/
def counting (tallies : Tallies) : Tallies :=
  (tallies.filter fun habit => !habit.2.isEmpty).mergeSort fun a b => !(b.1 < a.1)

theorem mem_counting {entry : String × Table Label Value} :
    entry ∈ tallies.counting ↔ entry ∈ tallies ∧ entry.2 ≠ [] := by
  simp [counting, List.mem_mergeSort, List.mem_filter]

/-- No habit stands twice, so their names ascend strictly. -/
theorem pairwise_counting (h : Table.Distinct tallies) :
    (tallies.counting.map (·.1)).Pairwise (· < ·) := by
  have hsorted : tallies.counting.Pairwise fun a b => !decide (b.1 < a.1) := by
    refine List.pairwise_mergeSort (fun a b c hab hbc => ?_) (fun a b => ?_) _
    · simp only [Bool.not_eq_true', decide_eq_false_iff_not, String.not_lt] at hab hbc ⊢
      exact String.le_trans hab hbc
    · simp only [Bool.or_eq_true, Bool.not_eq_true', decide_eq_false_iff_not, String.not_lt]
      exact String.le_total a.1 b.1
  have hkept : Table.Distinct (tallies.filter fun habit => !habit.2.isEmpty) := h.filter _
  have hdistinct : Table.Distinct tallies.counting := hkept.perm (List.mergeSort_perm _ _)
  refine List.pairwise_map.2 ((hsorted.and hdistinct).imp fun {a b} hab => ?_)
  obtain ⟨hle, hne⟩ := hab
  simp only [Bool.not_eq_true', decide_eq_false_iff_not, String.not_lt] at hle
  refine String.not_le.1 fun hge => ?_
  rw [String.le_antisymm hle hge, BEq.rfl] at hne
  cases hne

/-- A habit of the dominant style has the value that leads among its counts. -/
theorem leads_of_habit {entry : String × Table Label Value} {found : String × Label}
    (htidy : tallies.Tidy) (hwhole : tallies.Whole) (hentry : entry ∈ tallies)
    (h : (match entry.2 with
      | first :: rest => do return (entry.1, ← mostSeen (← counted first) rest)
      | [] => throw .wrongKind) = (.ok found : Except Fault (String × Label))) :
    Leads (tallies.count? entry.1) found.2 := by
  have hcount : tallies.count? entry.1 = entry.2.get? := by
    funext label
    rw [count?, Table.get?_of_mem htidy.habits hentry]
    rfl
  cases hcounts : entry.2 with
  | nil =>
    rw [hcounts] at h
    cases h
  | cons first rest =>
    simp only [hcounts] at h
    obtain ⟨best, hbest, h⟩ := Except.bind_eq_ok.1 h
    obtain ⟨label, hlabel, h⟩ := Except.bind_eq_ok.1 h
    cases h
    rw [hcount]
    exact leads_mostSeen hcounts (htidy.values entry hentry) (htidy.texts entry hentry)
      (hwhole entry hentry) hbest hlabel

theorem name_of_habit {entry : String × Table Label Value} {found : String × Label}
    (h : (match entry.2 with
      | first :: rest => do return (entry.1, ← mostSeen (← counted first) rest)
      | [] => throw .wrongKind) = (.ok found : Except Fault (String × Label))) :
    found.1 = entry.1 := by
  split at h
  · obtain ⟨best, _, h⟩ := Except.bind_eq_ok.1 h
    obtain ⟨label, _, h⟩ := Except.bind_eq_ok.1 h
    cases h
    rfl
  · cases h

/-- The habits of the dominant style stand in order, and each of them has the value that
leads. -/
theorem dominant_eq_ok {style : Table String Label} (htidy : tallies.Tidy) (hwhole : tallies.Whole)
    (h : tallies.dominant = .ok style) :
    (style.map (·.1)).Pairwise (· < ·) ∧
      ∀ found, found ∈ style ↔ Leads (tallies.count? found.1) found.2 := by
  constructor
  · rw [Except.map_of_mapM h fun _ _ => name_of_habit]
    exact pairwise_counting htidy.habits
  · intro found
    constructor
    · intro hfound
      obtain ⟨entry, hentry, hhabit⟩ := Except.exists_mem_of_mapM h hfound
      rw [name_of_habit hhabit]
      exact leads_of_habit htidy hwhole (mem_counting.1 hentry).1 hhabit
    · intro hleads
      -- What leads was counted, so its habit is among those that are gone over.
      obtain ⟨s, n, _, hget, _⟩ := id hleads
      obtain ⟨counts, hcounts, hvalue⟩ := Option.bind_eq_some_iff.1 hget
      obtain ⟨entry, hentry, hkey, rfl⟩ := Table.exists_mem_of_get? hcounts
      have hsome : entry ∈ tallies.counting := mem_counting.2 ⟨hentry, fun hempty => by
        rw [hempty] at hvalue
        cases hvalue⟩
      obtain ⟨other, hother, hhabit⟩ := Except.exists_result_of_mapM h hsome
      have hname : other.1 = found.1 := (name_of_habit hhabit).trans (eq_of_beq hkey)
      have hleadsOther := leads_of_habit htidy hwhole hentry hhabit
      rw [eq_of_beq hkey] at hleadsOther
      rw [← show other = found from Prod.ext hname (hleadsOther.unique hleads)]
      exact hother

/-- The style seen most often depends on the counts alone. -/
theorem dominant_congr (ht : t.Tidy) (hu : u.Tidy) (htwhole : t.Whole) (huwhole : u.Whole)
    (hsame : ∀ habit label, t.count? habit label = u.count? habit label) :
    t.dominant = u.dominant := by
  obtain ⟨style, hstyle⟩ := exists_dominant ht.texts htwhole
  obtain ⟨other, hother⟩ := exists_dominant hu.texts huwhole
  obtain ⟨hascends, hmem⟩ := dominant_eq_ok ht htwhole hstyle
  obtain ⟨hotherAscends, hotherMem⟩ := dominant_eq_ok hu huwhole hother
  have hnodup : ∀ {style : Table String Label}, (style.map (·.1)).Pairwise (· < ·) → style.Nodup := by
    intro style h
    refine (List.pairwise_map.1 h).imp fun {a b} hless heq => ?_
    rw [heq] at hless
    exact String.lt_irrefl _ hless
  have hperm : style.Perm other := by
    refine (List.perm_ext_iff_of_nodup (hnodup hascends) (hnodup hotherAscends)).2 fun found => ?_
    rw [hmem, hotherMem, show t.count? found.1 = u.count? found.1 from funext (hsame found.1)]
  rw [hstyle, hother, hperm.eq_of_pairwise (fun a b _ _ hab hba => ?_) (List.pairwise_map.1 hascends)
    (List.pairwise_map.1 hotherAscends)]
  exact absurd (String.lt_trans hab hba) (String.lt_irrefl _)

end CodeHabits.Tallies
