import CodeHabits.Table
import Mathlib.Algebra.Ring.Int.Defs

/-!
# `CodeHabits.Proofs.Table`: looking up in tables

A table is a list of entries, and the first entry of a key is the one that
counts. `Distinct` says that no key has two, which is what makes an entry of
the list the one that `get?` finds (`get?_of_mem`).

`put` either appends (`put_of_not_has`) or replaces one value in its place.
`map_put_of_get?` states what the second case leaves alone: everything that the
new value shares with the old one.
-/

set_option autoImplicit false

namespace CodeHabits.Table

variable {κ α β : Type} [BEq κ]

/-- No two entries have the same key. -/
def Distinct (table : Table κ α) : Prop :=
  table.Pairwise fun a b => (a.1 == b.1) = false

theorem get?_nil (key : κ) : Table.get? ([] : Table κ α) key = none :=
  rfl

theorem get?_cons (entry : κ × α) (rest : Table κ α) (key : κ) :
    Table.get? (entry :: rest) key = if entry.1 == key then some entry.2 else rest.get? key := by
  by_cases h : (entry.1 == key) = true <;> simp [get?, h]

theorem get?_eq_none_iff {table : Table κ α} {key : κ} :
    table.get? key = none ↔ table.has key = false := by
  rw [has_eq_isSome_get?]
  cases table.get? key <;> simp

theorem has_eq_false_iff {table : Table κ α} {key : κ} :
    table.has key = false ↔ ∀ entry ∈ table, (entry.1 == key) = false := by
  simp [has]

/-- What `get?` finds is the value of an entry with that key. -/
theorem exists_mem_of_get? {table : Table κ α} {key : κ} {value : α}
    (h : table.get? key = some value) :
    ∃ entry ∈ table, (entry.1 == key) = true ∧ entry.2 = value := by
  obtain ⟨entry, hfind, hvalue⟩ := Option.map_eq_some_iff.1 h
  have hkey := List.find?_some hfind
  exact ⟨entry, List.mem_of_find?_eq_some hfind, hkey, hvalue⟩

/-- Where keys are distinct, every entry is found under its key. -/
theorem get?_of_mem [ReflBEq κ] {table : Table κ α} (hd : Distinct table) {entry : κ × α}
    (h : entry ∈ table) : table.get? entry.1 = some entry.2 := by
  induction table with
  | nil => cases h
  | cons first rest ih =>
    obtain ⟨hfirst, hrest⟩ := List.pairwise_cons.1 hd
    rcases List.mem_cons.1 h with rfl | hmem
    · simp [get?]
    · have hne : (first.1 == entry.1) = false := hfirst entry hmem
      simpa [get?, hne] using ih hrest hmem

/-- Pairs of keys are compared part by part. -/
instance instPartialEquivBEqProd {κ' : Type} [BEq κ'] [PartialEquivBEq κ] [PartialEquivBEq κ'] :
    PartialEquivBEq (κ × κ') where
  symm h := by
    obtain ⟨hfst, hsnd⟩ := Bool.and_eq_true_iff.1 h
    exact Bool.and_eq_true_iff.2 ⟨PartialEquivBEq.symm hfst, PartialEquivBEq.symm hsnd⟩
  trans h h' := by
    obtain ⟨hfst, hsnd⟩ := Bool.and_eq_true_iff.1 h
    obtain ⟨hfst', hsnd'⟩ := Bool.and_eq_true_iff.1 h'
    exact Bool.and_eq_true_iff.2
      ⟨PartialEquivBEq.trans hfst hfst', PartialEquivBEq.trans hsnd hsnd'⟩

/-- Where keys are distinct, the order of the entries does not matter. -/
theorem get?_perm [PartialEquivBEq κ] {table other : Table κ α} (h : table.Perm other)
    (hd : Distinct table) (key : κ) : table.get? key = other.get? key := by
  induction h with
  | nil => rfl
  | cons entry _ ih => rw [get?_cons, get?_cons, ih (List.pairwise_cons.1 hd).2]
  | swap first second rest =>
    have hne : (second.1 == first.1) = false := (List.pairwise_cons.1 hd).1 first (by simp)
    rw [get?_cons, get?_cons, get?_cons, get?_cons]
    by_cases hfirst : (first.1 == key) = true
    · have hsecond : ¬ (second.1 == key) = true := by
        intro hsecond
        rw [PartialEquivBEq.trans hsecond (PartialEquivBEq.symm hfirst)] at hne
        cases hne
      rw [if_neg hsecond, if_pos hfirst, if_pos hfirst]
    · rw [if_neg hfirst, if_neg hfirst]
  | trans h _ ih ih' =>
    have hsymm : ∀ {a b : κ × α}, (a.1 == b.1) = false → (b.1 == a.1) = false := by
      intro a b hab
      rw [BEq.comm]
      exact hab
    rw [ih hd, ih' ((h.pairwise_iff hsymm).1 hd)]

/-- A new key comes last. -/
theorem put_of_not_has {table : Table κ α} {key : κ} {value : α} (h : table.has key = false) :
    table.put key value = table ++ [(key, value)] := by
  induction table with
  | nil => rfl
  | cons entry rest ih =>
    obtain ⟨hentry, hrest⟩ : (entry.1 == key) = false ∧ Table.has rest key = false := by
      simpa [has] using h
    rw [put, hentry, ih hrest]
    rfl

theorem putNew_of_has {table : Table κ α} {key : κ} {value : α} (h : table.has key = true) :
    table.putNew key value = table := by
  rw [putNew, if_pos h]

/-- A value put in the place of another changes nothing that the two have in
common. -/
theorem map_put_of_get? {table : Table κ α} {key : κ} {old value : α} (f : κ × α → β)
    (hget : table.get? key = some old) (hf : ∀ k, f (k, value) = f (k, old)) :
    (table.put key value).map f = table.map f := by
  induction table with
  | nil => simp [get?] at hget
  | cons entry rest ih =>
    by_cases hkey : (entry.1 == key) = true
    · have hold : entry.2 = old := by simpa [get?, hkey] using hget
      rw [put, if_pos hkey, List.map_cons, List.map_cons, hf, ← hold]
    · have hrest : Table.get? rest key = some old := by simpa [get?, hkey] using hget
      rw [put, if_neg hkey, List.map_cons, List.map_cons, ih hrest]

/-- A sum over the values changes by what the new value has over the old one. -/
theorem sum_put_of_get? {table : Table κ α} {key : κ} {old value : α} (f : α → Int)
    (hget : table.get? key = some old) :
    ((table.put key value).map fun entry => f entry.2).sum
      = (table.map fun entry => f entry.2).sum - f old + f value := by
  induction table with
  | nil => cases hget
  | cons entry rest ih =>
    rw [get?_cons] at hget
    by_cases hkey : (entry.1 == key) = true
    · rw [if_pos hkey] at hget
      rw [put, if_pos hkey, ← Option.some.inj hget]
      simp only [List.map_cons, List.sum_cons]
      omega
    · rw [if_neg hkey] at hget
      rw [put, if_neg hkey]
      simp only [List.map_cons, List.sum_cons, ih hget]
      omega

/-- Other values are found under the same keys. -/
theorem get?_map_values (table : Table κ α) (f : α → β) (key : κ) :
    Table.get? (table.map fun entry => (entry.1, f entry.2)) key = (table.get? key).map f := by
  induction table with
  | nil => rfl
  | cons entry rest ih =>
    rw [List.map_cons, get?_cons, get?_cons, ih]
    split <;> rfl

/-- Keys that are as good as each other lead to the same value. -/
theorem get?_congr [PartialEquivBEq κ] (table : Table κ α) {key other : κ}
    (h : (key == other) = true) : table.get? key = table.get? other := by
  induction table with
  | nil => rfl
  | cons entry rest ih =>
    have hsame : (entry.1 == key) = (entry.1 == other) := by
      rw [Bool.eq_iff_iff]
      exact ⟨fun hkey => PartialEquivBEq.trans hkey h,
        fun hother => PartialEquivBEq.trans hother (PartialEquivBEq.symm h)⟩
    rw [get?_cons, get?_cons, hsame, ih]

/-- A value that is put is found under its key, and the others are found as before. -/
theorem get?_put [PartialEquivBEq κ] (table : Table κ α) (key : κ) (value : α) (other : κ) :
    (table.put key value).get? other = if key == other then some value else table.get? other := by
  induction table with
  | nil => rw [put, get?_cons]
  | cons entry rest ih =>
    rw [put]
    by_cases hkey : (entry.1 == key) = true
    · -- The entry keeps its own key, which is as good as the new one.
      have hsame : (entry.1 == other) = (key == other) := by
        rw [Bool.eq_iff_iff]
        exact ⟨fun h => PartialEquivBEq.trans (PartialEquivBEq.symm hkey) h,
          fun h => PartialEquivBEq.trans hkey h⟩
      rw [if_pos hkey, get?_cons, get?_cons, hsame]
      cases key == other <;> rfl
    · rw [if_neg hkey, get?_cons, get?_cons, ih]
      by_cases hother : (entry.1 == other) = true
      · have hne : ¬ (key == other) = true := fun h =>
          hkey (PartialEquivBEq.trans hother (PartialEquivBEq.symm h))
        rw [if_pos hother, if_pos hother, if_neg hne]
      · rw [if_neg hother, if_neg hother]

/-- One key more has a value. -/
theorem has_put [PartialEquivBEq κ] (table : Table κ α) (key : κ) (value : α) (other : κ) :
    (table.put key value).has other = (table.has other || key == other) := by
  rw [has_eq_isSome_get?, has_eq_isSome_get?, get?_put]
  cases key == other <;> simp

/-- In two tables, one behind the other, the first is searched first. -/
theorem get?_append (table other : Table κ α) (key : κ) :
    Table.get? (table ++ other) key = (table.get? key).or (other.get? key) := by
  induction table with
  | nil => rfl
  | cons entry rest ih =>
    rw [List.cons_append, get?_cons, get?_cons, ih]
    split <;> rfl

/-- Keys that are dropped are not found, and the others are found as before. -/
theorem get?_filter_keys [LawfulBEq κ] (table : Table κ α) (keep : κ → Bool) (key : κ) :
    Table.get? (table.filter fun entry => keep entry.1) key
      = if keep key then table.get? key else none := by
  induction table with
  | nil => simp [get?_nil]
  | cons entry rest ih =>
    by_cases hkey : entry.1 = key
    · subst hkey
      cases hkeep : keep entry.1 <;> simp [hkeep, ih, get?_cons]
    · cases hkeep : keep entry.1 <;> simp [hkeep, ih, get?_cons, hkey]

/-- A value put in if there is none is found if there was none. -/
theorem get?_putNew [PartialEquivBEq κ] (table : Table κ α) (key : κ) (value : α) (other : κ) :
    (table.putNew key value).get? other
      = (table.get? other).or (if key == other then some value else none) := by
  have hcongr (h : (key == other) = true) : table.get? key = table.get? other :=
    get?_congr table h
  cases hhas : table.has key with
  | true =>
    rw [putNew_of_has hhas]
    rw [has_eq_isSome_get?] at hhas
    cases hkey : key == other with
    | true =>
      rw [hcongr hkey] at hhas
      obtain ⟨found, hfound⟩ := Option.isSome_iff_exists.1 hhas
      rw [hfound]
      rfl
    | false => simp
  | false =>
    rw [putNew, if_neg (by simp [hhas]), get?_put]
    rw [has_eq_isSome_get?, Option.isSome_eq_false_iff, Option.isNone_iff_eq_none] at hhas
    cases hkey : key == other with
    | true =>
      rw [← hcongr hkey, hhas]
      rfl
    | false => simp

/-- Entries put in one after the other if there are none: those that are missing come behind
the others. -/
theorem foldl_putNew [PartialEquivBEq κ] {entries : Table κ α} (hdistinct : Distinct entries)
    (table : Table κ α) :
    entries.foldl (fun t entry => t.putNew entry.1 entry.2) table
      = table ++ entries.filter fun entry => !table.has entry.1 := by
  induction entries generalizing table with
  | nil => simp
  | cons entry rest ih =>
    obtain ⟨hfirst, hrest⟩ := List.pairwise_cons.1 hdistinct
    rw [List.foldl_cons, ih hrest]
    cases hhas : table.has entry.1 with
    | true => rw [putNew_of_has hhas, List.filter_cons, hhas]; rfl
    | false =>
      -- The rest does not have this key, so it makes no difference to what is missing there.
      have hsame : rest.filter (fun other => !(table.put entry.1 entry.2).has other.1)
          = rest.filter fun other => !table.has other.1 := by
        refine List.filter_congr fun other hother => ?_
        rw [has_put, hfirst other hother, Bool.or_false]
      rw [putNew, if_neg (by simp [hhas]), hsame, put_of_not_has hhas, List.filter_cons, hhas]
      simp

/-- The entries of a table with one more are old ones, or have the new value
under the new key or an old one. -/
theorem mem_put_cases {table : Table κ α} {key : κ} {value : α} {entry : κ × α}
    (h : entry ∈ table.put key value) :
    entry ∈ table ∨ entry.2 = value ∧ (entry.1 = key ∨ ∃ old ∈ table, old.1 = entry.1) := by
  induction table with
  | nil =>
    rw [put, List.mem_singleton] at h
    rw [h]
    exact .inr ⟨rfl, .inl rfl⟩
  | cons first rest ih =>
    rw [put] at h
    split at h
    · -- The value is overwritten here, and the entry keeps the key that it had.
      rcases List.mem_cons.1 h with rfl | hrest
      · exact .inr ⟨rfl, .inr ⟨first, List.mem_cons_self, rfl⟩⟩
      · exact .inl (List.mem_cons_of_mem _ hrest)
    · rcases List.mem_cons.1 h with rfl | hrest
      · exact .inl List.mem_cons_self
      · rcases ih hrest with hold | ⟨hvalue, hkey | ⟨old, hmem, hkey⟩⟩
        · exact .inl (List.mem_cons_of_mem _ hold)
        · exact .inr ⟨hvalue, .inl hkey⟩
        · exact .inr ⟨hvalue, .inr ⟨old, List.mem_cons_of_mem _ hmem, hkey⟩⟩

theorem forall_values_put {table : Table κ α} {key : κ} {value : α} {P : α → Prop}
    (h : ∀ entry ∈ table, P entry.2) (hvalue : P value) :
    ∀ entry ∈ table.put key value, P entry.2 := by
  intro entry hentry
  rcases mem_put_cases hentry with hold | ⟨hnew, _⟩
  · exact h entry hold
  · rw [hnew]
    exact hvalue

theorem forall_keys_put {table : Table κ α} {key : κ} {value : α} {P : κ → Prop}
    (h : ∀ entry ∈ table, P entry.1) (hkey : P key) :
    ∀ entry ∈ table.put key value, P entry.1 := by
  intro entry hentry
  rcases mem_put_cases hentry with hold | ⟨_, hnew | ⟨old, hmem, hold⟩⟩
  · exact h entry hold
  · rw [hnew]
    exact hkey
  · rw [← hold]
    exact h old hmem

/-- Distinct keys stay distinct when a new one is added at the end. -/
theorem Distinct.append {table : Table κ α} (hd : Distinct table) {key : κ}
    {value : α} (h : table.has key = false) : Distinct (table ++ [(key, value)]) := by
  refine List.pairwise_append.2 ⟨hd, by simp, ?_⟩
  intro entry hentry last hlast
  rw [List.mem_singleton] at hlast
  rw [hlast]
  exact has_eq_false_iff.1 h entry hentry

theorem Distinct.perm [PartialEquivBEq κ] {table other : Table κ α} (hd : Distinct table)
    (h : other.Perm table) : Distinct other :=
  (h.pairwise_iff fun {a b} hab => by rw [BEq.comm]; exact hab).2 hd

/-- Other values under the same keys. -/
theorem Distinct.map_values {table : Table κ α} (hd : Distinct table) (f : α → β) :
    Distinct (table.map fun entry => (entry.1, f entry.2)) :=
  List.pairwise_map.2 hd

theorem Distinct.put {table : Table κ α} (hd : Distinct table) (key : κ) (value : α) :
    Distinct (table.put key value) := by
  cases h : table.has key with
  | false =>
    rw [put_of_not_has h]
    exact hd.append h
  | true =>
    -- A value put in the place of another leaves the keys as they are.
    obtain ⟨old, hget⟩ := Option.isSome_iff_exists.1 ((has_eq_isSome_get? table key).symm.trans h)
    have hkeys : (table.put key value).map (fun entry => entry.1) = table.map fun entry => entry.1 :=
      map_put_of_get? _ hget fun _ => rfl
    have hold : (table.map fun entry => entry.1).Pairwise fun a b => (a == b) = false :=
      List.pairwise_map.2 hd
    rw [← hkeys] at hold
    exact List.pairwise_map.1 hold

theorem Distinct.overlay {lower : Table κ α} (hd : Distinct lower) (upper : Table κ α) :
    Distinct (Table.overlay upper lower) := by
  induction upper generalizing lower with
  | nil => exact hd
  | cons entry rest ih => exact ih (hd.put entry.1 entry.2)

/-- Of two tables, one put over the other, the upper one is searched first. -/
theorem get?_overlay [PartialEquivBEq κ] {upper : Table κ α} (hd : Distinct upper)
    (lower : Table κ α) (key : κ) :
    (Table.overlay upper lower).get? key = (upper.get? key).or (lower.get? key) := by
  induction upper generalizing lower with
  | nil => rfl
  | cons entry rest ih =>
    obtain ⟨hfirst, hrest⟩ := List.pairwise_cons.1 hd
    have hstep : (Table.overlay (entry :: rest) lower).get? key
        = (Table.get? rest key).or ((lower.put entry.1 entry.2).get? key) := ih hrest _
    rw [hstep, get?_put, get?_cons]
    by_cases hkey : (entry.1 == key) = true
    · -- The rest does not have the key of the first entry.
      have hnone : Table.get? rest key = none := by
        rw [get?_eq_none_iff, has_eq_false_iff]
        intro other hother
        rw [← Bool.not_eq_true]
        intro hsame
        have hnot := hfirst other hother
        rw [PartialEquivBEq.trans hkey (PartialEquivBEq.symm hsame)] at hnot
        cases hnot
      rw [if_pos hkey, if_pos hkey, hnone]
      rfl
    · rw [if_neg hkey, if_neg hkey]

end CodeHabits.Table
