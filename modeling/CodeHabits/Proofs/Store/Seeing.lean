import CodeHabits.Proofs.Store.Merging

/-!
# `CodeHabits.Proofs.Store.Seeing`: what sightings leave

A store learns from a sighting in one of two ways. A pattern that is recognised is seen
again in its place, and any other one is taken in under an id that was free. `Learned`
names the two, and `upsert_eq_ok` says that a sighting that is learned leaves nothing else.

The rest follows from it. Only the pattern with the name of the sighting changes, and what
becomes of it depends on nothing else in the store. So the patterns of different names go
separate ways: after several sightings, `SeenAll` tells for each name what became of its
pattern from the sightings with that name alone (`Learned.seenAll`). What is to be shown of
one pattern is then an induction over `SeenAll`, in which no store occurs.
-/

set_option autoImplicit false

namespace CodeHabits

open Time (Timestamp)

variable {ν : Type}

/-- What a pattern is recognised by, as a sighting of it tells. -/
def Sighting.name (c : Sighting) : Label × Label :=
  (c.language, c.signature)

/-- A confidence and whether its pattern is retired, after one more sighting. -/
def Smoothing.renew [Magnitude ν] (m : Smoothing ν) (confidence : ν) (retired : Value) :
    Except Fault (ν × Value) := do
  let confidence ← m.toward confidence
  if retired.truthy then
    if ← Magnitude.lt m.floor confidence then return (confidence, .bool false)
  return (confidence, retired)

namespace Store

/-- The pattern of a name. -/
def named? (s : Store ν) (name : Label × Label) : Option (Pattern ν) :=
  (s.lookup? name.1 name.2).bind s.get?

variable {s t : Store ν} {p q r : Pattern ν} {id other : Label} {name : Label × Label}
  {now : Timestamp} {c : Sighting} {m : Smoothing ν} {idOf : IdScheme}

theorem lookup?_congr (s : Store ν) {name other : Label × Label} (h : (name == other) = true) :
    s.lookup? name.1 name.2 = s.lookup? other.1 other.2 := by
  show Option.filter _ (s.index.get? name) = Option.filter _ (s.index.get? other)
  rw [Table.get?_congr s.index h]

theorem named?_congr (s : Store ν) {name other : Label × Label} (h : (name == other) = true) :
    s.named? name = s.named? other := by
  rw [named?, named?, s.lookup?_congr h]

theorem size_replace (hget : s.get? id = some p) (q : Pattern ν) :
    (s.replace id q).size = s.size := by
  have hkeys : (Table.put s.patterns id q).map (fun _ => ()) = s.patterns.map fun _ => () :=
    Table.map_put_of_get? (fun _ => ()) hget fun _ => rfl
  simpa [size, replace] using congrArg List.length hkeys

theorem size_insert (hfree : s.get? p.id = none) : (s.insert p).size = s.size + 1 := by
  have hnew : s.patterns.has p.id = false := Table.get?_eq_none_iff.1 hfree
  simp [size, insert, Table.put_of_not_has hnew]

/-- A sum over the patterns. -/
def sum (f : Pattern ν → Int) (s : Store ν) : Int :=
  (s.patterns.map fun entry => f entry.2).sum

theorem sum_replace (f : Pattern ν → Int) (hget : s.get? id = some p) (q : Pattern ν) :
    (s.replace id q).sum f = s.sum f - f p + f q :=
  Table.sum_put_of_get? f hget

theorem sum_insert (f : Pattern ν → Int) (hfree : s.get? p.id = none) :
    (s.insert p).sum f = s.sum f + f p := by
  have hnew : s.patterns.has p.id = false := Table.get?_eq_none_iff.1 hfree
  simp [sum, insert, Table.put_of_not_has hnew]

variable [Magnitude ν]

/-! ### One pattern -/

/-- What a further sighting makes of a pattern. -/
structure SeenAgain (m : Smoothing ν) (now : Timestamp) (c : Sighting) (p q : Pattern ν) :
    Prop where
  counted : Magnitude.add p.frequency (Magnitude.ofInt 1) = .ok q.frequency
  renewed : m.renew p.confidence p.retired = .ok (q.confidence, q.retired)
  tallied : (Tallies.tally c.style).outcome p.styles = (.ok (), q.styles)
  rest : q = { p with
    frequency := q.frequency
    confidence := q.confidence
    retired := q.retired
    styles := q.styles
    sourceFiles := Pattern.addSource p.sourceFiles c.sourceFile
    lastSeen := now
    lastTouched := now }

omit [Magnitude ν] in
/-- Counting the style of a sighting counts it in the tallies and leaves all else. -/
theorem countStyle_eq_ok (h : (countStyle c).outcome p = (.ok (), q)) :
    (Tallies.tally c.style).outcome p.styles = (.ok (), q.styles) ∧
      q = { p with styles := q.styles } := by
  rw [countStyle, Change.outcome_within] at h
  obtain ⟨hresult, rfl⟩ := Prod.mk.inj h
  exact ⟨Prod.ext hresult rfl, rfl⟩

theorem seeAgain_eq_ok (h : (seeAgain m now c).outcome p = (.ok (), q)) :
    SeenAgain m now c p q := by
  unfold seeAgain at h
  rw [Change.outcome_bind_get] at h
  obtain ⟨frequency, _, hadd, h⟩ := Change.bind_eq_ok.1 h
  obtain ⟨hcounted, rfl⟩ := Change.ofExcept_eq_ok.1 hadd
  obtain ⟨_, _, hfile, h⟩ := Change.bind_eq_ok.1 h
  cases hfile
  rw [Change.outcome_bind_get] at h
  obtain ⟨confidence, _, htoward, h⟩ := Change.bind_eq_ok.1 h
  obtain ⟨hconfidence, rfl⟩ := Change.ofExcept_eq_ok.1 htoward
  obtain ⟨_, _, hmoved, h⟩ := Change.bind_eq_ok.1 h
  cases hmoved
  obtain ⟨_, counted, hstyle, h⟩ := Change.bind_eq_ok.1 h
  obtain ⟨htallied, hstyles⟩ := countStyle_eq_ok hstyle
  obtain ⟨_, _, htimes, h⟩ := Change.bind_eq_ok.1 h
  cases htimes
  rw [Change.outcome_bind_get] at h
  -- What is left is to revive a retired pattern, which depends on the new confidence.
  have hrenew : m.renew p.confidence p.retired = (do
      if p.retired.truthy then
        if ← Magnitude.lt m.floor confidence then return (confidence, .bool false)
      return (confidence, p.retired)) := by
    rw [Smoothing.renew, hconfidence]
    rfl
  have hretired : counted.retired = p.retired := by rw [hstyles]
  simp only [Pattern.isRetired, hretired] at h
  split at h
  · rename_i hwas
    rw [if_pos hwas] at hrenew
    obtain ⟨above, _, hlt, h⟩ := Change.bind_eq_ok.1 h
    obtain ⟨habove, rfl⟩ := Change.ofExcept_eq_ok.1 hlt
    rw [habove] at hrenew
    cases above with
    | true =>
      cases h
      rw [hstyles] at htallied ⊢
      exact ⟨hcounted, hrenew, htallied, rfl⟩
    | false =>
      cases h
      rw [hstyles] at htallied ⊢
      exact ⟨hcounted, hrenew, htallied, rfl⟩
  · rename_i hwas
    rw [if_neg hwas] at hrenew
    cases h
    rw [hstyles] at htallied ⊢
    exact ⟨hcounted, hrenew, htallied, rfl⟩

/-- A pattern that was taken in at its first sighting. -/
structure SeenFirst (m : Smoothing ν) (now : Timestamp) (c : Sighting) (id : Label)
    (q : Pattern ν) : Prop where
  clamped : clampConfidence m.base = .ok q.confidence
  tallied : (Tallies.tally c.style).outcome [] = (.ok (), q.styles)
  rest : q = {
    id
    language := c.language
    signature := c.signature
    kind := c.kind
    confidence := q.confidence
    frequency := Magnitude.ofInt 1
    firstSeen := now
    lastSeen := now
    lastTouched := now
    sourceFiles := [c.sourceFile]
    feedback := []
    styles := q.styles
    sample := c.sample
    retired := .bool false }

theorem seenFirst_of_ok (hfirst : firstSighting m id now c = .ok p)
    (hstyle : (countStyle c).outcome p = (.ok (), q)) : SeenFirst m now c id q := by
  obtain ⟨confidence, hclamped, hp⟩ := Except.bind_eq_ok.1 hfirst
  cases hp
  obtain ⟨htallied, hstyles⟩ := countStyle_eq_ok hstyle
  rw [hstyles] at htallied ⊢
  exact ⟨hclamped, htallied, rfl⟩

/-- What a sighting makes of the pattern of its name, which may be new. -/
def Seen (m : Smoothing ν) (now : Timestamp) (c : Sighting) (before? : Option (Pattern ν))
    (q : Pattern ν) : Prop :=
  match before? with
  | none => ∃ id, SeenFirst m now c id q
  | some p => SeenAgain m now c p q

/-- The files of a pattern that may be there or not. -/
def filesOf (known? : Option (Pattern ν)) : List Value :=
  known?.elim [] (·.sourceFiles)

theorem Seen.sourceFiles {before? : Option (Pattern ν)} (h : Seen m now c before? q) :
    q.sourceFiles = Pattern.addSource (filesOf before?) c.sourceFile := by
  cases before? with
  | none =>
    obtain ⟨id, hseen⟩ := h
    rw [hseen.rest]
    rfl
  | some p =>
    have hseen : SeenAgain m now c p q := h
    rw [hseen.rest]
    rfl

/-- What several sightings of one pattern make of it, which may be there or not. -/
inductive SeenAll (m : Smoothing ν) (now : Timestamp) :
    List Sighting → Option (Pattern ν) → Option (Pattern ν) → Prop
  | nil {before? : Option (Pattern ν)} : SeenAll m now [] before? before?
  | cons {c : Sighting} {rest : List Sighting} {before? after? : Option (Pattern ν)}
      {q : Pattern ν} (hfirst : Seen m now c before? q) (hrest : SeenAll m now rest (some q) after?) :
      SeenAll m now (c :: rest) before? after?

/-! ### One sighting -/

/-- What a store is like after it has learned from a sighting, and under which id the
pattern of the sighting is kept. -/
inductive Learned (idOf : IdScheme) (now : Timestamp) (c : Sighting) (s : Store ν) :
    Label → Store ν → Prop
  | again {id : Label} {p q : Pattern ν} (hlookup : s.lookup? c.language c.signature = some id)
      (hget : s.get? id = some p) (hseen : SeenAgain s.smoothing now c p q) :
      Learned idOf now c s id (s.replace id q)
  | first {q : Pattern ν} (hlookup : s.lookup? c.language c.signature = none)
      (hseen : SeenFirst s.smoothing now c
        (.text (s.freeId (idOf c.language c.signature))) q) :
      Learned idOf now c s (.text (s.freeId (idOf c.language c.signature))) (s.insert q)

theorem upsert_eq_ok (h : (upsert idOf now c).outcome s = (.ok id, t)) :
    Learned idOf now c s id t := by
  rw [upsert, Change.outcome_bind_get] at h
  cases hlookup : s.lookup? c.language c.signature with
  | some known =>
    rw [hlookup] at h
    obtain ⟨_, u, halter, hpure⟩ := Change.bind_eq_ok.1 h
    cases hpure
    rw [alter, Change.outcome_bind_get] at halter
    cases hget : s.get? id with
    | none =>
      rw [hget] at halter
      cases halter
    | some p =>
      rw [hget] at halter
      dsimp only at halter
      rw [Change.outcome_within] at halter
      obtain ⟨hresult, rfl⟩ := Prod.mk.inj halter
      exact .again hlookup hget (seeAgain_eq_ok (Prod.ext hresult rfl))
  | none =>
    rw [hlookup] at h
    obtain ⟨p, _, htaken, h⟩ := Change.bind_eq_ok.1 h
    obtain ⟨hfirst, rfl⟩ := Change.ofExcept_eq_ok.1 htaken
    rcases hstyle : (countStyle c).outcome p with ⟨counted, q⟩
    rw [hstyle] at h
    obtain ⟨_, _, hcounted, h⟩ := Change.bind_eq_ok.1 h
    obtain ⟨rfl, rfl⟩ := Change.ofExcept_eq_ok.1 hcounted
    cases h
    exact .first hlookup (seenFirst_of_ok hfirst hstyle)

namespace Learned

theorem linked (h : Learned idOf now c s id t) (hs : s.Linked) : t.Linked := by
  cases h with
  | again _ hget hseen =>
    -- Neither the id nor the name of the pattern is touched, so the outline stays.
    exact linked_ofOutline s _ hs (outline_replace hget (by rw [hseen.rest]; exact ⟨rfl, rfl⟩)) rfl
  | first _ hseen =>
    refine hs.insert ?_ ?_
    · rw [hseen.rest]
      exact text_ne_null _
    · rw [hseen.rest]
      exact get?_freeId s _

theorem smoothing (h : Learned idOf now c s id t) : t.smoothing = s.smoothing := by
  cases h <;> rfl

/-- What was learned is recognised, and found under the id that was answered. -/
theorem seen (h : Learned idOf now c s id t) :
    t.lookup? c.language c.signature = some id ∧
      ∃ q, t.get? id = some q ∧ Seen s.smoothing now c (s.named? c.name) q := by
  cases h with
  | @again _ p q hlookup hget hseen =>
    refine ⟨hlookup, q, ?_, ?_⟩
    · rw [get?_replace, if_pos BEq.rfl]
    · have hnamed : s.named? c.name = some p := Option.bind_eq_some_iff.2 ⟨id, hlookup, hget⟩
      rw [hnamed]
      exact hseen
  | @first q hlookup hseen =>
    have hid : q.id = .text (s.freeId (idOf c.language c.signature)) := by rw [hseen.rest]
    have hname : (q.name == (c.language, c.signature)) = true := by
      rw [hseen.rest]
      exact BEq.rfl
    refine ⟨?_, q, ?_, ?_⟩
    · rw [lookup?_insert (by rw [hid]; exact text_ne_null _), if_pos hname, hid]
    · rw [get?_insert, hid, if_pos BEq.rfl]
    · have hnamed : s.named? c.name = none := Option.bind_eq_none_iff.2 fun id hid => by
        rw [Sighting.name, hlookup] at hid
        cases hid
      rw [hnamed]
      exact ⟨_, hseen⟩

/-- What was recognised still is, under the same id. -/
theorem recognised (h : Learned idOf now c s id t) {language signature : Label}
    (hother : s.lookup? language signature = some other) :
    t.lookup? language signature = some other := by
  cases h with
  | again _ _ _ => exact hother
  | @first q hlookup hseen =>
    have hnull : (q.id == .null) = false := by
      rw [hseen.rest]
      exact text_ne_null _
    have hunknown : s.lookup? q.language q.signature = none := by
      rw [hseen.rest]
      exact hlookup
    exact lookup?_insert_of_known hnull hunknown hother

/-- A pattern that is not the one that was seen stays as it is. -/
theorem of_known (h : Learned idOf now c s id t) (hs : s.Linked) (hget : s.get? other = some p) :
    t.get? other = some p ∨
      (p.name == c.name) = true ∧ ∃ q, SeenAgain s.smoothing now c p q ∧ t.get? other = some q := by
  cases h with
  | @again _ before q hlookup hknown hseen =>
    rw [get?_replace]
    by_cases hid : (id == other) = true
    · have hsame : some before = some p := by rw [← hknown, ← hget, s.get?_congr hid]
      cases hsame
      obtain ⟨found, hfound, hname⟩ := hs _ _ _ hlookup
      rw [hknown] at hfound
      cases hfound
      rw [if_pos hid]
      exact .inr ⟨hname, q, hseen, rfl⟩
    · rw [if_neg hid]
      exact .inl hget
  | first _ hseen =>
    refine .inl (get?_insert_of_free ?_ hget)
    rw [hseen.rest]
    exact get?_freeId s _

/-- Under another name nothing changes. -/
theorem named?_of_ne (h : Learned idOf now c s id t) (hs : s.Linked)
    (hne : (c.name == name) = false) : t.named? name = s.named? name := by
  have hlookup : t.lookup? name.1 name.2 = s.lookup? name.1 name.2 := by
    cases h with
    | again _ _ _ => rfl
    | first _ hseen =>
      rw [hseen.rest, lookup?_insert (text_ne_null _), if_neg]
      rw [Bool.not_eq_true]
      exact hne
  rw [named?, named?, hlookup]
  cases hother : s.lookup? name.1 name.2 with
  | none => rfl
  | some id =>
    obtain ⟨p, hget, hname⟩ := hs _ _ _ hother
    rcases h.of_known hs hget with hsame | ⟨hseen, _⟩
    · exact hsame.trans hget.symm
    · -- Then the pattern would have the name of the sighting too.
      have hsame : (c.name == name) = true :=
        PartialEquivBEq.trans (PartialEquivBEq.symm hseen) hname
      rw [hne] at hsame
      cases hsame

/-- A sum over the patterns changes by what the pattern of the sighting adds to it. -/
theorem sum {f : Pattern ν → Int} {change : Int} (h : Learned idOf now c s id t)
    (hagain : ∀ p q, s.get? id = some p → SeenAgain s.smoothing now c p q → f q = f p + change)
    (hfirst : ∀ id q, SeenFirst s.smoothing now c id q → f q = change) :
    t.sum f = s.sum f + change := by
  cases h with
  | again _ hget hseen =>
    rw [sum_replace f hget, hagain _ _ hget hseen]
    omega
  | first _ hseen =>
    rw [sum_insert, hfirst _ _ hseen]
    rw [hseen.rest]
    exact get?_freeId s _

/-- A sighting that is not recognised adds one pattern, and any other adds none. -/
theorem size (h : Learned idOf now c s id t) :
    t.size = s.size + if (s.lookup? c.language c.signature).isNone then 1 else 0 := by
  cases h with
  | again hlookup hget _ =>
    rw [hlookup]
    exact size_replace hget _
  | first hlookup hseen =>
    rw [hlookup]
    refine size_insert ?_
    rw [hseen.rest]
    exact get?_freeId s _

end Learned

/-! ### Several sightings -/

/-- What a store is like after it has learned from several sightings, one after the other.
For each of them it is answered under which id its pattern is kept, and whether the pattern
was new. -/
inductive LearnedAll (idOf : IdScheme) (now : Timestamp) :
    List Sighting → Store ν → List (Label × Bool) → Store ν → Prop
  | nil {s : Store ν} : LearnedAll idOf now [] s [] s
  | cons {c : Sighting} {rest : List Sighting} {s u t : Store ν} {id : Label}
      {found : List (Label × Bool)} (hfirst : Learned idOf now c s id u)
      (hrest : LearnedAll idOf now rest u found t) :
      LearnedAll idOf now (c :: rest) s ((id, (s.lookup? c.language c.signature).isNone) :: found) t

namespace LearnedAll

variable {cs : List Sighting} {found : List (Label × Bool)}

theorem linked (h : LearnedAll idOf now cs s found t) (hs : s.Linked) : t.Linked := by
  induction h with
  | nil => exact hs
  | cons hfirst _ ih => exact ih (hfirst.linked hs)

theorem recognised (h : LearnedAll idOf now cs s found t) {language signature : Label}
    (hlookup : s.lookup? language signature = some id) :
    t.lookup? language signature = some id := by
  induction h with
  | nil => exact hlookup
  | cons hfirst _ ih => exact ih (hfirst.recognised hlookup)

/-- The ids that are answered are those under which the sightings are recognised in the
end. -/
theorem ids (h : LearnedAll idOf now cs s found t) :
    cs.map (fun c => t.lookup? c.language c.signature) = found.map fun answer => some answer.1 := by
  induction h with
  | nil => rfl
  | cons hfirst hrest ih =>
    rw [List.map_cons, List.map_cons, ih]
    -- What comes later leaves it recognised under the same id.
    rw [hrest.recognised hfirst.seen.1]

/-- The store grows by the patterns that were new. -/
theorem size (h : LearnedAll idOf now cs s found t) : t.size = s.size + found.countP (·.2) := by
  induction h with
  | nil => rfl
  | cons hfirst _ ih =>
    rw [ih, hfirst.size, List.countP_cons]
    dsimp only
    omega

/-- What becomes of the pattern of a name is told by the sightings with that name. -/
theorem seenAll (h : LearnedAll idOf now cs s found t) (hs : s.Linked) (name : Label × Label) :
    SeenAll s.smoothing now (cs.filter (·.name == name)) (s.named? name) (t.named? name) := by
  induction h with
  | nil => exact .nil
  | @cons c rest s u t id found hfirst hrest ih =>
    have hrest := ih (hfirst.linked hs)
    rw [hfirst.smoothing] at hrest
    by_cases hname : (c.name == name) = true
    · rw [List.filter_cons_of_pos (by exact hname)]
      obtain ⟨hlookup, q, hget, hseen⟩ := hfirst.seen
      have hnamed : u.named? c.name = some q := Option.bind_eq_some_iff.2 ⟨id, hlookup, hget⟩
      rw [← u.named?_congr hname, hnamed] at hrest
      rw [← s.named?_congr hname]
      exact .cons hseen hrest
    · rw [List.filter_cons_of_neg (by exact hname)]
      rw [hfirst.named?_of_ne hs (Bool.eq_false_iff.2 hname)] at hrest
      exact hrest

/-- A pattern of which there was no sighting stays as it is, under its id. -/
theorem of_unseen (h : LearnedAll idOf now cs s found t) (hs : s.Linked)
    (hget : s.get? id = some p) (hunseen : ∀ c ∈ cs, (p.name == c.name) = false) :
    t.get? id = some p := by
  induction h with
  | nil => exact hget
  | @cons c rest s u t known found hfirst _ ih =>
    obtain ⟨hc, hrest⟩ := List.forall_mem_cons.1 hunseen
    rcases hfirst.of_known hs hget with hsame | ⟨hname, _⟩
    · exact ih (hfirst.linked hs) hsame hrest
    · rw [hc] at hname
      cases hname

end LearnedAll

end Store

end CodeHabits
