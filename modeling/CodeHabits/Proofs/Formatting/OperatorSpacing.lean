import CodeHabits.Formatting
import CodeHabits.Proofs.Table
import Mathlib.Data.List.Basic
import Mathlib.Data.List.TakeWhile

/-!
# `CodeHabits.Proofs.Formatting.OperatorSpacing`: spacing told by the runs of operator characters

A run is a stretch of operator characters that cannot be made longer (`Run.IsIn`), and
`runs` lists those of a text (`mem_runs_iff`). Where every run stands between characters
that are not blank, no place counts as spaced and the first run counts as tight.

Where every run stands between blanks, two things make the count differ from the number
of runs. A match takes the blanks on both sides, so a run that shares its only blank
with a run that was counted is not counted (`counted`). And operator characters are not
blank themselves, so a run of three is a place of its own that counts as tight
(`longRuns`). The habit is told by these two numbers, and it is told as meant if no run
has more than two characters.

Texts are gone through from run to run (`textInduction`).
-/

set_option autoImplicit false

namespace CodeHabits

namespace Text

/-! ### Counting matches -/

variable {pattern : Pattern} {before : Option Char} {cs : List Char}

/-- A pattern that does not look at the character in front. -/
def IgnoresFront (pattern : Pattern) : Prop :=
  ∀ before cs, pattern before cs = pattern none cs

theorem countMatches_front (h : IgnoresFront pattern) (before : Option Char) (cs : List Char) :
    countMatches pattern before cs = countMatches pattern none cs := by
  cases cs with
  | nil => rw [countMatches, countMatches]
  | cons c rest =>
    rw [countMatches, countMatches, h before]
    cases pattern none (c :: rest) with
    | none => rfl
    | some taken =>
      -- The character in front of what is left is one of those taken.
      have hfront : frontAfter before (c :: rest) (max 1 taken)
          = frontAfter none (c :: rest) (max 1 taken) := by
        obtain ⟨k, hk⟩ : ∃ k, max 1 taken = k + 1 := ⟨max 1 taken - 1, by omega⟩
        rw [frontAfter, frontAfter, hk, List.take_succ_cons, List.getLast?_cons]
        rfl
      dsimp only
      rw [hfront]

theorem countMatches_of_none (h : IgnoresFront pattern) {c : Char} {rest : List Char}
    (hnone : pattern none (c :: rest) = none) :
    countMatches pattern none (c :: rest) = countMatches pattern none rest := by
  rw [countMatches, hnone]
  exact countMatches_front h _ _

theorem countMatches_of_some (h : IgnoresFront pattern) {c : Char} {rest : List Char} {taken : Nat}
    (hsome : pattern none (c :: rest) = some (taken + 1)) :
    countMatches pattern none (c :: rest) = 1 + countMatches pattern none (rest.drop taken) := by
  have hmax : max 1 (taken + 1) = taken + 1 := by omega
  rw [countMatches, hsome]
  dsimp only
  rw [hmax, countMatches_front h, List.drop_succ_cons]

/-- Nothing is counted exactly if the pattern matches nowhere. -/
theorem countMatches_eq_zero_iff (h : IgnoresFront pattern) :
    countMatches pattern none cs = 0 ↔
      ∀ c rest, c :: rest <:+ cs → pattern none (c :: rest) = none := by
  induction cs with
  | nil =>
    rw [countMatches]
    simp
  | cons c rest ih =>
    constructor
    · intro hzero d more hsuffix
      cases hpattern : pattern none (c :: rest) with
      | none =>
        rw [countMatches_of_none h hpattern] at hzero
        rcases List.suffix_cons_iff.1 hsuffix with heq | hsuffix
        · rw [heq]
          exact hpattern
        · exact ih.1 hzero d more hsuffix
      | some taken =>
        rw [countMatches, hpattern] at hzero
        simp at hzero
    · intro hnone
      rw [countMatches_of_none h (hnone c rest (List.suffix_refl _))]
      refine ih.2 fun d more hsuffix => hnone d more ?_
      exact hsuffix.trans (List.suffix_cons c rest)

theorem splitLinesFrom_ne_nil {line : List Char} (h : line ≠ [] ∨ cs ≠ []) :
    splitLinesFrom line cs ≠ [] := by
  fun_induction splitLinesFrom line cs with
  | case1 line hempty => simp_all
  | case2 line hempty => simp
  | case3 line rest ih => simp
  | case4 line c rest hfeed hend ih => simp
  | case5 line c rest hfeed hend ih => exact ih (.inl (List.cons_ne_nil _ _))

end Text

namespace Formatting

open Text

/-! ### Runs -/

/-- A stretch of a text, with what stands before and after it. -/
structure Run where
  before : List Char
  text : List Char
  after : List Char
  deriving DecidableEq

/-- A stretch of operator characters that cannot be made longer. -/
structure Run.IsIn (r : Run) (cs : List Char) : Prop where
  eq : cs = r.before ++ (r.text ++ r.after)
  ne_nil : r.text ≠ []
  operators : ∀ c ∈ r.text, isOperator c = true
  front : r.before.getLast?.any isOperator = false
  behind : r.after.head?.any isOperator = false

/-- The characters directly before and directly after a stretch are there and have a property. -/
def Run.Between (p : Char → Bool) (r : Run) : Prop :=
  r.before.getLast?.any p = true ∧ r.after.head?.any p = true

/-- How many characters stand between a run and the one in front of it. -/
def Run.gap (r : Run) : Nat :=
  (r.before.reverse.takeWhile fun c => !isOperator c).length

/-- The runs that begin in a text, behind what stands before it. -/
def runsFrom (before : List Char) : List Char → List Run
  | [] => []
  | c :: rest =>
    if isOperator c && !before.getLast?.any isOperator then
      ⟨before, (c :: rest).takeWhile isOperator, (c :: rest).dropWhile isOperator⟩
        :: runsFrom (before ++ [c]) rest
    else runsFrom (before ++ [c]) rest

/-- The runs of a text. -/
def runs (cs : List Char) : List Run :=
  runsFrom [] cs

theorem takeWhile_run {text after : List Char} (h : ∀ c ∈ text, isOperator c = true)
    (hafter : after.head?.any isOperator = false) :
    (text ++ after).takeWhile isOperator = text ∧ (text ++ after).dropWhile isOperator = after := by
  rw [List.takeWhile_append_of_pos h, List.dropWhile_append_of_pos h]
  cases after with
  | nil => simp
  | cons d after =>
    have hd : isOperator d = false := hafter
    simp [hd]

/-- A run that begins at a place is what the operator characters from there on make. -/
theorem Run.IsIn.parts {r : Run} {before cs : List Char} (h : r.IsIn (before ++ cs))
    (hlength : r.before.length = before.length) :
    r = ⟨before, cs.takeWhile isOperator, cs.dropWhile isOperator⟩ ∧
      cs.head?.any isOperator = true := by
  obtain ⟨before', text, after⟩ := r
  obtain ⟨hbefore, hcs⟩ := List.append_inj h.eq hlength.symm
  have hbefore : before = before' := hbefore
  have hcs : cs = text ++ after := hcs
  obtain ⟨htext, hafter⟩ := takeWhile_run h.operators h.behind
  have hne : text ≠ [] := h.ne_nil
  have hoperators : ∀ c ∈ text, isOperator c = true := h.operators
  refine ⟨?_, ?_⟩
  · rw [hbefore, hcs, htext, hafter]
  · cases text with
    | nil => exact absurd rfl hne
    | cons c text =>
      rw [hcs]
      exact hoperators c List.mem_cons_self

theorem isIn_of_begins {before : List Char} {c : Char} (rest : List Char)
    (hc : isOperator c = true) (hfront : before.getLast?.any isOperator = false) :
    Run.IsIn ⟨before, (c :: rest).takeWhile isOperator, (c :: rest).dropWhile isOperator⟩
      (before ++ c :: rest) where
  eq := by rw [List.takeWhile_append_dropWhile]
  ne_nil := by
    show (c :: rest).takeWhile isOperator ≠ []
    rw [List.takeWhile_cons_of_pos hc]
    exact List.cons_ne_nil _ _
  operators := fun d hd => List.mem_takeWhile_imp hd
  front := hfront
  behind := by
    have h := List.head?_dropWhile_not isOperator (c :: rest)
    show ((c :: rest).dropWhile isOperator).head?.any isOperator = false
    cases hd : ((c :: rest).dropWhile isOperator).head? with
    | none => rfl
    | some d =>
      rw [hd] at h
      simpa using h

/-- The runs that begin in a text are those of the whole text that do not begin before it. -/
theorem mem_runsFrom_iff {r : Run} {before cs : List Char} :
    r ∈ runsFrom before cs ↔ r.IsIn (before ++ cs) ∧ before.length ≤ r.before.length := by
  induction cs generalizing before with
  | nil =>
    rw [runsFrom]
    constructor
    · intro h
      cases h
    · rintro ⟨hin, hle⟩
      have hlength := congrArg List.length hin.eq
      have hpos := List.length_pos_iff.2 hin.ne_nil
      simp only [List.append_nil, List.length_append] at hlength
      omega
  | cons c rest ih =>
    have hmore : r ∈ runsFrom (before ++ [c]) rest ↔
        r.IsIn (before ++ c :: rest) ∧ before.length < r.before.length := by
      rw [ih, List.append_assoc, List.length_append]
      rfl
    have hbegins : (isOperator c && !before.getLast?.any isOperator) = true ↔
        isOperator c = true ∧ before.getLast?.any isOperator = false := by
      rw [Bool.and_eq_true, Bool.not_eq_true']
    rw [runsFrom]
    split
    · rename_i h
      obtain ⟨hc, hfront⟩ := hbegins.1 h
      rw [List.mem_cons, hmore]
      constructor
      · rintro (rfl | ⟨hin, hlt⟩)
        · exact ⟨isIn_of_begins rest hc hfront, Nat.le_refl _⟩
        · exact ⟨hin, Nat.le_of_lt hlt⟩
      · rintro ⟨hin, hle⟩
        rcases Nat.eq_or_lt_of_le hle with heq | hlt
        · exact .inl (hin.parts heq.symm).1
        · exact .inr ⟨hin, hlt⟩
    · rename_i h
      rw [hmore]
      constructor
      · rintro ⟨hin, hlt⟩
        exact ⟨hin, Nat.le_of_lt hlt⟩
      · rintro ⟨hin, hle⟩
        rcases Nat.eq_or_lt_of_le hle with heq | hlt
        · -- No run begins here, as the character is no operator or stands behind one.
          obtain ⟨rfl, hc⟩ := hin.parts heq.symm
          exact absurd (hbegins.2 ⟨hc, hin.front⟩) h
        · exact ⟨hin, hlt⟩

theorem mem_runs_iff {r : Run} {cs : List Char} : r ∈ runs cs ↔ r.IsIn cs := by
  rw [runs, mem_runsFrom_iff]
  exact and_iff_left (Nat.zero_le _)

/-! ### From run to run -/

theorem runsFrom_gap {before gap rest : List Char} (hgap : ∀ c ∈ gap, isOperator c = false) :
    runsFrom before (gap ++ rest) = runsFrom (before ++ gap) rest := by
  induction gap generalizing before with
  | nil => rw [List.nil_append, List.append_nil]
  | cons c gap ih =>
    have hc : isOperator c = false := hgap c List.mem_cons_self
    rw [List.cons_append, runsFrom, hc, Bool.false_and, if_neg Bool.false_ne_true,
      ih fun d hd => hgap d (List.mem_cons_of_mem _ hd), List.append_assoc]
    rfl

/-- No run begins behind an operator character. -/
theorem runsFrom_operators {before text rest : List Char}
    (htext : ∀ c ∈ text, isOperator c = true) (hfront : before.getLast?.any isOperator = true) :
    runsFrom before (text ++ rest) = runsFrom (before ++ text) rest := by
  induction text generalizing before with
  | nil => rw [List.nil_append, List.append_nil]
  | cons c text ih =>
    have hc : isOperator c = true := htext c List.mem_cons_self
    have hfront' : (before ++ [c]).getLast?.any isOperator = true := by
      rw [List.getLast?_concat]
      exact hc
    rw [List.cons_append, runsFrom, hfront, Bool.not_true, Bool.and_false,
      if_neg Bool.false_ne_true, ih (fun d hd => htext d (List.mem_cons_of_mem _ hd)) hfront',
      List.append_assoc]
    rfl

theorem runsFrom_of_none {before cs : List Char} (h : ∀ c ∈ cs, isOperator c = false) :
    runsFrom before cs = [] := by
  rw [← List.append_nil cs, runsFrom_gap h]
  rfl

/-- A gap, a run, and what follows it. -/
structure Laid (gap text rest : List Char) : Prop where
  gap : ∀ c ∈ gap, isOperator c = false
  ne_nil : text ≠ []
  operators : ∀ c ∈ text, isOperator c = true
  behind : rest.head?.any isOperator = false

theorem Laid.runsFrom_eq {before gap text rest : List Char} (h : Laid gap text rest)
    (hfront : (before ++ gap).getLast?.any isOperator = false) :
    runsFrom before (gap ++ (text ++ rest))
      = ⟨before ++ gap, text, rest⟩ :: runsFrom (before ++ gap ++ text) rest := by
  rw [runsFrom_gap h.gap]
  obtain ⟨gap_none, hne, hoperators, hbehind⟩ := h
  obtain ⟨htext, hrest⟩ := takeWhile_run hoperators hbehind
  cases text with
  | nil => exact absurd rfl hne
  | cons c text =>
    have hc : isOperator c = true := hoperators c List.mem_cons_self
    have hfront' : (before ++ gap ++ [c]).getLast?.any isOperator = true := by
      rw [List.getLast?_concat]
      exact hc
    rw [List.cons_append] at htext hrest
    rw [List.cons_append, runsFrom, hc, hfront, Bool.not_false, Bool.and_true, if_pos rfl, htext,
      hrest, runsFrom_operators (fun d hd => hoperators d (List.mem_cons_of_mem _ hd)) hfront',
      List.append_assoc (before ++ gap)]
    rfl

/-- A text with an operator character begins with a gap and a run. -/
theorem exists_laid {cs : List Char} (h : ∃ c ∈ cs, isOperator c = true) :
    ∃ gap text rest, cs = gap ++ (text ++ rest) ∧ Laid gap text rest := by
  let gap := cs.takeWhile fun c => !isOperator c
  let from_run := cs.dropWhile fun c => !isOperator c
  have hcs : cs = gap ++ from_run := (List.takeWhile_append_dropWhile).symm
  have hgap : ∀ c ∈ gap, isOperator c = false := by
    intro c hc
    simpa using List.mem_takeWhile_imp hc
  cases hrun : from_run with
  | nil =>
    obtain ⟨c, hc, hoperator⟩ := h
    rw [hcs, hrun, List.append_nil] at hc
    rw [hgap c hc] at hoperator
    cases hoperator
  | cons c rest =>
    have hc : isOperator c = true := by
      have hhead := List.head?_dropWhile_not (fun c => !isOperator c) cs
      have hhead' : (cs.dropWhile fun c => !isOperator c).head? = some c := by
        show from_run.head? = some c
        rw [hrun]
        rfl
      rw [hhead'] at hhead
      simpa using hhead
    have hbegins : Run.IsIn ⟨[], (c :: rest).takeWhile isOperator, (c :: rest).dropWhile isOperator⟩
        ([] ++ c :: rest) := isIn_of_begins rest hc rfl
    refine ⟨gap, (c :: rest).takeWhile isOperator, (c :: rest).dropWhile isOperator, ?_, ?_⟩
    · rw [List.takeWhile_append_dropWhile, ← hrun]
      exact hcs
    · exact ⟨hgap, hbegins.ne_nil, hbegins.operators, hbegins.behind⟩

/-- A place that is not inside a run. -/
def IsBoundary (before cs : List Char) : Prop :=
  before.getLast?.any isOperator = false ∨ cs.head?.any isOperator = false

theorem Laid.front {before gap text rest : List Char} (h : Laid gap text rest)
    (hboundary : IsBoundary before (gap ++ (text ++ rest))) :
    (before ++ gap).getLast?.any isOperator = false := by
  obtain ⟨hgap, hne, hoperators, -⟩ := h
  rcases List.eq_nil_or_concat' gap with rfl | ⟨front, b, rfl⟩
  · cases text with
    | nil => exact absurd rfl hne
    | cons c text =>
      have hc : isOperator c = true := hoperators c List.mem_cons_self
      rw [List.append_nil]
      exact hboundary.resolve_right (by simp [hc])
  · rw [← List.append_assoc, List.getLast?_concat]
    exact hgap b (by simp)

/-- Going through a text from run to run. -/
@[elab_as_elim]
theorem textInduction {motive : List Char → List Char → Prop}
    (plain : ∀ before cs, (∀ c ∈ cs, isOperator c = false) → motive before cs)
    (run : ∀ before gap text rest, Laid gap text rest →
      motive (before ++ gap ++ text) rest → motive before (gap ++ (text ++ rest)))
    (before cs : List Char) : motive before cs := by
  induction hn : cs.length using Nat.strongRecOn generalizing before cs with
  | ind n ih =>
    by_cases hoperator : ∃ c ∈ cs, isOperator c = true
    · obtain ⟨gap, text, rest, rfl, hlaid⟩ := exists_laid hoperator
      have hpos := List.length_pos_iff.2 hlaid.ne_nil
      have hshorter : rest.length < n := by
        rw [← hn, List.length_append, List.length_append]
        omega
      exact run before gap text rest hlaid (ih rest.length hshorter _ rest rfl)
    · refine plain before cs fun c hc => ?_
      rw [← Bool.not_eq_true]
      exact fun h => hoperator ⟨c, hc, h⟩

/-! ### The two patterns -/

theorem isOperator_of_isBlank {c : Char} (h : isBlank c = true) : isOperator c = false := by
  rw [← Bool.not_eq_true]
  intro hoperator
  have hall : ("+-*/=<>!".toList.all fun d => !isBlank d) = true := by decide
  have hmem : c ∈ "+-*/=<>!".toList := List.elem_iff.1 hoperator
  have hnone := List.all_eq_true.1 hall c hmem
  rw [h] at hnone
  cases hnone

theorem isBlank_of_isOperator {c : Char} (h : isOperator c = true) : isBlank c = false := by
  rw [← Bool.not_eq_true]
  intro hblank
  rw [isOperator_of_isBlank hblank] at h
  cases h

theorem ignoresFront_spaced : IgnoresFront spacedOperator := fun _ _ => rfl

theorem ignoresFront_tight : IgnoresFront tightOperator := fun _ _ => rfl

section

variable {text rest : List Char} {c : Char}

/-- What the pattern for spaced operators takes in front of a run, which may be empty. -/
theorem spacedOperator_cons (htext : ∀ d ∈ text, isOperator d = true)
    (hrest : rest.head?.any isOperator = false) :
    spacedOperator none (c :: (text ++ rest))
      = if isBlank c && !text.isEmpty && rest.head?.any isBlank then some (text.length + 2)
        else none := by
  rw [spacedOperator, (takeWhile_run htext hrest).1, List.drop_left]
  cases text <;> cases rest <;> simp

/-- What the pattern for tight operators takes in front of a run, which may be empty. -/
theorem tightOperator_cons (htext : ∀ d ∈ text, isOperator d = true)
    (hrest : rest.head?.any isOperator = false) :
    tightOperator none (c :: (text ++ rest))
      = if isBlank c || text.isEmpty then none
        else if rest.head?.any (fun d => !isBlank d) then some (text.length + 2)
        else if 2 ≤ text.length then some (text.length + 1)
        else none := by
  rw [tightOperator, (takeWhile_run htext hrest).1, List.drop_left]
  cases text <;> simp

end

/-- A pattern that matches only in front of operator characters. -/
def NeedsRun (pattern : Pattern) : Prop :=
  ∀ c rest, rest.head?.any isOperator = false → pattern none (c :: rest) = none

theorem needsRun_spaced : NeedsRun spacedOperator := by
  intro c rest hrest
  have hempty : ∀ d ∈ ([] : List Char), isOperator d = true := by simp
  have h := spacedOperator_cons (c := c) hempty hrest
  simpa using h

theorem needsRun_tight : NeedsRun tightOperator := by
  intro c rest hrest
  have hempty : ∀ d ∈ ([] : List Char), isOperator d = true := by simp
  have h := tightOperator_cons (c := c) hempty hrest
  simpa using h

/-- Nothing is counted in front of a character that is no operator. -/
theorem countMatches_gap {pattern : Pattern} (hfront : IgnoresFront pattern)
    (hneeds : NeedsRun pattern) {gap rest : List Char} (hgap : ∀ c ∈ gap, isOperator c = false)
    (hrest : rest.head?.any isOperator = false) :
    countMatches pattern none (gap ++ rest) = countMatches pattern none rest := by
  induction gap with
  | nil => rfl
  | cons c gap ih =>
    have hmore : ∀ d ∈ gap, isOperator d = false := fun d hd => hgap d (List.mem_cons_of_mem _ hd)
    have hnext : (gap ++ rest).head?.any isOperator = false := by
      cases gap with
      | nil => exact hrest
      | cons d gap => exact hmore d List.mem_cons_self
    rw [List.cons_append, countMatches_of_none hfront (hneeds c _ hnext), ih hmore]

theorem countMatches_of_no_run {pattern : Pattern} (hfront : IgnoresFront pattern)
    (hneeds : NeedsRun pattern) {cs : List Char} (h : ∀ c ∈ cs, isOperator c = false) :
    countMatches pattern none cs = 0 := by
  have hgap : countMatches pattern none (cs ++ []) = countMatches pattern none [] :=
    countMatches_gap hfront hneeds h rfl
  rw [List.append_nil] at hgap
  rw [hgap, countMatches]

/-! ### Runs between blanks -/

/-- The runs of at least three characters. -/
def longRuns (rs : List Run) : Nat :=
  rs.countP fun r => 3 ≤ r.text.length

/-- How many runs are counted. A single blank in front of a run may have been taken by the run in
front of it, if that was counted. -/
def counted : Bool → List Run → Nat
  | _, [] => 0
  | taken, r :: rest =>
    if taken && r.gap < 2 then counted false rest else 1 + counted true rest

section

variable {before gap text rest : List Char}

/-- A gap that ends in a blank. -/
theorem Laid.exists_blank (h : Laid gap text rest) (hbefore : before.getLast?.any isBlank = false)
    (hbetween : Run.Between isBlank ⟨before ++ gap, text, rest⟩) :
    (∃ front b, gap = front ++ [b] ∧ isBlank b = true) ∧
      ∃ d more, rest = d :: more ∧ isBlank d = true := by
  obtain ⟨hfront, hbehind⟩ := hbetween
  refine ⟨?_, ?_⟩
  · rcases List.eq_nil_or_concat' gap with rfl | ⟨front, b, rfl⟩
    · have hfront : (before ++ []).getLast?.any isBlank = true := hfront
      rw [List.append_nil, hbefore] at hfront
      cases hfront
    · have hfront : (before ++ (front ++ [b])).getLast?.any isBlank = true := hfront
      rw [← List.append_assoc, List.getLast?_concat] at hfront
      exact ⟨front, b, rfl, hfront⟩
  · cases rest with
    | nil => cases hbehind
    | cons d more => exact ⟨d, more, rfl, hbehind⟩

theorem isOperator_head_of_isBlank (h : rest.head?.any isBlank = true) :
    rest.head?.any isOperator = false := by
  cases rest with
  | nil => rfl
  | cons d rest => exact isOperator_of_isBlank h

/-- In a run in front of a blank, three characters or more make one match: one character, all
others but the last, and the last. -/
theorem countTight_run (htext : ∀ c ∈ text, isOperator c = true)
    (hblank : rest.head?.any isBlank = true) :
    countMatches tightOperator none (text ++ rest)
      = (if 3 ≤ text.length then 1 else 0) + countMatches tightOperator none rest := by
  have hrest := isOperator_head_of_isBlank hblank
  have hbehind : rest.head?.any (fun d => !isBlank d) = false := by
    cases rest with
    | nil => rfl
    | cons d rest =>
      have hd : isBlank d = true := hblank
      simp [hd]
  induction text with
  | nil => simp
  | cons c text ih =>
    have hmore : ∀ d ∈ text, isOperator d = true := fun d hd => htext d (List.mem_cons_of_mem _ hd)
    have hc : isBlank c = false := isBlank_of_isOperator (htext c List.mem_cons_self)
    have hpattern := tightOperator_cons (c := c) hmore hrest
    rw [List.cons_append, List.length_cons]
    by_cases hlong : 2 ≤ text.length
    · have hne : text.isEmpty = false := by
        cases text with
        | nil => simp at hlong
        | cons d text => rfl
      rw [hc, hne, hbehind, if_pos hlong] at hpattern
      rw [countMatches_of_some ignoresFront_tight hpattern, List.drop_left, if_pos (by omega)]
    · -- One or two characters: what is left of the run has no match either.
      have hnone : tightOperator none (c :: (text ++ rest)) = none := by
        rw [hpattern, hc, hbehind, if_neg hlong]
        simp
      rw [countMatches_of_none ignoresFront_tight hnone, ih hmore, if_neg (by omega),
        if_neg (by omega)]

/-- A run without a blank in front is passed over. -/
theorem countSpaced_run (htext : ∀ c ∈ text, isOperator c = true) :
    countMatches spacedOperator none (text ++ rest) = countMatches spacedOperator none rest := by
  induction text with
  | nil => rfl
  | cons c text ih =>
    have hmore : ∀ d ∈ text, isOperator d = true := fun d hd => htext d (List.mem_cons_of_mem _ hd)
    have hc : isBlank c = false := isBlank_of_isOperator (htext c List.mem_cons_self)
    have hnone : spacedOperator none (c :: (text ++ rest)) = none := by
      rw [spacedOperator]
      split <;> simp [hc]
    rw [List.cons_append, countMatches_of_none ignoresFront_spaced hnone, ih hmore]

/-- A run between two blanks is a match with both of them. -/
theorem countSpaced_blank {b d : Char} (htext : ∀ c ∈ text, isOperator c = true)
    (hne : text ≠ []) (hb : isBlank b = true) (hd : isBlank d = true) :
    countMatches spacedOperator none (b :: (text ++ d :: rest))
      = 1 + countMatches spacedOperator none rest := by
  have hbehind : (d :: rest).head?.any isOperator = false := isOperator_of_isBlank hd
  have hpattern := spacedOperator_cons (c := b) htext hbehind
  have hempty : text.isEmpty = false := by
    rw [List.isEmpty_eq_false_iff]
    exact hne
  have hhead : (d :: rest).head?.any isBlank = true := hd
  rw [hb, hempty, hhead] at hpattern
  have hdrop : (text ++ d :: rest).drop (text.length + 1) = rest := by
    rw [List.drop_append]
    simp
  rw [countMatches_of_some ignoresFront_spaced hpattern, hdrop]

theorem Laid.isOperator_last (h : Laid gap text rest) (before : List Char) :
    (before ++ gap ++ text).getLast?.any isOperator = true := by
  rcases List.eq_nil_or_concat' text with rfl | ⟨front, c, rfl⟩
  · exact absurd rfl h.ne_nil
  · rw [← List.append_assoc, List.getLast?_concat]
    exact h.operators c (by simp)

theorem isBlank_last_of_isOperator {cs : List Char} (h : cs.getLast?.any isOperator = true) :
    cs.getLast?.any isBlank = false := by
  cases hlast : cs.getLast? with
  | none => rfl
  | some c =>
    rw [hlast] at h
    exact isBlank_of_isOperator h

end

/-- Behind a run, the gap is what stands in front of the next one. -/
theorem Run.gap_eq {before gap text rest : List Char} (hgap : ∀ c ∈ gap, isOperator c = false)
    (hlast : before.getLast?.any isOperator = true) :
    Run.gap ⟨before ++ gap, text, rest⟩ = gap.length := by
  rcases List.eq_nil_or_concat' before with rfl | ⟨front, o, rfl⟩
  · cases hlast
  · rw [List.getLast?_concat] at hlast
    have ho : isOperator o = true := hlast
    have hgap' : ∀ c ∈ gap.reverse, (!isOperator c) = true := by
      intro c hc
      rw [hgap c (List.mem_reverse.1 hc)]
      rfl
    rw [Run.gap]
    simp [List.takeWhile_append_of_pos hgap', ho]

/-- Every run of three characters or more counts once as tight. -/
theorem countTight_eq {before cs : List Char} (hboundary : IsBoundary before cs)
    (hbefore : before.getLast?.any isBlank = false)
    (hbetween : ∀ r ∈ runsFrom before cs, r.Between isBlank) :
    countMatches tightOperator none cs = longRuns (runsFrom before cs) := by
  induction before, cs using textInduction with
  | plain before cs hplain =>
    rw [runsFrom_of_none hplain, countMatches_of_no_run ignoresFront_tight needsRun_tight hplain]
    rfl
  | run before gap text rest hlaid ih =>
    rw [hlaid.runsFrom_eq (hlaid.front hboundary)] at hbetween ⊢
    have hfirst := hbetween _ List.mem_cons_self
    have hrest := ih (.inr hlaid.behind) (isBlank_last_of_isOperator (hlaid.isOperator_last before))
      fun r hr => hbetween r (List.mem_cons_of_mem _ hr)
    -- Nothing is counted in the gap, nor from its last blank on, so the search enters the run.
    obtain ⟨⟨front, b, rfl, hb⟩, -⟩ := hlaid.exists_blank hbefore hfirst
    have hgap : ∀ c ∈ front, isOperator c = false := fun c hc => hlaid.gap c (by simp [hc])
    have hblank : (b :: (text ++ rest)).head?.any isOperator = false := isOperator_of_isBlank hb
    have hnone : tightOperator none (b :: (text ++ rest)) = none := by
      rw [tightOperator_cons hlaid.operators hlaid.behind, hb]
      simp
    calc countMatches tightOperator none (front ++ [b] ++ (text ++ rest))
        = countMatches tightOperator none (text ++ rest) := by
          rw [List.append_assoc, List.singleton_append,
            countMatches_gap ignoresFront_tight needsRun_tight hgap hblank,
            countMatches_of_none ignoresFront_tight hnone]
      _ = (if 3 ≤ text.length then 1 else 0) + countMatches tightOperator none rest :=
          countTight_run hlaid.operators hfirst.2
      _ = longRuns (⟨before ++ (front ++ [b]), text, rest⟩
            :: runsFrom (before ++ (front ++ [b]) ++ text) rest) := by
          rw [hrest, longRuns, longRuns, List.countP_cons]
          simp only [decide_eq_true_eq]
          omega

/-- How many runs count as spaced, from a place on and from behind a blank on. The second part is
needed for the first: the search goes on behind the blank that a match ended with. -/
theorem countSpaced_eq {before cs : List Char} (hboundary : IsBoundary before cs)
    (hbefore : before.getLast?.any isBlank = false)
    (hbetween : ∀ r ∈ runsFrom before cs, r.Between isBlank) :
    countMatches spacedOperator none cs = counted false (runsFrom before cs) ∧
      (before.getLast?.any isOperator = true → ∀ d more, cs = d :: more →
        countMatches spacedOperator none more = counted true (runsFrom before cs)) := by
  induction before, cs using textInduction with
  | plain before cs hplain =>
    rw [runsFrom_of_none hplain]
    refine ⟨countMatches_of_no_run ignoresFront_spaced needsRun_spaced hplain, ?_⟩
    rintro - d more rfl
    exact countMatches_of_no_run ignoresFront_spaced needsRun_spaced
      fun c hc => hplain c (List.mem_cons_of_mem _ hc)
  | run before gap text rest hlaid ih =>
    rw [hlaid.runsFrom_eq (hlaid.front hboundary)] at hbetween ⊢
    have hfirst := hbetween _ List.mem_cons_self
    have hlast := hlaid.isOperator_last before
    obtain ⟨hrest, hbehind⟩ := ih (.inr hlaid.behind) (isBlank_last_of_isOperator hlast)
      fun r hr => hbetween r (List.mem_cons_of_mem _ hr)
    obtain ⟨⟨front, b, rfl, hb⟩, d, more, rfl, hd⟩ := hlaid.exists_blank hbefore hfirst
    have hmore := hbehind hlast d more rfl
    have hblank : (b :: (text ++ d :: more)).head?.any isOperator = false :=
      isOperator_of_isBlank hb
    -- Wherever the search begins in the gap, it finds the last blank of the gap with the run.
    have hmatch (pre : List Char) (hpre : ∀ c ∈ pre, isOperator c = false) :
        countMatches spacedOperator none (pre ++ b :: (text ++ d :: more))
          = 1 + countMatches spacedOperator none more := by
      rw [countMatches_gap ignoresFront_spaced needsRun_spaced hpre hblank,
        countSpaced_blank hlaid.operators hlaid.ne_nil hb hd]
    have hgap : ∀ c ∈ front, isOperator c = false := fun c hc => hlaid.gap c (by simp [hc])
    refine ⟨?_, ?_⟩
    · rw [counted, Bool.false_and, if_neg Bool.false_ne_true, List.append_assoc,
        List.singleton_append, hmatch front hgap, hmore]
    · -- The blank behind the run in front was taken with that run.
      intro hoperator c others hcs
      rw [counted, Run.gap_eq hlaid.gap hoperator, List.length_append, List.length_singleton,
        Bool.true_and]
      cases front with
      | nil =>
        have hothers : text ++ d :: more = others := (List.cons.inj hcs).2
        rw [if_pos (by simp), ← hothers, countSpaced_run hlaid.operators, hrest]
      | cons x front =>
        have hothers : front ++ b :: (text ++ d :: more) = others := by
          simpa using (List.cons.inj hcs).2
        rw [if_neg (by simp), ← hothers, hmatch front fun c hc => hgap c (by simp [hc]), hmore]

/-! ### What is told -/

variable {cs : List Char}

/-- A text with an operator character has a run. -/
theorem exists_run (h : ∃ c ∈ cs, isOperator c = true) : ∃ r : Run, r.IsIn cs := by
  obtain ⟨gap, text, rest, rfl, hlaid⟩ := exists_laid h
  have hfront : ([] ++ gap).getLast?.any isOperator = false := hlaid.front (.inl rfl)
  exact ⟨⟨gap, text, rest⟩, rfl, hlaid.ne_nil, hlaid.operators, hfront, hlaid.behind⟩

/-- Where no run has a blank in front, no place counts as spaced. -/
theorem countSpaced_of_no_blank
    (h : ∀ r : Run, r.IsIn cs → r.before.getLast?.any isBlank = false) :
    countMatches spacedOperator none cs = 0 := by
  rw [countMatches_eq_zero_iff ignoresFront_spaced]
  rintro c rest ⟨front, rfl⟩
  by_cases hoperator : rest.head?.any isOperator = true
  · cases rest with
    | nil => cases hoperator
    | cons o rest =>
      -- A match here would begin with a blank in front of this run.
      suffices hc : isBlank c = false by
        rw [spacedOperator]
        split <;> simp [hc]
      by_cases hc : isOperator c = true
      · exact isBlank_of_isOperator hc
      · have hfront : (front ++ [c]).getLast?.any isOperator = false := by
          rw [List.getLast?_concat]
          exact Bool.not_eq_true _ ▸ hc
        have ho : isOperator o = true := hoperator
        have hrun := isIn_of_begins rest ho hfront
        rw [List.append_assoc] at hrun
        have hblank := h _ hrun
        rwa [List.getLast?_concat] at hblank
  · exact needsRun_spaced c rest (Bool.not_eq_true _ ▸ hoperator)

/-- A run between characters that are not blank counts as tight, in part or as a whole. -/
theorem countTight_ne_zero {r : Run} (hin : r.IsIn cs) (hbetween : r.Between (!isBlank ·)) :
    countMatches tightOperator none cs ≠ 0 := by
  obtain ⟨before, text, after⟩ := r
  obtain ⟨rfl, hne, hoperators, -, hbehind⟩ := hin
  obtain ⟨hfront, hafter⟩ := hbetween
  intro hzero
  rcases List.eq_nil_or_concat' before with rfl | ⟨front, c, rfl⟩
  · cases hfront
  · have hfront : (front ++ [c]).getLast?.any (!isBlank ·) = true := hfront
    rw [List.getLast?_concat] at hfront
    have hc : isBlank c = false := by simpa using hfront
    have hempty : text.isEmpty = false := List.isEmpty_eq_false_iff.2 hne
    have hnone := (countMatches_eq_zero_iff ignoresFront_tight).1 hzero c (text ++ after)
      ⟨front, by simp⟩
    have hafter : after.head?.any (fun d => !isBlank d) = true := hafter
    rw [tightOperator_cons hoperators hbehind, hc, hempty, hafter] at hnone
    cases hnone

/-- Runs between blanks: what is counted on either side. -/
theorem prefers_of_between (h : ∃ c ∈ cs, isOperator c = true)
    (hbetween : ∀ r : Run, r.IsIn cs → r.Between isBlank) :
    prefers spacedOperator tightOperator cs
      = some (decide (longRuns (runs cs) < counted false (runs cs))) := by
  have hruns : ∀ r ∈ runsFrom [] cs, r.Between isBlank := fun r hr =>
    hbetween r (mem_runs_iff.1 hr)
  have hspaced : countMatches spacedOperator none cs = counted false (runs cs) :=
    (countSpaced_eq (.inl rfl) rfl hruns).1
  have htight : countMatches tightOperator none cs = longRuns (runs cs) :=
    countTight_eq (.inl rfl) rfl hruns
  obtain ⟨r, hr⟩ := exists_run h
  have hcounted : counted false (runs cs) ≠ 0 := by
    cases hall : runs cs with
    | nil =>
      have hmem := mem_runs_iff.2 hr
      rw [hall] at hmem
      cases hmem
    | cons first rest => simp [counted]
  simp [prefers, hspaced, htight, hcounted]

/-- The first run is counted, so without long runs there are more places with blanks. -/
theorem longRuns_lt_counted (h : ∃ c ∈ cs, isOperator c = true)
    (hshort : ∀ r : Run, r.IsIn cs → r.text.length ≤ 2) :
    longRuns (runs cs) < counted false (runs cs) := by
  have hnone : longRuns (runs cs) = 0 := by
    rw [longRuns, List.countP_eq_zero]
    intro r hr
    have hle := hshort r (mem_runs_iff.1 hr)
    rw [decide_eq_true_eq]
    omega
  obtain ⟨r, hr⟩ := exists_run h
  have hmem := mem_runs_iff.2 hr
  rw [hnone]
  cases hall : runs cs with
  | nil =>
    rw [hall] at hmem
    cases hmem
  | cons first rest =>
    rw [counted, Bool.false_and, if_neg Bool.false_ne_true]
    omega

/-- What the spacing of operators is reported as, in the measurements and in the style. -/
def Reported (source : String) (told : Option Bool) : Prop :=
  (analyze source).spacedOperators = told ∧
    (analyze source).style.get? "operator_spacing" = told.map spacingName

theorem style_operatorSpacing {f : Formatting} (h : f.lineCount ≠ 0) :
    f.style.get? "operator_spacing" = f.spacedOperators.map spacingName := by
  have hline : ("line_length" == "operator_spacing") = false := by decide
  have hindent : ("indent_char" == "operator_spacing") = false := by decide
  have hcomma : ("comma_spacing" == "operator_spacing") = false := by decide
  rw [style, if_neg h]
  cases f.indentChar <;> cases f.spacedOperators <;> cases f.spacedCommas <;>
    simp [Table.get?, hline, hindent, hcomma]

theorem reported_prefers (source : String) :
    Reported source (prefers spacedOperator tightOperator source.toList) := by
  cases hlines : (splitLines source.toList).isEmpty with
  | true =>
    -- Only the empty text has no lines, and nothing matches in it.
    have hnil : source.toList = [] := by
      by_contra hne
      exact splitLinesFrom_ne_nil (.inr hne) (List.isEmpty_iff.1 hlines)
    have hnone : prefers spacedOperator tightOperator source.toList = none := by
      rw [hnil, prefers, countMatches, countMatches]
      rfl
    have hempty : analyze source = empty := by
      simp only [analyze, hlines, if_pos]
    rw [hnone, Reported, hempty]
    exact ⟨rfl, rfl⟩
  | false =>
    have htold : (analyze source).spacedOperators
        = prefers spacedOperator tightOperator source.toList := by
      simp [analyze, hlines]
    have hcount : (analyze source).lineCount ≠ 0 := by
      have hne : splitLines source.toList ≠ [] := List.isEmpty_eq_false_iff.1 hlines
      simpa [analyze, hlines] using hne
    rw [← htold]
    exact ⟨rfl, style_operatorSpacing hcount⟩

/-- In a text with operator characters and blanks on both sides of every run, operators are
reported as spaced exactly if there are more runs counted than runs of three characters or more,
and so they are if no run is that long. Without blanks beside any run they are reported as tight,
and without operator characters as neither. -/
theorem operator_spacing_told (source : String) :
    ((∃ c ∈ source.toList, isOperator c = true) →
      ((∀ r : Run, r.IsIn source.toList → r.Between isBlank) →
        Reported source
            (some (decide (longRuns (runs source.toList) < counted false (runs source.toList)))) ∧
          ((∀ r : Run, r.IsIn source.toList → r.text.length ≤ 2) → Reported source (some true))) ∧
      ((∀ r : Run, r.IsIn source.toList → r.Between (!isBlank ·)) →
        Reported source (some false))) ∧
      ((∀ c ∈ source.toList, isOperator c = false) → Reported source none) := by
  have htold := reported_prefers source
  refine ⟨fun hoperator => ⟨fun hbetween => ?_, fun hbetween => ?_⟩, fun hnone => ?_⟩
  · rw [prefers_of_between hoperator hbetween] at htold
    refine ⟨htold, fun hshort => ?_⟩
    rwa [decide_eq_true (longRuns_lt_counted hoperator hshort)] at htold
  · obtain ⟨r, hr⟩ := exists_run hoperator
    have hspaced : countMatches spacedOperator none source.toList = 0 := by
      refine countSpaced_of_no_blank fun other hother => ?_
      have hfront := (hbetween other hother).1
      cases hlast : other.before.getLast? with
      | none => rfl
      | some c =>
        rw [hlast] at hfront
        simpa using hfront
    have htight := countTight_ne_zero hr (hbetween r hr)
    have hprefers : prefers spacedOperator tightOperator source.toList = some false := by
      simp [prefers, hspaced, htight]
    rwa [hprefers] at htold
  · have hprefers : prefers spacedOperator tightOperator source.toList = none := by
      simp [prefers, countMatches_of_no_run ignoresFront_spaced needsRun_spaced hnone,
        countMatches_of_no_run ignoresFront_tight needsRun_tight hnone]
    rwa [hprefers] at htold

/-- A text with a single run. -/
theorem forall_run_of_runs_eq {P : Run → Prop} {r : Run} (hruns : runs cs = [r]) (h : P r) :
    ∀ other : Run, other.IsIn cs → P other := by
  intro other hother
  have hmem := mem_runs_iff.2 hother
  rw [hruns, List.mem_singleton] at hmem
  rw [hmem]
  exact h

/-- A comparison with three equality signs counts on both sides, one with two signs does not. -/
theorem operator_spacing_told_of_threeSigns :
    Reported "a === b\n" (some false) ∧ Reported "a == b\n" (some true) ∧
      Reported "a==b\n" (some false) := by
  have hthree : runs "a === b\n".toList = [⟨"a ".toList, "===".toList, " b\n".toList⟩] := by
    decide +kernel
  have htwo : runs "a == b\n".toList = [⟨"a ".toList, "==".toList, " b\n".toList⟩] := by
    decide +kernel
  have htight : runs "a==b\n".toList = [⟨"a".toList, "==".toList, "b\n".toList⟩] := by
    decide +kernel
  refine ⟨?_, ?_, ?_⟩
  · have hbetween : ∀ r : Run, r.IsIn "a === b\n".toList → r.Between isBlank :=
      forall_run_of_runs_eq hthree ⟨by decide, by decide⟩
    have htold := (((operator_spacing_told _).1 ⟨'=', by decide, by decide⟩).1 hbetween).1
    rw [hthree] at htold
    exact htold
  · have hbetween : ∀ r : Run, r.IsIn "a == b\n".toList → r.Between isBlank :=
      forall_run_of_runs_eq htwo ⟨by decide, by decide⟩
    have hshort : ∀ r : Run, r.IsIn "a == b\n".toList → r.text.length ≤ 2 :=
      forall_run_of_runs_eq htwo (by decide)
    exact (((operator_spacing_told _).1 ⟨'=', by decide, by decide⟩).1 hbetween).2 hshort
  · have hbetween : ∀ r : Run, r.IsIn "a==b\n".toList → r.Between (!isBlank ·) :=
      forall_run_of_runs_eq htight ⟨by decide, by decide⟩
    exact ((operator_spacing_told _).1 ⟨'=', by decide, by decide⟩).2 hbetween

end Formatting

end CodeHabits
