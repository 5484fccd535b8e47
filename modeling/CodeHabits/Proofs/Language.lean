import CodeHabits.Language
import CodeHabits.Proofs.Table

/-!
# `CodeHabits.Proofs.Language`: a canonical name is its own canonical name

A language hint is normalised wherever it comes in, so what one part of a program hands to
another is normalised again. That changes nothing (`normalizeLanguage_idem`).

Other spellings lead to names that are no other spellings, which a look at the table shows.
Any other name is a stripped hint in lower case, and two facts about lower case keep it as it
is. One pass is enough: what a run of upper case letters becomes lies in no run
(`lowercaseRuns_settle`). And no letter becomes a blank, so a text without blanks at its ends
has none there in lower case.
-/

set_option autoImplicit false

namespace CodeHabits

namespace Text

/-! ### Runs of upper case letters -/

/-- Whether a code point is a member of a run. -/
def inRun (code : Nat) : Nat × Nat × Nat × Int → Bool
  | (first, last, step, _) => first ≤ code && code ≤ last && (code - first) % step == 0

/-- Whether no member of a run is among the code points from `low` to `high` that are `step`
apart: they lie before or after it, or between its members. -/
def misses (low high step : Nat) : Nat × Nat × Nat × Int → Bool
  | (first, last, distance, _) =>
    high.blt first || last.blt low || (step % distance == 0 && (low - first) % distance != 0)

/-- All that lower case changes: letters of ASCII, of other scripts, and the capital I with a
dot. -/
def upperRuns : List (Nat × Nat × Nat × Int) :=
  (0x41, 0x5a, 1, 32) :: (0x130, 0x130, 1, 0) :: lowercaseRuns

/-- Blanks as runs. -/
def blankRuns : List (Nat × Nat × Nat × Int) :=
  blankRanges.map fun (first, last) => (first, last, 1, 0)

/-- Whether what the members of a run become is neither changed by lower case nor blank. -/
def settles : Nat × Nat × Nat × Int → Bool
  | (first, last, step, shift) =>
    let low := Int.toNat (first + shift)
    let high := Int.toNat (last + shift)
    0 < low && (upperRuns ++ blankRuns).all (misses low high (if first == last then 0 else step))

-- A look at each two runs of the table.
theorem lowercaseRuns_settle : lowercaseRuns.all settles = true := by
  decide +kernel

theorem inRun_eq_false_of_misses {low high step code : Nat} {run : Nat × Nat × Nat × Int}
    (h : misses low high step run = true) (hlow : low ≤ code) (hhigh : code ≤ high)
    (hstep : step ∣ code - low) : inRun code run = false := by
  obtain ⟨first, last, distance, shift⟩ := run
  by_contra hmember
  simp only [inRun, Bool.not_eq_false, Bool.and_eq_true, decide_eq_true_eq, beq_iff_eq]
    at hmember
  obtain ⟨⟨hfirst, hlast⟩, hdistance⟩ := hmember
  simp only [misses, Bool.or_eq_true, Bool.and_eq_true, Nat.blt_eq, beq_iff_eq,
    bne_iff_ne, ne_eq] at h
  rcases h with (hbefore | hafter) | ⟨hmultiple, hbetween⟩
  · omega
  · omega
  · -- Both `code` and `low` would be whole distances away from the first member.
    have hbehind : first ≤ low := by
      by_contra hfront
      rw [Nat.sub_eq_zero_of_le (by omega), Nat.zero_mod] at hbetween
      exact hbetween rfl
    have hcode : distance ∣ code - low :=
      Nat.dvd_trans (Nat.dvd_of_mod_eq_zero hmultiple) hstep
    have hlow' : distance ∣ low - first := by
      have hsum : code - first = (code - low) + (low - first) := by omega
      have hwhole : distance ∣ (code - low) + (low - first) :=
        hsum ▸ Nat.dvd_of_mod_eq_zero hdistance
      exact (Nat.dvd_add_right hcode).1 hwhole
    exact hbetween (Nat.mod_eq_zero_of_dvd hlow')

/-- What a member of a run becomes. -/
theorem inRun_lowered {run other : Nat × Nat × Nat × Int} (hrun : run ∈ lowercaseRuns)
    {code : Nat} (hcode : inRun code run = true) (hother : other ∈ upperRuns ++ blankRuns) :
    inRun (Int.toNat (code + run.2.2.2)) other = false := by
  obtain ⟨first, last, step, shift⟩ := run
  have hsettles := List.all_eq_true.1 lowercaseRuns_settle _ hrun
  simp only [inRun, Bool.and_eq_true, decide_eq_true_eq, beq_iff_eq] at hcode
  simp only [settles, Bool.and_eq_true, decide_eq_true_eq, List.all_eq_true] at hsettles
  obtain ⟨hpositive, hmisses⟩ := hsettles
  obtain ⟨⟨hfirst, hlast⟩, hstep⟩ := hcode
  -- A run keeps its steps when it is moved.
  have hmoved : Int.toNat (code + shift) - Int.toNat (first + shift) = code - first := by omega
  refine inRun_eq_false_of_misses (hmisses other hother) ?_ ?_ ?_
  · dsimp only
    omega
  · dsimp only
    omega
  · dsimp only
    rw [hmoved]
    split
    · rename_i hsingle
      rw [beq_iff_eq] at hsingle
      have hzero : code - first = 0 := by omega
      exact hzero ▸ Nat.dvd_refl 0
    · exact Nat.dvd_of_mod_eq_zero hstep

/-- Whether a code point is neither changed by lower case nor blank. -/
def settled (code : Nat) : Bool :=
  !(upperRuns ++ blankRuns).any (inRun code)

theorem settled_iff {code : Nat} :
    settled code = true ↔ ∀ run ∈ upperRuns ++ blankRuns, inRun code run = false := by
  rw [settled, Bool.not_eq_true', List.any_eq_false]
  simp only [Bool.not_eq_true]

/-- What lower case makes besides the letters of the runs: the i with its dot above, and the two
small sigmas. The first code point is what a number that is none would become. -/
theorem settled_single : [0, 0x69, 0x307, 0x3c2, 0x3c3].all settled = true := by
  decide +kernel

/-! ### Characters -/

/-- A character that lower case does not change. -/
def IsSmall (c : Char) : Prop :=
  ∀ run ∈ upperRuns, inRun c.toNat run = false

theorem lowercaseRuns_beyond_ascii : lowercaseRuns.all (fun run => 0x80 ≤ run.1) = true := by
  decide +kernel

/-- Of the runs, ASCII has its own letters only. -/
theorem isSmall_of_ascii {c : Char} (hascii : c.toNat < 0x80)
    (h : inRun c.toNat (0x41, 0x5a, 1, 32) = false) : IsSmall c := by
  intro run hrun
  rcases List.mem_cons.1 hrun with rfl | hrun
  · exact h
  rcases List.mem_cons.1 hrun with rfl | hrun
  · simp [inRun]
    omega
  · have hbeyond := List.all_eq_true.1 lowercaseRuns_beyond_ascii run hrun
    rw [decide_eq_true_eq] at hbeyond
    simp [inRun]
    omega

theorem toLower_ascii : ∀ code < 0x80, (Char.ofNat code).toLower.toNat < 0x80 ∧
    inRun (Char.ofNat code).toLower.toNat (0x41, 0x5a, 1, 32) = false ∧
    isBlank (Char.ofNat code).toLower = isBlank (Char.ofNat code) ∧
    (inRun code (0x41, 0x5a, 1, 32) = false → (Char.ofNat code).toLower = Char.ofNat code) := by
  decide +kernel

theorem lowerChar_cases (c : Char) :
    (c.toNat < 0x80 ∧ lowerChar c = c.toLower) ∨
    (0x80 ≤ c.toNat ∧ ∃ run ∈ lowercaseRuns, inRun c.toNat run = true ∧
      lowerChar c = Char.ofNat (Int.toNat (c.toNat + run.2.2.2))) ∨
    (0x80 ≤ c.toNat ∧ (∀ run ∈ lowercaseRuns, inRun c.toNat run = false) ∧ lowerChar c = c) := by
  by_cases hascii : c.toNat < 0x80
  · exact .inl ⟨hascii, by rw [lowerChar, if_pos hascii]⟩
  have hwide : 0x80 ≤ c.toNat := by omega
  rw [lowerChar, if_neg hascii]
  split
  case h_1 first last step shift hfind =>
    exact .inr (.inl ⟨hwide, _, List.mem_of_find?_eq_some hfind, List.find?_some hfind, rfl⟩)
  case h_2 hfind =>
    refine .inr (.inr ⟨hwide, fun run hrun => ?_, rfl⟩)
    simpa [inRun] using List.find?_eq_none.1 hfind run hrun

/-- What the letters of a run become is neither changed by lower case nor blank. Numbers that
are no code points would become the first one, which is in no run either. -/
theorem inRun_ofNat_lowered {run other : Nat × Nat × Nat × Int} (hrun : run ∈ lowercaseRuns)
    {code : Nat} (hcode : inRun code run = true) (hother : other ∈ upperRuns ++ blankRuns) :
    inRun (Char.ofNat (Int.toNat (code + run.2.2.2))).toNat other = false := by
  by_cases hvalid : (Int.toNat (code + run.2.2.2)).isValidChar
  · rw [Char.ofNat, dif_pos hvalid]
    exact inRun_lowered hrun hcode hother
  · rw [Char.ofNat, dif_neg hvalid]
    exact settled_iff.1 (List.all_eq_true.1 settled_single 0 (by simp)) other hother

theorem isBlank_eq_any_inRun (c : Char) : isBlank c = blankRuns.any (inRun c.toNat) := by
  have hrange : ∀ range : Nat × Nat,
      inRun c.toNat (range.1, range.2, 1, 0) = (range.1 ≤ c.toNat && c.toNat ≤ range.2) := by
    intro range
    simp [inRun, Nat.mod_one]
  rw [isBlank, inRanges, blankRuns, List.any_map]
  simp only [Function.comp_def, hrange]

theorem small_of_settled {c : Char} (h : settled c.toNat = true) :
    IsSmall c ∧ isBlank c = false := by
  have hout := settled_iff.1 h
  rw [isBlank_eq_any_inRun, List.any_eq_false]
  constructor
  · exact fun run hrun => hout run (List.mem_append_left _ hrun)
  · intro run hrun
    simp [hout run (List.mem_append_right _ hrun)]

theorem lowerChar_of_isSmall {c : Char} (h : IsSmall c) : lowerChar c = c := by
  rcases lowerChar_cases c with ⟨hascii, hlower⟩ | ⟨_, run, hrun, hmember, _⟩ | ⟨_, _, hlower⟩
  · obtain ⟨_, _, _, hkept⟩ := toLower_ascii c.toNat hascii
    rw [Char.ofNat_toNat] at hkept
    rw [hlower, hkept (h _ (by simp [upperRuns]))]
  · have hout := h run (by simp [upperRuns, hrun])
    rw [hmember] at hout
    cases hout
  · exact hlower

/-- One pass is enough, for all but the capital I with a dot, of which two characters are
made. -/
theorem isSmall_lowerChar {c : Char} (h : c.toNat ≠ 0x130) : IsSmall (lowerChar c) := by
  rcases lowerChar_cases c with ⟨hascii, hlower⟩ | ⟨_, run, hrun, hmember, hlower⟩ | ⟨hwide, hnone, hlower⟩
  · obtain ⟨hstays, hsmall, _, _⟩ := toLower_ascii c.toNat hascii
    rw [Char.ofNat_toNat] at hstays hsmall
    rw [hlower]
    exact isSmall_of_ascii hstays hsmall
  · rw [hlower]
    exact fun other hother => inRun_ofNat_lowered hrun hmember (List.mem_append_left _ hother)
  · rw [hlower]
    intro run hrun
    simp only [upperRuns, List.mem_cons] at hrun
    rcases hrun with rfl | rfl | hrun
    · simp [inRun]
      omega
    · simp [inRun]
      omega
    · exact hnone run hrun

theorem isBlank_lowerChar {c : Char} (h : isBlank c = false) : isBlank (lowerChar c) = false := by
  rcases lowerChar_cases c with ⟨hascii, hlower⟩ | ⟨_, run, hrun, hmember, hlower⟩ | ⟨_, _, hlower⟩
  · obtain ⟨_, _, hblank, _⟩ := toLower_ascii c.toNat hascii
    rw [Char.ofNat_toNat] at hblank
    rw [hlower, hblank, h]
  · rw [hlower, isBlank_eq_any_inRun, List.any_eq_false]
    intro other hother
    simp [inRun_ofNat_lowered hrun hmember (List.mem_append_right _ hother)]
  · rw [hlower, h]

/-! ### Texts -/

/-- What one character becomes: small letters, of which none is blank if the character is
not. -/
theorem lowerFrom_cons (before : List Char) (c : Char) (rest : List Char) :
    ∃ lowered, lowered ≠ [] ∧
      lowerFrom before (c :: rest) = lowered ++ lowerFrom (c :: before) rest ∧
      (∀ d ∈ lowered, IsSmall d) ∧ (isBlank c = false → ∀ d ∈ lowered, isBlank d = false) := by
  have hspecial : ∀ d ∈ [Char.ofNat 0x3c2, Char.ofNat 0x3c3, 'i', Char.ofNat 0x307],
      IsSmall d ∧ isBlank d = false := by
    intro d hd
    apply small_of_settled
    apply List.all_eq_true.1 settled_single
    simp only [List.mem_cons, List.not_mem_nil, or_false] at hd
    rcases hd with rfl | rfl | rfl | rfl <;> decide
  refine ⟨_, ?_, rfl, ?_⟩
  · split
    · simp
    · split <;> simp
  by_cases hsigma : c.toNat = 0x3a3
  · rw [if_pos (by simp [hsigma])]
    have hmem : ∀ d ∈ [if startsCased before && !startsCased rest then Char.ofNat 0x3c2
        else Char.ofNat 0x3c3], IsSmall d ∧ isBlank d = false := by
      intro d hd
      apply hspecial
      rw [List.mem_singleton.1 hd]
      split <;> simp
    exact ⟨fun d hd => (hmem d hd).1, fun _ d hd => (hmem d hd).2⟩
  rw [if_neg (by simp [hsigma])]
  by_cases hdotted : c.toNat = 0x130
  · rw [if_pos (by simp [hdotted])]
    have hmem : ∀ d ∈ ['i', Char.ofNat 0x307], IsSmall d ∧ isBlank d = false :=
      fun d hd => hspecial d (List.mem_cons_of_mem _ (List.mem_cons_of_mem _ hd))
    exact ⟨fun d hd => (hmem d hd).1, fun _ d hd => (hmem d hd).2⟩
  · rw [if_neg (by simp [hdotted])]
    simp only [List.mem_singleton, forall_eq]
    exact ⟨isSmall_lowerChar hdotted, isBlank_lowerChar⟩

theorem isSmall_of_mem_lowerFrom {before cs : List Char} :
    ∀ c ∈ lowerFrom before cs, IsSmall c := by
  induction cs generalizing before with
  | nil => simp [lowerFrom]
  | cons c rest ih =>
    obtain ⟨lowered, _, hlower, hsmall, _⟩ := lowerFrom_cons before c rest
    rw [hlower]
    intro d hd
    rcases List.mem_append.1 hd with hd | hd
    · exact hsmall d hd
    · exact ih d hd

/-- Text in lower case stays as it is. -/
theorem lowerFrom_of_isSmall {before cs : List Char} (h : ∀ c ∈ cs, IsSmall c) :
    lowerFrom before cs = cs := by
  induction cs generalizing before with
  | nil => rfl
  | cons c rest ih =>
    obtain ⟨hfirst, hrest⟩ := List.forall_mem_cons.1 h
    have hcapital : ∀ code, upperRuns.any (inRun code) = true → c.toNat ≠ code := by
      rintro code hany rfl
      obtain ⟨run, hrun, hmember⟩ := List.any_eq_true.1 hany
      rw [hfirst run hrun] at hmember
      cases hmember
    have hsigma : c.toNat ≠ 0x3a3 := hcapital _ (by decide +kernel)
    have hdotted : c.toNat ≠ 0x130 := hcapital _ (by decide +kernel)
    rw [lowerFrom, if_neg (by simp [hsigma]), if_neg (by simp [hdotted]),
      lowerChar_of_isSmall hfirst, ih hrest]
    rfl

theorem lower_lower (s : String) : lower (lower s) = lower s := by
  unfold lower
  rw [String.toList_ofList, lowerFrom_of_isSmall isSmall_of_mem_lowerFrom]

/-- There is no blank at the two ends. -/
structure Trimmed (cs : List Char) : Prop where
  first : ∀ c ∈ cs.head?, isBlank c = false
  last : ∀ c ∈ cs.getLast?, isBlank c = false

theorem dropWhile_isBlank {cs : List Char} (h : ∀ c ∈ cs.head?, isBlank c = false) :
    cs.dropWhile isBlank = cs := by
  cases cs with
  | nil => rfl
  | cons c rest => exact List.dropWhile_cons_of_neg (by simpa using h c rfl)

theorem Trimmed.trim_eq {cs : List Char} (h : Trimmed cs) : trim cs = cs := by
  rw [trim, trimLeft, dropWhile_isBlank h.first, trimRight, dropWhile_isBlank, List.reverse_reverse]
  rw [List.head?_reverse]
  exact h.last

theorem head?_dropWhile_isBlank (cs : List Char) :
    ∀ c ∈ (cs.dropWhile isBlank).head?, isBlank c = false := by
  intro c hc
  have hfirst := List.head?_dropWhile_not isBlank cs
  rw [Option.mem_def.1 hc] at hfirst
  simpa using hfirst

theorem trimmed_trim (cs : List Char) : Trimmed (trim cs) where
  first := by
    have hprefix : trim cs <+: cs.dropWhile isBlank := by
      have hsuffix := List.dropWhile_suffix isBlank (l := (cs.dropWhile isBlank).reverse)
      rwa [← List.reverse_prefix, List.reverse_reverse] at hsuffix
    obtain ⟨dropped, hdropped⟩ := hprefix
    intro c hc
    refine head?_dropWhile_isBlank cs c ?_
    rw [← hdropped, List.head?_append, Option.mem_def.1 hc]
    rfl
  last := by
    rw [trim, trimRight, List.getLast?_reverse]
    exact head?_dropWhile_isBlank _

/-- Lower case makes no blanks. -/
theorem Trimmed.lowerFrom {cs : List Char} (h : Trimmed cs) (before : List Char) :
    Trimmed (lowerFrom before cs) where
  first := by
    cases cs with
    | nil => simp [Text.lowerFrom]
    | cons c rest =>
      obtain ⟨lowered, hsome, hlower, _, hblank⟩ := lowerFrom_cons before c rest
      intro d hd
      rw [hlower, List.head?_append, Option.mem_def, Option.or_of_isSome (by simpa using hsome)] at hd
      exact hblank (h.first c rfl) d (List.mem_of_mem_head? hd)
  last := by
    have hlast := h.last
    clear h
    induction cs generalizing before with
    | nil => simp [Text.lowerFrom]
    | cons c rest ih =>
      obtain ⟨lowered, hsome, hlower, _, hblank⟩ := lowerFrom_cons before c rest
      rw [hlower]
      cases rest with
      | nil =>
        simp only [Text.lowerFrom, List.append_nil]
        exact fun d hd => hblank (hlast c rfl) d (List.mem_of_getLast? hd)
      | cons e others =>
        obtain ⟨last, hnone, hrest, _, _⟩ := lowerFrom_cons (c :: before) e others
        have hsome : (Text.lowerFrom (c :: before) (e :: others)).getLast?.isSome := by
          simp [hrest, hnone]
        rw [List.getLast?_append, Option.or_of_isSome hsome]
        exact ih _ hlast

end Text

/-! ### Names -/

/-- Other spellings are spellings of names. -/
theorem languageAliases_settled :
    ∀ entry ∈ languageAliases, normalizeLanguage entry.2 = entry.2 := by
  decide +kernel

theorem normalizeLanguage_idem (hint : String) :
    normalizeLanguage (normalizeLanguage hint) = normalizeLanguage hint := by
  generalize hname : Text.lower (Text.strip hint) = name
  have hsettled : Text.lower (Text.strip name) = name := by
    have htrimmed : Text.Trimmed name.toList := by
      rw [← hname, Text.lower, Text.strip, String.toList_ofList, String.toList_ofList]
      exact (Text.trimmed_trim _).lowerFrom []
    rw [Text.strip, htrimmed.trim_eq, String.ofList_toList, ← hname, Text.lower_lower]
  have hcanonical : normalizeLanguage hint = (languageAliases.get? name).getD name := by
    rw [normalizeLanguage, hname]
  cases halias : languageAliases.get? name with
  | none =>
    rw [hcanonical, halias, Option.getD_none, normalizeLanguage, hsettled, halias,
      Option.getD_none]
  | some target =>
    obtain ⟨entry, hmem, _, rfl⟩ := Table.exists_mem_of_get? halias
    rw [hcanonical, halias, Option.getD_some]
    exact languageAliases_settled entry hmem

end CodeHabits
