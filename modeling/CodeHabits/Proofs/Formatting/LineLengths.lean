import CodeHabits.Formatting
import Mathlib.Data.List.Forall2
import Mathlib.Order.Bounds.Defs

/-!
# `CodeHabits.Proofs.Formatting.LineLengths`: where the measured lengths divide the lines

The median and the preferred maximum are elements of the list of line lengths in
ascending order, at a place that is found by a division without rest. `Divides` says
what that means for the lines in the order in which they stand: more than the given
share of them are no longer, and at most that share are shorter. The place of a
quotient always divides the lines so (`divides_percentile`), and there is only one
length that does (`Divides.unique`).

Being a matter of counting, this tells whether a limit is kept (`Divides.le_iff`), and
it does not change when lines change places or when lines that are too long anyway grow
(`Divides.regrown`).
-/

set_option autoImplicit false

namespace CodeHabits.Formatting

open Text

/-! ### Places of an ascending list -/

section
variable {xs : List Nat} {k : Nat}

/-- An element at a place and those in front of it are no greater than it. -/
theorem lt_countP_le_getElem (hsorted : xs.Pairwise (· ≤ ·)) (hk : k < xs.length) :
    k < xs.countP (· ≤ xs[k]) := by
  have hfront : (xs.take (k + 1)).countP (· ≤ xs[k]) = (xs.take (k + 1)).length := by
    rw [List.countP_eq_length]
    intro x hx
    obtain ⟨i, hi, rfl⟩ := List.mem_take_iff_getElem.1 hx
    rw [decide_eq_true_eq]
    rcases Nat.lt_or_ge i k with hlt | hge
    · exact List.pairwise_iff_getElem.1 hsorted i k (by omega) hk hlt
    · have heq : i = k := by omega
      subst heq
      exact Nat.le_refl _
  have hlength : (xs.take (k + 1)).length = k + 1 := by
    rw [List.length_take]
    omega
  have hsub : (xs.take (k + 1)).countP (· ≤ xs[k]) ≤ xs.countP (· ≤ xs[k]) :=
    (List.take_sublist _ _).countP_le
  omega

/-- Only elements in front of a place are less than the element there. -/
theorem countP_lt_getElem_le (hsorted : xs.Pairwise (· ≤ ·)) (hk : k < xs.length) :
    xs.countP (· < xs[k]) ≤ k := by
  have hbehind : (xs.drop k).countP (· < xs[k]) = 0 := by
    rw [List.countP_eq_zero]
    intro x hx
    obtain ⟨i, hi, rfl⟩ := List.getElem_of_mem hx
    rw [List.length_drop] at hi
    rw [List.getElem_drop, decide_eq_true_eq, Nat.not_lt]
    rcases Nat.eq_zero_or_pos i with rfl | hpos
    · exact Nat.le_refl _
    · exact List.pairwise_iff_getElem.1 hsorted k (k + i) hk (by omega) (by omega)
  have hsplit : xs.countP (· < xs[k])
      = (xs.take k).countP (· < xs[k]) + (xs.drop k).countP (· < xs[k]) := by
    rw [← List.countP_append, List.take_append_drop]
  have hfront : (xs.take k).countP (· < xs[k]) ≤ (xs.take k).length := List.countP_le_length
  rw [List.length_take] at hfront
  omega

end

/-! ### Lengths that divide lines -/

/-- How many lines keep a limit. -/
def within (lines : List (List Char)) (limit : Nat) : Nat :=
  lines.countP fun line => line.length ≤ limit

/-- How many lines are shorter than a length. -/
def shorter (lines : List (List Char)) (length : Nat) : Nat :=
  lines.countP fun line => line.length < length

/-- More than `num` of `den` lines are no longer than a length, and at most so many are
shorter. -/
structure Divides (lines : List (List Char)) (num den length : Nat) : Prop where
  within : num * lines.length < den * within lines length
  shorter : den * shorter lines length ≤ num * lines.length

variable {lines others : List (List Char)} {num den length limit : Nat}

theorem sortedLengths_perm (lines : List (List Char)) :
    (sortedLengths lines).Perm (lines.map List.length) :=
  List.mergeSort_perm _ _

theorem pairwise_sortedLengths (lines : List (List Char)) :
    (sortedLengths lines).Pairwise (· ≤ ·) := by
  have htrans : ∀ a b c : Nat, decide (a ≤ b) = true → decide (b ≤ c) = true →
      decide (a ≤ c) = true := by
    intro a b c hab hbc
    rw [decide_eq_true_eq] at *
    omega
  have htotal : ∀ a b : Nat, (decide (a ≤ b) || decide (b ≤ a)) = true := by
    intro a b
    rw [Bool.or_eq_true, decide_eq_true_eq, decide_eq_true_eq]
    omega
  have h := List.pairwise_mergeSort htrans htotal (lines.map List.length)
  exact h.imp fun hab => of_decide_eq_true hab

theorem length_sortedLengths (lines : List (List Char)) :
    (sortedLengths lines).length = lines.length := by
  rw [(sortedLengths_perm lines).length_eq, List.length_map]

/-- Counting lengths is counting lines. -/
theorem countP_sortedLengths (p : Nat → Bool) (lines : List (List Char)) :
    (sortedLengths lines).countP p = lines.countP fun line => p line.length := by
  rw [(sortedLengths_perm lines).countP_eq, List.countP_map]
  rfl

/-- The place of a fraction less than one is in the list, so the bound on it does not matter. -/
theorem percentile_eq_getElem (hlines : lines ≠ []) (hfraction : num < den) :
    ∃ hk : lines.length * num / den < (sortedLengths lines).length,
      percentile (sortedLengths lines) num den
        = (sortedLengths lines)[lines.length * num / den] := by
  have hpos : 0 < lines.length := List.length_pos_iff.2 hlines
  have hproduct : lines.length * num < den * lines.length := by
    rw [Nat.mul_comm den]
    exact Nat.mul_lt_mul_of_pos_left hfraction hpos
  have hplace : lines.length * num / den < lines.length := Nat.div_lt_of_lt_mul hproduct
  have hmin : min (lines.length * num / den) (lines.length - 1) = lines.length * num / den := by
    omega
  have hk : lines.length * num / den < (sortedLengths lines).length := by
    rw [length_sortedLengths]
    exact hplace
  refine ⟨hk, ?_⟩
  rw [percentile, length_sortedLengths, hmin, List.getElem?_eq_getElem hk]
  rfl

/-- The element at the place of a fraction less than one divides the lines by it. -/
theorem divides_percentile (hlines : lines ≠ []) (hfraction : num < den) :
    Divides lines num den (percentile (sortedLengths lines) num den) := by
  obtain ⟨hk, hvalue⟩ := percentile_eq_getElem hlines hfraction
  have hsorted := pairwise_sortedLengths lines
  have hden : 0 < den := by omega
  rw [hvalue]
  constructor
  · have h := lt_countP_le_getElem hsorted hk
    rw [countP_sortedLengths] at h
    show num * lines.length < den * lines.countP _
    rw [Nat.mul_comm num]
    exact Nat.lt_of_lt_of_le (Nat.lt_mul_div_succ _ hden) (Nat.mul_le_mul_left den h)
  · have h := countP_lt_getElem_le hsorted hk
    rw [countP_sortedLengths] at h
    show den * lines.countP _ ≤ num * lines.length
    rw [Nat.mul_comm num]
    exact Nat.le_trans (Nat.mul_le_mul_left den h) (Nat.mul_div_le _ _)

theorem within_mono {low high : Nat} (h : low ≤ high) : within lines low ≤ within lines high := by
  refine List.countP_mono_left fun line _ hline => ?_
  simp only [decide_eq_true_eq] at *
  omega

theorem within_le_shorter (h : limit < length) : within lines limit ≤ shorter lines length := by
  refine List.countP_mono_left fun line _ hline => ?_
  simp only [decide_eq_true_eq] at *
  omega

/-- The limits that are kept by more than the given share of the lines are those from the dividing
length on. -/
theorem Divides.le_iff (h : Divides lines num den length) (limit : Nat) :
    length ≤ limit ↔ num * lines.length < den * Formatting.within lines limit := by
  constructor
  · intro hle
    exact Nat.lt_of_lt_of_le h.within (Nat.mul_le_mul_left den (within_mono hle))
  · intro hlt
    by_contra hnot
    have hfew : Formatting.within lines limit ≤ Formatting.shorter lines length :=
      within_le_shorter (Nat.lt_of_not_le hnot)
    have hshorter := Nat.mul_le_mul_left den hfew
    have hbelow := h.shorter
    omega

theorem Divides.unique {other : Nat} (h : Divides lines num den length)
    (h' : Divides lines num den other) : length = other :=
  Nat.le_antisymm ((h.le_iff other).2 h'.within) ((h'.le_iff length).2 h.within)

/-! ### Lines that change places and lines that grow -/

/-- Every line is still as it was, or it was longer than a limit and is no shorter now. -/
def Regrown (limit : Nat) (lines others : List (List Char)) : Prop :=
  List.Forall₂ (fun line other => other = line ∨ limit < line.length ∧ line.length ≤ other.length)
    lines others

/-- Lines that are too long count as such before and after. -/
theorem Regrown.countP_eq {p : Nat → Bool} (h : Regrown limit lines others)
    (hp : ∀ n, limit < n → p n = false) :
    others.countP (fun line => p line.length) = lines.countP (fun line => p line.length) := by
  induction h with
  | nil => rfl
  | @cons line other lines others hline _ ih =>
    rw [List.countP_cons, List.countP_cons, ih]
    rcases hline with rfl | ⟨hlong, hgrown⟩
    · rfl
    · rw [hp line.length hlong, hp other.length (by omega)]

/-- The lines change places, and some of those longer than the dividing length grow. -/
theorem Divides.regrown {moved : List (List Char)} (h : Divides lines num den length)
    (hle : length ≤ limit) (hmoved : lines.Perm moved) (hgrown : Regrown limit moved others) :
    Divides others num den length := by
  have hlength : others.length = lines.length := by
    rw [hmoved.length_eq, List.Forall₂.length_eq hgrown]
  have hwithin : Formatting.within others length = Formatting.within lines length := by
    rw [Formatting.within, hgrown.countP_eq (p := (· ≤ length)) (by simp; omega)]
    exact hmoved.symm.countP_eq _
  have hshorter : Formatting.shorter others length = Formatting.shorter lines length := by
    rw [Formatting.shorter, hgrown.countP_eq (p := (· < length)) (by simp; omega)]
    exact hmoved.symm.countP_eq _
  constructor
  · rw [hlength, hwithin]
    exact h.within
  · rw [hlength, hshorter]
    exact h.shorter

/-! ### Measured lengths -/

/-- More than 95 of a hundred lines keep a limit. -/
def Fits (lines : List (List Char)) (limit : Nat) : Prop :=
  95 * lines.length < 100 * within lines limit

/-- The lines of a text. -/
abbrev linesOf (source : String) : List (List Char) :=
  splitLines source.toList

theorem divides_preferredMaxLength {source : String} (h : linesOf source ≠ []) :
    Divides (linesOf source) 95 100 (analyze source).preferredMaxLength := by
  have hvalue : (analyze source).preferredMaxLength
      = percentile (sortedLengths (linesOf source)) 95 100 := by
    rw [analyze, if_neg (by simpa using h)]
  rw [hvalue]
  exact divides_percentile h (by omega)

theorem divides_medianLineLength {source : String} (h : linesOf source ≠ []) :
    Divides (linesOf source) 1 2 (analyze source).medianLineLength := by
  have hvalue : (analyze source).medianLineLength
      = percentile (sortedLengths (linesOf source)) 1 2 := by
    rw [analyze, if_neg (by simpa using h)]
  rw [hvalue]
  exact divides_percentile h (by omega)

theorem medianLineLength_le_preferredMaxLength {source : String} (h : linesOf source ≠ []) :
    (analyze source).medianLineLength ≤ (analyze source).preferredMaxLength := by
  have hwithin := (divides_preferredMaxLength h).within
  rw [(divides_medianLineLength h).le_iff]
  omega

/-- The limits that a file can be told to keep. -/
def usualLimits : List Nat :=
  [80, 100, 120]

/-- The least limit that is kept is the one named. -/
theorem lineLimit_of_isLeast {f : Formatting}
    (h : IsLeast {kept | kept ∈ usualLimits ∧ f.preferredMaxLength ≤ kept} limit) :
    f.lineLimit = toString limit := by
  obtain ⟨⟨hmem, hkept⟩, hleast⟩ := h
  have hbelow (lower : Nat) (hlower : lower ∈ usualLimits) (hlt : lower < limit) :
      ¬ f.preferredMaxLength ≤ lower := by
    intro hkept
    have := hleast ⟨hlower, hkept⟩
    omega
  have hcases : limit = 80 ∨ limit = 100 ∨ limit = 120 := by simpa [usualLimits] using hmem
  rcases hcases with rfl | rfl | rfl
  · simp [lineLimit, hkept]
  · have h80 := hbelow 80 (by decide) (by omega)
    simp [lineLimit, hkept, h80]
  · have h80 := hbelow 80 (by decide) (by omega)
    have h100 := hbelow 100 (by decide) (by omega)
    simp [lineLimit, hkept, h80, h100]

theorem lineLimit_of_none {f : Formatting}
    (h : ∀ limit ∈ usualLimits, ¬ f.preferredMaxLength ≤ limit) : f.lineLimit = "long" := by
  have h80 := h 80 (by decide)
  have h100 := h 100 (by decide)
  have h120 := h 120 (by decide)
  simp [lineLimit, h80, h100, h120]

theorem lineLimit_congr {f g : Formatting} (h : f.preferredMaxLength = g.preferredMaxLength) :
    f.lineLimit = g.lineLimit := by
  rw [lineLimit, lineLimit, h]

/-- The preferred maximum and the median divide the lines of a file, 95 in a hundred and one in two.
So the limit named is the least usual one that more than 95 in a hundred lines keep. Lines may
change places, and those longer than the preferred maximum may grow, without any difference to the
three. -/
theorem line_lengths_divide {source : String} (hlines : linesOf source ≠ []) :
    Divides (linesOf source) 95 100 (analyze source).preferredMaxLength ∧
      Divides (linesOf source) 1 2 (analyze source).medianLineLength ∧
      (∀ limit, IsLeast {kept | kept ∈ usualLimits ∧ Fits (linesOf source) kept} limit →
        (analyze source).lineLimit = toString limit) ∧
      ((∀ limit ∈ usualLimits, ¬ Fits (linesOf source) limit) →
        (analyze source).lineLimit = "long") ∧
      ∀ (other : String) (moved : List (List Char)), (linesOf source).Perm moved →
        Regrown (analyze source).preferredMaxLength moved (linesOf other) →
        (analyze other).preferredMaxLength = (analyze source).preferredMaxLength ∧
          (analyze other).medianLineLength = (analyze source).medianLineLength ∧
          (analyze other).lineLimit = (analyze source).lineLimit := by
  have hmost := divides_preferredMaxLength hlines
  have hmedian := divides_medianLineLength hlines
  have hfits (limit : Nat) :
      (analyze source).preferredMaxLength ≤ limit ↔ Fits (linesOf source) limit :=
    hmost.le_iff limit
  refine ⟨hmost, hmedian, ?_, ?_, ?_⟩
  · intro limit hleast
    simp only [← hfits] at hleast
    exact lineLimit_of_isLeast hleast
  · intro hnone
    simp only [← hfits] at hnone
    exact lineLimit_of_none hnone
  · intro other moved hmoved hgrown
    have hother : linesOf other ≠ [] := by
      intro hnil
      have hlength := List.Forall₂.length_eq hgrown
      rw [hnil, ← hmoved.length_eq] at hlength
      exact hlines (List.length_eq_zero_iff.1 hlength)
    have hmost' := hmost.regrown (Nat.le_refl _) hmoved hgrown
    have hmedian' :=
      hmedian.regrown (medianLineLength_le_preferredMaxLength hlines) hmoved hgrown
    have heq := (divides_preferredMaxLength hother).unique hmost'
    exact ⟨heq, (divides_medianLineLength hother).unique hmedian', lineLimit_congr heq⟩

/-- Twenty short lines behind a longer one. -/
def oneLongLine : String :=
  String.ofList ("bb\n".toList ++ (List.replicate 20 "a\n".toList).flatten)

/-- The long line has become longer and has gone to the end. -/
def oneLongerLine : String :=
  String.ofList ((List.replicate 20 "a\n".toList).flatten ++ "bbbb\n".toList)

/-- Of 21 lines a single long one does not count, wherever it stands and however long it is. -/
theorem line_lengths_divide_of_oneLongLine :
    linesOf oneLongLine ≠ [] ∧
      (analyze oneLongLine).preferredMaxLength = 1 ∧
      (analyze oneLongerLine).preferredMaxLength = 1 ∧
      (analyze oneLongerLine).medianLineLength = (analyze oneLongLine).medianLineLength ∧
      (analyze oneLongerLine).lineLimit = "80" := by
  have hlines : linesOf oneLongLine
      = "bb".toList :: List.replicate 20 "a".toList := by decide +kernel
  have hothers : linesOf oneLongerLine
      = List.replicate 20 "a".toList ++ ["bbbb".toList] := by decide +kernel
  have hne : linesOf oneLongLine ≠ [] := by
    rw [hlines]
    exact List.cons_ne_nil _ _
  obtain ⟨hmost, -, hleast, -, hsame⟩ := line_lengths_divide hne
  have hone : Divides (linesOf oneLongLine) 95 100 1 := by
    rw [hlines]
    exact ⟨by decide +kernel, by decide +kernel⟩
  have hvalue : (analyze oneLongLine).preferredMaxLength = 1 := hmost.unique hone
  have hlimit : (analyze oneLongLine).lineLimit = "80" := by
    refine hleast 80 ⟨⟨by decide, ?_⟩, ?_⟩
    · rw [hlines]
      show 95 * _ < 100 * within _ 80
      decide +kernel
    · rintro limit ⟨hmem, -⟩
      revert hmem limit
      decide
  have hgrown : Regrown (analyze oneLongLine).preferredMaxLength
      (List.replicate 20 "a".toList ++ ["bb".toList]) (linesOf oneLongerLine) := by
    rw [hvalue, hothers]
    refine List.rel_append (List.forall₂_same.2 fun line _ => .inl rfl) (.cons (.inr ?_) .nil)
    decide
  have hmoved : (linesOf oneLongLine).Perm (List.replicate 20 "a".toList ++ ["bb".toList]) := by
    rw [hlines]
    exact (List.perm_append_singleton _ _).symm
  obtain ⟨hmost', hmedian', hlimit'⟩ := hsame oneLongerLine _ hmoved hgrown
  exact ⟨hne, hvalue, hmost'.trans hvalue, hmedian', hlimit'.trans hlimit⟩

end CodeHabits.Formatting
