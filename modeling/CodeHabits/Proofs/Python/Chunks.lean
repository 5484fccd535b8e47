import CodeHabits.Proofs.Language
import CodeHabits.Proofs.Text.Position
import CodeHabits.Python.Chunks
import Mathlib.Data.List.Chain

/-!
# `CodeHabits.Proofs.Python.Chunks`: where chunks begin

A line may begin a chunk by its own text (`MayBegin`), and does unless the lines before it
end, but for blank and indented ones, in a decorator (`FollowsDecorator`). The splitter
carries the second condition as a flag, which is a fold over all lines passed so far
(`pending_iff`), so it is the same in the middle of a chunk and behind it. `Cut` states what
one chunk is among the lines of the whole text, and `cut_chunksFrom` that the splitter
makes such chunks; the rest is by induction on `Cut`.

`chunks_partition_lines` is the partition with its boundaries. `decorator_kept_iff` says
when a decorator is in one chunk with the definition below it: every line in column 0
between them, a comment or a closing bracket as well, must be a decorator.
-/

set_option autoImplicit false

namespace CodeHabits

namespace Text

theorem trimRight_cons {c : Char} (h : isBlank c = false) (rest : List Char) :
    trimRight (c :: rest) = c :: trimRight rest := by
  rw [trimRight, trimRight, List.reverse_cons, List.dropWhile_append]
  cases hrest : List.dropWhile isBlank rest.reverse with
  | nil => simp [h]
  | cons last before => simp

theorem trim_cons {c : Char} (h : isBlank c = false) (rest : List Char) :
    trim (c :: rest) = c :: trimRight rest := by
  rw [trim, trimLeft, List.dropWhile_cons_of_neg (by simp [h]), trimRight_cons h]

/-- No line has a line feed. -/
theorem not_mem_of_mem_feedLines {cs line : List Char} (h : line ∈ feedLines cs) :
    '\n' ∉ line := by
  induction cs generalizing line with
  | nil =>
    rw [feedLines, List.splitOn_nil, List.mem_singleton] at h
    simp [h]
  | cons c rest ih =>
    obtain ⟨first, others, hrest⟩ := List.exists_cons_of_ne_nil (List.splitOn_ne_nil '\n' rest)
    rw [feedLines, hrest] at ih
    rw [feedLines, List.splitOn_cons_eq_if_modifyHead, hrest] at h
    by_cases hc : c = '\n'
    · rw [if_pos (by simp [hc]), List.mem_cons] at h
      rcases h with rfl | h
      · simp
      · exact ih h
    · rw [if_neg (by simp [hc]), List.modifyHead_cons, List.mem_cons] at h
      rcases h with rfl | h
      · have hfirst := ih List.mem_cons_self
        simp [hfirst, Ne.symm hc]
      · exact ih (List.mem_cons_of_mem first h)

end Text

namespace Python

variable {line decorator target : List Char} {lines before between behind : List (List Char)}
  {chunks : List Chunk} {start i j : Nat}

/-! ### Lines -/

/-- A line that begins a chunk unless it belongs to a decorator: its first character is
neither a blank nor the sign of a comment, and it continues no statement. -/
def MayBegin (line : List Char) : Prop :=
  (∃ c ∈ line.head?, Text.isBlank c = false ∧ c ≠ '#') ∧ isContinuation (Text.trim line) = false

/-- Lines that end in a decorator, but for blank and indented lines behind it. -/
def FollowsDecorator (before : List (List Char)) : Prop :=
  ∃ front decorator between, before = front ++ decorator :: between ∧
    decorator.head? = some '@' ∧ ∀ line ∈ between, isFlush line = false

/-- A line that begins a definition. -/
def Declares (line : List Char) : Prop :=
  ∃ word ∈ ["def", "async def", "class"], word.toList <+: line

theorem canBegin_iff : canBegin line = true ↔ MayBegin line := by
  cases line with
  | nil => simp [canBegin, MayBegin, isFlush]
  | cons c rest =>
    by_cases hc : Text.isBlank c = true
    · simp [canBegin, MayBegin, isFlush, hc]
    · rw [Bool.not_eq_true] at hc
      simp [canBegin, MayBegin, isFlush, hc, Text.trim_cons hc]

theorem isFlush_of_at (h : line.head? = some '@') : isFlush line = true := by
  rw [isFlush, h]
  decide

theorem isDecorator_iff (h : isFlush line = true) :
    isDecorator line = true ↔ line.head? = some '@' := by
  cases line with
  | nil => exact absurd h (by decide)
  | cons c rest =>
    have hc : Text.isBlank c = false := by simpa [isFlush] using h
    simp [isDecorator, Text.trim_cons hc]

theorem MayBegin.isFlush (h : MayBegin line) : isFlush line = true := by
  obtain ⟨⟨c, hc, hblank, -⟩, -⟩ := h
  rw [Python.isFlush, Option.mem_def.1 hc]
  simp [hblank]

/-- No word that continues a statement begins with the sign of a decorator. -/
theorem mayBegin_of_at (h : line.head? = some '@') : MayBegin line := by
  obtain ⟨rest, rfl⟩ := List.head?_eq_some_iff.1 h
  refine ⟨⟨'@', rfl, by decide, by decide⟩, ?_⟩
  rw [Text.trim_cons (by decide)]
  simp [isContinuation, continuationWords]

/-- A definition continues nothing. Of its words only one shares the first letter with a
word that does, and they differ in the second. -/
theorem Declares.mayBegin (h : Declares line) : MayBegin line := by
  obtain ⟨word, hword, rest, rfl⟩ := h
  simp only [List.mem_cons, List.not_mem_nil, or_false] at hword
  rcases hword with rfl | rfl | rfl
  · refine ⟨⟨'d', rfl, by decide, by decide⟩, ?_⟩
    rw [show "def".toList = 'd' :: ['e', 'f'] from rfl, List.cons_append,
      Text.trim_cons (by decide)]
    simp [isContinuation, continuationWords]
  · refine ⟨⟨'a', rfl, by decide, by decide⟩, ?_⟩
    rw [show "async def".toList = 'a' :: "sync def".toList from rfl, List.cons_append,
      Text.trim_cons (by decide)]
    simp [isContinuation, continuationWords]
  · refine ⟨⟨'c', rfl, by decide, by decide⟩, ?_⟩
    rw [show "class".toList = 'c' :: 'l' :: ['a', 's', 's'] from rfl, List.cons_append,
      List.cons_append, Text.trim_cons (by decide), Text.trimRight_cons (by decide)]
    simp [isContinuation, continuationWords]

/-! ### The flag -/

theorem not_followsDecorator_nil : ¬ FollowsDecorator [] := by
  rintro ⟨front, decorator, between, hbefore, -⟩
  simp at hbefore

/-- A line in column 0 decides, and no other line changes anything. -/
theorem followsDecorator_append_singleton (before : List (List Char)) (line : List Char) :
    FollowsDecorator (before ++ [line]) ↔
      if isFlush line = true then line.head? = some '@' else FollowsDecorator before := by
  constructor
  · rintro ⟨front, decorator, between, hbefore, hat, hbetween⟩
    induction between using List.reverseRecOn with
    | nil =>
      obtain ⟨rfl, hline⟩ := List.append_inj' hbefore rfl
      obtain rfl : line = decorator := by simpa using hline
      rwa [if_pos (isFlush_of_at hat)]
    | append_singleton between last _ =>
      rw [← List.cons_append, ← List.append_assoc] at hbefore
      obtain ⟨rfl, hline⟩ := List.append_inj' hbefore rfl
      obtain rfl : line = last := by simpa using hline
      rw [List.forall_mem_append, List.forall_mem_singleton] at hbetween
      rw [if_neg (by simp [hbetween.2])]
      exact ⟨front, decorator, between, rfl, hat, hbetween.1⟩
  · split
    · intro hat
      exact ⟨before, line, [], rfl, hat, by simp⟩
    · rintro ⟨front, decorator, between, rfl, hat, hbetween⟩
      rename_i hline
      refine ⟨front, decorator, between ++ [line], by simp, hat, ?_⟩
      rw [List.forall_mem_append, List.forall_mem_singleton]
      exact ⟨hbetween, by simpa using hline⟩

/-- The flag after one more line. -/
def pending (decorated : Bool) (line : List Char) : Bool :=
  if isFlush line then isDecorator line else decorated

theorem pending_iff (before : List (List Char)) :
    before.foldl pending false = true ↔ FollowsDecorator before := by
  induction before using List.reverseRecOn with
  | nil => simp [not_followsDecorator_nil]
  | append_singleton before line ih =>
    rw [List.foldl_append, List.foldl_cons, List.foldl_nil, followsDecorator_append_singleton,
      pending]
    split
    · exact isDecorator_iff ‹_›
    · exact ih

/-! ### Boundaries -/

/-- The line at an index, counted from zero, begins a chunk. -/
def BeginsAt (lines : List (List Char)) (i : Nat) : Prop :=
  ∃ line, lines[i]? = some line ∧ MayBegin line ∧ ¬ FollowsDecorator (lines.take i)

theorem beginsAt_append_cons :
    BeginsAt (before ++ line :: behind) before.length ↔
      MayBegin line ∧ ¬ FollowsDecorator before := by
  simp [BeginsAt]

/-- The splitter begins no chunk inside of what it takes, and one behind it. -/
theorem takeChunk_spec (before lines : List (List Char)) :
    (∀ i, before.length ≤ i →
        i < before.length + (takeChunk (before.foldl pending false) lines).1.length →
        ¬ BeginsAt (before ++ lines) i) ∧
      ((takeChunk (before.foldl pending false) lines).2 ≠ [] →
        BeginsAt (before ++ lines)
          (before.length + (takeChunk (before.foldl pending false) lines).1.length)) := by
  -- Every line that is passed goes over to those in front, so the flag stays a fold over all of
  -- them.
  induction lines generalizing before with
  | nil =>
    simp only [takeChunk]
    refine ⟨fun i hlow hhigh => ?_, fun h => absurd rfl h⟩
    simp only [List.length_nil] at hhigh
    omega
  | cons line rest ih =>
    have hbegins : BeginsAt (before ++ line :: rest) before.length ↔
        (canBegin line && !before.foldl pending false) = true := by
      rw [beginsAt_append_cons, ← canBegin_iff, ← pending_iff]
      simp
    rw [takeChunk]
    split
    · rename_i hline
      refine ⟨fun i hlow hhigh => ?_, fun _ => hbegins.2 hline⟩
      simp only [List.length_nil] at hhigh
      omega
    · rename_i hline
      have ih := ih (before ++ [line])
      rw [List.foldl_append, List.foldl_cons, List.foldl_nil, pending, List.append_assoc,
        List.singleton_append, List.length_append, List.length_singleton] at ih
      obtain ⟨hinside, hbehind⟩ := ih
      simp only [List.length_cons]
      refine ⟨fun i hlow hhigh => ?_, fun hothers => ?_⟩
      · rcases Nat.eq_or_lt_of_le hlow with rfl | hlow
        · rwa [hbegins]
        · exact hinside i hlow (by omega)
      · have hat := hbehind hothers
        rwa [show ∀ n, before.length + 1 + n = before.length + (n + 1) from
          fun n => by omega] at hat

/-- Lines that make up one chunk: the first of them begins a chunk, no other one does. -/
structure Stretch (lines : List (List Char)) (start length : Nat) : Prop where
  pos : 0 < length
  fits : start + length ≤ lines.length
  begins : start = 0 ∨ BeginsAt lines start
  inside : ∀ i, start < i → i < start + length → ¬ BeginsAt lines i

/-- The chunk of so many lines from an index on. -/
def chunkAt (lines : List (List Char)) (start length : Nat) : Chunk :=
  ⟨start + 1, (lines.drop start).take length⟩

/-- The lines from an index on, cut into chunks. -/
inductive Cut (lines : List (List Char)) : Nat → List Chunk → Prop
  | nil : Cut lines lines.length []
  | cons {start length : Nat} {chunks : List Chunk} (hfirst : Stretch lines start length)
      (hrest : Cut lines (start + length) chunks) :
      Cut lines start (chunkAt lines start length :: chunks)

/-- The chunk that the splitter takes off, and what begins behind it. -/
theorem stretch_takeChunk {rest mine others : List (List Char)}
    (hline : before = [] ∨ BeginsAt (before ++ line :: rest) before.length)
    (htaken : takeChunk (isFlush line && isDecorator line) rest = (mine, others)) :
    Stretch (before ++ line :: rest) before.length (mine.length + 1) ∧
      (others ≠ [] → BeginsAt (before ++ line :: rest) (before.length + (mine.length + 1))) := by
  -- The flag at the first line is that of all lines up to it, since a first line either
  -- decides by itself or has none before it.
  have hflag : (isFlush line && isDecorator line) = (before ++ [line]).foldl pending false := by
    rw [List.foldl_append, List.foldl_cons, List.foldl_nil, pending]
    rcases hline with rfl | hline
    · cases isFlush line <;> simp
    · simp [(beginsAt_append_cons.1 hline).1.isFlush]
  have hlines := takeChunk_append (isFlush line && isDecorator line) rest
  obtain ⟨hinside, hbehind⟩ := takeChunk_spec (before ++ [line]) rest
  rw [htaken] at hlines
  rw [← hflag, htaken, List.append_assoc, List.singleton_append, List.length_append,
    List.length_singleton] at hinside hbehind
  dsimp only at hlines hinside hbehind
  refine ⟨⟨Nat.succ_pos _, ?_, hline.imp_left fun h => by simp [h], ?_⟩, fun hothers => ?_⟩
  · rw [← hlines, List.length_append, List.length_cons, List.length_append]
    omega
  · intro i hlow hhigh
    exact hinside i hlow (by omega)
  · rw [Nat.add_comm mine.length, ← Nat.add_assoc]
    exact hbehind hothers

theorem cut_chunksFrom {number : Nat} (hnumber : number = before.length + 1)
    (hbegins : lines ≠ [] → before = [] ∨ BeginsAt (before ++ lines) before.length) :
    Cut (before ++ lines) before.length (chunksFrom number lines) := by
  induction number, lines using chunksFrom.induct generalizing before with
  | case1 number =>
    rw [chunksFrom, List.append_nil]
    exact .nil
  | case2 number line rest parts =>
    rename_i ih
    have hlines := takeChunk_append (isFlush line && isDecorator line) rest
    cases htaken : takeChunk (isFlush line && isDecorator line) rest with
    | mk mine others =>
    obtain ⟨hfirst, hbehind⟩ := stretch_takeChunk (hbegins (by simp)) htaken
    simp only [parts, htaken] at hlines ih
    -- The chunk is moved to the lines in front, and the rest is cut behind it.
    have hall : before ++ line :: rest = before ++ line :: mine ++ others := by
      rw [← hlines, List.append_assoc, List.cons_append]
    have hlength : (before ++ line :: mine).length = before.length + (mine.length + 1) := by
      rw [List.length_append, List.length_cons]
    have hchunk : ⟨number, line :: mine⟩
        = chunkAt (before ++ line :: rest) before.length (mine.length + 1) := by
      rw [chunkAt, hnumber, List.drop_left, ← hlines]
      simp
    have hcut := @ih (before ++ line :: mine) (by rw [hlength, hnumber]; omega)
    rw [← hall, hlength] at hcut
    rw [chunksFrom, htaken]
    dsimp only
    rw [hchunk]
    exact .cons hfirst (hcut fun hothers => .inr (hbehind hothers))

theorem cut_splitTopLevel (source : String) :
    Cut (Text.feedLines source.toList) 0 (splitTopLevel source) :=
  cut_chunksFrom rfl fun _ => .inl rfl

/-! ### What chunks make up -/

/-- A chunk has the line of a number. -/
def Chunk.HasLine (chunk : Chunk) (number : Nat) : Prop :=
  chunk.firstLine ≤ number ∧ number < chunk.firstLine + chunk.lines.length

namespace Stretch

variable {length : Nat}

theorem length_lines (h : Stretch lines start length) :
    (chunkAt lines start length).lines.length = length := by
  have hfits := h.fits
  simp only [chunkAt, List.length_take, List.length_drop]
  omega

theorem hasLine_iff (h : Stretch lines start length) :
    (chunkAt lines start length).HasLine (i + 1) ↔ start ≤ i ∧ i < start + length := by
  rw [Chunk.HasLine, h.length_lines]
  simp only [chunkAt]
  omega

theorem head?_lines (h : Stretch lines start length) :
    (chunkAt lines start length).lines.head? = lines[start]? := by
  rw [chunkAt, List.head?_take, if_neg (Nat.ne_of_gt h.pos), List.head?_drop]

end Stretch

namespace Cut

theorem start_le (h : Cut lines start chunks) : start ≤ lines.length := by
  cases h with
  | nil => exact le_rfl
  | cons hfirst _ => exact le_trans (Nat.le_add_right _ _) hfirst.fits

theorem eq_nil (h : Cut lines start chunks) (hend : lines.length ≤ start) : chunks = [] := by
  cases h with
  | nil => rfl
  | cons hfirst _ =>
    have hpos := hfirst.pos
    have hfits := hfirst.fits
    omega

theorem firstLine {chunk : Chunk} (h : Cut lines start (chunk :: chunks)) :
    chunk.firstLine = start + 1 := by
  cases h with
  | cons _ _ => rfl

theorem exists_cons (h : Cut lines start chunks) (hstart : start < lines.length) :
    ∃ length others, chunks = chunkAt lines start length :: others ∧
      Stretch lines start length ∧ Cut lines (start + length) others := by
  cases h with
  | nil => exact absurd hstart (lt_irrefl _)
  | cons hfirst hrest => exact ⟨_, _, rfl, hfirst, hrest⟩

/-- Behind a chunk another one begins, unless the lines end. -/
theorem of_mem (h : Cut lines start chunks) {chunk : Chunk} (hchunk : chunk ∈ chunks) :
    ∃ first length, start ≤ first ∧ chunk = chunkAt lines first length ∧
      Stretch lines first length ∧
      (first + length < lines.length → BeginsAt lines (first + length)) := by
  induction h with
  | nil => simp at hchunk
  | @cons start length others hfirst hrest ih =>
    rcases List.mem_cons.1 hchunk with rfl | hchunk
    · refine ⟨start, length, le_rfl, rfl, hfirst, fun hlt => ?_⟩
      obtain ⟨next, -, -, hnext, -⟩ := hrest.exists_cons hlt
      have hpos := hfirst.pos
      exact hnext.begins.resolve_left (by omega)
    · obtain ⟨first, more, hle, hrest⟩ := ih hchunk
      exact ⟨first, more, by omega, hrest⟩

/-- Every line is in a chunk. -/
theorem exists_hasLine (h : Cut lines start chunks) (hlow : start ≤ i) (hhigh : i < lines.length) :
    ∃ chunk ∈ chunks, chunk.HasLine (i + 1) := by
  induction h with
  | nil => omega
  | @cons start length others hfirst hrest ih =>
    by_cases hi : i < start + length
    · exact ⟨_, List.mem_cons_self, hfirst.hasLine_iff.2 ⟨hlow, hi⟩⟩
    · obtain ⟨chunk, hchunk, hline⟩ := ih (by omega)
      exact ⟨chunk, List.mem_cons_of_mem _ hchunk, hline⟩

/-- A chunk begins at the lines where one begins, and nowhere else. -/
theorem exists_firstLine_iff (h : Cut lines 0 chunks) (hi : i < lines.length) :
    (∃ chunk ∈ chunks, chunk.firstLine = i + 1) ↔ i = 0 ∨ BeginsAt lines i := by
  constructor
  · rintro ⟨chunk, hchunk, hnumber⟩
    obtain ⟨first, length, -, rfl, hfirst, -⟩ := h.of_mem hchunk
    obtain rfl : first = i := Nat.succ.inj hnumber
    exact hfirst.begins
  · intro hbegins
    obtain ⟨chunk, hchunk, hline⟩ := h.exists_hasLine (Nat.zero_le i) hi
    obtain ⟨first, length, -, rfl, hfirst, -⟩ := h.of_mem hchunk
    obtain ⟨hlow, hhigh⟩ := hfirst.hasLine_iff.1 hline
    -- The chunk that has the line begins with it, since none begins inside of a chunk.
    have heq : first = i := by
      by_contra hne
      have hlt : first < i := by omega
      rcases hbegins with rfl | hbegins
      · omega
      · exact hfirst.inside i hlt hhigh hbegins
    exact ⟨_, hchunk, congrArg (· + 1) heq⟩

/-- Two lines are in one chunk when none begins between them. -/
theorem exists_hasLines_iff (h : Cut lines 0 chunks) (hij : i < j) (hj : j < lines.length) :
    (∃ chunk ∈ chunks, chunk.HasLine (i + 1) ∧ chunk.HasLine (j + 1)) ↔
      ∀ k, i < k → k ≤ j → ¬ BeginsAt lines k := by
  constructor
  · rintro ⟨chunk, hchunk, hi, hj⟩ k hlow hhigh
    obtain ⟨first, length, -, rfl, hfirst, -⟩ := h.of_mem hchunk
    rw [hfirst.hasLine_iff] at hi hj
    exact hfirst.inside k (by omega) (by omega)
  · intro hnone
    obtain ⟨chunk, hchunk, hi⟩ := h.exists_hasLine (Nat.zero_le i) (by omega)
    obtain ⟨first, length, -, rfl, hfirst, hnext⟩ := h.of_mem hchunk
    refine ⟨_, hchunk, hi, ?_⟩
    rw [hfirst.hasLine_iff] at hi ⊢
    refine ⟨by omega, ?_⟩
    by_contra hbeyond
    exact hnone (first + length) (by omega) (by omega) (hnext (by omega))

theorem isChain (h : Cut lines start chunks) :
    chunks.IsChain fun chunk next => next.firstLine = chunk.firstLine + chunk.lines.length := by
  induction h with
  | nil => exact .nil
  | @cons start length others hfirst hrest ih =>
    rw [List.isChain_cons]
    refine ⟨?_, ih⟩
    intro next hnext
    obtain ⟨more, rfl⟩ := List.head?_eq_some_iff.1 hnext
    rw [hfirst.length_lines, hrest.firstLine]
    simp only [chunkAt]
    omega

end Cut

theorem joinLines_eq (lines : List (List Char)) :
    joinLines lines = "\n".intercalate (lines.map String.ofList) := by
  apply String.toList_injective
  simp [joinLines, Function.comp_def]

theorem joinLines_feedLines (source : String) :
    joinLines (Text.feedLines source.toList) = source := by
  rw [joinLines, Text.feedLines, List.intercalate_splitOn, String.ofList_toList]

theorem feedLines_joinLines (hlines : lines ≠ []) (hfeed : ∀ line ∈ lines, '\n' ∉ line) :
    Text.feedLines (joinLines lines).toList = lines := by
  rw [joinLines, String.toList_ofList, Text.feedLines, List.splitOn_intercalate _ hfeed hlines]

theorem Cut.intercalate_text (h : Cut lines start chunks) (hstart : start < lines.length) :
    "\n".intercalate (chunks.map Chunk.text) = joinLines (lines.drop start) := by
  induction h with
  | nil => exact absurd hstart (lt_irrefl _)
  | @cons start length others hfirst hrest ih =>
    have htext : (chunkAt lines start length).text
        = joinLines ((lines.drop start).take length) := rfl
    rcases Nat.eq_or_lt_of_le hrest.start_le with hend | hmore
    · rw [hrest.eq_nil (le_of_eq hend.symm), List.map_singleton, String.intercalate_singleton,
        htext, List.take_of_length_le (by simp; omega)]
    · have hothers : others.map Chunk.text ≠ [] := by
        obtain ⟨more, rest, rfl, -⟩ := hrest.exists_cons hmore
        simp
      have hpos := hfirst.pos
      rw [List.map_cons, String.intercalate_cons_of_ne_nil hothers, ih hmore, htext, joinLines_eq,
        joinLines_eq, joinLines_eq, ← String.intercalate_append_of_ne_nil (by simp; omega)
        (by simp; omega), ← List.map_append, ← List.drop_drop, List.take_append_drop]

/-- The text of a chunk is its lines. -/
theorem Cut.feedLines_text {cs : List Char} (h : Cut (Text.feedLines cs) start chunks)
    {chunk : Chunk} (hchunk : chunk ∈ chunks) : Text.feedLines chunk.text.toList = chunk.lines := by
  obtain ⟨first, length, -, rfl, hfirst, -⟩ := h.of_mem hchunk
  refine feedLines_joinLines ?_ fun line hline => ?_
  · rw [← List.length_pos_iff, hfirst.length_lines]
    exact hfirst.pos
  · exact Text.not_mem_of_mem_feedLines (List.mem_of_mem_drop (List.mem_of_mem_take hline))

/-- The chunks of a source text are its lines in their order, cut into parts. Their texts,
joined by line feeds, are the source, and each is numbered by where it begins. A chunk begins
at the first line, and at every line that may begin one and does not follow a decorator,
looking back over blank and indented lines only; none begins at any other line. -/
theorem chunks_partition_lines (source : String) :
    "\n".intercalate ((splitTopLevel source).map Chunk.text) = source ∧
      (∀ chunk ∈ splitTopLevel source, Text.feedLines chunk.text.toList = chunk.lines) ∧
      ((splitTopLevel source).IsChain fun chunk next =>
        next.firstLine = chunk.firstLine + chunk.lines.length) ∧
      (∃ first others, splitTopLevel source = first :: others ∧ first.firstLine = 1 ∧
        ∀ chunk ∈ others, ∃ line, chunk.lines.head? = some line ∧ MayBegin line) ∧
      ∀ before line behind, Text.feedLines source.toList = before ++ line :: behind →
        ((∃ chunk ∈ splitTopLevel source,
            chunk.firstLine = before.length + 1 ∧ chunk.lines.head? = some line) ↔
          before = [] ∨ MayBegin line ∧ ¬ FollowsDecorator before) := by
  have hcut := cut_splitTopLevel source
  have hne : 0 < (Text.feedLines source.toList).length :=
    List.length_pos_iff.2 (List.splitOn_ne_nil _ _)
  refine ⟨?_, fun chunk hchunk => hcut.feedLines_text hchunk, hcut.isChain, ?_, ?_⟩
  · rw [hcut.intercalate_text hne, List.drop_zero, joinLines_feedLines]
  · obtain ⟨length, others, hchunks, hfirst, hothers⟩ := hcut.exists_cons hne
    refine ⟨_, others, hchunks, rfl, ?_⟩
    intro chunk hchunk
    obtain ⟨start, more, hstart, rfl, hstretch, -⟩ := hothers.of_mem hchunk
    have hpos := hfirst.pos
    obtain ⟨line, hline, hbegins, -⟩ := hstretch.begins.resolve_left (by omega)
    exact ⟨line, hstretch.head?_lines.trans hline, hbegins⟩
  · intro before line behind hlines
    rw [hlines] at hcut
    have hstarts := hcut.exists_firstLine_iff (i := before.length) (by simp)
    rw [beginsAt_append_cons, List.length_eq_zero_iff] at hstarts
    rw [← hstarts]
    constructor
    · rintro ⟨chunk, hchunk, hnumber, -⟩
      exact ⟨chunk, hchunk, hnumber⟩
    · rintro ⟨chunk, hchunk, hnumber⟩
      refine ⟨chunk, hchunk, hnumber, ?_⟩
      obtain ⟨first, length, -, rfl, hfirst, -⟩ := hcut.of_mem hchunk
      obtain rfl : first = before.length := Nat.succ.inj hnumber
      simp [hfirst.head?_lines]

/-- The definition below a decorator begins no chunk, the call below the definition does. -/
theorem chunks_partition_lines_of_call :
    (¬ ∃ chunk ∈ splitTopLevel "@cache\n\ndef f():\n    pass\nf()",
        chunk.firstLine = 3 ∧ chunk.lines.head? = some "def f():".toList) ∧
      ∃ chunk ∈ splitTopLevel "@cache\n\ndef f():\n    pass\nf()",
        chunk.firstLine = 5 ∧ chunk.lines.head? = some "f()".toList := by
  obtain ⟨-, -, -, -, hstarts⟩ :=
    chunks_partition_lines "@cache\n\ndef f():\n    pass\nf()"
  constructor
  · refine mt (hstarts ["@cache".toList, []] "def f():".toList
      ["    pass".toList, "f()".toList] (by decide +kernel)).1 ?_
    rw [← pending_iff, ← canBegin_iff]
    decide +kernel
  · refine (hstarts ["@cache".toList, [], "def f():".toList, "    pass".toList] "f()".toList []
      (by decide +kernel)).2 ?_
    rw [← pending_iff, ← canBegin_iff]
    decide +kernel

/-! ### Decorators -/

/-- Lines that a decorator is followed by, none of them in column 0 but further
decorators. -/
def KeepsDecorator (between : List (List Char)) : Prop :=
  ∀ line ∈ between, isFlush line = true → line.head? = some '@'

/-- Behind any other line in column 0 some line begins a chunk, at the latest the
definition. -/
theorem exists_beginsAt (hbefore : ¬ FollowsDecorator before) (htarget : Declares target)
    (between behind : List (List Char)) :
    ∃ k, before.length ≤ k ∧ k ≤ before.length + between.length ∧
      BeginsAt (before ++ (between ++ target :: behind)) k := by
  induction between generalizing before with
  | nil =>
    exact ⟨before.length, le_rfl, by simp, beginsAt_append_cons.2 ⟨htarget.mayBegin, hbefore⟩⟩
  | cons line between ih =>
    by_cases hat : line.head? = some '@'
    · exact ⟨before.length, le_rfl, by simp, beginsAt_append_cons.2 ⟨mayBegin_of_at hat, hbefore⟩⟩
    · have hline : ¬ FollowsDecorator (before ++ [line]) := by
        rw [followsDecorator_append_singleton]
        split <;> assumption
      obtain ⟨k, hlow, hhigh, hk⟩ := ih hline
      rw [List.append_assoc, List.singleton_append, List.length_append, List.length_singleton] at *
      refine ⟨k, by omega, ?_, hk⟩
      rw [List.length_cons]
      omega

/-- From a decorator on no line begins a chunk up to the definition exactly if all lines in
column 0 between them are decorators. -/
theorem forall_not_beginsAt_iff (hbefore : FollowsDecorator before) (htarget : Declares target)
    (between behind : List (List Char)) :
    (∀ k, before.length ≤ k → k ≤ before.length + between.length →
        ¬ BeginsAt (before ++ (between ++ target :: behind)) k) ↔ KeepsDecorator between := by
  induction between generalizing before with
  | nil =>
    refine ⟨fun _ => by simp [KeepsDecorator], fun _ k hlow hhigh => ?_⟩
    obtain rfl : k = before.length := Nat.le_antisymm (by simpa using hhigh) hlow
    rw [List.nil_append, beginsAt_append_cons]
    exact fun h => h.2 hbefore
  | cons line between ih =>
    -- The first line is still in the chunk of the decorator, so it is about those behind it.
    have hfirst : ¬ BeginsAt (before ++ (line :: between ++ target :: behind)) before.length := by
      rw [List.cons_append, beginsAt_append_cons]
      exact fun h => h.2 hbefore
    have hshift : (∀ k, before.length ≤ k → k ≤ before.length + (line :: between).length →
          ¬ BeginsAt (before ++ (line :: between ++ target :: behind)) k) ↔
        ∀ k, (before ++ [line]).length ≤ k → k ≤ (before ++ [line]).length + between.length →
          ¬ BeginsAt (before ++ [line] ++ (between ++ target :: behind)) k := by
      rw [List.append_assoc, List.singleton_append, List.length_append, List.length_singleton,
        List.length_cons]
      constructor
      · intro h k hlow hhigh
        exact h k (by omega) (by omega)
      · intro h k hlow hhigh
        rcases Nat.eq_or_lt_of_le hlow with rfl | hlow
        · exact hfirst
        · exact h k hlow (by omega)
    rw [hshift, KeepsDecorator, List.forall_mem_cons]
    by_cases hline : FollowsDecorator (before ++ [line])
    · rw [ih hline]
      rw [followsDecorator_append_singleton] at hline
      refine ⟨fun h => ⟨fun hflush => by rwa [if_pos hflush] at hline, h⟩, fun h => h.2⟩
    · obtain ⟨k, hlow, hhigh, hk⟩ :=
        exists_beginsAt hline htarget between behind
      rw [followsDecorator_append_singleton] at hline
      constructor
      · intro h
        exact absurd hk (h k hlow hhigh)
      · rintro ⟨hat, -⟩
        split at hline
        · exact absurd (hat ‹_›) hline
        · exact absurd hbefore hline

/-- A decorator is in one chunk with a definition further down exactly if all lines in column
0 between them are decorators. A comment in column 0 or a line that closes the brackets of the
decorator there makes the definition begin a chunk of its own. -/
theorem decorator_kept_iff {source : String}
    (hlines : Text.feedLines source.toList
      = before ++ decorator :: (between ++ target :: behind))
    (hdecorator : decorator.head? = some '@') (htarget : Declares target) :
    (∃ chunk ∈ splitTopLevel source, chunk.HasLine (before.length + 1) ∧
        chunk.HasLine (before.length + between.length + 2)) ↔
      ∀ line ∈ between, isFlush line = true → line.head? = some '@' := by
  have hcut := cut_splitTopLevel source
  have hfollows : FollowsDecorator (before ++ [decorator]) :=
    ⟨before, decorator, [], rfl, hdecorator, by simp⟩
  have hkept := forall_not_beginsAt_iff hfollows htarget between behind
  rw [hlines] at hcut
  rw [List.append_assoc, List.singleton_append, List.length_append, List.length_singleton] at hkept
  rw [hcut.exists_hasLines_iff (j := before.length + between.length + 1) (by omega)
    (by simp; omega), ← KeepsDecorator, ← hkept]
  constructor
  · intro h k hlow hhigh
    exact h k (by omega) (by omega)
  · intro h k hlow hhigh
    exact h k (by omega) (by omega)

/-- Stacked decorators stay with their definition, a comment in column 0 cuts it off. -/
theorem decorator_kept_iff_of_comment :
    (∃ chunk ∈ splitTopLevel "@cache\n\n@wraps(g)\ndef f():\n    pass",
        chunk.HasLine 1 ∧ chunk.HasLine 4) ∧
      ¬ ∃ chunk ∈ splitTopLevel "@cache\n# note\ndef f():\n    pass\n",
        chunk.HasLine 1 ∧ chunk.HasLine 3 := by
  have hdef : Declares "def f():".toList := ⟨"def", by simp, by decide⟩
  constructor
  · have hlines : Text.feedLines "@cache\n\n@wraps(g)\ndef f():\n    pass".toList
        = [] ++ "@cache".toList ::
          ([[], "@wraps(g)".toList] ++ "def f():".toList :: ["    pass".toList]) := by
      decide +kernel
    refine (decorator_kept_iff hlines (by decide) hdef).2 ?_
    decide +kernel
  · have hlines : Text.feedLines "@cache\n# note\ndef f():\n    pass\n".toList
        = [] ++ "@cache".toList ::
          (["# note".toList] ++ "def f():".toList :: ["    pass".toList, []]) := by
      decide +kernel
    refine mt (decorator_kept_iff hlines (by decide) hdef).1 ?_
    decide +kernel

end Python

end CodeHabits
