import CodeHabits.Token.Lexer
import Mathlib.Data.List.Infix
import Mathlib.Data.List.TakeWhile

/-!
# `CodeHabits.Proofs.Token.Matchers`: what the alternatives of a lexer take

Cutting a text is a loop that goes on behind what an alternative has taken. It comes to an
end since every alternative that matches takes at least one character and no more than
there are (`Advances`), unless a marker of comments or a quote is empty
(`Surface.Regular`). `Lexer.first` asks for one character at least, and that changes
nothing then (`first_cases`).

What is dropped is said in `Skips`, without the alternatives: line feeds, blanks and
complete comments. An operator is the longest one that the text begins with (`Longest`);
the list of operators is tried from its first one, so this rests on their order.
-/

set_option autoImplicit false

namespace CodeHabits.Lexer

/-- No marker of comments and no quote is empty, and no extra form is an operator. -/
structure Surface.Regular (surface : Surface) : Prop where
  markers : ∀ marker ∈ surface.lineComments, marker ≠ []
  quotes : ∀ quote ∈ surface.quotes, quote ≠ []
  extras : ∀ form ∈ surface.extras, form.1 ≠ .operator

/-- From one rest of a text to a later one there are only line feeds, blanks and complete
comments. A comment behind a marker goes to the end of its line, and a block comment to the
first place where it can end. -/
inductive Skips (surface : Surface) : List Char → List Char → Prop
  | nothing (cs : List Char) : Skips surface cs cs
  | feed {cs rest : List Char} (h : Skips surface cs rest) : Skips surface ('\n' :: cs) rest
  | blank {c : Char} {cs rest : List Char} (hblank : c ∈ [' ', '\t', '\r', '\x0b', '\x0c'])
      (h : Skips surface cs rest) : Skips surface (c :: cs) rest
  | lineComment {marker body cs rest : List Char} (hmarker : marker ∈ surface.lineComments)
      (hbody : '\n' ∉ body) (hend : ∀ c ∈ cs.head?, c = '\n') (h : Skips surface cs rest) :
      Skips surface (marker ++ body ++ cs) rest
  | blockComment {body cs rest : List Char} (hcomments : surface.blockComments = true)
      (hbody : ¬ ['*', '/'] <:+: body) (h : Skips surface cs rest) :
      Skips surface ('/' :: '*' :: body ++ '*' :: '/' :: cs) rest

theorem Skips.trans {surface : Surface} {cs middle rest : List Char}
    (h : Skips surface cs middle) (hrest : Skips surface middle rest) : Skips surface cs rest := by
  induction h with
  | nothing => exact hrest
  | feed _ ih => exact (ih hrest).feed
  | blank hblank _ ih => exact (ih hrest).blank hblank
  | lineComment hmarker hbody hend _ ih => exact (ih hrest).lineComment hmarker hbody hend
  | blockComment hcomments hbody _ ih => exact (ih hrest).blockComment hcomments hbody

/-- The first characters of a text are an operator, and no longer one begins it. -/
structure Longest (cs : List Char) (taken : Nat) : Prop where
  mem : cs.take taken ∈ operators
  le : ∀ op ∈ operators, op <+: cs → op.length ≤ taken

/-- If it matches, an alternative takes something, and no more than there is. -/
def Advances (matcher : Matcher) : Prop :=
  ∀ cs taken, matcher cs = some taken → 1 ≤ taken ∧ taken ≤ cs.length

/-! ### The alternatives one by one -/

theorem length_takeWhile_le (property : Char → Bool) (cs : List Char) :
    (cs.takeWhile property).length ≤ cs.length :=
  (List.takeWhile_prefix property).length_le

theorem runOf_eq_some {property : Char → Bool} {cs : List Char} {taken : Nat}
    (h : runOf property cs = some taken) :
    taken = (cs.takeWhile property).length ∧ 1 ≤ taken := by
  unfold runOf at h
  split at h
  · cases h
  · rename_i hne
    cases h
    exact ⟨rfl, Nat.pos_of_ne_zero hne⟩

theorem advances_runOf (property : Char → Bool) : Advances (runOf property) := by
  intro cs taken h
  obtain ⟨htaken, hpos⟩ := runOf_eq_some h
  exact ⟨hpos, htaken ▸ length_takeWhile_le property cs⟩

theorem literally_eq_some {text cs : List Char} {taken : Nat} :
    literally text cs = some taken ↔ text <+: cs ∧ taken = text.length := by
  unfold literally
  rw [← List.isPrefixOf_iff_prefix]
  by_cases h : text.isPrefixOf cs = true
  · rw [if_pos h, Option.some_inj]
    exact ⟨fun htaken => ⟨h, htaken.symm⟩, fun hboth => hboth.2.symm⟩
  · rw [if_neg h]
    exact ⟨nofun, fun hboth => absurd hboth.1 h⟩

theorem advances_literally {text : List Char} (h : text ≠ []) : Advances (literally text) := by
  intro cs taken hmatch
  obtain ⟨hbegins, rfl⟩ := literally_eq_some.1 hmatch
  exact ⟨List.length_pos_iff.2 h, hbegins.length_le⟩

/-- A block comment ends where it can end first. -/
theorem commentEnd?_eq_some {cs : List Char} {taken : Nat} (h : commentEnd? cs = some taken) :
    ∃ body rest, cs = body ++ '*' :: '/' :: rest ∧ taken = body.length + 2 ∧
      ¬ ['*', '/'] <:+: body := by
  induction cs using commentEnd?.induct generalizing taken with
  | case1 rest =>
    cases h
    exact ⟨[], rest, rfl, rfl, by simp⟩
  | case2 c rest hnot ih =>
    rw [commentEnd?] at h
    · obtain ⟨inner, hinner, rfl⟩ := Option.map_eq_some_iff.1 h
      obtain ⟨body, more, rfl, rfl, hbody⟩ := ih hinner
      refine ⟨c :: body, more, rfl, by simp, ?_⟩
      rw [List.infix_cons_iff]
      rintro (hbegins | hinfix)
      · -- The comment would have ended at this character.
        obtain ⟨hc, hslash⟩ := List.cons_prefix_cons.1 hbegins
        cases body with
        | nil => simp at hslash
        | cons d body =>
          obtain ⟨hd, _⟩ := List.cons_prefix_cons.1 hslash
          exact hnot (body ++ '*' :: '/' :: more) hc.symm (by simp [← hd])
      · exact hbody hinfix
    · exact hnot
  | case3 => cases h

theorem blockComment_eq_some {cs : List Char} {taken : Nat} (h : blockComment cs = some taken) :
    ∃ body rest, cs = '/' :: '*' :: body ++ '*' :: '/' :: rest ∧ taken = body.length + 4 ∧
      ¬ ['*', '/'] <:+: body := by
  unfold blockComment at h
  split at h
  · obtain ⟨inner, hinner, rfl⟩ := Option.map_eq_some_iff.1 h
    obtain ⟨body, rest, rfl, rfl, hbody⟩ := commentEnd?_eq_some hinner
    exact ⟨body, rest, rfl, rfl, hbody⟩
  · cases h

theorem advances_blockComment : Advances blockComment := by
  intro cs taken h
  obtain ⟨body, rest, rfl, rfl, _⟩ := blockComment_eq_some h
  simp only [List.cons_append, List.length_cons, List.length_append]
  omega

theorem lineComment_eq_some {marker cs : List Char} {taken : Nat}
    (h : lineComment marker cs = some taken) :
    ∃ line, cs = marker ++ line ∧
      taken = marker.length + (line.takeWhile (· != '\n')).length := by
  unfold lineComment at h
  split at h
  · rename_i hbegins
    obtain ⟨line, rfl⟩ := List.isPrefixOf_iff_prefix.1 hbegins
    cases h
    exact ⟨line, rfl, by rw [List.drop_left]⟩
  · cases h

theorem advances_lineComment {marker : List Char} (h : marker ≠ []) :
    Advances (lineComment marker) := by
  intro cs taken hmatch
  obtain ⟨line, rfl, rfl⟩ := lineComment_eq_some hmatch
  have hmarker := List.length_pos_iff.2 h
  have hline := length_takeWhile_le (· != '\n') line
  rw [List.length_append]
  omega

/-- What is left of a string is no longer than the text. -/
theorem stringEnd?_le {quote cs : List Char} {taken : Nat} (h : stringEnd? quote cs = some taken) :
    taken ≤ cs.length := by
  have hclosed : ∀ {cs : List Char} {taken : Nat}, literally quote cs = some taken →
      taken ≤ cs.length := by
    intro cs taken hclosed
    obtain ⟨hbegins, rfl⟩ := literally_eq_some.1 hclosed
    exact hbegins.length_le
  induction cs using stringEnd?.induct generalizing taken with
  | case1 c rest ih =>
    rw [stringEnd?] at h
    rcases Option.or_eq_some_iff.1 h with hmore | ⟨_, hquote⟩
    · obtain ⟨inner, hinner, rfl⟩ := Option.map_eq_some_iff.1 hmore
      have := ih hinner
      simp only [List.length_cons]
      omega
    · exact hclosed hquote
  | case2 c rest hnot ih =>
    rw [stringEnd?] at h
    · rcases Option.or_eq_some_iff.1 h with hmore | ⟨_, hquote⟩
      · split at hmore
        · cases hmore
        · obtain ⟨inner, hinner, rfl⟩ := Option.map_eq_some_iff.1 hmore
          have := ih hinner
          simp only [List.length_cons]
          omega
      · exact hclosed hquote
    · exact hnot
  | case3 => exact hclosed h

theorem advances_quotedString {quote : List Char} (h : quote ≠ []) :
    Advances (quotedString quote) := by
  intro cs taken hmatch
  unfold quotedString at hmatch
  split at hmatch
  · rename_i hbegins
    obtain ⟨rest, rfl⟩ := List.isPrefixOf_iff_prefix.1 hbegins
    obtain ⟨inner, hinner, rfl⟩ := Option.map_eq_some_iff.1 hmatch
    rw [List.drop_left] at hinner
    have hquote := List.length_pos_iff.2 h
    have hrest := stringEnd?_le hinner
    rw [List.length_append]
    omega
  · cases hmatch

theorem advances_number : Advances number := by
  intro cs taken h
  unfold number at h
  split at h
  · cases h
  · rename_i c rest
    split at h
    · cases h
    · have hwhole := length_takeWhile_le Text.isWord rest
      have hdrop : ∀ {d : Char} {more : List Char},
          (c :: rest).drop (1 + (rest.takeWhile Text.isWord).length) = '.' :: d :: more →
          (rest.takeWhile Text.isWord).length + 2 + more.length = rest.length := by
        intro d more hdrop
        have := congrArg List.length hdrop
        simp only [List.length_drop, List.length_cons] at this
        omega
      simp only [List.length_cons]
      dsimp only at h
      split at h
      · rename_i d more heq
        have := hdrop heq
        have := length_takeWhile_le Text.isWord more
        split at h <;> cases h <;> omega
      · cases h
        omega

theorem advances_identifier (shape : IdentifierShape) : Advances (identifier shape) := by
  intro cs taken h
  unfold identifier at h
  split at h
  · cases h
  · rename_i c rest
    have := length_takeWhile_le shape.rest rest
    split at h
    · cases h
      simp only [List.length_cons]
      omega
    · cases h

theorem advances_extra (form : ExtraShape) : Advances (extra form) := by
  intro cs taken h
  cases form with
  | enclosed quote =>
    simp only [extra] at h
    split at h
    · cases h
    · rename_i c rest
      split at h
      · rename_i hclosed
        -- There is a quote behind what is inside.
        have hne : rest.drop (rest.takeWhile (· != quote)).length ≠ [] := by
          rintro hnil
          simp [hnil] at hclosed
        have := List.length_pos_iff.2 hne
        rw [List.length_drop] at this
        cases h
        simp only [List.length_cons]
        omega
      · cases h
  | binary =>
    simp only [extra] at h
    split at h
    · rename_i rest
      obtain ⟨digits, hdigits, rfl⟩ := Option.map_eq_some_iff.1 h
      have := advances_runOf _ _ _ hdigits
      simp only [List.length_cons]
      omega
    · cases h

theorem advances_oneOf (property : Char → Bool) : Advances (oneOf property) := by
  intro cs taken h
  unfold oneOf at h
  split at h
  · rename_i hhead
    cases h
    cases cs with
    | nil => simp at hhead
    | cons c rest => simp
  · cases h

/-- Longer operators come first, so the first that matches is the longest. -/
theorem longest_of_operator {cs : List Char} {taken : Nat} (h : operator cs = some taken) :
    Longest cs taken := by
  have hsorted : operators.Pairwise fun a b => b.length ≤ a.length := by decide
  unfold operator at h
  obtain ⟨before, op, behind, hsplit, hmatch, hnone⟩ := List.findSome?_eq_some_iff.1 h
  obtain ⟨hbegins, rfl⟩ := literally_eq_some.1 hmatch
  constructor
  case mem =>
    rw [← List.prefix_iff_eq_take.1 hbegins, hsplit]
    simp
  case le =>
    intro other hother hfits
    rw [hsplit] at hother hsorted
    rcases List.mem_append.1 hother with hbefore | hbehind
    · have hmatched : literally other cs = some other.length := literally_eq_some.2 ⟨hfits, rfl⟩
      rw [hnone other hbefore] at hmatched
      cases hmatched
    · rcases List.mem_cons.1 hbehind with rfl | hbehind
      · exact Nat.le_refl _
      · exact (List.pairwise_cons.1 (List.pairwise_append.1 hsorted).2.1).1 other hbehind

theorem advances_operator : Advances operator := by
  intro cs taken h
  have hall : ∀ op ∈ operators, op ≠ [] := by decide
  have hlongest := longest_of_operator h
  obtain ⟨op, hop, hmatch⟩ := List.exists_of_findSome?_eq_some h
  exact advances_literally (hall op hop) cs taken hmatch

/-! ### The first lexeme -/

/-- What an alternative takes is something, and of its category. -/
structure Sound (surface : Surface) (form : Category × Matcher) : Prop where
  advances : Advances form.2
  skips : form.1 = .dropped → ∀ cs taken, form.2 cs = some taken →
    Skips surface cs (cs.drop taken)
  longest : form.1 = .token .operator → ∀ cs taken, form.2 cs = some taken → Longest cs taken

variable {surface : Surface}

/-- An alternative for tokens that are no operators only has to take something. -/
theorem Sound.of_advances {category : Category} {matcher : Matcher} (h : Advances matcher)
    (hdropped : category ≠ .dropped) (hoperator : category ≠ .token .operator) :
    Sound surface (category, matcher) :=
  ⟨h, fun heq => absurd heq hdropped, fun heq => absurd heq hoperator⟩

/-- An alternative for what is dropped. -/
theorem Sound.of_skips {matcher : Matcher} (h : Advances matcher)
    (hskips : ∀ cs taken, matcher cs = some taken → Skips surface cs (cs.drop taken)) :
    Sound surface (.dropped, matcher) :=
  ⟨h, fun _ => hskips, nofun⟩

theorem sound_feed : Sound surface (.dropped, literally ['\n']) := by
  refine .of_skips (advances_literally (by simp)) fun cs taken h => ?_
  obtain ⟨⟨rest, rfl⟩, rfl⟩ := literally_eq_some.1 h
  exact (Skips.nothing rest).feed

theorem mem_of_isLineBlank {c : Char} (h : isLineBlank c = true) :
    c ∈ [' ', '\t', '\r', '\x0b', '\x0c'] := by
  have hcode : ∀ d : Char, c.toNat = d.toNat → c = d := fun d => Char.toNat_inj.1
  simp only [isLineBlank, Bool.or_eq_true, beq_iff_eq] at h
  rcases h with (((rfl | rfl) | rfl) | hline) | hpage
  · simp
  · simp
  · simp
  · simp [hcode '\x0b' hline]
  · simp [hcode '\x0c' hpage]

theorem skips_takeWhile (cs : List Char) :
    Skips surface cs (cs.drop (cs.takeWhile isLineBlank).length) := by
  induction cs with
  | nil => exact .nothing []
  | cons c rest ih =>
    by_cases h : isLineBlank c = true
    · rw [List.takeWhile_cons_of_pos h]
      exact ih.blank (mem_of_isLineBlank h)
    · rw [List.takeWhile_cons_of_neg h]
      exact .nothing (c :: rest)

theorem sound_blanks : Sound surface (.dropped, runOf isLineBlank) := by
  refine .of_skips (advances_runOf _) fun cs taken h => ?_
  rw [(runOf_eq_some h).1]
  exact skips_takeWhile cs

theorem sound_blockComment (h : surface.blockComments = true) :
    Sound surface (.dropped, blockComment) := by
  refine .of_skips advances_blockComment fun cs taken hmatch => ?_
  obtain ⟨body, rest, rfl, rfl, hbody⟩ := blockComment_eq_some hmatch
  have hdrop : ('/' :: '*' :: body ++ '*' :: '/' :: rest).drop (body.length + 4) = rest := by
    simp
  rw [hdrop]
  exact (Skips.nothing rest).blockComment h hbody

/-- What stands behind the rest of a line is a line feed, or nothing. -/
theorem head?_drop_takeWhile {line : List Char} :
    ∀ c ∈ (line.drop (line.takeWhile (· != '\n')).length).head?, c = '\n' := by
  induction line with
  | nil => simp
  | cons c rest ih =>
    by_cases h : c = '\n'
    · simp [h]
    · rw [List.takeWhile_cons_of_pos (by simpa using h)]
      exact ih

theorem sound_lineComment (h : surface.Regular) {marker : List Char}
    (hmarker : marker ∈ surface.lineComments) :
    Sound surface (.dropped, lineComment marker) := by
  refine .of_skips (advances_lineComment (h.markers marker hmarker)) fun cs taken hmatch => ?_
  obtain ⟨line, rfl, rfl⟩ := lineComment_eq_some hmatch
  have hbody : '\n' ∉ line.takeWhile (· != '\n') := fun hmem => by
    simpa using List.mem_takeWhile_imp hmem
  have hsplit : line =
      line.takeWhile (· != '\n') ++ line.drop (line.takeWhile (· != '\n')).length :=
    (List.prefix_iff_eq_append.1 (List.takeWhile_prefix _)).symm
  have hdrop : (marker ++ line).drop (marker.length + (line.takeWhile (· != '\n')).length)
      = line.drop (line.takeWhile (· != '\n')).length := by
    rw [← List.drop_drop, List.drop_left]
  rw [hdrop]
  have hskips := (Skips.nothing (line.drop (line.takeWhile (· != '\n')).length)).lineComment
    hmarker hbody head?_drop_takeWhile
  rwa [List.append_assoc, ← hsplit] at hskips

/-- All alternatives of a regular surface are sound. -/
theorem sound_of_mem (h : surface.Regular) : ∀ form ∈ alternatives surface, Sound surface form := by
  unfold alternatives
  simp only [List.forall_mem_append, List.forall_mem_cons, List.forall_mem_map]
  refine ⟨⟨⟨⟨⟨⟨sound_feed, sound_blanks, nofun⟩, ?_⟩, ?_⟩, ?_⟩, ?_⟩, ?_⟩
  · intro form hform
    split at hform
    · rename_i hcomments
      rw [List.mem_singleton.1 hform]
      exact sound_blockComment hcomments
    · cases hform
  · exact fun marker hmarker => sound_lineComment h hmarker
  · exact fun quote hquote =>
      .of_advances (advances_quotedString (h.quotes quote hquote)) nofun nofun
  · intro form hform
    refine .of_advances (advances_extra form.2) nofun ?_
    simpa using h.extras form hform
  · refine ⟨.of_advances advances_number nofun nofun,
      .of_advances (advances_identifier _) nofun nofun,
      ⟨advances_operator, nofun, fun _ _ _ => longest_of_operator⟩,
      .of_advances (advances_oneOf _) nofun nofun, nofun⟩

/-- The first lexeme of a text is what an alternative takes, or one character that fits
nowhere. -/
theorem first_cases (h : surface.Regular) (cs : List Char) :
    (∃ form ∈ alternatives surface, form.2 cs = some (first surface cs).2 ∧
      (first surface cs).1 = form.1) ∨
    first surface cs = (.token .unknown, 1) := by
  unfold first
  split
  · rename_i category taken hfound
    obtain ⟨form, hform, hmatch⟩ := List.exists_of_findSome?_eq_some hfound
    obtain ⟨count, hcount, heq⟩ := Option.map_eq_some_iff.1 hmatch
    cases heq
    have hpos := ((sound_of_mem h form hform).advances cs taken hcount).1
    rw [Nat.max_eq_right hpos]
    exact .inl ⟨form, hform, hcount, rfl⟩
  · exact .inr rfl

/-- The first lexeme is no longer than the text. -/
theorem first_le_length (h : surface.Regular) {cs : List Char} (hcs : cs ≠ []) :
    (first surface cs).2 ≤ cs.length := by
  rcases first_cases h cs with ⟨form, hform, hmatch, _⟩ | hunknown
  · exact ((sound_of_mem h form hform).advances cs _ hmatch).2
  · rw [hunknown]
    exact List.length_pos_iff.2 hcs

theorem skips_of_first (h : surface.Regular) {cs : List Char}
    (hdropped : (first surface cs).1 = .dropped) :
    Skips surface cs (cs.drop (first surface cs).2) := by
  rcases first_cases h cs with ⟨form, hform, hmatch, hcategory⟩ | hunknown
  · exact (sound_of_mem h form hform).skips (hcategory ▸ hdropped) cs _ hmatch
  · rw [hunknown] at hdropped
    cases hdropped

theorem longest_of_first (h : surface.Regular) {cs : List Char}
    (hoperator : (first surface cs).1 = .token .operator) : Longest cs (first surface cs).2 := by
  rcases first_cases h cs with ⟨form, hform, hmatch, hcategory⟩ | hunknown
  · exact (sound_of_mem h form hform).longest (hcategory ▸ hoperator) cs _ hmatch
  · rw [hunknown] at hoperator
    cases hoperator

end CodeHabits.Lexer
