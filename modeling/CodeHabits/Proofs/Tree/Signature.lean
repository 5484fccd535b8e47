import CodeHabits.Proofs.Store.Coherence
import CodeHabits.Proofs.Tree.Heights

/-!
# `CodeHabits.Proofs.Tree.Signature`: a signature tells the shape

A signature is one flat text, and patterns with the same signature are one pattern in the
store. So different shapes must never be written alike. There are three things that could go
wrong: a value could run into the next part, a part that is missing could be taken for
another one, and the brackets and commas of the two levels below could be read in two ways.

The first cannot be, as long as no value has a bar in it: then the parts are what stands
between the bars. The second cannot be, since every part begins with its own name. For the
third, `shape_unambiguous` reads the shape of a forest off the front of a longer text: the
tags are letters only, so a tag ends where the letters do, and a bracket or a comma tells
what follows. A rest has to be carried along for the trees below to be read by the same
lemma. It is empty, or it begins with the bracket that closes the forest.
-/

set_option autoImplicit false

namespace CodeHabits

/-- Where characters of one sort end, a text is cut in one way only. -/
theorem append_inj_of_ends {p : Char → Bool} {a b r s : List Char} (ha : ∀ c ∈ a, p c = true)
    (hb : ∀ c ∈ b, p c = true) (hr : ∀ c ∈ r.head?, p c = false) (hs : ∀ c ∈ s.head?, p c = false)
    (h : a ++ r = b ++ s) : a = b ∧ r = s := by
  have hread : ∀ {front rest : List Char}, (∀ c ∈ front, p c = true) →
      (∀ c ∈ rest.head?, p c = false) → (front ++ rest).takeWhile p = front := by
    intro front rest hfront hrest
    rw [List.takeWhile_append_of_pos hfront]
    cases rest with
    | nil => simp
    | cons c rest => simp [hrest c rfl]
  have hfront : a = b := by
    rw [← hread ha hr, h, hread hb hs]
  refine ⟨hfront, ?_⟩
  rw [hfront] at h
  exact List.append_cancel_left h

/-! ### Tags -/

namespace Tag

theorem name_injective : Function.Injective name := by
  intro a b h
  cases a <;> cases b <;> first | rfl | exact absurd h (by decide)

theorem isAlpha_of_mem_name {tag : Tag} : ∀ c ∈ tag.name.toList, c.isAlpha = true := by
  have hall : tag.name.toList.all Char.isAlpha = true := by
    cases tag <;> decide
  exact List.all_eq_true.1 hall

theorem name_ne_nil (tag : Tag) : tag.name.toList ≠ [] := by
  cases tag <;> decide

/-- A text that does not go on with letters. -/
def Ends (rest : List Char) : Prop :=
  ∀ c ∈ rest.head?, c.isAlpha = false

/-- A tag is read as far as the letters go. -/
theorem name_append_inj {a b : Tag} {r s : List Char} (hr : Ends r) (hs : Ends s)
    (h : a.name.toList ++ r = b.name.toList ++ s) : a = b ∧ r = s := by
  obtain ⟨hname, hrest⟩ := append_inj_of_ends isAlpha_of_mem_name isAlpha_of_mem_name hr hs h
  exact ⟨name_injective (String.toList_inj.1 hname), hrest⟩

end Tag

/-! ### The levels below -/

namespace Tree

/-- Trees have the same tags, down to so many levels below the roots. -/
def SameTags : Nat → Tree → Tree → Prop
  | 0, t, u => t.tag = u.tag
  | levels + 1, t, u => t.tag = u.tag ∧ List.Forall₂ (SameTags levels) t.children u.children

theorem SameTags.tag {levels : Nat} {t u : Tree} (h : SameTags levels t u) : t.tag = u.tag := by
  cases levels with
  | zero => exact h
  | succ levels => exact h.1

/-- A forest in brackets, if there is any. -/
def enclosed (levels : Nat) : List Tree → List Char
  | [] => []
  | t :: rest => '(' :: ((shapeText levels (t :: rest)).toList ++ [')'])

/-- What stands behind the tag of a tree in a shape. -/
def shapeBelow : Nat → Tree → List Char
  | 0, _ => []
  | levels + 1, t => enclosed levels t.children

/-- What stands behind a tree in a shape: nothing, or the other trees after a comma. -/
def shapeAfter (levels : Nat) : List Tree → List Char
  | [] => []
  | t :: rest => ',' :: (shapeText levels (t :: rest)).toList

theorem toList_shapeText_nil (levels : Nat) : (shapeText levels []).toList = [] := by
  cases levels <;> simp [shapeText]

theorem toList_shapeText_cons (levels : Nat) (t : Tree) (rest : List Tree) :
    (shapeText levels (t :: rest)).toList
      = t.tag.name.toList ++ (shapeBelow levels t ++ shapeAfter levels rest) := by
  -- The separator stands between two trees, so it matters whether there is another one.
  have hparts : ∀ (part : Tree → String),
      (part t).toList = t.tag.name.toList ++ shapeBelow levels t →
      shapeText levels = (fun ts => ",".intercalate (ts.map part)) →
      (shapeText levels (t :: rest)).toList
        = t.tag.name.toList ++ (shapeBelow levels t ++ shapeAfter levels rest) := by
    intro part hpart htext
    cases rest with
    | nil => simp [htext, hpart, shapeAfter]
    | cons u us => simp [htext, hpart, shapeAfter]
  cases levels with
  | zero => exact hparts _ (by simp [shapeBelow]) rfl
  | succ levels =>
    refine hparts _ ?_ rfl
    cases hbelow : t.children with
    | nil => simp [shapeBelow, enclosed, hbelow]
    | cons u us => simp [shapeBelow, enclosed, hbelow]

/-- A text that closes a forest: nothing, or a closing bracket. -/
def Closes (rest : List Char) : Prop :=
  ∀ c ∈ rest.head?, c = ')'

/-- A text that goes on behind a tree: nothing, a comma or a closing bracket. -/
def Breaks (rest : List Char) : Prop :=
  ∀ c ∈ rest.head?, c = ',' ∨ c = ')'

theorem Closes.breaks_after {levels : Nat} {rest : List Tree} {r : List Char} (h : Closes r) :
    Breaks (shapeAfter levels rest ++ r) := by
  cases rest with
  | nil => exact fun c hc => .inr (h c hc)
  | cons t rest =>
    intro c hc
    cases hc
    exact .inl rfl

theorem Breaks.ends_below {r : List Char} (h : Breaks r) (levels : Nat) (t : Tree) :
    Tag.Ends (shapeBelow levels t ++ r) := by
  have hrest : Tag.Ends r := by
    intro c hc
    rcases h c hc with rfl | rfl <;> rfl
  cases levels with
  | zero => exact hrest
  | succ levels =>
    rw [shapeBelow]
    cases t.children with
    | nil => exact hrest
    | cons u us =>
      intro c hc
      cases hc
      rfl

/-- If trees can be read off the front of a text, then so can a forest of them. -/
theorem forest_unambiguous {levels : Nat}
    (htree : ∀ {t u : Tree} {r s : List Char}, Breaks r → Breaks s →
      t.tag.name.toList ++ (shapeBelow levels t ++ r)
        = u.tag.name.toList ++ (shapeBelow levels u ++ s) → SameTags levels t u ∧ r = s)
    {ts us : List Tree} {r s : List Char} (hr : Closes r) (hs : Closes s)
    (h : (shapeText levels ts).toList ++ r = (shapeText levels us).toList ++ s) :
    List.Forall₂ (SameTags levels) ts us ∧ r = s := by
  have hfirst : ∀ {t : Tree} {rest : List Tree} {q r : List Char}, Closes r →
      r ≠ (shapeText levels (t :: rest)).toList ++ q := by
    intro t rest q r hr hcons
    -- A forest begins with a letter, and what closes a forest does not.
    obtain ⟨c, tail, hname⟩ := List.exists_cons_of_ne_nil t.tag.name_ne_nil
    rw [toList_shapeText_cons, hname] at hcons
    have hletter : c.isAlpha = true := Tag.isAlpha_of_mem_name c (by rw [hname]; simp)
    rw [hr c (by rw [hcons]; rfl)] at hletter
    cases hletter
  induction ts generalizing us with
  | nil =>
    cases us with
    | nil => exact ⟨.nil, by simpa [toList_shapeText_nil] using h⟩
    | cons u us =>
      rw [toList_shapeText_nil] at h
      exact absurd h (hfirst hr)
  | cons t ts ih =>
    cases us with
    | nil =>
      rw [toList_shapeText_nil] at h
      exact absurd h.symm (hfirst hs)
    | cons u us =>
      simp only [toList_shapeText_cons, List.append_assoc] at h
      obtain ⟨hsame, hafter⟩ := htree hr.breaks_after hs.breaks_after h
      -- A comma tells whether there is another tree.
      have hrest : List.Forall₂ (SameTags levels) ts us ∧ r = s := by
        cases ts with
        | nil =>
          cases us with
          | nil => exact ⟨.nil, hafter⟩
          | cons v vs =>
            exact absurd (hr ',' (by rw [show r = _ from hafter]; rfl)) (by decide)
        | cons v vs =>
          cases us with
          | nil => exact absurd (hs ',' (by rw [show s = _ from hafter.symm]; rfl)) (by decide)
          | cons w ws => exact ih (List.cons.inj hafter).2
      exact ⟨.cons hsame hrest.1, hrest.2⟩

/-- If a forest can be read off the front of a text, then so can one in brackets. A bracket
tells whether there is any. -/
theorem enclosed_unambiguous {levels : Nat}
    (hforest : ∀ {ts us : List Tree} {r s : List Char}, Closes r → Closes s →
      (shapeText levels ts).toList ++ r = (shapeText levels us).toList ++ s →
      List.Forall₂ (SameTags levels) ts us ∧ r = s)
    {ts us : List Tree} {r s : List Char} (hr : Breaks r) (hs : Breaks s)
    (h : enclosed levels ts ++ r = enclosed levels us ++ s) :
    List.Forall₂ (SameTags levels) ts us ∧ r = s := by
  have hopens : ∀ {r tail : List Char}, Breaks r → r ≠ '(' :: tail := by
    intro r tail hr hcons
    exact absurd (hr '(' (by rw [hcons]; rfl)) (by decide)
  have hcloses : ∀ r : List Char, Closes (')' :: r) := by
    intro r c hc
    cases hc
    rfl
  cases ts with
  | nil =>
    cases us with
    | nil => exact ⟨.nil, h⟩
    | cons u us => exact absurd h (hopens hr)
  | cons t ts =>
    cases us with
    | nil => exact absurd h.symm (hopens hs)
    | cons u us =>
      simp only [enclosed, List.cons_append, List.append_assoc, List.nil_append,
        List.cons.injEq, true_and] at h
      obtain ⟨hsame, hrest⟩ := hforest (hcloses r) (hcloses s) h
      exact ⟨hsame, (List.cons.inj hrest).2⟩

/-- A shape can be read off the front of a text that closes it, and in one way only. -/
theorem shape_unambiguous {levels : Nat} {ts us : List Tree} {r s : List Char} (hr : Closes r)
    (hs : Closes s) (h : (shapeText levels ts).toList ++ r = (shapeText levels us).toList ++ s) :
    List.Forall₂ (SameTags levels) ts us ∧ r = s := by
  induction levels generalizing ts us r s with
  | zero =>
    refine forest_unambiguous (fun {t u} _ _ hr hs htree => ?_) hr hs h
    exact Tag.name_append_inj (hr.ends_below 0 t) (hs.ends_below 0 u) htree
  | succ levels ih =>
    refine forest_unambiguous (fun {t u} _ _ hr hs htree => ?_) hr hs h
    obtain ⟨htag, hbelow⟩ :=
      Tag.name_append_inj (hr.ends_below (levels + 1) t) (hs.ends_below (levels + 1) u) htree
    obtain ⟨hsame, hrest⟩ := enclosed_unambiguous ih hr hs hbelow
    exact ⟨⟨htag, hsame⟩, hrest⟩

/-- Forests with the same tags have the same shape. -/
theorem shapeText_congr {levels : Nat} {ts us : List Tree}
    (h : List.Forall₂ (SameTags levels) ts us) : shapeText levels ts = shapeText levels us := by
  induction levels generalizing ts us with
  | zero =>
    rw [shapeText, shapeText]
    congr 1
    induction h with
    | nil => rfl
    | cons htag _ ih => rw [List.map_cons, List.map_cons, ih, htag.tag]
  | succ levels ih =>
    rw [shapeText, shapeText]
    congr 1
    induction h with
    | nil => rfl
    | @cons t u _ _ hsame _ ihRest =>
      obtain ⟨htag, hbelow⟩ := hsame
      have hempty : t.children.isEmpty = u.children.isEmpty := by
        rw [Bool.eq_iff_iff, List.isEmpty_iff_length_eq_zero, List.isEmpty_iff_length_eq_zero,
          hbelow.length_eq]
      rw [List.map_cons, List.map_cons, ihRest, htag, hempty, ih hbelow]

theorem shapeText_eq_iff {levels : Nat} {ts us : List Tree} :
    shapeText levels ts = shapeText levels us ↔ List.Forall₂ (SameTags levels) ts us := by
  refine ⟨fun h => ?_, shapeText_congr⟩
  have hnothing : Closes [] := by simp [Closes]
  refine (shape_unambiguous hnothing hnothing ?_).1
  rw [h]

/-- There is no bar in a shape if there is none below its trees. -/
theorem bar_not_mem_of_below {levels : Nat} (hbelow : ∀ t, '|' ∉ shapeBelow levels t)
    (ts : List Tree) : '|' ∉ (shapeText levels ts).toList := by
  have hname : ∀ t : Tree, '|' ∉ t.tag.name.toList := by
    intro t hbar
    exact absurd (Tag.isAlpha_of_mem_name _ hbar) (by decide)
  induction ts with
  | nil => simp [toList_shapeText_nil]
  | cons t rest ih =>
    rw [toList_shapeText_cons]
    cases rest with
    | nil => simp [shapeAfter, hname, hbelow]
    | cons u us => simp [shapeAfter, hname, hbelow, ih]

theorem bar_not_mem_shapeText (levels : Nat) (ts : List Tree) :
    '|' ∉ (shapeText levels ts).toList := by
  induction levels generalizing ts with
  | zero => exact bar_not_mem_of_below (fun t => by simp [shapeBelow]) ts
  | succ levels ih =>
    refine bar_not_mem_of_below (fun t => ?_) ts
    rw [shapeBelow]
    cases t.children with
    | nil => simp [enclosed]
    | cons u us => simp [enclosed, ih]

end Tree

/-! ### The attributes -/

/-- What the front-ends note under the names that are part of the identity: counts are natural
numbers, flags are truth values, and a kind is a text without a bar. -/
structure Attributes.Usual (name : String) (value : Value) : Prop where
  count : name = "param_count" ∨ name = "arg_count" → ∃ n, value = .ofNat n
  flag : name = "is_async" ∨ name = "has_else" → ∃ b, value = .bool b
  kind : name = "kind" → ∃ s, value = .text s ∧ '|' ∉ s.toList

/-- A tree with such attributes at its root. -/
def Tree.Usual (t : Tree) : Prop :=
  ∀ name value, t.attribute? name = some value → Attributes.Usual name value

theorem bar_not_mem_toString (n : Nat) : '|' ∉ (toString n).toList := by
  intro hbar
  rw [Nat.toString_eq_ofList_toDigits, String.toList_ofList] at hbar
  exact absurd (Nat.isDigit_of_mem_toDigits (by omega) (by omega) hbar) (by decide)

namespace Attributes

variable {name : String} {v w : Value}

/-- Each of the names is one of a count, a flag or the kind. -/
theorem identity_cases (hname : name ∈ identityAttributes) :
    (name = "param_count" ∨ name = "arg_count") ∨ (name = "is_async" ∨ name = "has_else") ∨
      name = "kind" := by
  simp only [identityAttributes, List.mem_cons, List.not_mem_nil, or_false] at hname
  tauto

/-- Usual values of an attribute are written in different ways. -/
theorem Usual.eq_of_canonicalText (hname : name ∈ identityAttributes) (hv : Usual name v)
    (hw : Usual name w) (h : canonicalText v = canonicalText w) : v = w := by
  rcases identity_cases hname with hcount | hflag | hkind
  · obtain ⟨m, rfl⟩ := hv.count hcount
    obtain ⟨n, rfl⟩ := hw.count hcount
    rw [toString_nat_injective (show toString m = toString n from h)]
  · obtain ⟨a, rfl⟩ := hv.flag hflag
    obtain ⟨b, rfl⟩ := hw.flag hflag
    cases a <;> cases b <;> first | rfl | exact absurd h (by decide)
  · obtain ⟨s, rfl, _⟩ := hv.kind hkind
    obtain ⟨t, rfl, _⟩ := hw.kind hkind
    exact congrArg Value.text h

theorem Usual.bar_not_mem (hname : name ∈ identityAttributes) (hv : Usual name v) :
    '|' ∉ (canonicalText v).toList := by
  rcases identity_cases hname with hcount | hflag | hkind
  · obtain ⟨n, rfl⟩ := hv.count hcount
    exact bar_not_mem_toString n
  · obtain ⟨b, rfl⟩ := hv.flag hflag
    cases b <;> decide
  · obtain ⟨s, rfl, hbar⟩ := hv.kind hkind
    exact hbar

end Attributes

/-- A part of a signature is read as far as its name goes. -/
theorem labelled_inj {a b x y : String} (ha : '=' ∉ a.toList) (hb : '=' ∉ b.toList)
    (h : a ++ "=" ++ x = b ++ "=" ++ y) : a = b ∧ x = y := by
  have hlist : a.toList ++ '=' :: x.toList = b.toList ++ '=' :: y.toList := by
    simpa using congrArg String.toList h
  have hsort : ∀ {label : String}, '=' ∉ label.toList → ∀ c ∈ label.toList, (c != '=') = true := by
    intro label hlabel c hc
    refine bne_iff_ne.2 fun heq => hlabel ?_
    rw [← heq]
    exact hc
  obtain ⟨hlabel, hrest⟩ := append_inj_of_ends (p := (· != '=')) (hsort ha) (hsort hb)
    (by simp) (by simp) hlist
  exact ⟨String.toList_inj.1 hlabel, String.toList_inj.1 (List.cons.inj hrest).2⟩

/-- The parts that are there tell which ones are missing, since each begins with its name. -/
theorem labelled_unambiguous {names : List String} (hnames : ∀ name ∈ names, '=' ∉ name.toList)
    (hdistinct : names.Nodup) {f g : String → Option String}
    (h : names.filterMap (fun name => (f name).map fun text => name ++ "=" ++ text)
      = names.filterMap (fun name => (g name).map fun text => name ++ "=" ++ text)) :
    ∀ name ∈ names, f name = g name := by
  induction names with
  | nil => simp
  | cons name rest ih =>
    obtain ⟨hname, hrest⟩ := List.forall_mem_cons.1 hnames
    obtain ⟨hnew, hnodup⟩ := List.nodup_cons.1 hdistinct
    -- The first part of the later names begins with another name.
    have hother : ∀ {f : String → Option String} {text : String} {tail : List String},
        rest.filterMap (fun name => (f name).map fun text => name ++ "=" ++ text)
          ≠ (name ++ "=" ++ text) :: tail := by
      intro f text tail hcons
      have hmem : name ++ "=" ++ text ∈ rest.filterMap
          (fun name => (f name).map fun text => name ++ "=" ++ text) := by
        rw [hcons]
        simp
      obtain ⟨other, hlater, hpart⟩ := List.mem_filterMap.1 hmem
      obtain ⟨_, _, heq⟩ := Option.map_eq_some_iff.1 hpart
      obtain ⟨rfl, _⟩ := labelled_inj (hrest other hlater) hname heq
      exact hnew hlater
    cases hf : f name with
    | none =>
      cases hg : g name with
      | none =>
        simp only [List.filterMap_cons, hf, hg, Option.map_none] at h
        exact List.forall_mem_cons.2 ⟨by rw [hf, hg], ih hrest hnodup h⟩
      | some text =>
        simp only [List.filterMap_cons, hf, hg, Option.map_none, Option.map_some] at h
        exact absurd h hother
    | some text =>
      cases hg : g name with
      | none =>
        simp only [List.filterMap_cons, hf, hg, Option.map_none, Option.map_some] at h
        exact absurd h.symm hother
      | some text' =>
        simp only [List.filterMap_cons, hf, hg, Option.map_some, List.cons.injEq] at h
        obtain ⟨_, htext⟩ := labelled_inj hname hname h.1
        exact List.forall_mem_cons.2 ⟨by rw [hf, hg, htext], ih hrest hnodup h.2⟩

/-! ### Signatures -/

namespace Tree

variable {t u : Tree}

/-- The parts of a signature that tell the attributes. -/
def identityParts (t : Tree) : List String :=
  identityAttributes.filterMap fun name =>
    ((t.attribute? name).map canonicalText).map fun text => name ++ "=" ++ text

/-- The parts of a signature. -/
def signatureParts (t : Tree) (height : Nat) : List String :=
  t.tag.name :: (t.identityParts
    ++ ["depth=" ++ toString height, "shape=" ++ shapeText 1 t.children])

theorem structuralSignature_eq (t : Tree) (height : Nat) :
    structuralSignature t height = "|".intercalate (t.signatureParts height) := by
  simp [structuralSignature, signatureParts, identityParts, Function.comp_def]

theorem Usual.bar_not_mem (ht : t.Usual) (height : Nat) :
    ∀ part ∈ t.signatureParts height, '|' ∉ part.toList := by
  have hbars : ∀ name ∈ identityAttributes, '|' ∉ name.toList := by decide
  intro part hpart
  simp only [signatureParts, List.mem_cons, List.mem_append, List.not_mem_nil, or_false] at hpart
  rcases hpart with rfl | hidentity | rfl | rfl
  · intro hbar
    exact absurd (Tag.isAlpha_of_mem_name _ hbar) (by decide)
  · obtain ⟨name, hname, hpart⟩ := List.mem_filterMap.1 hidentity
    simp only [Option.map_eq_some_iff] at hpart
    obtain ⟨_, ⟨value, hvalue, rfl⟩, rfl⟩ := hpart
    simp [hbars name hname, (ht name value hvalue).bar_not_mem hname]
  · rw [String.toList_append, List.mem_append, not_or]
    exact ⟨by decide, bar_not_mem_toString height⟩
  · simp [bar_not_mem_shapeText]

/-- What stands between the bars can be told from the signature. -/
theorem signatureParts_eq_iff (ht : t.Usual) (hu : u.Usual) {k l : Nat} :
    structuralSignature t k = structuralSignature u l ↔
      t.signatureParts k = u.signatureParts l := by
  have hsplit : ∀ {t : Tree} {k : Nat}, t.Usual →
      (structuralSignature t k).toList.splitOn '|' = (t.signatureParts k).map String.toList := by
    intro t k ht
    rw [structuralSignature_eq, String.toList_intercalate]
    exact List.splitOn_intercalate _ (List.forall_mem_map.2 (ht.bar_not_mem k))
      (by simp [signatureParts])
  constructor
  · intro h
    have hparts : (t.signatureParts k).map String.toList
        = (u.signatureParts l).map String.toList := by
      rw [← hsplit ht, h, hsplit hu]
    exact List.map_injective_iff.2 (fun _ _ h => String.toList_inj.1 h) hparts
  · intro h
    rw [structuralSignature_eq, h, structuralSignature_eq]

theorem identityParts_eq_iff (ht : t.Usual) (hu : u.Usual) :
    t.identityParts = u.identityParts ↔
      ∀ name ∈ identityAttributes, t.attribute? name = u.attribute? name := by
  constructor
  · intro h name hname
    have htexts := labelled_unambiguous (by decide) (by decide) h name hname
    cases hv : t.attribute? name with
    | none =>
      rw [hv] at htexts
      exact (Option.map_eq_none_iff.1 htexts.symm).symm
    | some v =>
      rw [hv] at htexts
      obtain ⟨w, hw, htext⟩ := Option.map_eq_some_iff.1 htexts.symm
      rw [hw, (ht name v hv).eq_of_canonicalText hname (hu name w hw) htext.symm]
  · intro h
    refine List.filterMap_congr fun name hname => ?_
    rw [h name hname]

/-- Signatures are the same exactly for the same tag, the same attributes, the same height
and the same tags on the two levels below. -/
theorem structuralSignature_eq_iff (ht : t.Usual) (hu : u.Usual) {k l : Nat} :
    structuralSignature t k = structuralSignature u l ↔
      t.tag = u.tag ∧ (∀ name ∈ identityAttributes, t.attribute? name = u.attribute? name) ∧
      k = l ∧ List.Forall₂ (SameTags 1) t.children u.children := by
  have hdepth : ("depth=" ++ toString k = "depth=" ++ toString l) ↔ k = l := by
    rw [String.append_right_inj]
    exact ⟨toString_nat_injective, fun h => by rw [h]⟩
  have hshape : ("shape=" ++ shapeText 1 t.children = "shape=" ++ shapeText 1 u.children) ↔
      List.Forall₂ (SameTags 1) t.children u.children := by
    rw [String.append_right_inj, shapeText_eq_iff]
  rw [signatureParts_eq_iff ht hu, signatureParts, signatureParts, List.cons.injEq,
    Tag.name_injective.eq_iff]
  -- The last two parts are always there, so the others are all that is in front of two parts.
  have hlast : ∀ a b c d : String, [a, b].length = [c, d].length := fun _ _ _ _ => rfl
  rw [List.append_eq_append_iff_of_size_eq_right (hlast _ _ _ _), identityParts_eq_iff ht hu,
    List.cons.injEq, List.cons.injEq, hdepth, hshape]
  simp

/-- Signatures are a faithful key. They are the same exactly for nodes with the same tag, the
same attributes that are part of the identity, the same height and the same tags on the two
levels below, as long as these attributes are noted in the usual way. So the same signature
means the same kind of pattern.

What a search finds, node by node, is the kind and the signature of each node with its true
height, and a search of a tree that can be measured does not fail. Trees that differ only in
places and in other attributes give the same kinds and signatures, whatever the language, the
file and its formatting. -/
theorem signature_faithful :
    (∀ t u : Tree, t.Usual → u.Usual →
      (structuralSignature t t.height = structuralSignature u u.height ↔
        t.tag = u.tag ∧
        (∀ name ∈ identityAttributes, t.attribute? name = u.attribute? name) ∧
        t.height = u.height ∧ List.Forall₂ (SameTags 1) t.children u.children) ∧
      (structuralSignature t t.height = structuralSignature u u.height →
        PatternKind.ofTag? t.tag = PatternKind.ofTag? u.tag)) ∧
    (∀ (t : Tree) (language : String) (sourceFile : Option String)
      (formatting : Option Formatting),
      (t.Plain → ∃ candidates, Candidate.extract t language sourceFile formatting = .ok candidates) ∧
      ∀ candidates, Candidate.extract t language sourceFile formatting = .ok candidates →
        candidates.map Candidate.key = t.walk.filterMap fun node =>
          (PatternKind.ofTag? node.tag).map fun kind =>
            (kind, structuralSignature node node.height)) ∧
    ∀ t u : Tree, t.bare = u.bare →
      ∀ language sourceFile formatting language' sourceFile' formatting' candidates others,
        Candidate.extract t language sourceFile formatting = .ok candidates →
        Candidate.extract u language' sourceFile' formatting' = .ok others →
        candidates.map Candidate.key = others.map Candidate.key := by
  refine ⟨fun t u ht hu => ⟨structuralSignature_eq_iff ht hu, fun h => ?_⟩,
    fun t language sourceFile formatting => ⟨fun hplain => ?_, fun candidates h => ?_⟩, ?_⟩
  · rw [((structuralSignature_eq_iff ht hu).1 h).1]
  · obtain ⟨candidates, h, _⟩ := Candidate.exists_extract hplain language sourceFile formatting
    exact ⟨candidates, h⟩
  · exact Candidate.map_key_of_extract h
  · intro t u hbare language sourceFile formatting language' sourceFile' formatting' candidates
      others hcandidates hothers
    rw [Candidate.map_key_of_extract hcandidates, Candidate.map_key_of_extract hothers,
      found_eq_of_bare hbare]

/-- A function that calls another one in its last line. -/
def returningCall (name callee : String) (line : Int) : Tree :=
  .node .functionDef ⟨"a.go", line, 0, line + 2, 1⟩
    [("name", .text name), ("param_count", .int 1), ("kind", .text "function"),
      ("is_async", .bool false)]
    [.node .returning ⟨"a.go", line + 1, 4, line + 1, 20⟩ []
      [.node .call ⟨"a.go", line + 1, 11, line + 1, 20⟩
        [("callee", .text callee), ("arg_count", .int 0)] []]]

/-- Two functions that differ in their names, in what they call and in their places have the
same signature, and a search finds the same in both. -/
theorem signature_faithful_of_renamed :
    let t := returningCall "load" "open" 1
    let u := returningCall "save" "close" 40
    t.Usual ∧ u.Usual ∧ t.bare = u.bare ∧
      structuralSignature t t.height = structuralSignature u u.height ∧
      ∃ candidates others, Candidate.extract t "go" none none = .ok candidates ∧
        Candidate.extract u "go" (some "b.go") none = .ok others ∧
        candidates.map Candidate.key = others.map Candidate.key := by
  intro t u
  have husual : ∀ name callee line, (returningCall name callee line).Usual := by
    intro name callee line noted value hget
    obtain ⟨entry, hentry, hnoted, rfl⟩ := Table.exists_mem_of_get? hget
    rw [← eq_of_beq hnoted]
    simp only [returningCall, attributes, List.mem_cons, List.not_mem_nil, or_false] at hentry
    rcases hentry with rfl | rfl | rfl | rfl
    · exact ⟨by simp, by simp, by simp⟩
    · exact ⟨fun _ => ⟨1, rfl⟩, by simp, by simp⟩
    · exact ⟨by simp, by simp, fun _ => ⟨"function", rfl, by decide⟩⟩
    · exact ⟨by simp, fun _ => ⟨false, rfl⟩, by simp⟩
  have hplain : ∀ name callee line, (returningCall name callee line).Plain := by
    intro name callee line
    have hleaf : ∀ s, (node .call s [("callee", .text callee), ("arg_count", .int 0)] []).Plain :=
      fun s => .node (by simp [Attributes.Fits]) (by simp)
    refine .node (by simp [Attributes.Fits]) (List.forall_mem_singleton.2 ?_)
    exact .node (by simp) (List.forall_mem_singleton.2 (hleaf _))
  have hbare : t.bare = u.bare := rfl
  obtain ⟨hiff, hextract, hsame⟩ := signature_faithful
  obtain ⟨candidates, hcandidates⟩ := (hextract t "go" none none).1 (hplain _ _ _)
  obtain ⟨others, hothers⟩ := (hextract u "go" (some "b.go") none).1 (hplain _ _ _)
  refine ⟨husual _ _ _, husual _ _ _, hbare, ?_, candidates, others, hcandidates, hothers,
    hsame t u hbare _ _ _ _ _ _ _ _ hcandidates hothers⟩
  exact (hiff t u (husual _ _ _) (husual _ _ _)).1.2
    ⟨rfl, (bare_eq_iff.1 hbare).2.1, rfl, .cons ⟨rfl, .cons rfl .nil⟩ .nil⟩

end Tree

end CodeHabits
