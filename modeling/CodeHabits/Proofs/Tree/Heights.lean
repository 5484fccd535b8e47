import CodeHabits.Proofs.Tree.Plain

/-!
# `CodeHabits.Proofs.Tree.Heights`: what a search finds of the shape of a tree

A search visits the nodes with a stack, and the heights are put together afterwards from the
list of visited nodes. Here the height is what one would say: one more than the greatest of
the heights below (`Tree.height`). `heights_walkFrom` says that both are the same, for
whatever is on the stack. So what a search tells of kinds and signatures is a function of the
tree, which `Tree.found` writes down.

Little of a tree goes into it. `Tree.bare` leaves out the places and all attributes that are
not part of a pattern's identity, and `found_eq_of_bare` says that nothing else is looked at.
-/

set_option autoImplicit false

namespace CodeHabits

namespace Tree

/-! ### Heights -/

mutual

/-- One more than the greatest of the heights below, and zero for a leaf. -/
def height : Tree → Nat
  | node _ _ _ cs => above (heightsOf cs)

/-- The heights of several trees. -/
def heightsOf : List Tree → List Nat
  | [] => []
  | t :: rest => height t :: heightsOf rest

end

theorem heightsOf_eq_map (ts : List Tree) : heightsOf ts = ts.map height := by
  induction ts with
  | nil => rfl
  | cons t rest ih => rw [heightsOf, ih, List.map_cons]

theorem height_eq (t : Tree) : t.height = above (t.children.map height) := by
  cases t with
  | node tag span attributes cs => rw [height, heightsOf_eq_map, children]

/-- Going back over the visited nodes leaves the heights of what was on the stack, and it
finds the height of every node. -/
theorem foldr_add_walkFrom (stack : List Tree) :
    (walkFrom stack).foldr Heights.add ⟨[], []⟩
      = ⟨stack.map height, (walkFrom stack).map height⟩ := by
  induction stack using walkFrom.induct with
  | case1 => simp [walkFrom]
  | case2 t rest ih =>
    -- The heights of the children are on top, in front of those of the rest of the stack.
    rw [walkFrom, List.foldr_cons, ih, Heights.add]
    simp [height_eq t]

theorem heights_walk (t : Tree) : heights t.walk = t.walk.map height := by
  rw [heights, walk, foldr_add_walkFrom]

/-- The kinds and the signatures of the patterns in a tree, in pre-order. -/
def found (t : Tree) : List (PatternKind × String) :=
  t.walk.filterMap fun node =>
    (PatternKind.ofTag? node.tag).map fun kind => (kind, structuralSignature node node.height)

/-! ### What is looked at -/

/-- The attributes that are part of a pattern's identity. -/
def identity (attributes : Attributes) : Attributes :=
  identityAttributes.filterMap fun name => (attributes.get? name).map fun value => (name, value)

mutual

/-- A tree without places, and without all that is not part of a pattern's identity. -/
def bare : Tree → Tree
  | node tag _ attributes cs => node tag ⟨"", 0, 0, 0, 0⟩ (identity attributes) (bareAll cs)

/-- Several trees without all this. -/
def bareAll : List Tree → List Tree
  | [] => []
  | t :: rest => bare t :: bareAll rest

end

theorem bareAll_eq_map (ts : List Tree) : bareAll ts = ts.map bare := by
  induction ts with
  | nil => rfl
  | cons t rest ih => rw [bareAll, ih, List.map_cons]

theorem bare_eq (t : Tree) :
    t.bare = node t.tag ⟨"", 0, 0, 0, 0⟩ (identity t.attributes) (t.children.map bare) := by
  cases t with
  | node tag span attributes cs => rw [bare, bareAll_eq_map]; rfl

@[simp] theorem tag_bare (t : Tree) : t.bare.tag = t.tag := by
  rw [bare_eq]
  rfl

@[simp] theorem children_bare (t : Tree) : t.bare.children = t.children.map bare := by
  rw [bare_eq]
  rfl

theorem get?_filterMap (names : List String) (attributes : Attributes) (name : String) :
    Table.get? (names.filterMap fun other =>
        (attributes.get? other).map fun value => (other, value)) name
      = if name ∈ names then attributes.get? name else none := by
  induction names with
  | nil => rfl
  | cons other rest ih =>
    by_cases hname : other = name
    · subst hname
      cases hget : attributes.get? other with
      | none => simp [hget, ih]
      | some value => simp [hget, Table.get?_cons]
    · have hmem : name ∈ other :: rest ↔ name ∈ rest := by
        simp [Ne.symm hname]
      cases hget : attributes.get? other with
      | none => simp [hget, ih, hmem]
      | some value => simp [hget, Table.get?_cons, hname, ih, hmem]

/-- What is part of the identity is still there. -/
theorem attribute?_bare (t : Tree) {name : String} (hname : name ∈ identityAttributes) :
    t.bare.attribute? name = t.attribute? name := by
  rw [bare_eq]
  show (identity t.attributes).get? name = _
  rw [identity, get?_filterMap, if_pos hname]
  rfl

/-- Trees are the same but for what is left out if their tags are, the attributes that are
part of the identity, and what is below. -/
theorem bare_eq_iff {t u : Tree} :
    t.bare = u.bare ↔ t.tag = u.tag ∧
      (∀ name ∈ identityAttributes, t.attribute? name = u.attribute? name) ∧
      t.children.map bare = u.children.map bare := by
  constructor
  · intro h
    refine ⟨?_, fun name hname => ?_, ?_⟩
    · rw [← tag_bare t, h, tag_bare]
    · rw [← attribute?_bare t hname, h, attribute?_bare u hname]
    · rw [← children_bare t, h, children_bare]
  · rintro ⟨htag, hattributes, hchildren⟩
    have hidentity : identity t.attributes = identity u.attributes := by
      refine List.filterMap_congr fun name hname => ?_
      rw [show t.attributes.get? name = u.attributes.get? name from hattributes name hname]
    rw [bare_eq t, bare_eq u, htag, hidentity, hchildren]

/-- Another attribute does not matter. -/
theorem bare_withAttribute {t : Tree} {name : String} (hname : name ∉ identityAttributes)
    (value : Value) : (t.withAttribute name value).bare = t.bare := by
  refine bare_eq_iff.2 ⟨rfl, fun other hother => ?_, rfl⟩
  have hdifferent : (name == other) = false := by
    rw [beq_eq_false_iff_ne]
    intro hsame
    rw [hsame] at hname
    exact hname hother
  show (Table.put t.attributes name value).get? other = _
  rw [Table.get?_put, hdifferent]
  rfl

theorem bare_withSpan (t : Tree) (s : Span) : (t.withSpan s).bare = t.bare :=
  bare_eq_iff.2 ⟨rfl, fun _ _ => rfl, rfl⟩

theorem height_bare (t : Tree) : t.bare.height = t.height := by
  induction t using height.induct
    (motive_2 := fun ts => (ts.map bare).map height = ts.map height) with
  | case1 tag span attributes cs ih =>
    rw [height_eq, height_eq, children_bare, children, ih]
  | case2 => rfl
  | case3 t rest ht hrest => rw [List.map_cons, List.map_cons, ht, hrest, List.map_cons]

theorem walkFrom_bare (stack : List Tree) :
    walkFrom (stack.map bare) = (walkFrom stack).map bare := by
  induction stack using walkFrom.induct with
  | case1 => simp [walkFrom]
  | case2 t rest ih =>
    rw [List.map_append] at ih
    rw [List.map_cons, walkFrom, children_bare, ih, walkFrom, List.map_cons]

theorem shapeText_bare (levels : Nat) (ts : List Tree) :
    shapeText levels (ts.map bare) = shapeText levels ts := by
  induction levels generalizing ts with
  | zero => simp [shapeText, Function.comp_def]
  | succ levels ih => simp [shapeText, Function.comp_def, ih]

theorem structuralSignature_bare (t : Tree) (height : Nat) :
    structuralSignature t.bare height = structuralSignature t height := by
  unfold structuralSignature
  have hidentity : (identityAttributes.filterMap fun name =>
      (t.bare.attribute? name).map fun value => name ++ "=" ++ canonicalText value)
        = identityAttributes.filterMap fun name =>
          (t.attribute? name).map fun value => name ++ "=" ++ canonicalText value := by
    refine List.filterMap_congr fun name hname => ?_
    rw [attribute?_bare t hname]
  rw [hidentity, tag_bare, children_bare, shapeText_bare]

/-- Nothing that is left out goes into what a search finds. -/
theorem found_bare (t : Tree) : t.bare.found = t.found := by
  have hwalk : t.bare.walk = t.walk.map bare := walkFrom_bare [t]
  rw [found, hwalk, List.filterMap_map, found]
  refine List.filterMap_congr fun node _ => ?_
  simp only [Function.comp_apply, tag_bare, structuralSignature_bare, height_bare]

theorem found_eq_of_bare {t u : Tree} (h : t.bare = u.bare) : t.found = u.found := by
  rw [← found_bare t, h, found_bare]

end Tree

/-! ### Searching -/

namespace Candidate

/-- What a candidate is recognised by. -/
def key (c : Candidate) : PatternKind × String :=
  (c.kind, c.signature)

/-- What a node gives is recognised by its kind and its signature. -/
theorem key_of_ofNode {language sourceFile : String} {fileStyle : Table String Value} {t : Tree}
    {height : Nat} {found? : Option Candidate}
    (h : ofNode language sourceFile fileStyle t height = .ok found?) :
    found?.map key
      = (PatternKind.ofTag? t.tag).map fun kind => (kind, structuralSignature t height) := by
  unfold ofNode at h
  cases hkind : PatternKind.ofTag? t.tag with
  | none =>
    rw [hkind] at h
    cases h
    rfl
  | some kind =>
    rw [hkind] at h
    obtain ⟨style, _, hrest⟩ := Except.bind_eq_ok.1 h
    obtain ⟨metrics, _, hfound⟩ := Except.bind_eq_ok.1 hrest
    cases hfound
    rfl

/-- A search that completes finds the patterns that the tree tells. -/
theorem map_key_of_extract {t : Tree} {language : String} {sourceFile : Option String}
    {formatting : Option Formatting} {candidates : List Candidate}
    (h : extract t language sourceFile formatting = .ok candidates) :
    candidates.map key = t.found := by
  obtain ⟨found, hfound, hrest⟩ := Except.bind_eq_ok.1 h
  cases hrest
  have hzip : t.walk.zip (Tree.heights t.walk) = t.walk.map fun node => (node, node.height) := by
    rw [Tree.heights_walk]
    simpa using List.zip_map' (f := id) (g := Tree.height) (l := t.walk)
  have hkeys : found.map (Option.map key) = (t.walk.zip (Tree.heights t.walk)).map fun entry =>
      (PatternKind.ofTag? entry.1.tag).map fun kind =>
        (kind, structuralSignature entry.1 entry.2) :=
    Except.map_of_mapM hfound fun entry found? hnode => key_of_ofNode hnode
  calc (found.filterMap id).map key
      = (found.map (Option.map key)).filterMap id := by
        simp [List.map_filterMap, List.filterMap_map]
    _ = t.found := by
        rw [hkeys, hzip, List.map_map, List.filterMap_map]
        rfl

end Candidate

end CodeHabits
