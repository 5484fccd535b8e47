import CodeHabits.Proofs.Metrics.Ownership
import CodeHabits.Proofs.Table
import CodeHabits.Proofs.Tree.Heights
import Mathlib.Algebra.Ring.Nat

/-!
# `CodeHabits.Proofs.Tree.Positions`: where nodes are in a tree

Two nodes of a tree may be the same tree, so what is visited once is not a tree but a
position: the numbers of the children that lead to it from the root. A position that leads to
a node comes before those below it and behind those below earlier siblings, which is the
order of the lists of numbers. `Tree.positions` are all of them in that order
(`mem_positions`, `pairwise_positions`), and a walk meets the nodes there
(`map_at?_positions`).

The heights of the nodes are found from the back of a walk. They may also be found with marks:
a node is left on the stack behind the nodes below it and marked as entered, and when it is
met again the heights of these are known (`Tree.depths?`). No height is missing then, and
both ways find the same heights (`exists_depths`).
-/

set_option autoImplicit false

namespace CodeHabits.Tree

/-- Where a node is in a tree: which of the trees below to take, from the root on. -/
abbrev Position := List Nat

/-- The node at a position. -/
def at? : Tree → Position → Option Tree
  | t, [] => some t
  | t, i :: rest => t.children[i]?.bind fun child => child.at? rest

mutual

/-- The positions in a tree, each before those below it. -/
def positions : Tree → List Position
  | node _ _ _ cs => [] :: positionsFrom 0 cs

/-- The positions in several trees, of which the first is the child with this number. -/
def positionsFrom (i : Nat) : List Tree → List Position
  | [] => []
  | t :: rest => (positions t).map (i :: ·) ++ positionsFrom (i + 1) rest

end

variable {t : Tree}

/-- What passes from the children of a tree to the tree holds of every tree. -/
@[elab_as_elim]
theorem childInduction {P : Tree → Prop} (h : ∀ t, (∀ child ∈ t.children, P child) → P t)
    (t : Tree) : P t := by
  refine @Tree.rec P (fun ts => ∀ child ∈ ts, P child) ?_ ?_ ?_ t
  · exact fun tag span attributes cs ih => h (.node tag span attributes cs) ih
  · exact fun child hchild => absurd hchild List.not_mem_nil
  · exact fun first rest hfirst hrest => List.forall_mem_cons.2 ⟨hfirst, hrest⟩

/-- The children with their numbers. -/
def numbered (t : Tree) : List (Tree × Nat) :=
  t.children.zipIdx

theorem mem_numbered {entry : Tree × Nat} :
    entry ∈ t.numbered ↔ t.children[entry.2]? = some entry.1 :=
  List.mem_zipIdx_iff_getElem?

theorem pairwise_numbered (t : Tree) : t.numbered.Pairwise fun a b => a.2 < b.2 := by
  have hnumbers : (t.numbered.map Prod.snd).Pairwise (· < ·) := by
    rw [numbered, List.zipIdx_map_snd]
    exact List.pairwise_lt_range'
  exact List.pairwise_map.1 hnumbers

theorem flatMap_children {α : Type} (t : Tree) (f : Tree → List α) :
    t.children.flatMap f = t.numbered.flatMap fun entry => f entry.1 := by
  conv => lhs; rw [← List.zipIdx_map_fst 0 t.children, List.flatMap_map]
  rfl

/-! ### Positions -/

theorem positionsFrom_eq (i : Nat) (ts : List Tree) :
    positionsFrom i ts = (ts.zipIdx i).flatMap fun entry => entry.1.positions.map (entry.2 :: ·) := by
  induction ts generalizing i with
  | nil => rfl
  | cons t rest ih => rw [positionsFrom, ih, List.zipIdx_cons, List.flatMap_cons]

theorem positions_eq (t : Tree) :
    t.positions = [] :: t.numbered.flatMap fun entry => entry.1.positions.map (entry.2 :: ·) := by
  cases t with
  | node tag span attributes cs => rw [positions, positionsFrom_eq]; rfl

theorem at?_cons {i : Nat} {child : Tree} (h : t.children[i]? = some child) (p : Position) :
    t.at? (i :: p) = child.at? p := by
  rw [at?, h, Option.bind_some]

theorem at?_append (t : Tree) (p q : Position) : t.at? (p ++ q) = (t.at? p).bind (·.at? q) := by
  induction p generalizing t with
  | nil => rfl
  | cons i rest ih =>
    rw [List.cons_append, at?, at?]
    cases t.children[i]? with
    | none => rfl
    | some child => exact ih child

/-- The positions of a tree are those that lead to a node. -/
theorem mem_positions {p : Position} : p ∈ t.positions ↔ ∃ s, t.at? p = some s := by
  -- The first number of a position leads to a child, and the rest is a position there.
  induction p generalizing t with
  | nil =>
    rw [positions_eq, at?]
    simp
  | cons i rest ih =>
    have hentry : i :: rest ∈ t.positions
        ↔ ∃ child, t.children[i]? = some child ∧ rest ∈ child.positions := by
      rw [positions_eq, List.mem_cons, List.mem_flatMap]
      simp [mem_numbered]
    rw [hentry, at?]
    simp only [Option.bind_eq_some_iff, ih]
    constructor
    · rintro ⟨child, hchild, s, hs⟩
      exact ⟨s, child, hchild, hs⟩
    · rintro ⟨s, child, hchild, hs⟩
      exact ⟨child, hchild, s, hs⟩

/-- Positions come in their order as lists, so none comes twice. -/
theorem pairwise_positions (t : Tree) : t.positions.Pairwise (· < ·) := by
  induction t using childInduction with
  | _ t ih =>
    rw [positions_eq, List.pairwise_cons, List.pairwise_flatMap]
    -- The root comes before all others. Two positions below the same child are in order there,
    -- and of two below different ones the number of the child decides.
    refine ⟨?_, ?_, ?_⟩
    · intro p hp
      obtain ⟨entry, -, hp⟩ := List.mem_flatMap.1 hp
      obtain ⟨q, -, rfl⟩ := List.mem_map.1 hp
      exact List.nil_lt_cons entry.2 q
    · intro entry hentry
      have hchild : entry.1 ∈ t.children := List.mem_of_getElem? (mem_numbered.1 hentry)
      refine List.pairwise_map.2 ((ih entry.1 hchild).imp ?_)
      exact fun h => List.cons_lt_cons_iff.2 (.inr ⟨rfl, h⟩)
    · refine t.pairwise_numbered.imp ?_
      intro first second hlt p hp q hq
      obtain ⟨p, -, rfl⟩ := List.mem_map.1 hp
      obtain ⟨q, -, rfl⟩ := List.mem_map.1 hq
      exact List.cons_lt_cons_iff.2 (.inl hlt)

/-- A walk meets the nodes at the positions. -/
theorem map_at?_positions (t : Tree) : t.positions.map t.at? = t.walk.map some := by
  rw [walk_eq_nodes]
  induction t using childInduction with
  | _ t ih =>
    have hbelow : t.nodesBelow.map some
        = t.numbered.flatMap fun entry => (entry.1.positions.map (entry.2 :: ·)).map t.at? := by
      rw [nodesBelow, flatMap_children, List.map_flatMap]
      refine List.flatMap_congr fun entry hentry => ?_
      have hchild := mem_numbered.1 hentry
      rw [← ih entry.1 (List.mem_of_getElem? hchild), List.map_map]
      exact List.map_congr_left fun q _ => (at?_cons hchild q).symm
    rw [positions_eq, nodes_eq, List.map_cons, List.map_cons, List.map_flatMap, hbelow]
    rfl

/-! ### Heights found with marks -/

/-- A node on the stack of a search for heights, where it is, and whether the nodes below it
have been put in front of it. -/
structure Visit where
  place : Position
  node : Tree
  entered : Bool

namespace Visit

/-- The visits to the nodes below, the last of them first. -/
def below (v : Visit) : List Visit :=
  (v.node.numbered.map fun entry => ⟨v.place ++ [entry.2], entry.1, false⟩).reverse

/-- The number of times that a stack is looked at for a visit. -/
def looks (v : Visit) : Nat :=
  if v.entered then 1 else 2 * v.node.size

theorem sum_looks_below (v : Visit) :
    (v.below.map looks).sum = 2 * sizeList v.node.children := by
  have hsizes : ∀ ts : List Tree, (ts.map fun child => 2 * child.size).sum = 2 * sizeList ts := by
    intro ts
    induction ts with
    | nil => rfl
    | cons child rest ih =>
      rw [List.map_cons, List.sum_cons, ih, sizeList]
      omega
  have hlooks : v.below.map looks = (v.node.children.map fun child => 2 * child.size).reverse := by
    rw [below, List.map_reverse, List.map_map, ← List.zipIdx_map_fst 0 v.node.children,
      List.map_map]
    rfl
  rw [hlooks, List.sum_reverse, hsizes]

end Visit

/-- The heights of the nodes on a stack, put to those known by their positions. The height of
a node that is met again is taken from those of the nodes below it, and there is no result if
one of them is missing. -/
def depthsFrom (known : Table Position Nat) : List Visit → Option (Table Position Nat)
  | [] => some known
  | v :: rest =>
    if v.entered then do
      let below ← v.node.numbered.mapM fun entry => known.get? (v.place ++ [entry.2])
      depthsFrom (known.put v.place (above below)) rest
    else depthsFrom known (v.below ++ { v with entered := true } :: rest)
termination_by stack => (stack.map Visit.looks).sum
decreasing_by
  -- A node is looked at twice: entering it trades two looks at each node from it down for one
  -- more look at it and two at each node below.
  · rename_i h
    simp [Visit.looks, h]
  · rename_i h
    simp [Visit.looks, h, Visit.sum_looks_below, size_eq v.node]
    omega

/-- The heights of all nodes of a tree by their positions. -/
def depths? (t : Tree) : Option (Table Position Nat) :=
  depthsFrom [] [⟨[], t, false⟩]

/-- All heights that are known are those of the nodes at their positions. -/
def Right (root : Tree) (known : Table Position Nat) : Prop :=
  ∀ p h, known.get? p = some h → (root.at? p).map height = some h

/-- What is known after some visits: still only what is right, all that was known before, and
the heights of the nodes visited and of those below them. -/
structure Found (root : Tree) (visits : List Visit) (known later : Table Position Nat) : Prop where
  right : Right root later
  keeps : ∀ p, known.has p = true → later.has p = true
  covers : ∀ v ∈ visits, ∀ q s, v.node.at? q = some s → later.has (v.place ++ q) = true

/-- A search that comes to these visits gets behind them, whatever else is on the stack. -/
def Passes (root : Tree) (visits : List Visit) : Prop :=
  ∀ known rest, Right root known →
    ∃ later, depthsFrom known (visits ++ rest) = depthsFrom later rest ∧
      Found root visits known later

variable {root : Tree}

theorem passes_of_forall {visits : List Visit} (h : ∀ v ∈ visits, Passes root [v]) :
    Passes root visits := by
  -- What is known after the first visit stays known while the others are made.
  induction visits with
  | nil => exact fun known rest hknown => ⟨known, rfl, hknown, fun p hp => hp, by simp⟩
  | cons v visits ih =>
    intro known rest hknown
    obtain ⟨hv, hvisits⟩ := List.forall_mem_cons.1 h
    obtain ⟨middle, hmiddle, hfirst⟩ := hv known (visits ++ rest) hknown
    obtain ⟨later, hlater, hrest⟩ := ih hvisits middle rest hfirst.right
    refine ⟨later, ?_, ?_⟩
    · rw [List.cons_append, ← hlater, ← hmiddle]
      rfl
    constructor
    case right => exact hrest.right
    case keeps => exact fun p hp => hrest.keeps p (hfirst.keeps p hp)
    case covers =>
      intro u hu q s hs
      rcases List.mem_cons.1 hu with rfl | hu
      · exact hrest.keeps _ (hfirst.covers u (by simp) q s hs)
      · exact hrest.covers u hu q s hs

/-- A height that is known is the right one. -/
theorem Right.get?_eq {known : Table Position Nat} (h : Right root known) {p : Position}
    {s : Tree} (hs : root.at? p = some s) (hp : known.has p = true) :
    known.get? p = some s.height := by
  rw [Table.has_eq_isSome_get?, Option.isSome_iff_exists] at hp
  obtain ⟨found, hfound⟩ := hp
  have hright := h p found hfound
  rw [hs] at hright
  rw [hfound, ← hright]
  rfl

theorem mapM_eq_some_map {α β : Type} {f : α → Option β} {g : α → β} {xs : List α}
    (h : ∀ x ∈ xs, f x = some (g x)) : xs.mapM f = some (xs.map g) := by
  induction xs with
  | nil => rfl
  | cons x rest ih =>
    obtain ⟨hx, hrest⟩ := List.forall_mem_cons.1 h
    rw [List.mapM_cons, hx, ih hrest]
    rfl

/-- When a node is met again the heights of all nodes below it are known, and its own height
is put to them. -/
theorem depthsFrom_entered {known : Table Position Nat} {place : Position} {node : Tree}
    (hnode : root.at? place = some node) (h : Right root known)
    (hbelow : ∀ entry ∈ node.numbered, known.has (place ++ [entry.2]) = true)
    (rest : List Visit) :
    depthsFrom known (⟨place, node, true⟩ :: rest)
      = depthsFrom (known.put place node.height) rest := by
  have hlooked : node.numbered.mapM (fun entry => known.get? (place ++ [entry.2]))
      = some (node.numbered.map fun entry => entry.1.height) := by
    refine mapM_eq_some_map fun entry hentry => h.get?_eq ?_ (hbelow entry hentry)
    rw [at?_append, hnode]
    exact at?_cons (mem_numbered.1 hentry) []
  have hheight : above (node.numbered.map fun entry => entry.1.height) = node.height := by
    rw [height_eq, ← List.zipIdx_map_fst 0 node.children, List.map_map]
    rfl
  rw [depthsFrom, if_pos rfl, hlooked, ← hheight]
  rfl

/-- A node that is entered is left again, with the heights from there down. The nodes below
it have been left before. -/
theorem passes_node (node : Tree) (place : Position) (hnode : root.at? place = some node) :
    Passes root [⟨place, node, false⟩] := by
  induction node using childInduction generalizing place with
  | _ node ih =>
    intro known rest hknown
    have hchild : ∀ entry ∈ node.numbered, root.at? (place ++ [entry.2]) = some entry.1 := by
      intro entry hentry
      rw [at?_append, hnode]
      exact at?_cons (mem_numbered.1 hentry) []
    have hvisits : ∀ v ∈ Visit.below ⟨place, node, false⟩, Passes root [v] := by
      intro v hv
      obtain ⟨entry, hentry, rfl⟩ := List.mem_map.1 (List.mem_reverse.1 hv)
      exact ih entry.1 (List.mem_of_getElem? (mem_numbered.1 hentry)) _ (hchild entry hentry)
    obtain ⟨below, hbelow, hfound⟩ :=
      passes_of_forall hvisits known (⟨place, node, true⟩ :: rest) hknown
    -- Everything below the node is known, that is all but the height of the node itself.
    have hcovered : ∀ entry ∈ node.numbered, ∀ q s, entry.1.at? q = some s →
        below.has (place ++ entry.2 :: q) = true := by
      intro entry hentry q s hs
      have hvisit : (⟨place ++ [entry.2], entry.1, false⟩ : Visit)
          ∈ Visit.below ⟨place, node, false⟩ :=
        List.mem_reverse.2 (List.mem_map.2 ⟨entry, hentry, rfl⟩)
      have hhas := hfound.covers _ hvisit q s hs
      rwa [List.append_assoc] at hhas
    have hentered := depthsFrom_entered hnode hfound.right
      (fun entry hentry => hcovered entry hentry [] entry.1 rfl) rest
    refine ⟨below.put place node.height, ?_, ?_⟩
    · rw [List.singleton_append, depthsFrom, if_neg (by simp), hbelow, hentered]
    constructor
    case right =>
      intro p h hp
      rw [Table.get?_put] at hp
      split at hp
      · rename_i hplace
        cases hp
        rw [← eq_of_beq hplace, hnode]
        rfl
      · exact hfound.right p h hp
    case keeps =>
      intro p hp
      rw [Table.has_put, hfound.keeps p hp]
      rfl
    case covers =>
      intro v hv q s hs
      rw [List.mem_singleton] at hv
      subst hv
      rw [Table.has_put]
      cases q with
      | nil => simp
      | cons i q =>
        obtain ⟨child, hget, hs⟩ := Option.bind_eq_some_iff.1 hs
        rw [hcovered (child, i) (mem_numbered.2 hget) q s hs]
        rfl

/-- A search for heights with marks finds the height of every node of the tree, and nothing
else. -/
theorem exists_depths (t : Tree) :
    ∃ known, t.depths? = some known ∧ ∀ p, known.get? p = (t.at? p).map height := by
  have hpasses : Passes t [⟨[], t, false⟩] := passes_node t [] rfl
  obtain ⟨known, hknown, hfound⟩ := hpasses [] [] fun p h hp => by cases hp
  refine ⟨known, ?_, fun p => ?_⟩
  · rw [depths?]
    rw [List.append_nil] at hknown
    rw [hknown, depthsFrom]
  · cases hs : t.at? p with
    | some s => exact hfound.right.get?_eq hs (hfound.covers ⟨[], t, false⟩ (by simp) p s hs)
    | none =>
      cases hget : known.get? p with
      | none => rfl
      | some h =>
        have hright := hfound.right p h hget
        rw [hs] at hright
        cases hright

/-! ### Heights found from the back -/

theorem above_eq_max? (below : List Nat) : above below = below.max?.elim 0 (· + 1) := by
  have hgreatest : ∀ (rest : List Nat) (h : Nat),
      rest.foldl (fun height child => max height (child + 1)) (h + 1) = rest.foldl max h + 1 := by
    intro rest
    induction rest with
    | nil => exact fun _ => rfl
    | cons child rest ih =>
      intro h
      rw [List.foldl_cons, List.foldl_cons, ← ih, Nat.add_max_add_right]
  cases below with
  | nil => rfl
  | cons h rest =>
    rw [above, List.foldl_cons, Nat.zero_max, hgreatest, List.max?_cons']
    rfl

/-- A leaf has height zero, and every other node one more than the greatest of the heights
below it. -/
theorem height_eq_max? (t : Tree) : t.height = (t.children.map height).max?.elim 0 (· + 1) := by
  rw [height_eq, above_eq_max?]

/-- What a walk meets behind a node is what is below it and what is left of the stack. -/
theorem exists_walkFrom_behind {stack front back : List Tree} {s : Tree}
    (h : walkFrom stack = front ++ s :: back) :
    ∃ rest, back = walkFrom (s.children ++ rest) := by
  -- The node is met when it is on top of the stack, and then those below it are put there.
  induction stack using walkFrom.induct generalizing front with
  | case1 => simp [walkFrom] at h
  | case2 t rest ih =>
    rw [walkFrom] at h
    cases front with
    | nil =>
      obtain ⟨rfl, rfl⟩ := List.cons.inj h
      exact ⟨rest, rfl⟩
    | cons first front =>
      obtain ⟨rfl, hbehind⟩ := List.cons.inj h
      exact ih hbehind

/-- When a node is reached from the back, the heights of the nodes below it are pending, the
first one nearest. -/
theorem pending_eq {t s : Tree} {front back : List Tree} (h : t.walk = front ++ s :: back) :
    (back.foldr Heights.add ⟨[], []⟩).pending.take s.children.length
      = s.children.map height := by
  obtain ⟨rest, rfl⟩ := exists_walkFrom_behind h
  rw [foldr_add_walkFrom, List.map_append]
  exact List.take_left' (by simp)

end CodeHabits.Tree
