import CodeHabits.Proofs.Outline.Behind
import CodeHabits.Proofs.Outline.Reported

/-!
# `CodeHabits.Proofs.Outline.Paths`: where the paths of the builder lead

Trees that are built may get more trees below them, and a clause changes what is noted of
them, but their spans stay as they are (`map_span_changeBelow`, `map_span_changeAt`).

So all that matters of the tree to which a path leads is its span here (`Leads`). Trees are
only ever added behind others, and a path leads to the same span afterwards
(`Leads.changeBelow`, `Leads.changeAt`). A path in trees that are put below the end of another
path goes on behind that one (`Leads.graft`).
-/

set_option autoImplicit false

namespace CodeHabits.Outline

/-! ### What changes keep -/

section

variable {trees : List Tree}

theorem map_span_modify (trees : List Tree) (i : Nat) {change : Tree → Tree}
    (h : ∀ t, (change t).span = t.span) :
    (trees.modify i change).map Tree.span = trees.map Tree.span := by
  refine List.ext_getElem? fun j => ?_
  rw [List.getElem?_map, List.getElem?_map, List.getElem?_modify]
  by_cases hij : i = j <;> cases trees[j]? <;> simp [hij, h]

theorem forall_mem_modify {P : Tree → Prop} (h : ∀ t ∈ trees, P t) (i : Nat)
    {change : Tree → Tree} (hchange : ∀ t, trees[i]? = some t → P (change t)) :
    ∀ t ∈ trees.modify i change, P t := by
  intro t ht
  obtain ⟨j, hj⟩ := List.mem_iff_getElem?.1 ht
  rw [List.getElem?_modify, Option.map_eq_map, Option.map_eq_some_iff] at hj
  obtain ⟨old, hold, rfl⟩ := hj
  split
  · rename_i hij
    subst hij
    exact hchange old hold
  · exact h old (List.mem_of_getElem? hold)

theorem map_span_changeBelow (new : List Tree) {path : Path} (hpath : path ≠ [])
    (trees : List Tree) :
    (changeBelow (· ++ new) path trees).map Tree.span = trees.map Tree.span := by
  obtain ⟨i, path, rfl⟩ := List.exists_cons_of_ne_nil hpath
  exact map_span_modify trees i fun _ => rfl

theorem map_span_changeAt (word : String) (path : Path) (trees : List Tree) :
    (changeAt (State.markClause word) path trees).map Tree.span = trees.map Tree.span := by
  match path with
  | [] => rfl
  | [i] => exact map_span_modify trees i fun t => (markClause_keeps word t).2.1
  | i :: j :: path => exact map_span_modify trees i fun _ => rfl

end

/-! ### Where paths lead -/

/-- A path leads to a tree with this span. -/
inductive Leads : Path → List Tree → Span → Prop
  | here {i : Nat} {trees : List Tree} {t : Tree} (hget : trees[i]? = some t) :
      Leads [i] trees t.span
  | deeper {i : Nat} {path : Path} {trees : List Tree} {t : Tree} {s : Span}
      (hget : trees[i]? = some t) (hpath : Leads path t.children s) : Leads (i :: path) trees s

namespace Leads

variable {path : Path} {trees new : List Tree} {s : Span}

theorem ne_nil (h : Leads path trees s) : path ≠ [] := by
  cases h <;> simp

/-- A change to a tree that keeps its span and where paths below it lead. -/
theorem modify (h : Leads path trees s) {change : Tree → Tree} (i : Nat)
    (hspan : ∀ t, (change t).span = t.span)
    (hbelow : ∀ {t : Tree} {path : Path}, Leads path t.children s →
      Leads path (change t).children s) :
    Leads path (trees.modify i change) s := by
  cases h with
  | @here j _ t hget =>
    by_cases hij : i = j
    · rw [← hspan]
      exact .here (by simp [hij, hget])
    · exact .here (by simp [hij, hget])
  | @deeper j _ _ t _ hget hpath =>
    by_cases hij : i = j
    · exact .deeper (by simp [hij, hget]) (hbelow hpath)
    · exact .deeper (t := t) (by simp [hij, hget]) hpath

theorem append (h : Leads path trees s) (new : List Tree) : Leads path (trees ++ new) s := by
  have hkeep : ∀ {i : Nat} {t : Tree}, trees[i]? = some t → (trees ++ new)[i]? = some t := by
    intro i t hget
    rw [List.getElem?_append_left (List.getElem?_eq_some_iff.1 hget).1, hget]
  cases h with
  | here hget => exact .here (hkeep hget)
  | deeper hget hpath => exact .deeper (hkeep hget) hpath

/-- More trees below the end of any path change nothing. -/
theorem changeBelow (h : Leads path trees s) (new : List Tree) (other : Path) :
    Leads path (changeBelow (· ++ new) other trees) s := by
  induction other generalizing path trees with
  | nil => exact h.append new
  | cons i other ih =>
    rw [Outline.changeBelow]
    exact h.modify i (fun _ => rfl) ih

/-- Marking a clause changes nothing. -/
theorem changeAt (h : Leads path trees s) (word : String) (other : Path) :
    Leads path (changeAt (State.markClause word) other trees) s := by
  induction other generalizing path trees with
  | nil => exact h
  | cons i other ih =>
    cases other with
    | nil =>
      refine h.modify i (fun t => (markClause_keeps word t).2.1) fun {t path} hpath => ?_
      rwa [(markClause_keeps word t).2.2]
    | cons j other =>
      rw [Outline.changeAt]
      exact h.modify i (fun _ => rfl) ih

/-- Trees put below the end of a path are reached over it. -/
theorem graft (h : Leads path new s) {destination : Path} {outer : List Tree}
    (hvalid : destination ≠ [] → ∃ s, Leads destination outer s) :
    Leads (destination ++ path.moved (countBelow destination outer))
      (Outline.changeBelow (· ++ new) destination outer) s := by
  induction destination generalizing outer with
  | nil =>
    have hbehind : ∀ i, (outer ++ new)[i + outer.length]? = new[i]? := by
      intro i
      rw [List.getElem?_append_right (Nat.le_add_left _ _), Nat.add_sub_cancel]
    cases h with
    | here hget => exact .here ((hbehind _).trans hget)
    | deeper hget hpath => exact .deeper ((hbehind _).trans hget) hpath
  | cons i destination ih =>
    obtain ⟨t, hget, hbelow⟩ : ∃ t, outer[i]? = some t ∧
        (destination ≠ [] → ∃ s, Leads destination t.children s) := by
      obtain ⟨_, hleads⟩ := hvalid (List.cons_ne_nil i destination)
      cases hleads with
      | here hget => exact ⟨_, hget, fun hsome => absurd rfl hsome⟩
      | deeper hget hpath => exact ⟨_, hget, fun _ => ⟨_, hpath⟩⟩
    have hcount : countBelow (i :: destination) outer = countBelow destination t.children := by
      rw [countBelow, hget]
    have hchanged : (Outline.changeBelow (· ++ new) (i :: destination) outer)[i]?
        = some (.node t.tag t.span t.attributes
            (Outline.changeBelow (· ++ new) destination t.children)) := by
      simp [Outline.changeBelow, hget]
    rw [List.cons_append, hcount]
    exact .deeper hchanged (ih hbelow)

section

variable {f : Frame} (hvalid : f.destination ≠ [] → ∃ s, Leads f.destination f.outer s)

include hvalid

/-- The way to the tree of a block that has been closed. -/
theorem placed_last (t : Tree) :
    Leads (f.destination ++ [countBelow f.destination f.outer]) (f.placed [t]) t.span := by
  have hzero : Leads [0] [t] t.span := .here rfl
  simpa [Path.moved, Frame.placed] using hzero.graft hvalid

/-- A path in a block leads on after the block has become a tree. -/
theorem placed_below (h : Leads path trees s) (tag : Tag) (span : Span) (attributes : Attributes) :
    Leads (f.below path) (f.placed [.node tag span attributes trees]) s := by
  have hdeeper : Leads (0 :: path) [.node tag span attributes trees] s := .deeper rfl h
  have hbelow : f.below path = f.destination ++ countBelow f.destination f.outer :: path := by
    rw [Frame.below, if_neg (by simpa using h.ne_nil)]
  rw [hbelow]
  simpa [Path.moved, Frame.placed] using hdeeper.graft hvalid

/-- A path in the block of a clause leads on after its trees have been put below the statement
that the clause continues. -/
theorem placed_beside (h : Leads path trees s) : Leads (f.beside path) (f.placed trees) s := by
  rw [Frame.beside, if_neg (by simpa using h.ne_nil)]
  exact h.graft hvalid

end

end Leads

end CodeHabits.Outline
