import CodeHabits.Proofs.Table
import CodeHabits.Value
import CodeHabits.Value.Order

/-!
# `CodeHabits.Proofs.Value.Order`: sorting by labels

Sorting gives the same things in another order (`perm_of_sorted`), or fails.
Things that are sorted by labels that are texts can always be sorted, and then
their labels are `Label.Ascending` (`exists_sorted`). Things whose labels ascend
stay as they are when they are sorted (`sorted_of_ascending`), so sorting twice
is sorting once.

In general things can be sorted exactly if any two of them have an order
(`exists_sorted_iff`). Labels have one if all are texts or all are numbers
(`Label.Sortable`), and that can be decided.
-/

set_option autoImplicit false

/-!
## Values that say the same

What says the same as a second value, which says the same as a third one, says the same as
the third (`same_trans`). For labels this is so by their keys, and for lists and objects by
what is in them.

That a value says the same as itself is not true of all: an object with two members of one
name has the first of them only.
-/

namespace CodeHabits.Value

/-- A label says the same as labels that name the same. -/
theorem same_of_label? {value : Value} {label : Label} (h : value.label? = some label)
    (other : Value) : value.same other = other.label?.any (label == ·) := by
  cases value <;> cases h <;> simp only [same]

theorem same_trans_of_label? {a b c : Value} {label : Label} (h : a.label? = some label)
    (hab : a.same b = true) (hbc : b.same c = true) : a.same c = true := by
  rw [same_of_label? h, Option.any_eq_true] at hab
  obtain ⟨second, hsecond, hfirst⟩ := hab
  rw [same_of_label? hsecond, Option.any_eq_true] at hbc
  obtain ⟨third, hthird, hlast⟩ := hbc
  rw [same_of_label? h, hthird]
  exact PartialEquivBEq.trans hfirst hlast

/-- A member that is found says the same as one of the same name. -/
theorem exists_same_of_get? {ys zs : Table String Value} {name : String} {y : Value}
    (h : sameMembers ys zs = true) (hget : ys.get? name = some y) :
    ∃ z, zs.get? name = some z ∧ y.same z = true := by
  induction ys with
  | nil => cases hget
  | cons first rest ih =>
    simp only [sameMembers, Bool.and_eq_true, Option.any_eq_true] at h
    rw [Table.get?_cons] at hget
    split at hget
    · rename_i hname
      cases hget
      rw [← eq_of_beq hname]
      exact h.1
    · exact ih h.2 hget

-- The induction is on the first value, and goes through its items and members.
mutual

theorem same_trans {a b c : Value} (hab : a.same b = true) (hbc : b.same c = true) :
    a.same c = true := by
  match a with
  | .list xs =>
    cases b with
    | list ys =>
      cases c with
      | list zs => exact sameList_trans hab hbc
      | _ => cases hbc
    | _ => cases hab
  | .object xs =>
    cases b with
    | object ys =>
      cases c with
      | object zs =>
        simp only [same, Bool.and_eq_true, beq_iff_eq] at hab hbc ⊢
        exact ⟨hab.1.trans hbc.1, sameMembers_trans hab.2 hbc.2⟩
      | _ => cases hbc
    | _ => cases hab
  | .null => exact same_trans_of_label? rfl hab hbc
  | .bool _ => exact same_trans_of_label? rfl hab hbc
  | .int _ => exact same_trans_of_label? rfl hab hbc
  | .real _ => exact same_trans_of_label? rfl hab hbc
  | .text _ => exact same_trans_of_label? rfl hab hbc

theorem sameList_trans {xs ys zs : List Value} (hab : sameList xs ys = true)
    (hbc : sameList ys zs = true) : sameList xs zs = true := by
  match xs, ys, zs with
  | [], [], [] => rfl
  | x :: xs, y :: ys, z :: zs =>
    simp only [sameList, Bool.and_eq_true] at hab hbc ⊢
    exact ⟨same_trans hab.1 hbc.1, sameList_trans hab.2 hbc.2⟩

theorem sameMembers_trans {xs ys zs : List (String × Value)} (hab : sameMembers xs ys = true)
    (hbc : sameMembers ys zs = true) : sameMembers xs zs = true := by
  match xs with
  | [] => rfl
  | (name, x) :: rest =>
    simp only [sameMembers, Bool.and_eq_true, Option.any_eq_true] at hab ⊢
    obtain ⟨⟨y, hget, hxy⟩, hrest⟩ := hab
    obtain ⟨z, hz, hyz⟩ := exists_same_of_get? hbc hget
    exact ⟨⟨z, hz, same_trans hxy hyz⟩, sameMembers_trans hrest hbc⟩

end

end CodeHabits.Value

/-! ## Sorting -/

namespace CodeHabits

variable {α β : Type}

theorem perm_of_sorted {p : Precedence α} {xs ys : List α} (h : sorted p xs = .ok ys) :
    ys.Perm xs := by
  unfold sorted at h
  split at h
  · cases h
    exact List.mergeSort_perm _ _
  · cases h

theorem allOrdered_map {f : α → β} {p : Precedence α} {q : Precedence β}
    (hf : ∀ a b, q (f a) (f b) = p a b) (xs : List α) :
    allOrdered q (xs.map f) = allOrdered p xs := by
  induction xs with
  | nil => rfl
  | cons x rest ih =>
    rw [List.map_cons, allOrdered, allOrdered, ih, List.all_map]
    congr 2
    funext y
    show ((q (f x) (f y)).isSome && (q (f y) (f x)).isSome) = _
    rw [hf, hf]

/-- What the order does not depend on may be changed before or after sorting. -/
theorem sorted_map {f : α → β} {p : Precedence α} {q : Precedence β}
    (hf : ∀ a b, q (f a) (f b) = p a b) (xs : List α) :
    sorted q (xs.map f) = (sorted p xs).map (List.map f) := by
  rw [sorted, sorted, allOrdered_map hf]
  cases allOrdered p xs with
  | false => rfl
  | true =>
    refine congrArg Except.ok (List.map_mergeSort fun a _ b _ => ?_).symm
    rw [hf]

namespace Label

/-- The label is a text. -/
def IsText (label : Label) : Prop :=
  ∃ text, label = .text text

instance : DecidablePred IsText
  | .text s => .isTrue ⟨s, rfl⟩
  | .null => .isFalse nofun
  | .bool _ => .isFalse nofun
  | .int _ => .isFalse nofun
  | .real _ => .isFalse nofun

/-- What is the same as a text is a text. -/
theorem IsText.of_beq {a b : Label} (ha : a.IsText) (h : (a == b) = true) : b.IsText := by
  obtain ⟨s, rfl⟩ := ha
  have hkey : b.key = .text s := (beq_iff.1 h).symm
  cases b with
  | text t => exact ⟨t, rfl⟩
  | real x =>
    simp only [key, Key.ofReal] at hkey
    split at hkey <;> cases hkey
  | _ => cases hkey

/-- Labels that are texts, none of them before one that is listed earlier. -/
structure Ascending (labels : List Label) : Prop where
  texts : ∀ label ∈ labels, label.IsText
  order : labels.Pairwise fun a b => (Precedence.label b a).getD false = false

/-- What the order of texts goes by. -/
def textOf : Label → String
  | .text s => s
  | _ => ""

theorem before_of_text {a b : Label} (ha : a.IsText) (hb : b.IsText) :
    Precedence.label a b = some (decide (a.textOf < b.textOf)) := by
  obtain ⟨s, rfl⟩ := ha
  obtain ⟨t, rfl⟩ := hb
  rfl

theorem Ascending.sublist {labels others : List Label} (h : Ascending labels)
    (hsub : others.Sublist labels) : Ascending others :=
  ⟨fun label hlabel => h.texts label (hsub.subset hlabel), h.order.sublist hsub⟩

/-- Of two labels that differ, the one that is listed earlier comes before the other. -/
theorem Ascending.before {labels : List Label} (h : Ascending labels) (hnodup : labels.Nodup) :
    labels.Pairwise fun a b => Precedence.label a b = some true := by
  refine (h.order.and hnodup).imp_of_mem fun {a b} ha hb hab => ?_
  obtain ⟨s, rfl⟩ := h.texts a ha
  obtain ⟨t, rfl⟩ := h.texts b hb
  have hle : s ≤ t := String.not_lt.1 (of_decide_eq_false hab.1)
  have hne : s ≠ t := fun hst => hab.2 (congrArg Label.text hst)
  have hlt : s < t := String.not_le.1 fun hge => hne (String.le_antisymm hle hge)
  exact congrArg some (decide_eq_true hlt)

/-- The same labels can ascend in one way only. -/
theorem Ascending.eq_of_perm {labels others : List Label} (h : Ascending labels)
    (hothers : Ascending others) (hperm : labels.Perm others) : labels = others := by
  refine hperm.eq_of_pairwise (fun a b ha hb hab hba => ?_) h.order hothers.order
  obtain ⟨s, rfl⟩ := h.texts a ha
  obtain ⟨t, rfl⟩ := hothers.texts b hb
  have hle : s ≤ t := String.not_lt.1 (of_decide_eq_false hab)
  have hge : t ≤ s := String.not_lt.1 (of_decide_eq_false hba)
  exact congrArg Label.text (String.le_antisymm hle hge)

end Label

section

variable {about : α → Label}

theorem allOrdered_of_text {xs : List α} (h : ∀ x ∈ xs, (about x).IsText) :
    allOrdered (.on about .label) xs = true := by
  induction xs with
  | nil => rfl
  | cons x rest ih =>
    rw [allOrdered, ih fun y hy => h y (by simp [hy]), Bool.and_true, List.all_eq_true]
    intro y hy
    have hx : (about x).IsText := h x (by simp)
    have hy : (about y).IsText := h y (by simp [hy])
    simp [Precedence.on, Label.before_of_text hx hy, Label.before_of_text hy hx]

/-- Sorting by texts is sorting the texts. -/
theorem map_sort_text {xs : List α} (h : ∀ x ∈ xs, (about x).IsText) :
    (xs.mergeSort fun a b => !(Precedence.on about .label b a).getD false).map
        (fun x => (about x).textOf)
      = (xs.map fun x => (about x).textOf).mergeSort fun s t => decide (s ≤ t) := by
  refine List.map_mergeSort fun a ha b hb => ?_
  rw [Precedence.on, Label.before_of_text (h b hb) (h a ha), Option.getD_some, ← decide_not]
  exact decide_eq_decide.2 String.not_lt

/-- Things with texts for labels can be sorted, and then their labels ascend. -/
theorem exists_sorted {xs : List α} (h : ∀ x ∈ xs, (about x).IsText) :
    ∃ ys, sorted (.on about .label) xs = .ok ys ∧ ys.Perm xs ∧ Label.Ascending (ys.map about) := by
  have hsorted : sorted (.on about .label) xs
      = .ok (xs.mergeSort fun a b => !(Precedence.on about .label b a).getD false) := by
    rw [sorted, if_pos (allOrdered_of_text h)]
  have hperm := perm_of_sorted hsorted
  refine ⟨_, hsorted, hperm, ?_, ?_⟩
  · rw [List.forall_mem_map]
    exact fun y hy => h y (hperm.mem_iff.1 hy)
  · -- The texts by themselves are in a total order, so sorting them puts them in it.
    have htexts : ((xs.map fun x => (about x).textOf).mergeSort fun s t => decide (s ≤ t)).Pairwise
        fun s t => decide (s ≤ t) = true := by
      refine List.pairwise_mergeSort (fun a b c hab hbc => ?_) (fun a b => ?_) _
      · simp only [decide_eq_true_eq] at hab hbc ⊢
        exact String.le_trans hab hbc
      · simpa using String.le_total a b
    rw [← map_sort_text h, List.pairwise_map] at htexts
    rw [List.pairwise_map]
    refine htexts.imp_of_mem fun {a b} ha hb hab => ?_
    rw [Label.before_of_text (h b (hperm.mem_iff.1 hb)) (h a (hperm.mem_iff.1 ha)),
      Option.getD_some, decide_eq_false_iff_not]
    exact String.not_lt.2 (of_decide_eq_true hab)

/-- Things whose labels ascend are sorted. -/
theorem sorted_of_ascending {ys : List α} (h : Label.Ascending (ys.map about)) :
    sorted (.on about .label) ys = .ok ys := by
  rw [sorted, if_pos (allOrdered_of_text (List.forall_mem_map.1 h.texts))]
  refine congrArg Except.ok (List.mergeSort_of_pairwise ?_)
  refine (List.pairwise_map.1 h.order).imp fun {a b} hab => ?_
  rw [Precedence.on, hab]
  rfl

end

/-! ### What has an order -/

theorem allOrdered_iff_pairwise {p : Precedence α} {xs : List α} :
    allOrdered p xs = true ↔ xs.Pairwise fun x y => (p x y).isSome ∧ (p y x).isSome := by
  induction xs with
  | nil => simp [allOrdered]
  | cons x rest ih =>
    rw [allOrdered, Bool.and_eq_true, List.all_eq_true, List.pairwise_cons, ih]
    simp only [Bool.and_eq_true]

/-- Things can be sorted exactly if any two of them have an order. -/
theorem exists_sorted_iff {p : Precedence α} {xs : List α} :
    (∃ ys, sorted p xs = .ok ys) ↔ xs.Pairwise fun x y => (p x y).isSome ∧ (p y x).isSome := by
  rw [← allOrdered_iff_pairwise, sorted]
  cases allOrdered p xs <;> simp

/-- Numbers that can be compared have an order, or leave it to the second one. -/
theorem Precedence.isSome_greaterFirst {ν : Type} [Magnitude ν] {about : α → ν}
    {second : Precedence α} {a b : α} (hlt : ∃ less, Magnitude.lt (about b) (about a) = .ok less)
    (hle : ∃ most, Magnitude.le (about b) (about a) = .ok most) (h : (second a b).isSome) :
    (greaterFirst about second a b).isSome := by
  obtain ⟨less, hless⟩ := hlt
  obtain ⟨most, hmost⟩ := hle
  rw [greaterFirst, hless, hmost]
  cases less with
  | true => rfl
  | false =>
    cases most with
    | true => exact h
    | false => rfl

/-- Keys of numbers, infinite ones and none among them. -/
def Key.Numeric : Key → Prop
  | .number _ | .infinite _ | .nan => True
  | .null | .text _ => False

theorem Key.isSome_before?_iff {a b : Key} :
    (a.before? b).isSome ↔ (∃ s t, a = .text s ∧ b = .text t) ∨ a.Numeric ∧ b.Numeric := by
  cases a <;> cases b <;> simp [before?, Numeric]

namespace Label

/-- The label is a number, or a truth value, which counts as one. -/
def IsNumber : Label → Prop
  | .bool _ | .int _ | .real _ => True
  | .null | .text _ => False

instance : DecidablePred IsNumber
  | .bool _ | .int _ | .real _ => .isTrue trivial
  | .null | .text _ => .isFalse id

theorem numeric_ofReal (x : Float) : (Key.ofReal x).Numeric := by
  unfold Key.ofReal
  split <;> trivial

theorem numeric_key_iff {label : Label} : label.key.Numeric ↔ label.IsNumber := by
  cases label with
  | real x => exact iff_of_true (numeric_ofReal x) trivial
  | _ => rfl

theorem key_text_iff {label : Label} : (∃ s, label.key = .text s) ↔ label.IsText := by
  constructor
  · rintro ⟨s, hs⟩
    have hsame : (Label.text s == label) = true := beq_iff.2 hs.symm
    exact IsText.of_beq ⟨s, rfl⟩ hsame
  · rintro ⟨s, rfl⟩
    exact ⟨s, rfl⟩

/-- Texts have an order among themselves and numbers have one. -/
theorem isSome_before_iff {a b : Label} :
    (Precedence.label a b).isSome ↔ a.IsText ∧ b.IsText ∨ a.IsNumber ∧ b.IsNumber := by
  rw [Precedence.label, Key.isSome_before?_iff, numeric_key_iff, numeric_key_iff, ← key_text_iff,
    ← key_text_iff]
  simp only [exists_and_left, exists_and_right]

/-- Labels that can be sorted: all are texts or all are numbers, or there is one at
most. -/
def Sortable (labels : List Label) : Prop :=
  labels.length ≤ 1 ∨ (∀ label ∈ labels, label.IsText) ∨ ∀ label ∈ labels, label.IsNumber

instance : DecidablePred Sortable := fun labels =>
  inferInstanceAs (Decidable (labels.length ≤ 1 ∨ (∀ label ∈ labels, label.IsText) ∨
    ∀ label ∈ labels, label.IsNumber))

theorem exists_sorted_label_iff {labels : List Label} :
    (∃ others, sorted .label labels = .ok others) ↔ Sortable labels := by
  rw [exists_sorted_iff]
  constructor
  · intro h
    rcases labels with _ | ⟨first, _ | ⟨second, rest⟩⟩
    · exact .inl (by simp)
    · exact .inl (by simp)
    · -- What the first label is, all others have to be.
      have hfirst := (List.pairwise_cons.1 h).1
      rcases isSome_before_iff.1 (hfirst second (by simp)).1 with ⟨htext, _⟩ | ⟨hnumber, _⟩
      · refine .inr (.inl (List.forall_mem_cons.2 ⟨htext, fun label hlabel => ?_⟩))
        rcases isSome_before_iff.1 (hfirst label hlabel).1 with ⟨_, hl⟩ | ⟨hn, _⟩
        · exact hl
        · obtain ⟨s, rfl⟩ := htext
          cases hn
      · refine .inr (.inr (List.forall_mem_cons.2 ⟨hnumber, fun label hlabel => ?_⟩))
        rcases isSome_before_iff.1 (hfirst label hlabel).1 with ⟨⟨s, rfl⟩, _⟩ | ⟨_, hl⟩
        · cases hnumber
        · exact hl
  · rintro (hshort | htexts | hnumbers)
    · rcases labels with _ | ⟨first, _ | ⟨second, rest⟩⟩
      · exact .nil
      · simp
      · simp at hshort
    · refine List.pairwise_of_forall_mem_list fun a ha b hb => ⟨?_, ?_⟩
      · exact isSome_before_iff.2 (.inl ⟨htexts a ha, htexts b hb⟩)
      · exact isSome_before_iff.2 (.inl ⟨htexts b hb, htexts a ha⟩)
    · refine List.pairwise_of_forall_mem_list fun a ha b hb => ⟨?_, ?_⟩
      · exact isSome_before_iff.2 (.inr ⟨hnumbers a ha, hnumbers b hb⟩)
      · exact isSome_before_iff.2 (.inr ⟨hnumbers b hb, hnumbers a ha⟩)

end Label

end CodeHabits
