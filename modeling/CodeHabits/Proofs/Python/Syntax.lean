import CodeHabits.Python.Syntax
import Mathlib.Data.List.Basic

/-!
# `CodeHabits.Proofs.Python.Syntax`: what is inside expressions and statements

The cases of expressions and statements differ in what they hold, and most of what is said
of them does not depend on the case. `Expr.parts` are the expressions right inside an
expression, `Stmt.bodies` the bodies right inside a statement, and `Expr.induction` and
`Stmt.induction` reduce what is said of all of them to one step for these.

`Expr.within` lists an expression and all expressions in it, and `Stmt.within` all
statements of a statement, each with the statements around it.
-/

set_option autoImplicit false

namespace CodeHabits.Python

/-! ### Expressions -/

/-- The expressions in a loop of a comprehension. -/
def CompLoop.parts : CompLoop → List Expr
  | .mk target source conditions => target :: source :: conditions

/-- The expressions right inside an expression. -/
def Expr.parts : Expr → List Expr
  | .name _ _ | .constant _ _ => []
  | .member _ value _ => [value]
  | .sequence _ elements => elements
  | .call _ target arguments keywords => target :: (arguments ++ keywords)
  | .lambda _ _ defaults body => defaults ++ [body]
  | .comprehension _ _ results loops => results ++ loops.flatMap CompLoop.parts
  | .ternary _ test body orelse => [test, body, orelse]
  | .other _ parts => parts

theorem CompLoop.sizeOf_lt_of_mem_parts {l : CompLoop} {x : Expr} (h : x ∈ l.parts) :
    sizeOf x < sizeOf l := by
  cases l with
  | mk target source conditions =>
    rw [CompLoop.mk.sizeOf_spec]
    simp only [parts, List.mem_cons] at h
    rcases h with rfl | rfl | h
    · omega
    · omega
    · have := List.sizeOf_lt_of_mem h
      omega

theorem Expr.sizeOf_lt_of_mem_parts {e x : Expr} (h : x ∈ e.parts) : sizeOf x < sizeOf e := by
  cases e with
  | name p id => cases h
  | member p value name =>
    obtain rfl := List.mem_singleton.1 h
    rw [Expr.member.sizeOf_spec]
    omega
  | constant p isText => cases h
  | sequence p elements =>
    rw [parts] at h
    have := List.sizeOf_lt_of_mem h
    rw [Expr.sequence.sizeOf_spec]
    omega
  | call p target arguments keywords =>
    rw [Expr.call.sizeOf_spec]
    simp only [parts, List.mem_cons, List.mem_append] at h
    rcases h with rfl | h | h
    · omega
    · have := List.sizeOf_lt_of_mem h
      omega
    · have := List.sizeOf_lt_of_mem h
      omega
  | lambda p parameters defaults body =>
    rw [Expr.lambda.sizeOf_spec]
    simp only [parts, List.mem_append, List.mem_singleton] at h
    rcases h with h | rfl
    · have := List.sizeOf_lt_of_mem h
      omega
    · omega
  | comprehension p collected results loops =>
    rw [Expr.comprehension.sizeOf_spec]
    simp only [parts, List.mem_append, List.mem_flatMap] at h
    rcases h with h | ⟨l, hl, h⟩
    · have := List.sizeOf_lt_of_mem h
      omega
    · have := List.sizeOf_lt_of_mem hl
      have := CompLoop.sizeOf_lt_of_mem_parts h
      omega
  | ternary p test body orelse =>
    rw [Expr.ternary.sizeOf_spec]
    simp only [parts, List.mem_cons, List.not_mem_nil, or_false] at h
    rcases h with rfl | rfl | rfl
    · omega
    · omega
    · omega
  | other p parts =>
    rw [Expr.parts] at h
    have := List.sizeOf_lt_of_mem h
    rw [Expr.other.sizeOf_spec]
    omega

/-- What holds of an expression if it holds of the expressions right inside holds of all. -/
@[elab_as_elim]
theorem Expr.induction {P : Expr → Prop} (step : ∀ e : Expr, (∀ x ∈ e.parts, P x) → P e)
    (e : Expr) : P e :=
  step e fun x _ => Expr.induction step x
termination_by sizeOf e
decreasing_by exact Expr.sizeOf_lt_of_mem_parts ‹_›

/-- An expression and all expressions in it, each before those inside it. -/
def Expr.within (e : Expr) : List Expr :=
  e :: e.parts.attach.flatMap fun x => x.1.within
termination_by sizeOf e
decreasing_by exact Expr.sizeOf_lt_of_mem_parts x.2

theorem Expr.within_eq (e : Expr) : e.within = e :: e.parts.flatMap Expr.within := by
  rw [Expr.within, List.flatMap_subtype fun _ _ => rfl, List.unattach_attach]

/-! ### Statements -/

/-- Where a statement is. -/
def Stmt.place : Stmt → Place
  | .function p _ _ | .classDef p _ _ | .importing p _ _ | .importFrom p _ _ _ | .loop p _ _ _ _
  | .conditional p _ _ _ | .matching p _ _ | .trying p _ _ _ _ | .returning p _ | .assign p _ _ _
  | .augmented p _ _ | .withBlock p _ _ _ | .expression p _ | .other p _ _ => p

/-- The bodies right inside a statement, in the order of the grammar. -/
def Stmt.bodies : Stmt → List (List Stmt)
  | .function _ _ body | .classDef _ _ body | .withBlock _ _ _ body => [body]
  | .loop _ _ _ body orelse | .conditional _ _ body orelse => [body, orelse]
  | .matching _ _ cases => cases.map Prod.snd
  | .trying _ body handlers orelse final => body :: (handlers ++ [orelse, final])
  | .importing _ _ _ | .importFrom _ _ _ _ | .returning _ _ | .assign _ _ _ _ | .augmented _ _ _
  | .expression _ _ | .other _ _ _ => []

/-- The statements right inside a statement. -/
def Stmt.inside (t : Stmt) : List Stmt :=
  t.bodies.flatten

/-- The expressions right inside a statement that are looked at: all but the targets of an
assignment. -/
def Stmt.values : Stmt → List Expr
  | .loop _ _ value _ _ | .conditional _ value _ _ | .matching _ value _ | .augmented _ _ value
  | .expression _ value => [value]
  | .returning _ value? | .assign _ _ _ value? => value?.toList
  | .withBlock _ _ values _ | .other _ _ values => values
  | .function _ _ _ | .classDef _ _ _ | .importing _ _ _ | .importFrom _ _ _ _
  | .trying _ _ _ _ _ => []

theorem sizeOf_lt_of_mem_cases {cases : List (Bool × List Stmt)} {body : List Stmt}
    (h : body ∈ cases.map Prod.snd) : sizeOf body < sizeOf cases := by
  obtain ⟨c, hc, rfl⟩ := List.mem_map.1 h
  have := List.sizeOf_lt_of_mem hc
  cases c with
  | mk catchesAll body =>
    rw [Prod.mk.sizeOf_spec] at this
    dsimp only
    omega

theorem Stmt.sizeOf_lt_of_mem_bodies {t : Stmt} {body : List Stmt} (h : body ∈ t.bodies) :
    sizeOf body < sizeOf t := by
  cases t with
  | function p head body =>
    obtain rfl := List.mem_singleton.1 h
    rw [Stmt.function.sizeOf_spec]
    omega
  | classDef p head body =>
    obtain rfl := List.mem_singleton.1 h
    rw [Stmt.classDef.sizeOf_spec]
    omega
  | loop p word head body orelse =>
    rw [Stmt.loop.sizeOf_spec]
    simp only [bodies, List.mem_cons, List.not_mem_nil, or_false] at h
    rcases h with rfl | rfl
    · omega
    · omega
  | conditional p test body orelse =>
    rw [Stmt.conditional.sizeOf_spec]
    simp only [bodies, List.mem_cons, List.not_mem_nil, or_false] at h
    rcases h with rfl | rfl
    · omega
    · omega
  | matching p subject cases =>
    rw [bodies] at h
    have := sizeOf_lt_of_mem_cases h
    rw [Stmt.matching.sizeOf_spec]
    omega
  | trying p body handlers orelse final =>
    rw [Stmt.trying.sizeOf_spec]
    simp only [bodies, List.mem_cons, List.mem_append, List.not_mem_nil, or_false] at h
    rcases h with rfl | h | rfl | rfl
    · omega
    · have := List.sizeOf_lt_of_mem h
      omega
    · omega
    · omega
  | withBlock p isAsync items body =>
    obtain rfl := List.mem_singleton.1 h
    rw [Stmt.withBlock.sizeOf_spec]
    omega
  | _ => cases h

theorem Stmt.sizeOf_lt_of_mem_inside {t u : Stmt} (h : u ∈ t.inside) : sizeOf u < sizeOf t := by
  obtain ⟨body, hbody, hu⟩ := List.mem_flatten.1 h
  have := Stmt.sizeOf_lt_of_mem_bodies hbody
  have := List.sizeOf_lt_of_mem hu
  omega

/-- What holds of a statement if it holds of the statements right inside holds of all. -/
@[elab_as_elim]
theorem Stmt.induction {P : Stmt → Prop} (step : ∀ t : Stmt, (∀ u ∈ t.inside, P u) → P t)
    (t : Stmt) : P t :=
  step t fun u _ => Stmt.induction step u
termination_by sizeOf t
decreasing_by exact Stmt.sizeOf_lt_of_mem_inside ‹_›

/-- A statement and all statements in it, each before those inside it and with the
statements around it, the nearest one first. -/
def Stmt.within (around : List Stmt) (t : Stmt) : List (List Stmt × Stmt) :=
  (around, t) :: t.inside.attach.flatMap fun u => u.1.within (t :: around)
termination_by sizeOf t
decreasing_by exact Stmt.sizeOf_lt_of_mem_inside u.2

theorem Stmt.within_eq (around : List Stmt) (t : Stmt) :
    t.within around = (around, t) :: t.inside.flatMap (Stmt.within (t :: around)) := by
  rw [Stmt.within, List.flatMap_subtype fun _ _ => rfl, List.unattach_attach]

/-- What does not depend on the statements around is the same wherever a statement stands. -/
theorem Stmt.flatMap_within {β : Type} (f : Stmt → List β) (around : List Stmt) (t : Stmt) :
    (t.within around).flatMap (fun u => f u.2) = (t.within []).flatMap fun u => f u.2 := by
  induction t using Stmt.induction generalizing around with
  | step t ih =>
    have hinside (around : List Stmt) :
        (t.inside.flatMap (Stmt.within (t :: around))).flatMap (fun u => f u.2)
          = t.inside.flatMap fun u => (u.within []).flatMap fun v => f v.2 := by
      rw [List.flatMap_assoc]
      exact List.flatMap_congr fun u hu => ih u hu _
    rw [Stmt.within_eq, Stmt.within_eq, List.flatMap_cons, List.flatMap_cons, hinside, hinside]

/-- Where a statement and all statements in it are, with the expressions in them that are
looked at. -/
def Stmt.places (t : Stmt) : List Place :=
  (t.within []).flatMap fun u =>
    u.2.place :: u.2.values.flatMap fun e => e.within.map Expr.place

theorem Stmt.places_eq (t : Stmt) :
    t.places = t.place :: (t.values.flatMap (fun e => e.within.map Expr.place)
      ++ t.inside.flatMap Stmt.places) := by
  rw [Stmt.places, Stmt.within_eq, List.flatMap_cons, List.flatMap_assoc]
  refine congrArg (List.cons t.place) (congrArg _ (List.flatMap_congr fun u _ => ?_))
  exact Stmt.flatMap_within
    (fun v => v.place :: v.values.flatMap fun e => e.within.map Expr.place) [t] u

/-! ### Further down -/

section

variable (lines : Int)

theorem Expr.downAll_eq (es : List Expr) : Expr.downAll lines es = es.map (Expr.down lines) := by
  induction es with
  | nil => rfl
  | cons e rest ih => rw [Expr.downAll, ih, List.map_cons]

theorem CompLoop.flatMap_parts_downAll (loops : List CompLoop) :
    (CompLoop.downAll lines loops).flatMap CompLoop.parts
      = (loops.flatMap CompLoop.parts).map (Expr.down lines) := by
  induction loops with
  | nil => rfl
  | cons l rest ih =>
    cases l with
    | mk target source conditions =>
      simp [CompLoop.downAll, CompLoop.down, CompLoop.parts, Expr.downAll_eq, ih]

theorem Expr.parts_down (e : Expr) :
    (e.down lines).parts = e.parts.map (Expr.down lines) := by
  cases e <;> simp [Expr.down, Expr.parts, Expr.downAll_eq, CompLoop.flatMap_parts_downAll]

theorem Expr.place_down (e : Expr) : (e.down lines).place = e.place.down lines := by
  cases e <;> rfl

theorem Expr.within_down (e : Expr) :
    (e.down lines).within = e.within.map (Expr.down lines) := by
  induction e using Expr.induction with
  | step e ih =>
    rw [Expr.within_eq, Expr.within_eq, Expr.parts_down, List.map_cons, List.map_flatMap,
      List.flatMap_map]
    exact congrArg _ (List.flatMap_congr ih)

theorem Stmt.downAll_eq (body : List Stmt) :
    Stmt.downAll lines body = body.map (Stmt.down lines) := by
  induction body with
  | nil => rfl
  | cons t rest ih => rw [Stmt.downAll, ih, List.map_cons]

theorem Stmt.bodiesDown_eq (bodies : List (List Stmt)) :
    Stmt.bodiesDown lines bodies = bodies.map (List.map (Stmt.down lines)) := by
  induction bodies with
  | nil => rfl
  | cons body rest ih => rw [Stmt.bodiesDown, ih, Stmt.downAll_eq, List.map_cons]

theorem Stmt.map_snd_casesDown (cases : List (Bool × List Stmt)) :
    (Stmt.casesDown lines cases).map Prod.snd
      = (cases.map Prod.snd).map (List.map (Stmt.down lines)) := by
  induction cases with
  | nil => rfl
  | cons c rest ih => simp [Stmt.casesDown, Stmt.downAll_eq, ih]

theorem Stmt.place_down (t : Stmt) : (t.down lines).place = t.place.down lines := by
  cases t <;> rfl

theorem Stmt.inside_down (t : Stmt) : (t.down lines).inside = t.inside.map (Stmt.down lines) := by
  cases t <;>
    simp [Stmt.down, Stmt.inside, Stmt.bodies, Stmt.downAll_eq, Stmt.bodiesDown_eq,
      Stmt.map_snd_casesDown, List.map_flatten]

theorem Stmt.values_down (t : Stmt) : (t.down lines).values = t.values.map (Expr.down lines) := by
  cases t <;> simp [Stmt.down, Stmt.values, Expr.downAll_eq, Option.toList_map]

theorem Stmt.places_down (t : Stmt) :
    (t.down lines).places = t.places.map (Place.down lines) := by
  induction t using Stmt.induction with
  | step t ih =>
    have hvalues : (t.values.map (Expr.down lines)).flatMap (fun e => e.within.map Expr.place)
        = t.values.flatMap fun e => (e.within.map Expr.place).map (Place.down lines) := by
      rw [List.flatMap_map]
      refine List.flatMap_congr fun e _ => ?_
      rw [Expr.within_down, List.map_map, List.map_map]
      exact List.map_congr_left fun x _ => Expr.place_down lines x
    have hinside : (t.inside.map (Stmt.down lines)).flatMap Stmt.places
        = t.inside.flatMap fun u => u.places.map (Place.down lines) := by
      rw [List.flatMap_map]
      exact List.flatMap_congr ih
    rw [Stmt.places_eq, Stmt.places_eq, Stmt.place_down, Stmt.values_down, Stmt.inside_down,
      hvalues, hinside, List.map_cons, List.map_append, List.map_flatMap, List.map_flatMap]

end

end CodeHabits.Python
