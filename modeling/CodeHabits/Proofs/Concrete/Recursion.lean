import CodeHabits.Concrete.Ecma
import CodeHabits.Proofs.Concrete.Lowers

/-!
# `CodeHabits.Proofs.Concrete.Recursion`: lowering without a stack

Lowering keeps the nodes that are still to be looked at on a stack, and begins anew for the
nodes that a plan names. What it gives can be said without a stack: each node gives trees of
its own (`Dialect.trees`), by recursion over the tree, and several nodes give those of each
one after the other (`Dialect.treesOf`). `follows_lower` says that without a limit both give
the same trees or the same fault, and that both report the same problems in the same order.

That is so because lowering does not look ahead: of a stack in two parts the first is done
before the second is begun (`lower_append`). So it does not matter how nodes are dealt out to
calls (`lower_flatten`), and a plan may name nodes of several calls together.
-/

set_option autoImplicit false

namespace CodeHabits.Concrete

/-- A computation that reports problems and has all the time it needs. -/
abbrev Unhurried (α : Type) := StateT Reports (Except Fault) α

/-- The trees of nodes one after the other. -/
def inTurn {α : Type} (trees : α → Unhurried (List Tree)) (nodes : List α) :
    Unhurried (List Tree) := do
  return (← nodes.mapM trees).flatten

namespace Dialect

variable (d : Dialect)

/-- Reports a problem at a node and gives the tree for it. -/
def tell (c : Cursor) (message : String) : Unhurried (List Tree) := do
  modify fun r => d.add r c message
  return [d.errorTree c message]

/-- The trees that a node gives. A token gives none, and a missing node one that says so.
Text that fits nowhere gives one as well, with those of the nodes below it behind. A node
with a plan gives what the plan makes of the trees inside, and every other node the trees of
the nodes below it. -/
def trees (c : Cursor) : Unhurried (List Tree) :=
  if c.isToken then return []
  else if c.node.missing then d.tell c c.missingMessage
  else if c.node.isError then do
    let problem ← d.tell c (d.errorMessage c)
    return problem ++ (← inTurn (fun m => trees m.val) c.below)
  else
    match d.plan? c with
    | none => inTurn (fun m => trees m.val) c.below
    | some (.error fault) => throw fault
    | some (.ok plan) => return plan.wrap (← inTurn (fun m => trees m.val) plan.inner)
termination_by c.height
decreasing_by all_goals exact m.property

/-- The trees that nodes give. -/
def treesOf (stack : List Cursor) : Unhurried (List Tree) :=
  inTurn d.trees stack

end Dialect

section

variable {α β : Type}

theorem inTurn_nil (trees : α → Unhurried (List Tree)) : inTurn trees [] = pure [] := by
  simp [inTurn]

theorem inTurn_cons (trees : α → Unhurried (List Tree)) (node : α) (rest : List α) :
    inTurn trees (node :: rest) = do return (← trees node) ++ (← inTurn trees rest) := by
  simp [inTurn]

theorem inTurn_append (trees : α → Unhurried (List Tree)) (front rest : List α) :
    inTurn trees (front ++ rest) = do
      return (← inTurn trees front) ++ (← inTurn trees rest) := by
  simp [inTurn]

theorem inTurn_map (trees : β → Unhurried (List Tree)) (f : α → β) (nodes : List α) :
    inTurn trees (nodes.map f) = inTurn (fun node => trees (f node)) nodes := by
  rw [inTurn, List.mapM_map]
  rfl

end

/-! ### The budget set aside -/

namespace Reporting

variable {α β : Type}

/-- Without a limit the computation does what the other one does. -/
def Follows (x : Reporting α) (y : Unhurried α) : Prop :=
  ∀ r used, (x.runFrom r .unlimited used).1 = y.run r

theorem follows_pure (a : α) : Follows (pure a) (pure a) :=
  fun _ _ => rfl

theorem follows_throw (fault : Fault) : Follows (throw fault : Reporting α) (throw fault) :=
  fun _ _ => rfl

theorem follows_bind {x : Reporting α} {y : Unhurried α} {f : α → Reporting β}
    {g : α → Unhurried β} (hxy : Follows x y) (hfg : ∀ a, Follows (f a) (g a)) :
    Follows (x >>= f) (y >>= g) := by
  intro r used
  have hfirst : (x.runFrom r .unlimited used).1 = y.run r := hxy r used
  rw [StateT.run_bind, ← hfirst]
  rcases hx : x.runFrom r .unlimited used with ⟨fault | ⟨a, s⟩, left⟩
  · show (Timed.runFrom (x.run r >>= fun p => (f p.1).run p.2) .unlimited used).1 = _
    rw [Timed.runFrom_bind_error hx]
    rfl
  · rw [runFrom_bind_ok hx]
    exact hfg a s left

/-- A look that always finds something left changes nothing. -/
theorem follows_check {y : Unhurried α} {f : Unit → Reporting α} (hf : Follows (f ()) y) :
    Follows (Timed.check >>= f) y := by
  intro r used
  rw [runFrom_bind_ok (runFrom_check_unlimited r used)]
  exact hf r (used + 1)

end Reporting

variable {d : Dialect} {c : Cursor}

theorem Dialect.follows_reportAt (d : Dialect) (c : Cursor) (message : String)
    {f : Tree → Reporting (List Tree)} {g : List Tree → Unhurried (List Tree)}
    (hfg : Reporting.Follows (f (d.errorTree c message)) (g [d.errorTree c message])) :
    Reporting.Follows (d.reportAt c message >>= f) (d.tell c message >>= g) := by
  intro r used
  rw [Reporting.runFrom_bind_ok (d.runFrom_reportAt c message r _ used)]
  exact hfg (d.add r c message) used

namespace Dialect

theorem treesOf_cons (d : Dialect) (c : Cursor) (rest : List Cursor) :
    d.treesOf (c :: rest) = do return (← d.trees c) ++ (← d.treesOf rest) :=
  inTurn_cons d.trees c rest

theorem treesOf_append (d : Dialect) (front rest : List Cursor) :
    d.treesOf (front ++ rest) = do return (← d.treesOf front) ++ (← d.treesOf rest) :=
  inTurn_append d.trees front rest

/-- The nodes inside another one give trees as nodes on a stack do. -/
theorem treesOf_inside {bound : Nat} (d : Dialect) (ms : List (Inside bound)) :
    d.treesOf (ms.map (·.val)) = inTurn (fun m => d.trees m.val) ms :=
  inTurn_map d.trees _ ms

theorem trees_of_token (h : c.isToken = true) : d.trees c = pure [] := by
  rw [trees, if_pos h]

theorem trees_of_missing (htoken : c.isToken = false) (hmissing : c.node.missing = true) :
    d.trees c = d.tell c c.missingMessage := by
  rw [trees, if_neg (by simp [htoken]), if_pos hmissing]

theorem trees_of_error (hmissing : c.node.missing = false) (herror : c.node.isError = true) :
    d.trees c = do
      return (← d.tell c (d.errorMessage c)) ++ (← d.treesOf c.cursorsBelow) := by
  have htoken : ¬c.isToken = true := by simp [Cursor.isToken, herror]
  rw [trees, if_neg htoken, if_neg (by simp [hmissing]), if_pos herror, ← treesOf_inside]
  rfl

theorem trees_of_transparent (htoken : c.isToken = false) (hmissing : c.node.missing = false)
    (herror : c.node.isError = false) (hplan : d.plan? c = none) :
    d.trees c = d.treesOf c.cursorsBelow := by
  rw [trees, if_neg (by simp [htoken]), if_neg (by simp [hmissing]), if_neg (by simp [herror]),
    hplan]
  exact (treesOf_inside d c.below).symm

theorem trees_of_fault (htoken : c.isToken = false) (hmissing : c.node.missing = false)
    (herror : c.node.isError = false) {fault : Fault} (hplan : d.plan? c = some (.error fault)) :
    d.trees c = throw fault := by
  rw [trees, if_neg (by simp [htoken]), if_neg (by simp [hmissing]), if_neg (by simp [herror]),
    hplan]

theorem trees_of_plan (htoken : c.isToken = false) (hmissing : c.node.missing = false)
    (herror : c.node.isError = false) {plan : Plan c.height}
    (hplan : d.plan? c = some (.ok plan)) :
    d.trees c = do return plan.wrap (← d.treesOf plan.cursors) := by
  rw [trees, if_neg (by simp [htoken]), if_neg (by simp [hmissing]), if_neg (by simp [herror]),
    hplan, Plan.cursors, treesOf_inside]

end Dialect

/-- Without a limit, the nodes on a stack give what each of them gives, one after the other. -/
theorem follows_lower (d : Dialect) (stack : List Cursor) :
    (lower d stack).Follows (d.treesOf stack) := by
  -- The induction is that of the stack. Where it puts nodes below in front of the rest, the
  -- recursion has their trees in front of those of the rest.
  induction stack using lower.induct with
  | case1 =>
    rw [lower]
    exact Reporting.follows_pure []
  | case2 c rest htoken ih =>
    rw [lower, if_pos htoken, Dialect.treesOf_cons, Dialect.trees_of_token htoken]
    simpa using ih
  | case3 c rest htoken ihrest ihbelow ihplan =>
    rw [lower, if_neg htoken, Dialect.treesOf_cons]
    refine Reporting.follows_check ?_
    have htoken : c.isToken = false := by simpa using htoken
    by_cases hmissing : c.node.missing = true
    · rw [if_pos hmissing, Dialect.trees_of_missing htoken hmissing]
      refine d.follows_reportAt c _ ?_
      exact Reporting.follows_bind ihrest fun trees => Reporting.follows_pure _
    rw [if_neg hmissing]
    have hmissing : c.node.missing = false := by simpa using hmissing
    by_cases herror : c.node.isError = true
    · rw [if_pos herror, Dialect.trees_of_error hmissing herror, bind_assoc]
      refine d.follows_reportAt c _ ?_
      have hlifted := Reporting.follows_bind ihbelow fun trees =>
        Reporting.follows_pure (d.errorTree c (d.errorMessage c) :: trees)
      simpa [Dialect.treesOf_append] using hlifted
    rw [if_neg herror]
    have herror : c.node.isError = false := by simpa using herror
    cases hplan : d.plan? c with
    | none =>
      rw [Dialect.trees_of_transparent htoken hmissing herror hplan, ← Dialect.treesOf_append]
      exact ihbelow
    | some planned =>
      cases planned with
      | error fault =>
        rw [Dialect.trees_of_fault htoken hmissing herror hplan]
        exact Reporting.follows_throw fault
      | ok plan =>
        rw [Dialect.trees_of_plan htoken hmissing herror hplan, bind_assoc]
        refine Reporting.follows_bind (ihplan plan) fun inner => ?_
        rw [pure_bind]
        exact Reporting.follows_bind ihrest fun trees => Reporting.follows_pure _

/-! ### One call or several -/

/-- Of a stack in two parts the first is done before the second is begun, under any budget. -/
theorem lower_append (d : Dialect) (front rest : List Cursor) :
    lower d (front ++ rest) = do return (← lower d front) ++ (← lower d rest) := by
  -- The induction is that of the first part alone: what its nodes put on the stack is done
  -- before the second part is met.
  induction front using lower.induct with
  | case1 =>
    rw [lower]
    simp
  | case2 c front htoken ih =>
    conv => rhs; rw [lower, if_pos htoken]
    rw [List.cons_append, lower, if_pos htoken, ih]
  | case3 c front htoken ihfront ihbelow ihplan =>
    -- Both sides look once at the budget and go on with the same node.
    conv => rhs; rw [lower, if_neg htoken, bind_assoc]
    rw [List.cons_append, lower, if_neg htoken]
    refine bind_congr fun _ => ?_
    by_cases hmissing : c.node.missing = true
    · rw [if_pos hmissing, if_pos hmissing, ihfront]
      simp
    rw [if_neg hmissing, if_neg hmissing]
    have hbelow : lower d (c.cursorsBelow ++ (front ++ rest)) = do
        return (← lower d (c.cursorsBelow ++ front)) ++ (← lower d rest) := by
      rw [← ihbelow, List.append_assoc]
    by_cases herror : c.node.isError = true
    · rw [if_pos herror, if_pos herror, hbelow]
      simp
    rw [if_neg herror, if_neg herror]
    cases d.plan? c with
    | none => exact hbelow
    | some planned =>
      cases planned with
      | error fault => rfl
      | ok plan =>
        simp only [ihfront, bind_assoc, pure_bind, List.append_assoc]

/-- Nodes may be dealt out to any number of calls. -/
theorem lower_flatten (d : Dialect) (calls : List (List Cursor)) :
    lower d calls.flatten = do return (← calls.mapM (lower d)).flatten := by
  induction calls with
  | nil =>
    rw [List.flatten_nil, lower]
    simp
  | cons call rest ih =>
    rw [List.flatten_cons, lower_append, ih]
    simp

/-- A list of nodes with the blocks opened is lowered as its nodes are, one after the other,
where the nodes below a block take its place. -/
theorem lower_opened (d : Dialect) (isBlock : String → Bool) {bound : Nat}
    (ms : List (Inside bound)) :
    lower d ((opened isBlock ms).map (·.val)) = do
      return (← ms.mapM fun m =>
        lower d (if isBlock m.kind then m.val.cursorsBelow else [m.val])).flatten := by
  have hcalls : (opened isBlock ms).map (·.val)
      = (ms.map fun m => if isBlock m.kind then m.val.cursorsBelow else [m.val]).flatten := by
    rw [opened, List.map_flatMap, List.flatMap]
    congr 1
    refine List.map_congr_left fun m _ => ?_
    split
    · simp [Inside.below, Cursor.cursorsBelow]
    · rfl
  rw [hcalls, lower_flatten, List.mapM_map]
  rfl

/-- Nodes that are absent give nothing. -/
theorem treesOf_filterMap (d : Dialect) (nodes : List (Option Cursor)) :
    d.treesOf (nodes.filterMap id) = inTurn (fun c? => c?.elim (pure []) d.trees) nodes := by
  induction nodes with
  | nil => rfl
  | cons c? rest ih =>
    rw [inTurn_cons, ← ih]
    cases c? with
    | none => simp
    | some c => simp [Dialect.treesOf_cons]

/-- Without a limit, lowering gives what the recursion over the nodes gives: the trees of one
node after the other, or the first fault, with the same problems reported in the same order;
nodes that are absent give nothing. Whatever the budget, one call for many nodes does what
several calls for some of them do, and what is done for the nodes below one with its blocks
opened is done for each of them in turn. A node that the grammar names and that has no plan
gives what the nodes below it give. -/
theorem lowering_recursive (d : Dialect) :
    (∀ (nodes : List (Option Cursor)) (r : Reports) (used : Nat),
      ((lower d (nodes.filterMap id)).runFrom r .unlimited used).1
        = (inTurn (fun c? => c?.elim (pure []) d.trees) nodes).run r) ∧
    (∀ calls : List (List Cursor),
      lower d calls.flatten = do return (← calls.mapM (lower d)).flatten) ∧
    (∀ (isBlock : String → Bool) (c : Cursor),
      lower d ((opened isBlock c.below).map (·.val)) = do
        return (← c.below.mapM fun m =>
          lower d (if isBlock m.kind then m.val.cursorsBelow else [m.val])).flatten) ∧
    ∀ c : Cursor, c.node.named = true → c.node.missing = false → c.node.isError = false →
      d.plan? c = none → ∀ (r : Reports) (used : Nat),
        ((lower d [c]).runFrom r .unlimited used).1
          = ((lower d c.cursorsBelow).runFrom r .unlimited used).1 := by
  refine ⟨?_, lower_flatten d, fun isBlock c => lower_opened d isBlock c.below, ?_⟩
  · intro nodes r used
    rw [follows_lower d _ r used, treesOf_filterMap]
  · intro c hnamed hmissing herror hplan r used
    have htoken : c.isToken = false := by simp [Cursor.isToken, hnamed]
    have htrees : d.treesOf [c] = d.treesOf c.cursorsBelow := by
      rw [Dialect.treesOf_cons, Dialect.trees_of_transparent htoken hmissing herror hplan]
      simp [Dialect.treesOf, inTurn_nil]
    rw [follows_lower d _ r used, follows_lower d _ r used, htrees]

section

/-- A call in parentheses, with a sign behind it that fits nowhere and no closing
parenthesis. -/
def brokenGroup : Cursor :=
  ⟨.mk "parenthesized_expression" 0 7 true false true ""
    [.mk "(" 0 1 false false false "" [],
      .mk "call_expression" 1 5 true false false ""
        [.mk "identifier" 1 2 true false false "function" [],
          .mk "arguments" 2 5 true false false "arguments"
            [.mk "(" 2 3 false false false "" [], .mk "number" 3 4 true false false "" [],
              .mk ")" 4 5 false false false "" []]],
      .mk "ERROR" 6 7 true false true "" [.mk "@" 6 7 false false false "" []],
      .mk ")" 7 7 false true true "" []], none⟩

/-- The text of the group, as a file. -/
def brokenGroupDialect : Dialect :=
  Ecma.dialect false ⟨"a.js", .ofString "(f(1) @"⟩

/-- The parentheses give the call in them and the trees of two problems. -/
theorem lowers_brokenGroup :
    ∃ trees r, Lowers brokenGroupDialect [brokenGroup] ⟨[], []⟩ trees r ∧
      trees.map Tree.tag = [.call, .error, .error] ∧
      r.diagnostics.map (·.message) = ["Unexpected '@'", "Missing ')'"] := by
  apply Exists.intro
  apply Exists.intro
  constructor
  · apply Lowers.transparent rfl rfl rfl rfl
    show Lowers _ [_, _, _, _] _ _ _
    apply Lowers.token rfl
    apply Lowers.planned rfl rfl rfl rfl
    · show Lowers _ [_, _] _ _ _
      apply Lowers.transparent rfl rfl rfl rfl
      show Lowers _ [_] _ _ _
      apply Lowers.transparent rfl rfl rfl rfl
      show Lowers _ [_, _, _] _ _ _
      apply Lowers.token rfl
      apply Lowers.transparent rfl rfl rfl rfl
      exact .token rfl .nil
    apply Lowers.error rfl rfl
    apply Lowers.token rfl
    exact .missing rfl rfl .nil
  · constructor
    · rfl
    · decide +kernel

/-- The recursion over the group gives the call and the two problems, as lowering does. -/
theorem lowering_recursive_brokenGroup :
    brokenGroup.node.named = true ∧ brokenGroup.node.missing = false ∧
      brokenGroup.node.isError = false ∧ brokenGroupDialect.plan? brokenGroup = none ∧
      ((lower brokenGroupDialect [brokenGroup]).runFrom ⟨[], []⟩ .unlimited 0).1
        = ((lower brokenGroupDialect brokenGroup.cursorsBelow).runFrom ⟨[], []⟩ .unlimited 0).1 ∧
      ∃ trees r,
        (inTurn (fun c? => c?.elim (pure []) brokenGroupDialect.trees)
          [none, some brokenGroup]).run ⟨[], []⟩ = .ok (trees, r) ∧
        trees.map Tree.tag = [.call, .error, .error] ∧
        r.diagnostics.map (·.message) = ["Unexpected '@'", "Missing ')'"] := by
  obtain ⟨hstack, -, -, hbelow⟩ := lowering_recursive brokenGroupDialect
  obtain ⟨trees, r, hlowers, htags, hmessages⟩ := lowers_brokenGroup
  obtain ⟨left, hrun⟩ := hlowers.exists_run 0
  refine ⟨rfl, rfl, rfl, rfl, hbelow brokenGroup rfl rfl rfl rfl ⟨[], []⟩ 0, trees, r, ?_, htags,
    hmessages⟩
  rw [← hstack [none, some brokenGroup] ⟨[], []⟩ 0]
  exact congrArg Prod.fst hrun

end

end CodeHabits.Concrete
