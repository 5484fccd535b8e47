import CodeHabits.Proofs.Budget

/-!
# `CodeHabits.Proofs.Concrete.Lowers`: lowering as a relation

Lowering is a computation under a budget that reports on the way. What it gives when it
gives something depends on neither of these: `Lowers d stack r trees s` says that the
nodes on the stack give the trees, and that the reports `r` grow to `s` on the way. There
is one rule for each thing that may become of the first node.

The relation holds just where lowering gives a result (`lowers_of_run`,
`Lowers.exists_run`). What is true of all results is shown by induction on derivations,
and a result for a tree at hand by building one.
-/

set_option autoImplicit false

namespace CodeHabits

namespace Timed

variable {α β : Type}

/-- If a sequence gives something, so do both parts. -/
theorem runFrom_bind_eq_ok {x : Timed α} {f : α → Timed β} {budget : Budget} {used left : Nat}
    {b : β} (h : (x >>= f).runFrom budget used = (.ok b, left)) :
    ∃ a middle, x.runFrom budget used = (.ok a, middle) ∧
      (f a).runFrom budget middle = (.ok b, left) := by
  rcases hx : x.runFrom budget used with ⟨fault | a, middle⟩
  · rw [runFrom_bind_error hx] at h
    cases h
  · rw [runFrom_bind_ok hx] at h
    exact ⟨a, middle, rfl, h⟩

end Timed

namespace Concrete

/-- The tree that stands for a problem. -/
def Dialect.errorTree (d : Dialect) (c : Cursor) (message : String) : Tree :=
  d.file.tree .error c [("message", .text message)] []

/-- The nodes on a stack give trees while reports grow. -/
inductive Lowers (d : Dialect) : List Cursor → Reports → List Tree → Reports → Prop
  | nil {r : Reports} : Lowers d [] r [] r
  | token {c : Cursor} {rest : List Cursor} {r s : Reports} {trees : List Tree}
      (htoken : c.isToken = true) (hrest : Lowers d rest r trees s) :
      Lowers d (c :: rest) r trees s
  | missing {c : Cursor} {rest : List Cursor} {r s : Reports} {trees : List Tree}
      (htoken : c.isToken = false) (hmissing : c.node.missing = true)
      (hrest : Lowers d rest (d.add r c c.missingMessage) trees s) :
      Lowers d (c :: rest) r (d.errorTree c c.missingMessage :: trees) s
  /-- What is below text that fits nowhere is lifted next to it. -/
  | error {c : Cursor} {rest : List Cursor} {r s : Reports} {trees : List Tree}
      (hmissing : c.node.missing = false) (herror : c.node.isError = true)
      (hbelow : Lowers d (c.cursorsBelow ++ rest) (d.add r c (d.errorMessage c)) trees s) :
      Lowers d (c :: rest) r (d.errorTree c (d.errorMessage c) :: trees) s
  | transparent {c : Cursor} {rest : List Cursor} {r s : Reports} {trees : List Tree}
      (htoken : c.isToken = false) (hmissing : c.node.missing = false)
      (herror : c.node.isError = false) (hplan : d.plan? c = none)
      (hbelow : Lowers d (c.cursorsBelow ++ rest) r trees s) : Lowers d (c :: rest) r trees s
  | planned {c : Cursor} {rest : List Cursor} {plan : Plan c.height} {r middle s : Reports}
      {inner trees : List Tree} (htoken : c.isToken = false) (hmissing : c.node.missing = false)
      (herror : c.node.isError = false) (hplan : d.plan? c = some (.ok plan))
      (hinner : Lowers d plan.cursors r inner middle) (hrest : Lowers d rest middle trees s) :
      Lowers d (c :: rest) r (plan.wrap inner ++ trees) s

/-- The run of a computation that reports, under a budget of which so many looks have been
taken. -/
def Reporting.runFrom {α : Type} (x : Reporting α) (r : Reports) (budget : Budget) (used : Nat) :
    Except Fault (α × Reports) × Nat :=
  Timed.runFrom (x.run r) budget used

namespace Reporting

variable {α β : Type}

theorem runFrom_bind_eq_ok {x : Reporting α} {f : α → Reporting β} {r s : Reports}
    {budget : Budget} {used left : Nat} {b : β}
    (h : (x >>= f).runFrom r budget used = (.ok (b, s), left)) :
    ∃ a t middle, x.runFrom r budget used = (.ok (a, t), middle) ∧
      (f a).runFrom t budget middle = (.ok (b, s), left) := by
  obtain ⟨⟨a, t⟩, middle, hx, hf⟩ := Timed.runFrom_bind_eq_ok h
  exact ⟨a, t, middle, hx, hf⟩

theorem runFrom_bind_ok {x : Reporting α} {f : α → Reporting β} {r t : Reports}
    {budget : Budget} {used middle : Nat} {a : α}
    (h : x.runFrom r budget used = (.ok (a, t), middle)) :
    (x >>= f).runFrom r budget used = (f a).runFrom t budget middle :=
  Timed.runFrom_bind_ok h

theorem runFrom_pure_eq_ok {a b : α} {r s : Reports} {budget : Budget} {used left : Nat}
    (h : (pure a : Reporting α).runFrom r budget used = (.ok (b, s), left)) : b = a ∧ s = r := by
  cases h
  exact ⟨rfl, rfl⟩

/-- A look that finds something left reports nothing. -/
theorem runFrom_check_eq_ok {r s : Reports} {budget : Budget} {used left : Nat} {u : Unit}
    (h : runFrom (Timed.check : Reporting Unit) r budget used = (.ok (u, s), left)) : s = r := by
  obtain ⟨_, _, _, hpure⟩ := Timed.runFrom_bind_eq_ok h
  exact (runFrom_pure_eq_ok (α := Unit) hpure).2

/-- Without a limit a look always finds something left. -/
theorem runFrom_check_unlimited (r : Reports) (used : Nat) :
    runFrom (Timed.check : Reporting Unit) r .unlimited used = (.ok ((), r), used + 1) :=
  rfl

end Reporting

variable {d : Dialect}

theorem Dialect.runFrom_reportAt (d : Dialect) (c : Cursor) (message : String) (r : Reports)
    (budget : Budget) (used : Nat) :
    (d.reportAt c message).runFrom r budget used
      = (.ok (d.errorTree c message, d.add r c message), used) :=
  rfl

/-- What lowering gives is derived. -/
theorem lowers_of_run {stack : List Cursor} {r s : Reports} {trees : List Tree} {budget : Budget}
    {used left : Nat} (h : (lower d stack).runFrom r budget used = (.ok (trees, s), left)) :
    Lowers d stack r trees s := by
  -- Each step of the run is taken apart at its binds; a look leaves the reports as they are.
  induction stack using lower.induct generalizing r s trees used left with
  | case1 =>
    rw [lower] at h
    obtain ⟨rfl, rfl⟩ := Reporting.runFrom_pure_eq_ok h
    exact .nil
  | case2 c rest htoken ih =>
    rw [lower, if_pos htoken] at h
    exact .token htoken (ih h)
  | case3 c rest htoken ihrest ihbelow ihplan =>
    rw [lower, if_neg htoken] at h
    obtain ⟨_, t, _, hcheck, hnode⟩ := Reporting.runFrom_bind_eq_ok h
    rw [Reporting.runFrom_check_eq_ok hcheck] at hnode
    have htoken : c.isToken = false := by simpa using htoken
    by_cases hmissing : c.node.missing = true
    · rw [if_pos hmissing] at hnode
      obtain ⟨_, _, _, hreport, hnode⟩ := Reporting.runFrom_bind_eq_ok hnode
      cases hreport
      obtain ⟨_, _, _, hrest, hpure⟩ := Reporting.runFrom_bind_eq_ok hnode
      obtain ⟨rfl, rfl⟩ := Reporting.runFrom_pure_eq_ok hpure
      exact .missing htoken hmissing (ihrest hrest)
    rw [if_neg hmissing] at hnode
    have hmissing : c.node.missing = false := by simpa using hmissing
    by_cases herror : c.node.isError = true
    · rw [if_pos herror] at hnode
      obtain ⟨_, _, _, hreport, hnode⟩ := Reporting.runFrom_bind_eq_ok hnode
      cases hreport
      obtain ⟨_, _, _, hbelow, hpure⟩ := Reporting.runFrom_bind_eq_ok hnode
      obtain ⟨rfl, rfl⟩ := Reporting.runFrom_pure_eq_ok hpure
      exact .error hmissing herror (ihbelow hbelow)
    rw [if_neg herror] at hnode
    have herror : c.node.isError = false := by simpa using herror
    cases hplan : d.plan? c with
    | none =>
      rw [hplan] at hnode
      exact .transparent htoken hmissing herror hplan (ihbelow hnode)
    | some planned =>
      rw [hplan] at hnode
      cases planned with
      | error fault => cases hnode
      | ok plan =>
        obtain ⟨_, _, _, hinner, hnode⟩ := Reporting.runFrom_bind_eq_ok hnode
        obtain ⟨_, _, _, hrest, hpure⟩ := Reporting.runFrom_bind_eq_ok hnode
        obtain ⟨rfl, rfl⟩ := Reporting.runFrom_pure_eq_ok hpure
        exact .planned htoken hmissing herror hplan (ihplan plan hinner) (ihrest hrest)

/-- Without a limit, what is derived is what lowering gives. -/
theorem Lowers.exists_run {stack : List Cursor} {r s : Reports} {trees : List Tree}
    (h : Lowers d stack r trees s) (used : Nat) :
    ∃ left, (lower d stack).runFrom r .unlimited used = (.ok (trees, s), left) := by
  induction h generalizing used with
  | nil =>
    rw [lower]
    exact ⟨used, rfl⟩
  | token htoken hrest ih =>
    rw [lower, if_pos htoken]
    exact ih used
  | missing htoken hmissing hrest ih =>
    obtain ⟨left, hrun⟩ := ih (used + 1)
    rw [lower, if_neg (by simp [htoken]), if_pos hmissing,
      Reporting.runFrom_bind_ok (Reporting.runFrom_check_unlimited _ used),
      Reporting.runFrom_bind_ok (d.runFrom_reportAt _ _ _ _ _), Reporting.runFrom_bind_ok hrun]
    exact ⟨left, rfl⟩
  | @error c rest r s trees hmissing herror hbelow ih =>
    obtain ⟨left, hrun⟩ := ih (used + 1)
    have htoken : c.isToken = false := by simp [Cursor.isToken, herror]
    rw [lower, if_neg (by simp [htoken]), if_neg (by simp [hmissing]), if_pos herror,
      Reporting.runFrom_bind_ok (Reporting.runFrom_check_unlimited _ used),
      Reporting.runFrom_bind_ok (d.runFrom_reportAt _ _ _ _ _), Reporting.runFrom_bind_ok hrun]
    exact ⟨left, rfl⟩
  | transparent htoken hmissing herror hplan hbelow ih =>
    obtain ⟨left, hrun⟩ := ih (used + 1)
    rw [lower, if_neg (by simp [htoken]), if_neg (by simp [hmissing]),
      if_neg (by simp [herror]), hplan,
      Reporting.runFrom_bind_ok (Reporting.runFrom_check_unlimited _ used)]
    exact ⟨left, hrun⟩
  | planned htoken hmissing herror hplan hinner hrest ihinner ihrest =>
    obtain ⟨middle, hinner⟩ := ihinner (used + 1)
    obtain ⟨left, hrest⟩ := ihrest middle
    rw [lower, if_neg (by simp [htoken]), if_neg (by simp [hmissing]),
      if_neg (by simp [herror]), hplan,
      Reporting.runFrom_bind_ok (Reporting.runFrom_check_unlimited _ used),
      Reporting.runFrom_bind_ok hinner, Reporting.runFrom_bind_ok hrest]
    exact ⟨left, rfl⟩

/-! ### Whole trees -/

/-- What is lowered of a whole tree: what is right below the root, or the root if it fits
nowhere. -/
def Node.tops (root : Node) : List Cursor :=
  if root.isError then [⟨root, none⟩] else Cursor.cursorsBelow ⟨root, none⟩

/-- What a whole concrete tree gives, once it is lowered. -/
def Dialect.parsed (d : Dialect) (text language : String) (root : Node) (trees : List Tree)
    (r : Reports) : Parsed :=
  ⟨Parsed.moduleTree text d.file.name trees, language,
    (if root.faulty then reportMarked d r [root] else r).diagnostics.mergeSort diagnosticLe⟩

/-- A whole tree gives what is derived for it. -/
theorem lowers_of_build {text language : String} {root : Node} {budget : Budget}
    {parsed : Parsed} {used left : Nat}
    (h : (build d text language root).runFrom budget used = (.ok parsed, left)) :
    ∃ trees r, Lowers d root.tops ⟨[], []⟩ trees r ∧
      parsed = d.parsed text language root trees r := by
  obtain ⟨_, middle, _, h⟩ := Timed.runFrom_bind_eq_ok h
  obtain ⟨⟨trees, r⟩, _, hlower, h⟩ := Timed.runFrom_bind_eq_ok h
  cases h
  exact ⟨trees, r, lowers_of_run hlower, rfl⟩

/-- Without a limit, what is derived for a whole tree is what it gives, however many looks
were taken before. -/
theorem Lowers.exists_build {root : Node} {trees : List Tree} {r : Reports}
    (h : Lowers d root.tops ⟨[], []⟩ trees r) (text language : String) (used : Nat) :
    ∃ left, (build d text language root).runFrom .unlimited used
      = (.ok (d.parsed text language root trees r), left) := by
  obtain ⟨left, hrun⟩ := h.exists_run (used + 1)
  refine ⟨left, ?_⟩
  have hcheck : Timed.check.runFrom .unlimited used = (.ok (), used + 1) := rfl
  rw [build, Timed.runFrom_bind_ok hcheck]
  exact Timed.runFrom_bind_ok hrun

end Concrete

end CodeHabits
