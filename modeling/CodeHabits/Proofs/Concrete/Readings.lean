import CodeHabits.Concrete.Ecma
import CodeHabits.Concrete.Rust
import CodeHabits.Proofs.Concrete.Alike

/-!
# `CodeHabits.Proofs.Concrete.Readings`: what the plans read in the source text

Many plans read names and other texts, but most of these only go into attributes that are no
part of a pattern's identity. `Ecma.Agree` and `Rust.Agree` list the rest. A method that is
called `constructor` has a kind of its own, a declaration of variables notes the keyword that
it begins with, a value taken from a call of `require` makes an import of it, and an arm
`_` of a `match` takes everything.

There is one lemma for each plan, in the order of the plans: if these texts agree, then nodes
that are alike have plans that are alike. `alike_plan?` puts them together by the kind.
-/

set_option autoImplicit false

namespace CodeHabits.Concrete

/-- The first node below one that fills a field. -/
def Node.child? (n : Node) (field : String) : Option Node :=
  n.children.find? fun k => k.field == field

/-- The text of the first node below one that fills a field; empty if there is none. -/
def SourceFile.fieldText (f : SourceFile) (n : Node) (field : String) : String :=
  match n.child? field with
  | some k => f.text ⟨k, none⟩
  | none => ""

theorem map_node_siblings {bound : Nat} (before : Option Nat) (ns : List Node)
    (h : Node.levels ns ≤ bound) : (siblings bound before ns h).map (·.val.node) = ns := by
  induction ns generalizing before with
  | nil => rfl
  | cons n rest ih =>
    rw [siblings, List.map_cons, ih]

theorem map_node_below (c : Cursor) : c.below.map (·.val.node) = c.node.children :=
  map_node_siblings _ _ _

theorem map_node_inside_below {bound : Nat} (m : Inside bound) :
    m.below.map (·.val.node) = m.val.node.children := by
  rw [Inside.below, List.map_map, ← map_node_below]
  rfl

theorem child?_eq {bound : Nat} {n : Node} {ms : List (Inside bound)}
    (h : ms.map (·.val.node) = n.children) (field : String) :
    n.child? field = (inField? ms field).map (·.val.node) := by
  rw [Node.child?, ← h, List.find?_map]
  rfl

theorem textOf_inField? {bound : Nat} {n : Node} {ms : List (Inside bound)} (f : SourceFile)
    (h : ms.map (·.val.node) = n.children) (field : String) :
    f.textOf (inField? ms field) = f.fieldText n field := by
  rw [SourceFile.fieldText, child?_eq h]
  cases inField? ms field <;> rfl

namespace Ecma

/-- Whether a method is called `constructor` by a name that is written out. -/
def readsConstructor (f : SourceFile) (n : Node) : Bool :=
  match n.child? "name" with
  | some k => k.kind != "computed_property_name" && f.text ⟨k, none⟩ == "constructor"
  | none => false

/-- The keyword that a declaration of variables begins with. -/
def keywordText (f : SourceFile) (n : Node) : String :=
  match (n.child? "kind").or n.children.head? with
  | some k => f.text ⟨k, none⟩
  | none => ""

/-- What of two source texts has to agree at two nodes in the same place. -/
structure Agree (f g : SourceFile) (n m : Node) : Prop where
  constructor : n.kind = "method_definition" → readsConstructor f n = readsConstructor g m
  keyword : n.kind = "lexical_declaration" → keywordText f n = keywordText g m
  require : n.kind = "call_expression" →
    (f.fieldText n "function" = "require" ↔ g.fieldText m "function" = "require")

variable {f g : SourceFile} {typed : Bool} {c d : Cursor}

/-- The texts of other nodes need not agree. -/
theorem agree_of_kind {n m : Node} (hmethod : n.kind ≠ "method_definition")
    (hdeclaration : n.kind ≠ "lexical_declaration") (hcall : n.kind ≠ "call_expression") :
    Agree f g n m :=
  ⟨fun h => absurd h hmethod, fun h => absurd h hdeclaration, fun h => absurd h hcall⟩

/-- The name that a function notes. -/
def functionName (f : SourceFile) (c : Cursor) : Value :=
  match inField? c.below "name" with
  | some m => if m.kind == "computed_property_name" then .null else .text (f.text m.val)
  | none => .null

theorem same_functionName (f : SourceFile) (c : Cursor) :
    (functionName f c).same (.text "constructor") = readsConstructor f c.node := by
  rw [functionName, readsConstructor, child?_eq (map_node_below c)]
  cases inField? c.below "name" with
  | none => simp [Value.same, Value.label?]; rfl
  | some m =>
    show _ = (m.kind != "computed_property_name" && f.text m.val == "constructor")
    by_cases hcomputed : m.kind = "computed_property_name"
    · simp [hcomputed, Value.same, Value.label?]; rfl
    · simp [hcomputed, Value.same, Value.label?, Label.text_beq_text]

theorem alike_functionPlan (h : c.Alike (Agree f g) d) (kind : String) :
    Plan.Alike (Agree f g) (functionPlan f typed c kind) (functionPlan g typed d kind) := by
  have hkind := h.kind
  have htoken := hasToken_of_alike h.below
  unfold functionPlan
  extract_lets name kindText parameters params hasDefault body attributes name' kindText'
    parameters' params' hasDefault' body' attributes'
  have hparameters : Option.Rel (Inside.Alike (Agree f g)) parameters parameters' :=
    alike_inField? h.below "parameters"
  have hbody : Option.Rel (Inside.Alike (Agree f g)) body body' := alike_inField? h.below "body"
  have hparams : List.Forall₂ (Inside.Alike (Agree f g)) params params' := by
    clear_value parameters parameters'
    cases hparameters with
    | none => exact rel_toList (alike_inField? h.below "parameter")
    | some hmk => exact alike_meaningful hmk.below
  -- Of the name it only matters whether it makes a method the constructor.
  have hname : c.kind = "method_definition" →
      name.same (.text "constructor") = name'.same (.text "constructor") := by
    intro hmethod
    show (functionName f c).same _ = (functionName g d).same _
    rw [same_functionName, same_functionName, (Node.Alike.agree h).constructor hmethod]
  have hkindText : kindText = kindText' := by
    show (if c.kind == "method_definition" && _ then _ else _)
      = (if d.kind == "method_definition" && _ then _ else _)
    rw [← hkind]
    by_cases hmethod : c.kind = "method_definition"
    · rw [hname hmethod]
    · simp [hmethod]
  have hnotes : SameNotes attributes attributes' := by
    refine ((SameNotes.append ?_ ?_).append ?_).append ?_
    · simp [identityAttributes, hparams.length_eq, htoken, hkindText, rel_eq_none_iff hbody]
    · rw [hkind]
      split
      · simp [identityAttributes]
      · exact sameNotes_nil
    · rw [htoken]
      exact sameNotes_refl _
    · rw [htoken]
      exact sameNotes_refl _
  clear_value body body' attributes attributes'
  cases hbody with
  | none => exact Plan.alike_leaf hnotes
  | @some m k hmk =>
    dsimp only
    rw [hmk.kind]
    split
    · exact Plan.alike_tree hmk.below (hnotes.append (by simp [identityAttributes]))
    · exact Plan.alike_nested (.cons hmk .nil) (hnotes.append (by simp [identityAttributes]))
        (by simp [identityAttributes])

theorem alike_classPlan (h : c.Alike (Agree f g) d) :
    Plan.Alike (Agree f g) (classPlan f c) (classPlan g d) :=
  Plan.alike_tree (alike_belowOf (alike_inField? h.below "body")) (by simp [identityAttributes])

theorem alike_interfacePlan : Plan.Alike (Agree f g) (interfacePlan f c) (interfacePlan g d) :=
  Plan.alike_leaf (by simp [identityAttributes])

theorem alike_enumPlan : Plan.Alike (Agree f g) (enumPlan f c) (enumPlan g d) :=
  Plan.alike_leaf (by simp [identityAttributes])

theorem isRequire_of_alike {m : Inside c.height} {k : Inside d.height}
    (h : m.Alike (Agree f g) k) : isRequire f c (some m) = isRequire g d (some k) := by
  show (m.kind == "call_expression" && f.textOf (inField? m.below "function") == "require")
    = (k.kind == "call_expression" && g.textOf (inField? k.below "function") == "require")
  rw [textOf_inField? f (map_node_inside_below m), textOf_inField? g (map_node_inside_below k),
    ← h.kind]
  by_cases hcall : m.kind = "call_expression"
  · have hreads := (Node.Alike.agree h).require hcall
    simp only [hcall, beq_self_eq_true, Bool.true_and]
    rw [Bool.eq_iff_iff, beq_iff_eq, beq_iff_eq]
    exact hreads
  · rw [beq_eq_false_iff_ne.2 hcall, Bool.false_and, Bool.false_and]

theorem textOf_keyword (f : SourceFile) (c : Cursor) :
    f.textOf ((child? c "kind").or c.below.head?) = keywordText f c.node := by
  rw [keywordText, child?_eq (map_node_below c), ← map_node_below c, List.head?_map]
  rw [child?]
  cases inField? c.below "kind" with
  | some m => rfl
  | none => cases c.below.head? <;> rfl

theorem alike_variablePlan (h : c.Alike (Agree f g) d)
    (hvariable : c.kind = "lexical_declaration" ∨ c.kind = "variable_declaration") :
    Plan.AlikeOutcome (Agree f g) (variablePlan f c) (variablePlan g d) := by
  have hkeyword := rel_or (alike_inField? h.below "kind") (forall₂_head? h.below)
  have htext : c.kind = "lexical_declaration" →
      f.textOf ((child? c "kind").or c.below.head?)
        = g.textOf ((child? d "kind").or d.below.head?) := by
    intro hlexical
    rw [textOf_keyword, textOf_keyword, (Node.Alike.agree h).keyword hlexical]
  unfold variablePlan
  extract_lets declarators values name planned declarators' values' name' planned'
  have hdeclarators : List.Forall₂ (Inside.Alike (Agree f g)) declarators declarators' :=
    forall₂_filter (fun hmk => by rw [hmk.kind]) (alike_namedOnes h.below)
  have hvalues : List.Forall₂ (Option.Rel (Inside.Alike (Agree f g))) values values' :=
    List.rel_map (fun _ _ hmk => alike_inField? hmk.below "value") hdeclarators
  have hrequire : values.any (isRequire f c) = values'.any (isRequire g d) := by
    refine forall₂_any (fun hvalue => ?_) hvalues
    cases hvalue with
    | none => rfl
    | some hmk => exact isRequire_of_alike hmk
  -- Once it is known how the variables are declared, there is a plan.
  have hplanned : ∀ kind, Plan.AlikeOutcome (Agree f g) (planned kind) (planned' kind) := by
    intro kind
    simp only [planned, planned', hdeclarators.length_eq, hrequire]
    split
    · exact .inl ⟨_, _, rfl, rfl, Plan.alike_leaf (by simp [identityAttributes])⟩
    · exact .inl ⟨_, _, rfl, rfl, Plan.alike_tree
        (List.rel_filterMap (fun _ _ hvalue => hvalue) hvalues) (by simp [identityAttributes])⟩
  clear_value planned planned'
  rw [← h.kind]
  by_cases hvar : c.kind = "variable_declaration"
  · rw [hvar]
    exact hplanned "var"
  · have hlexical := hvariable.resolve_right hvar
    replace htext := htext hlexical
    rw [hlexical]
    generalize (child? c "kind").or c.below.head? = keyword? at *
    generalize (child? d "kind").or d.below.head? = other? at *
    cases hkeyword with
    | none => exact .inr ⟨.outOfRange, rfl, rfl⟩
    | @some m k _ =>
      show Plan.AlikeOutcome _ (planned (f.textOf (some m))) (planned' (g.textOf (some k)))
      rw [htext]
      exact hplanned _

theorem alike_fieldPlan (h : c.Alike (Agree f g) d) :
    Plan.Alike (Agree f g) (fieldPlan f c) (fieldPlan g d) :=
  Plan.alike_tree (rel_toList (alike_inField? h.below "value")) (by simp [identityAttributes])

theorem sameNotes_ownedBrace {block? : Option (Inside c.height)} {other? : Option (Inside d.height)}
    (h : Option.Rel (Inside.Alike (Agree f g)) block? other?) :
    SameNotes (ownedBrace f c block?) (ownedBrace g d other?) := by
  cases h with
  | none => exact sameNotes_nil
  | some hmk =>
    unfold ownedBrace
    dsimp only
    rw [hmk.kind]
    split
    · simp [identityAttributes]
    · exact sameNotes_nil

theorem alike_conditionalPlan (h : c.Alike (Agree f g) d) :
    Plan.Alike (Agree f g) (conditionalPlan f c) (conditionalPlan g d) := by
  refine Plan.alike_tree (alike_opened isBlock h.below) (SameNotes.append ?_ ?_)
  · simp [rel_isSome (alike_inField? h.below "alternative")]
  · exact sameNotes_ownedBrace (alike_inField? h.below "consequence")

theorem alike_loopPlan (h : c.Alike (Agree f g) d) (kind : String) :
    Plan.Alike (Agree f g) (loopPlan f c kind) (loopPlan g d kind) := by
  refine Plan.alike_tree (alike_opened isBlock h.below) (sameNotes_cons.2 ⟨fun _ => ?_, ?_⟩)
  · rw [h.kind, hasToken_of_alike h.below]
  · exact sameNotes_ownedBrace (alike_inField? h.below "body")

theorem alike_switchPlan (h : c.Alike (Agree f g) d) :
    Plan.Alike (Agree f g) (switchPlan f c) (switchPlan g d) := by
  have hcases := alike_meaningful (alike_belowOf (alike_inField? h.below "body"))
  have hdefault := forall₂_any (p := fun m => m.kind == "switch_default")
    (q := fun m => m.kind == "switch_default") (fun hmk => by rw [hmk.kind]) hcases
  refine Plan.alike_tree (List.rel_append (rel_toList (alike_inField? h.below "value")) ?_) ?_
  · exact forall₂_flatMap (fun hmk => alike_opened isBlock hmk.below) hcases
  · simp [identityAttributes, hdefault]

theorem alike_tryPlan (h : c.Alike (Agree f g) d) :
    Plan.Alike (Agree f g) (tryPlan f c) (tryPlan g d) := by
  have hbody := rel_toList (alike_inField? h.below "body")
  have hhandler := alike_belowOf (alike_inField? h.below "handler")
  have hfinalizer := alike_belowOf (alike_inField? h.below "finalizer")
  refine Plan.alike_tree ?_ (by simp [identityAttributes])
  exact List.rel_append (List.rel_append (alike_opened isBlock hbody)
    (alike_opened isBlock hhandler)) (alike_opened isBlock hfinalizer)

theorem alike_returnPlan (h : c.Alike (Agree f g) d) :
    Plan.Alike (Agree f g) (returnPlan f c) (returnPlan g d) :=
  Plan.alike_tree (alike_meaningful h.below) (by simp [identityAttributes])

theorem alike_statementPlan (h : c.Alike (Agree f g) d) (kind : String) :
    Plan.Alike (Agree f g) (statementPlan f c kind) (statementPlan g d kind) :=
  Plan.alike_tree (alike_meaningful h.below) (by simp)

theorem alike_blockPlan (h : c.Alike (Agree f g) d) :
    Plan.Alike (Agree f g) (blockPlan f c) (blockPlan g d) :=
  Plan.alike_tree h.below (by simp [identityAttributes])

theorem alike_staticBlockPlan (h : c.Alike (Agree f g) d) :
    Plan.Alike (Agree f g) (staticBlockPlan f c) (staticBlockPlan g d) :=
  Plan.alike_tree (alike_opened isBlock h.below) (by simp [identityAttributes])

theorem alike_importPlan (h : c.Alike (Agree f g) d) :
    Plan.Alike (Agree f g) (importPlan f c) (importPlan g d) := by
  have hclause := alike_ofKind? (alike_namedOnes h.below) "import_clause"
  unfold importPlan
  generalize ofKind? (namedOnes c.below) "import_clause" = clause? at *
  generalize ofKind? (namedOnes d.below) "import_clause" = other? at *
  cases hclause with
  | none => exact Plan.alike_leaf (by simp [identityAttributes])
  | some hmk =>
    -- What is imported goes by which parts the clause has, and these are in the same places.
    have hparts := forall₂_reverse (alike_namedOnes hmk.below)
    have hnamed := rel_isSome (alike_ofKind? hparts "named_imports")
    have hall := rel_isSome (alike_ofKind? hparts "namespace_import")
    refine Plan.alike_leaf ?_
    simp [identityAttributes, hnamed, hall]

theorem alike_markExported {ts us : List Tree} (h : ts.map Tree.bare = us.map Tree.bare) :
    (markExported f c ts).map Tree.bare = (markExported g d us).map Tree.bare := by
  have hbare : ∀ (f : SourceFile) (c : Cursor) (ts : List Tree),
      (markExported f c ts).map Tree.bare = ts.map Tree.bare := by
    intro f c ts
    cases ts with
    | nil => rfl
    | cons t rest =>
      rw [markExported, List.map_cons, Tree.bare_withSpan,
        Tree.bare_withAttribute (by decide), List.map_cons]
  rw [hbare, hbare, h]

theorem alike_exportPlan (h : c.Alike (Agree f g) d) :
    Plan.Alike (Agree f g) (exportPlan f c) (exportPlan g d) := by
  have hdeclaration := alike_inField? h.below "declaration"
  have hvalue := alike_inField? h.below "value"
  have hsource := alike_inField? h.below "source"
  unfold exportPlan child?
  generalize inField? c.below "declaration" = declaration? at *
  generalize inField? d.below "declaration" = declaration'? at *
  generalize inField? c.below "value" = value? at *
  generalize inField? d.below "value" = value'? at *
  generalize inField? c.below "source" = source? at *
  generalize inField? d.below "source" = source'? at *
  cases hdeclaration with
  | some hmk => exact ⟨.cons hmk .nil, fun _ _ => alike_markExported⟩
  | none =>
    cases hvalue with
    | some hmk =>
      dsimp only
      rw [hmk.kind]
      split
      · exact ⟨.cons hmk .nil, fun _ _ => alike_markExported⟩
      · exact Plan.alike_tree (.cons hmk .nil) (by simp [identityAttributes])
    | none =>
      cases hsource with
      | some hmk => exact Plan.alike_leaf (by simp [identityAttributes])
      | none => exact Plan.alike_leaf (by simp)

theorem alike_expressionPlan (h : c.Alike (Agree f g) d) :
    Plan.Alike (Agree f g) (expressionPlan f c) (expressionPlan g d) := by
  have hparts := alike_meaningful h.below
  unfold expressionPlan
  generalize meaningful c.below = parts at *
  generalize meaningful d.below = others at *
  cases hparts with
  | nil => exact Plan.alike_splice .nil
  | cons hmk hrest =>
    dsimp only
    rw [hmk.kind]
    split
    · exact Plan.alike_tree hmk.below (by simp [identityAttributes])
    · exact Plan.alike_tree (.cons hmk hrest) (by simp)

theorem alike_callPlan (h : c.Alike (Agree f g) d) :
    Plan.Alike (Agree f g) (callPlan f c) (callPlan g d) := by
  unfold callPlan
  extract_lets target arguments isImport callee count target' arguments' isImport' callee' count'
  have htarget : Option.Rel (Inside.Alike (Agree f g)) target target' :=
    rel_or (alike_inField? h.below "function") (alike_inField? h.below "constructor")
  have harguments : Option.Rel (Inside.Alike (Agree f g)) arguments arguments' :=
    alike_inField? h.below "arguments"
  have hlast := rel_toList harguments
  have hinner := List.rel_append (rel_toList htarget) hlast
  have hcount : count = count' := by
    clear_value arguments arguments'
    cases harguments with
    | none => rfl
    | @some m k hmk =>
      show (if m.kind == "arguments" then (meaningful m.below).length else 1)
        = if k.kind == "arguments" then (meaningful k.below).length else 1
      rw [hmk.kind, (alike_meaningful hmk.below).length_eq]
  have hisImport : isImport = isImport' := by
    clear_value target target'
    cases htarget with
    | none => rfl
    | @some m k hmk =>
      show (m.kind == "import") = (k.kind == "import")
      rw [hmk.kind]
  rw [hisImport]
  split
  · exact Plan.alike_tree hlast (by simp [identityAttributes])
  · exact Plan.alike_tree hinner (by simp [identityAttributes, hcount])

/-- Nodes that are alike have plans that are alike. -/
theorem alike_plan? (h : c.Alike (Agree f g) d) :
    Option.Rel (Plan.AlikeOutcome (Agree f g)) (plan? f typed c) (plan? g typed d) := by
  obtain ⟨kind, hc⟩ : ∃ kind, c.kind = kind := ⟨_, rfl⟩
  have hd : d.kind = kind := h.kind.symm.trans hc
  unfold plan?
  rw [hc, hd]
  cases functionKinds.get? kind with
  | some what => exact (alike_functionPlan h what).outcome
  | none =>
  cases loopKinds.get? kind with
  | some what => exact (alike_loopPlan h what).outcome
  | none =>
  cases statementKinds.get? kind with
  | some what => exact (alike_statementPlan h what).outcome
  | none =>
  dsimp only
  by_cases hclass : isClass kind = true
  · rw [if_pos hclass, if_pos hclass]
    exact (alike_classPlan h).outcome
  rw [if_neg hclass, if_neg hclass]
  split
  · exact alike_interfacePlan.outcome
  · exact alike_enumPlan.outcome
  · exact .some (alike_variablePlan h (.inl hc))
  · exact .some (alike_variablePlan h (.inr hc))
  · exact (alike_fieldPlan h).outcome
  · exact (alike_fieldPlan h).outcome
  · exact (alike_conditionalPlan h).outcome
  · exact (Plan.alike_splice (alike_opened isBlock h.below)).outcome
  · exact (alike_switchPlan h).outcome
  · exact (alike_tryPlan h).outcome
  · exact (alike_returnPlan h).outcome
  · exact (alike_importPlan h).outcome
  · exact (alike_exportPlan h).outcome
  · exact (alike_expressionPlan h).outcome
  · exact (alike_callPlan h).outcome
  · exact (alike_callPlan h).outcome
  · exact (alike_blockPlan h).outcome
  · exact (alike_staticBlockPlan h).outcome
  · exact .none

end Ecma

namespace Rust

/-- Whether the arm of a `match` takes everything. -/
def readsWildcard (f : SourceFile) (n : Node) : Bool :=
  Text.strip (f.fieldText n "pattern") == "_"

/-- What of two source texts has to agree at two nodes in the same place. -/
structure Agree (f g : SourceFile) (n m : Node) : Prop where
  wildcard : n.kind = "match_arm" → readsWildcard f n = readsWildcard g m

variable {f g : SourceFile} {c d : Cursor}

/-- The texts of other nodes need not agree. -/
theorem agree_of_kind {n m : Node} (harm : n.kind ≠ "match_arm") : Agree f g n m :=
  ⟨fun h => absurd h harm⟩

theorem alike_functionPlan (h : c.Alike (Agree f g) d) :
    Plan.Alike (Agree f g) (functionPlan f c) (functionPlan g d) := by
  have hmodifiers := alike_belowOf (alike_ofKind? h.below "function_modifiers")
  have hvisible := rel_isSome (alike_ofKind? h.below "visibility_modifier")
  unfold functionPlan
  extract_lets modifiers params body attributes modifiers' params' body' attributes'
  have hparams : List.Forall₂ (Inside.Alike (Agree f g)) params params' :=
    forall₂_filter (fun hmk => by rw [hmk.kind])
      (alike_meaningful (alike_belowOf (alike_inField? h.below "parameters")))
  have hbody : Option.Rel (Inside.Alike (Agree f g)) body body' := alike_inField? h.below "body"
  have hasync : hasToken (belowOf modifiers) "async" = hasToken (belowOf modifiers') "async" :=
    hasToken_of_alike hmodifiers "async"
  have hnotes : SameNotes attributes attributes' := by
    refine SameNotes.append ?_ ?_
    · simp [identityAttributes, hparams.length_eq, hasync, rel_eq_none_iff hbody]
    · rw [hvisible]
      exact sameNotes_refl _
  clear_value body body' attributes attributes'
  cases hbody with
  | none => exact Plan.alike_leaf hnotes
  | some hmk => exact Plan.alike_tree hmk.below (hnotes.append (by simp [identityAttributes]))

theorem alike_closurePlan (h : c.Alike (Agree f g) d) :
    Plan.Alike (Agree f g) (closurePlan f c) (closurePlan g d) := by
  have hparams := alike_meaningful (alike_belowOf (alike_inField? h.below "parameters"))
  have hasync := hasToken_of_alike h.below "async"
  unfold closurePlan
  extract_lets body attributes expression body' attributes'
  have hbody : Option.Rel (Inside.Alike (Agree f g)) body body' := alike_inField? h.below "body"
  have hnotes : SameNotes attributes attributes' := by
    simp [attributes, attributes', identityAttributes, hparams.length_eq, hasync]
  have hexpression : SameNotes expression expression := sameNotes_refl _
  clear_value body body' attributes attributes' expression
  cases hbody with
  | none => exact Plan.alike_leaf (hnotes.append hexpression)
  | some hmk =>
    dsimp only
    rw [hmk.kind]
    split
    · exact Plan.alike_tree hmk.below (hnotes.append (by simp [identityAttributes]))
    · exact Plan.alike_nested (.cons hmk .nil) (hnotes.append hexpression)
        (by simp [identityAttributes])

theorem alike_classPlan (h : c.Alike (Agree f g) d) (kind : String) :
    Plan.Alike (Agree f g) (classPlan f c kind) (classPlan g d kind) := by
  have hkind := h.kind
  unfold classPlan
  extract_lets body members braced body' members' braced'
  have hbody : Option.Rel (Inside.Alike (Agree f g)) body body' := alike_inField? h.below "body"
  have hbraced : braced = braced' := by
    clear_value body body'
    cases hbody with
    | none => rfl
    | some hmk =>
      simp only [braced, braced']
      rw [hmk.kind]
  rw [hkind, hbraced]
  refine Plan.alike_tree ?_ (SameNotes.append (by simp [identityAttributes]) ?_)
  · split
    · exact alike_belowOf hbody
    · exact .nil
  · split
    · simp [identityAttributes]
    · exact sameNotes_nil

theorem alike_implPlan (h : c.Alike (Agree f g) d) :
    Plan.Alike (Agree f g) (implPlan f c) (implPlan g d) := by
  have himplemented := rel_isSome (alike_inField? h.below "trait")
  unfold implPlan
  extract_lets implemented body implemented' body'
  have hbody : Option.Rel (Inside.Alike (Agree f g)) body body' := alike_inField? h.below "body"
  have hsome : implemented.isSome = implemented'.isSome := himplemented
  rw [hsome]
  refine Plan.alike_tree (alike_belowOf hbody) (SameNotes.append ?_ ?_)
  · simp [identityAttributes]
  · split
    · simp [identityAttributes]
    · exact sameNotes_nil

theorem alike_modulePlan (h : c.Alike (Agree f g) d) :
    Plan.Alike (Agree f g) (modulePlan f c) (modulePlan g d) := by
  unfold modulePlan
  extract_lets name body name' body'
  have hbody : Option.Rel (Inside.Alike (Agree f g)) body body' := alike_inField? h.below "body"
  clear_value body body'
  cases hbody with
  | none => exact Plan.alike_leaf (by simp [identityAttributes])
  | some hmk => exact Plan.alike_tree hmk.below (by simp [identityAttributes])

theorem alike_usePlan (h : c.Alike (Agree f g) d) :
    Plan.Alike (Agree f g) (usePlan f c) (usePlan g d) := by
  have hargument := alike_inField? h.below "argument"
  unfold usePlan child?
  generalize inField? c.below "argument" = argument? at *
  generalize inField? d.below "argument" = other? at *
  cases hargument with
  | none => exact Plan.alike_leaf (by simp [identityAttributes])
  | some hmk =>
    -- What is used goes by the kind of the argument alone.
    dsimp only
    rw [hmk.kind]
    split
    all_goals exact Plan.alike_leaf (by simp [identityAttributes])

theorem alike_letPlan (h : c.Alike (Agree f g) d) :
    Plan.Alike (Agree f g) (letPlan f c) (letPlan g d) := by
  have hmutable := rel_isSome (alike_ofKind? h.below "mutable_specifier")
  have hvalue := alike_inField? h.below "value"
  have halternative := alike_inField? h.below "alternative"
  unfold letPlan
  refine Plan.alike_tree (List.rel_append (rel_toList hvalue)
    (alike_opened isBlock (rel_toList halternative))) (SameNotes.append ?_ ?_)
  · simp [identityAttributes, hmutable]
  · rw [rel_isSome halternative]
    exact sameNotes_refl _

theorem alike_itemPlan (h : c.Alike (Agree f g) d) :
    Plan.Alike (Agree f g) (itemPlan f c) (itemPlan g d) := by
  have hmutable := rel_isSome (alike_ofKind? h.below "mutable_specifier")
  refine Plan.alike_tree (rel_toList (alike_inField? h.below "value")) ?_
  simp [identityAttributes, hmutable, h.kind]

theorem alike_conditionalPlan (h : c.Alike (Agree f g) d) :
    Plan.Alike (Agree f g) (conditionalPlan f c) (conditionalPlan g d) := by
  have hconsequence := rel_isSome (alike_inField? h.below "consequence")
  refine Plan.alike_tree (alike_opened isBlock h.below) (SameNotes.append ?_ ?_)
  · simp [rel_isSome (alike_inField? h.below "alternative")]
  · rw [hconsequence]
    split
    · simp [identityAttributes]
    · exact sameNotes_nil

theorem catchesAll_of_alike {m : Inside c.height} {k : Inside d.height}
    (h : m.Alike (Agree f g) k) (harm : m.kind = "match_arm") :
    (Text.strip (f.textOf (inField? m.below "pattern")) == "_")
      = (Text.strip (g.textOf (inField? k.below "pattern")) == "_") := by
  rw [textOf_inField? f (map_node_inside_below m), textOf_inField? g (map_node_inside_below k)]
  exact (Node.Alike.agree h).wildcard harm

theorem alike_matchPlan (h : c.Alike (Agree f g) d) :
    Plan.Alike (Agree f g) (matchPlan f c) (matchPlan g d) := by
  have hvalue := rel_toList (alike_inField? h.below "value")
  unfold matchPlan
  extract_lets body arms catchesAll body' arms' catchesAll'
  have hbody : Option.Rel (Inside.Alike (Agree f g)) body body' := alike_inField? h.below "body"
  have harms : List.Forall₂ (fun m k => Inside.Alike (Agree f g) m k ∧ (m.kind == "match_arm"))
      arms arms' :=
    forall₂_filter_and (fun hmk => by rw [hmk.kind]) (alike_meaningful (alike_belowOf hbody))
  have hall : arms.any catchesAll = arms'.any catchesAll' :=
    forall₂_any (fun harm => catchesAll_of_alike harm.1 (eq_of_beq harm.2)) harms
  refine Plan.alike_tree (List.rel_append hvalue ?_) ?_
  · exact forall₂_flatMap (fun harm => alike_opened isBlock harm.1.below) harms
  · simp [identityAttributes, hall]

theorem alike_loopPlan (h : c.Alike (Agree f g) d) (kind : String) :
    Plan.Alike (Agree f g) (loopPlan f c kind) (loopPlan g d kind) := by
  have hkind := h.kind
  have hcondition := alike_inField? h.below "condition"
  unfold loopPlan child?
  generalize inField? c.below "condition" = condition? at *
  generalize inField? d.below "condition" = other? at *
  refine Plan.alike_tree (alike_opened isBlock h.below) ?_
  cases hcondition with
  | none => simp [identityAttributes, hkind]
  | some hmk => simp [identityAttributes, hkind, hmk.kind]

theorem alike_returnPlan (h : c.Alike (Agree f g) d) :
    Plan.Alike (Agree f g) (returnPlan f c) (returnPlan g d) :=
  Plan.alike_tree (alike_meaningful h.below) (by simp [identityAttributes])

theorem alike_statementPlan (h : c.Alike (Agree f g) d) (kind : String) :
    Plan.Alike (Agree f g) (statementPlan f c kind) (statementPlan g d kind) := by
  refine Plan.alike_tree ?_ (by simp)
  rw [h.kind]
  split
  · exact .nil
  · exact alike_meaningful h.below

theorem alike_blockPlan (h : c.Alike (Agree f g) d) :
    Plan.Alike (Agree f g) (blockPlan f c) (blockPlan g d) :=
  Plan.alike_tree h.below (by simp [identityAttributes])

theorem alike_markedBlockPlan (h : c.Alike (Agree f g) d) (kind : String) :
    Plan.Alike (Agree f g) (markedBlockPlan f c kind) (markedBlockPlan g d kind) :=
  Plan.alike_tree (alike_opened isBlock h.below) (by simp [identityAttributes])

theorem alike_expressionPlan (h : c.Alike (Agree f g) d) :
    Plan.Alike (Agree f g) (expressionPlan f c) (expressionPlan g d) := by
  have hparts := alike_meaningful h.below
  unfold expressionPlan
  generalize meaningful c.below = parts at *
  generalize meaningful d.below = others at *
  cases hparts with
  | nil => exact Plan.alike_splice .nil
  | cons hmk _ =>
    dsimp only
    rw [hmk.kind]
    split
    · exact Plan.alike_splice (.cons hmk .nil)
    split
    · exact Plan.alike_tree hmk.below (by simp [identityAttributes])
    · exact Plan.alike_tree (.cons hmk .nil) (by simp)

theorem alike_callPlan (h : c.Alike (Agree f g) d) :
    Plan.Alike (Agree f g) (callPlan f c) (callPlan g d) := by
  have harguments := alike_inField? h.below "arguments"
  have hcount := (alike_meaningful (alike_belowOf harguments)).length_eq
  refine Plan.alike_tree (List.rel_append (rel_toList (alike_inField? h.below "function"))
    (rel_toList harguments)) ?_
  simp [identityAttributes, hcount]

/-- The arguments of a macro are counted by the commas between them. -/
theorem macroArguments_of_alike {bound height : Nat} {tokens? : Option (Inside bound)}
    {other? : Option (Inside height)} (h : Option.Rel (Inside.Alike (Agree f g)) tokens? other?) :
    macroArguments tokens? = macroArguments other? := by
  have hinner := forall₂_dropLast (forall₂_tail (alike_belowOf h))
  have hlast := forall₂_getLast? hinner
  have hcommas := forall₂_countP (p := fun m => m.kind == ",") (q := fun m => m.kind == ",")
    (fun hmk => by rw [hmk.kind]) hinner
  unfold macroArguments
  dsimp only
  rw [hcommas]
  generalize (belowOf tokens?).tail.dropLast.getLast? = last? at *
  generalize (belowOf other?).tail.dropLast.getLast? = otherLast? at *
  cases hlast with
  | none => rfl
  | some hmk =>
    dsimp only
    rw [hmk.kind]

theorem alike_macroPlan (h : c.Alike (Agree f g) d) :
    Plan.Alike (Agree f g) (macroPlan f c) (macroPlan g d) := by
  have hcount := macroArguments_of_alike (alike_ofKind? h.below "token_tree")
  exact Plan.alike_leaf (by simp [identityAttributes, hcount])

/-- Nodes that are alike have plans that are alike. -/
theorem alike_plan? (h : c.Alike (Agree f g) d) :
    Option.Rel (Plan.Alike (Agree f g)) (plan? f c) (plan? g d) := by
  obtain ⟨kind, hc⟩ : ∃ kind, c.kind = kind := ⟨_, rfl⟩
  have hd : d.kind = kind := h.kind.symm.trans hc
  unfold plan?
  rw [hc, hd]
  cases classKinds.get? kind with
  | some what => exact .some (alike_classPlan h what)
  | none =>
  cases loopKinds.get? kind with
  | some what => exact .some (alike_loopPlan h what)
  | none =>
  cases statementKinds.get? kind with
  | some what => exact .some (alike_statementPlan h what)
  | none =>
  dsimp only
  split
  · exact .some (alike_blockPlan h)
  · exact .some (alike_markedBlockPlan h _)
  · exact .some (alike_markedBlockPlan h _)
  · exact .some (alike_functionPlan h)
  · exact .some (alike_functionPlan h)
  · exact .some (alike_closurePlan h)
  · exact .some (alike_implPlan h)
  · exact .some (alike_modulePlan h)
  · exact .some (alike_usePlan h)
  · exact .some (alike_letPlan h)
  · exact .some (alike_itemPlan h)
  · exact .some (alike_itemPlan h)
  · exact .some (alike_conditionalPlan h)
  · exact .some (alike_conditionalPlan h)
  · exact .some (Plan.alike_splice (alike_opened isBlock h.below))
  · exact .some (alike_matchPlan h)
  · exact .some (alike_callPlan h)
  · exact .some (alike_macroPlan h)
  · exact .some (alike_returnPlan h)
  · exact .some (alike_expressionPlan h)
  · exact .none

end Rust

end CodeHabits.Concrete
