import CodeHabits.Proofs.Python.Constructs
import CodeHabits.Proofs.Python.Recovery

/-!
# `CodeHabits.Proofs.Python.Kinds`: functions, methods and constructors

Lowering counts the classes around a statement, up to the nearest function, and takes a
function for a method while the count is not zero. The count is put back behind every
statement (`restores_statement`), so it is a property of where a statement is: it is not
zero exactly if the nearest definition around is a class (`depthInside_ne_zero`). Blocks of
other kinds leave both as they are.

`kinds_by_nearest_definition` says it of the functions of a source. Lambdas have no name and
no part in this.
-/

set_option autoImplicit false

namespace CodeHabits.Python

variable {read : String → Reading} {source file language : String}

/-- Whether a statement is the definition of a function or a class. -/
def Stmt.isDefinition : Stmt → Bool
  | .function _ _ _ | .classDef _ _ _ => true
  | _ => false

/-- Whether the nearest of the definitions around a statement is a class. -/
def nearestIsClass (around : List Stmt) : Bool :=
  match around.find? Stmt.isDefinition with
  | some (.classDef _ _ _) => true
  | _ => false

/-- What a function is called with such statements around it. -/
def kindAmong (around : List Stmt) (name : String) : String :=
  if nearestIsClass around then if name = "__init__" then "constructor" else "method"
  else "function"

section

variable (file : String)

/-- Where the function is that a statement defines, its name and its kind. -/
def definedFunction? : List Stmt × Stmt → Option (Span × String × String)
  | (around, .function p head _) => some (p.span file, head.name, kindAmong around head.name)
  | _ => none

/-- Where the function is that a node stands for, its name and its kind, unless it is a
lambda. -/
def namedFunction? (t : Tree) : Option (Span × String × String) :=
  match t.tag, t.attribute? "name", t.attribute? "kind" with
  | .functionDef, some (.text name), some (.text kind) =>
    if kind = "lambda" then none else some (t.span, name, kind)
  | _, _, _ => none

/-- The functions in a tree that have a name. -/
def functionsNamed (t : Tree) : List (Span × String × String) :=
  t.nodes.filterMap namedFunction?

/-- The count of classes is not zero exactly if the nearest definition is a class, inside of a
statement as around it. -/
theorem depthInside_ne_zero {around : List Stmt} {depth : Nat}
    (h : (depth != 0) = nearestIsClass around) (t : Stmt) :
    (t.depthInside depth != 0) = nearestIsClass (t :: around) := by
  cases t with
  | function p head body => rfl
  | classDef p head body => exact bne_iff_ne.2 (Nat.succ_ne_zero depth)
  | _ => exact h

theorem namedFunction?_of_tag_ne {t : Tree} (h : t.tag ≠ .functionDef) :
    namedFunction? t = none := by
  unfold namedFunction?
  split
  · contradiction
  · rfl

theorem kindAmong_ne_lambda (around : List Stmt) (name : String) :
    kindAmong around name ≠ "lambda" := by
  unfold kindAmong
  split
  · split <;> decide
  · decide

theorem kind_attributes (head : FunctionHead) (around : List Stmt) :
    Table.get? (head.attributes (nearestIsClass around)) "kind"
      = some (.text (kindAmong around head.name)) := by
  rw [kindAmong]
  cases nearestIsClass around with
  | false => rfl
  | true => simp [FunctionHead.attributes, Table.get?]

theorem namedFunction?_treeOf {around : List Stmt} {depth : Nat}
    (h : (depth != 0) = nearestIsClass around) (t : Stmt) :
    namedFunction? (treeOf file depth t) = definedFunction? file (around, t) := by
  have hother (hne : t.tag ≠ .functionDef) : namedFunction? (treeOf file depth t) = none :=
    namedFunction?_of_tag_ne (by rwa [tag_treeOf])
  cases t with
  | function p head body =>
    have hkind : (treeOf file depth (.function p head body)).attribute? "kind"
        = some (.text (kindAmong around head.name)) := by
      rw [treeOf_function, h]
      exact kind_attributes head around
    have hname : (treeOf file depth (.function p head body)).attribute? "name"
        = some (.text head.name) := by
      rw [treeOf_function]
      rfl
    rw [namedFunction?, tag_treeOf, span_treeOf, hname, hkind]
    exact if_neg (kindAmong_ne_lambda around head.name)
  | assign p annotated targets value? =>
    refine hother ?_
    rw [Stmt.tag]
    split <;> simp
  | _ => exact hother (by simp [Stmt.tag])

/-- In expressions only lambdas give nodes for functions. -/
theorem namedFunction?_of_mem_nodesOf {e : Expr} {t : Tree} (h : t ∈ nodesOf file e) :
    namedFunction? t = none := by
  induction e using Expr.induction with
  | step e ih =>
    obtain ⟨own, hown⟩ := exists_adds file e
    rcases List.mem_append.1 (hown.nodes.mem_iff.1 h) with h | h
    · by_cases htag : t.tag = .functionDef
      · have hconstruct := (hown.known t h).resolve_left (by simp [htag])
        have hlambda : Metrics.isKind t "lambda" = true := by
          simpa [nodeConstruct?, htag] using hconstruct
        unfold namedFunction?
        split
        · rename_i hkind
          simpa [Metrics.isKind, hkind] using hlambda
        · rfl
      · exact namedFunction?_of_tag_ne htag
    · obtain ⟨x, hx, h⟩ := List.mem_flatMap.1 h
      exact ih x (Expr.mem_parts_of_mem_followed hx) h

theorem functionsNamed_eq (t : Tree) :
    functionsNamed t = (namedFunction? t).toList ++ t.children.flatMap functionsNamed := by
  rw [functionsNamed, Tree.nodes_eq, ← List.singleton_append, List.filterMap_append,
    Tree.nodesBelow, List.filterMap_flatMap]
  rfl

theorem functionsNamed_expressions (es : List Expr) :
    (es.flatMap (expression file)).flatMap functionsNamed = [] := by
  rw [List.flatMap_eq_nil_iff]
  intro t ht
  obtain ⟨e, -, ht⟩ := List.mem_flatMap.1 ht
  rw [functionsNamed, List.filterMap_eq_nil_iff]
  intro node hnode
  exact namedFunction?_of_mem_nodesOf file (List.mem_flatMap.2 ⟨t, ht, hnode⟩)

/-- A docstring defines no function, so leaving it out leaves no function out. -/
theorem functionsNamed_docstring (depth : Nat) (t : Stmt) (h : t.isDocstring = true) :
    functionsNamed (treeOf file depth t) = [] := by
  cases t with
  | expression p value =>
    have htag : (treeOf file depth (.expression p value)).tag ≠ .functionDef := by
      rw [tag_treeOf, Stmt.tag]
      decide
    rw [functionsNamed_eq, namedFunction?_of_tag_ne htag, children_treeOf, List.flatMap_append,
      functionsNamed_expressions]
    rfl
  | _ => cases h

/-- Step and run in one: a statement adds the function that it defines itself, and the count
is right inside of it if it is right around it. -/
theorem functionsNamed_treeOf {around : List Stmt} {depth : Nat}
    (h : (depth != 0) = nearestIsClass around) (t : Stmt) :
    functionsNamed (treeOf file depth t)
      = (t.within around).filterMap (definedFunction? file) := by
  induction t using Stmt.induction generalizing around depth with
  | step t ih =>
    -- The count inside fits the statements around with this one in front, in any body.
    have hbody : ∀ body ∈ t.bodies,
        (treesOf file (t.depthInside depth) body).flatMap functionsNamed
          = body.flatMap fun u => (u.within (t :: around)).filterMap (definedFunction? file) := by
      intro body hbody
      rw [treesOf_eq, flatMap_withoutDocstring (functionsNamed_docstring file _)]
      exact List.flatMap_congr fun u hu =>
        ih u (List.mem_flatten.2 ⟨body, hbody, hu⟩) (depthInside_ne_zero h t)
    have hchildren : (treeOf file depth t).children.flatMap functionsNamed
        = t.inside.flatMap fun u => (u.within (t :: around)).filterMap (definedFunction? file) := by
      rw [children_treeOf, List.flatMap_append, functionsNamed_expressions, List.nil_append,
        List.flatMap_assoc, List.flatMap_congr hbody, Stmt.inside, ← List.flatMap_id,
        List.flatMap_assoc]
      rfl
    rw [functionsNamed_eq, hchildren, namedFunction?_treeOf file h, Stmt.within_eq]
    show _ = ([(around, t)] ++ t.inside.flatMap (Stmt.within (t :: around))).filterMap _
    rw [List.filterMap_append, List.filterMap_flatMap]
    rfl

end

/-- A function whose nearest definition around is a class is a constructor if it is called
`__init__` and a method if it is not, whatever other blocks lie in between, and any other
function is a function. The count of classes, by which this is found out, is the same behind
a statement as in front of it, so that no statement changes how those behind it are lowered. -/
theorem kinds_by_nearest_definition {budget : Budget} {parsed : Parsed} {looks : Nat}
    (h : (build read source file language).outcome budget = (.ok parsed, looks)) :
    parsed.tree.walk.filterMap namedFunction?
        = ((statementsRead read source).flatMap (Stmt.within [])).filterMap
          (definedFunction? file) ∧
      (∀ depth t, ((statement file t).run depth).2 = depth) ∧
      ∀ depth body,
        (statements file body).run depth
            = (body.map fun t => ((statement file t).run depth).1, depth) ∧
          (block file body).run depth
            = ((withoutDocstring body).map fun t => ((statement file t).run depth).1, depth) := by
  refine ⟨?_, fun depth t => restores_statement file t depth, fun depth body =>
    ⟨run_statements file depth body, by rw [run_block, treesOf_eq]; rfl⟩⟩
  have htree : namedFunction? parsed.tree = none := by
    rw [tree_of_build h]
    rfl
  rw [Tree.walk_eq_nodes, ← functionsNamed, functionsNamed_eq, htree,
    flatMap_children_of_build h (fun _ _ => rfl) (functionsNamed_docstring file 0),
    List.filterMap_flatMap]
  exact List.flatMap_congr fun t _ => functionsNamed_treeOf file rfl t

/-- A class with a condition in it, the condition with two functions and the first of these
with one more. -/
def shapeBody : List Stmt :=
  let head (name : String) : FunctionHead := ⟨name, false, 1, 0, false, 0⟩
  [.classDef ⟨1, 0, 6, 12⟩ ⟨"Shape", 0, 0⟩
    [.conditional ⟨2, 4, 6, 12⟩ (.name ⟨2, 7, 2, 11⟩ "wide")
      [.function ⟨3, 8, 4, 30⟩ (head "__init__")
        [.function ⟨4, 12, 4, 30⟩ (head "inner") []],
       .function ⟨5, 8, 6, 12⟩ (head "area") []]
      []]]

/-- What reading any text answers. -/
def shapeReading (_ : String) : Reading :=
  .statements shapeBody

/-- The condition changes nothing, the function does. -/
theorem kinds_by_nearest_definition_of_shape :
    ∃ parsed looks,
      (build shapeReading "" "a.py" "python").outcome .unlimited = (.ok parsed, looks) ∧
        parsed.tree.walk.filterMap namedFunction?
          = [(⟨"a.py", 3, 8, 4, 30⟩, "__init__", "constructor"),
             (⟨"a.py", 4, 12, 4, 30⟩, "inner", "function"),
             (⟨"a.py", 5, 8, 6, 12⟩, "area", "method")] := by
  have hread : shapeReading "" = .statements shapeBody := rfl
  obtain ⟨parsed, looks, h⟩ := exists_build_of_statements "a.py" "python" hread
  refine ⟨parsed, looks, h, ?_⟩
  rw [(kinds_by_nearest_definition h).1]
  cbv

end CodeHabits.Python
