import CodeHabits.Proofs.Metrics.Ownership
import CodeHabits.Proofs.Tree.Heights
import Mathlib.Algebra.BigOperators.Group.List.Basic
import Mathlib.Algebra.Order.Group.Unbundled.Int

/-!
# `CodeHabits.Proofs.Metrics.Complexity`: every branch is charged once

The complexity of an owner is one more than the number of branches that it owns, and that of
a module is one more than the number of all branches in it. Every node has one owner
(`perm_walk`), so the two fit together: the complexity of the module is that of its root as
an owner, and for each function what the complexity of the function is above one
(`branches_charged_once`).

A search for patterns measures functions as well. It meets them in the same order, so its
candidates for functions have the measurements of the functions, as far as it gets
(`functionMetrics_of_mapM`).

All of this is about trees in which the numbers of cases and arms are whole. Nothing is
asked of other facts: if a name keeps the search from completing, the candidates in front of
it are meant.
-/

set_option autoImplicit false

namespace CodeHabits

namespace Metrics

open Tree

/-- The numbers of cases and arms that the nodes of a tree note are whole. -/
def WholeCounts (t : Tree) : Prop :=
  ∀ node ∈ t.walk, ∀ name, name = "case_count" ∨ name = "arm_count" →
    ∀ value ∈ node.attribute? name, ∃ n, value.number? = some (.int n)

/-- The number of branches that a node adds. -/
def branches (t : Tree) : Int :=
  match decisionPoints t with
  | .ok (.int n) => n
  | _ => 0

/-- The number of branches that several nodes add. -/
def branchesOf (ts : List Tree) : Int :=
  (ts.map branches).sum

/-- One more than the number of branches that belong to an owner. -/
def wholeComplexity (owner : Tree) : Int :=
  1 + branchesOf ((scope owner).map Prod.fst)

/-- What is measured of a function. -/
def measured (f : Tree) : FunctionMetrics :=
  ⟨(f.attribute? "name").getD .null, f.span.startLine, .int (wholeComplexity f), nestingDepth f⟩

theorem branchesOf_append (ts us : List Tree) :
    branchesOf (ts ++ us) = branchesOf ts + branchesOf us := by
  rw [branchesOf, List.map_append, List.sum_append, branchesOf, branchesOf]

theorem branchesOf_cons (t : Tree) (ts : List Tree) :
    branchesOf (t :: ts) = branches t + branchesOf ts := by
  rw [branchesOf, List.map_cons, List.sum_cons, branchesOf]

/-! ### Counting the branches -/

section

variable {t node owner : Tree}

theorem decisionPoints_eq (h : WholeCounts t) (hnode : node ∈ t.walk) :
    decisionPoints node = .ok (.int (branches node)) := by
  have hcount : ∀ name, name = "case_count" ∨ name = "arm_count" →
      ∃ n, branchCount node name = .ok (.int n) := by
    intro name hname
    unfold branchCount
    cases hget : node.attribute? name with
    | none => exact ⟨0, rfl⟩
    | some value =>
      obtain ⟨n, hn⟩ := h node hnode name hname value hget
      refine ⟨n, ?_⟩
      rw [Option.getD_some, Value.toNumber, hn]
  obtain ⟨_, hpoints, n, rfl⟩ := exists_decisionPoints_of_counts hcount
  rw [branches, hpoints]

/-- What is below a node of a tree is in the tree. -/
theorem mem_walk_trans (hnode : node ∈ t.walk) : ∀ inner ∈ node.walk, inner ∈ t.walk := by
  have hroot : ∀ root ∈ [t], ∀ inner ∈ root.walk, inner ∈ t.walk := by simp
  refine forall_mem_walkFrom (P := fun node => ∀ inner ∈ node.walk, inner ∈ t.walk)
    ?_ hroot node hnode
  intro outer houter child hchild inner hinner
  rw [walk_eq_nodes] at hinner
  refine houter inner ?_
  rw [walk_eq_nodes, nodes_eq]
  exact List.mem_cons_of_mem _ (List.mem_flatMap.2 ⟨child, hchild, hinner⟩)

/-- The nodes that belong to an owner are below it. -/
theorem mem_walk_of_mem_scope (hnode : node ∈ (scope owner).map Prod.fst) : node ∈ owner.walk :=
  (perm_walk owner).mem_iff.2 (List.mem_append_left _ (List.mem_cons_of_mem _ hnode))

theorem foldlM_decisions {entries : List (Tree × Nat)}
    (h : ∀ entry ∈ entries, decisionPoints entry.1 = .ok (.int (branches entry.1))) (sum : Int) :
    entries.foldlM (fun sum entry => do Magnitude.add sum (← decisionPoints entry.1))
        (Number.int sum)
      = .ok (.int (sum + branchesOf (entries.map Prod.fst))) := by
  induction entries generalizing sum with
  | nil => simp [branchesOf]
  | cons entry rest ih =>
    obtain ⟨hentry, hrest⟩ := List.forall_mem_cons.1 h
    have hadd : Magnitude.add (Number.int sum) (.int (branches entry.1))
        = .ok (.int (sum + branches entry.1)) := rfl
    rw [List.foldlM_cons, hentry, Except.ok_bind, hadd, Except.ok_bind, ih hrest, List.map_cons,
      branchesOf_cons, Int.add_assoc]

theorem complexity_eq (h : WholeCounts t) (howner : owner ∈ t.walk) :
    complexity owner = .ok (.int (wholeComplexity owner)) := by
  have hentries : ∀ entry ∈ scope owner,
      decisionPoints entry.1 = .ok (.int (branches entry.1)) := by
    intro entry hentry
    have hmem : entry.1 ∈ (scope owner).map Prod.fst := List.mem_map_of_mem hentry
    exact decisionPoints_eq h (mem_walk_trans howner _ (mem_walk_of_mem_scope hmem))
  rw [complexity, foldlM_decisions hentries, Except.ok_bind, Int.zero_add]
  rfl

theorem ofFunction_eq (h : WholeCounts t) (hnode : node ∈ t.walk) :
    ofFunction node = .ok (measured node) := by
  rw [ofFunction, complexity_eq h hnode]
  rfl

/-! ### Walking over all nodes -/

/-- A node adds its branches, and a function adds its measurements. -/
theorem visit_eq (h : WholeCounts t) (hnode : node ∈ t.walk) (sum : Int) (classes : Nat)
    (found : List FunctionMetrics) :
    Survey.visit ⟨.int sum, classes, found⟩ node
      = .ok ⟨.int (sum + branches node), classes + if node.tag = .classDef then 1 else 0,
          found ++ (functionsAmong [node]).map measured⟩ := by
  have hadd : Magnitude.add (Number.int sum) (.int (branches node))
      = .ok (.int (sum + branches node)) := rfl
  unfold Survey.visit
  rw [decisionPoints_eq h hnode, Except.ok_bind, hadd, Except.ok_bind, ofFunction_eq h hnode]
  cases htag : node.tag <;> simp [functionsAmong, htag]

theorem foldlM_visit (h : WholeCounts t) {nodes : List Tree} (hnodes : ∀ node ∈ nodes, node ∈ t.walk)
    (sum : Int) (classes : Nat) (found : List FunctionMetrics) :
    ∃ count, nodes.foldlM Survey.visit ⟨.int sum, classes, found⟩
      = .ok ⟨.int (sum + branchesOf nodes), count,
          found ++ (functionsAmong nodes).map measured⟩ := by
  induction nodes generalizing sum classes found with
  | nil => exact ⟨classes, by simp [branchesOf, functionsAmong]⟩
  | cons node rest ih =>
    obtain ⟨hnode, hrest⟩ := List.forall_mem_cons.1 hnodes
    obtain ⟨count, hcount⟩ := ih hrest (sum + branches node)
      (classes + if node.tag = .classDef then 1 else 0)
      (found ++ (functionsAmong [node]).map measured)
    refine ⟨count, ?_⟩
    rw [List.foldlM_cons, visit_eq h hnode, Except.ok_bind, hcount, branchesOf_cons, Int.add_assoc,
      List.append_assoc, ← List.map_append, ← functionsAmong_append, List.singleton_append]

/-- A function adds no branch itself. -/
theorem branches_of_function (h : node.tag = .functionDef) : branches node = 0 := by
  rw [branches, decisionPoints, h]

theorem branchesOf_owned_functions {fs : List Tree} (h : ∀ f ∈ fs, f.tag = .functionDef) :
    branchesOf (fs.flatMap owned) = (fs.map fun f => wholeComplexity f - 1).sum := by
  induction fs with
  | nil => rfl
  | cons f rest ih =>
    obtain ⟨hf, hrest⟩ := List.forall_mem_cons.1 h
    rw [List.flatMap_cons, branchesOf_append, ih hrest, owned, branchesOf_cons,
      branches_of_function hf, List.map_cons, List.sum_cons, wholeComplexity]
    omega

/-- The branches of a module are those that its root owns and those that each function
owns. -/
theorem branchesOf_walk (hroot : t.tag = .module) :
    1 + branchesOf t.walk
      = wholeComplexity t + (t.functions.map fun f => wholeComplexity f - 1).sum := by
  have hother : t.tag ≠ .functionDef := by
    rw [hroot]
    decide
  have hbranches : branches t = 0 := by
    rw [branches, decisionPoints, hroot]
  have hfunctions : t.functions = functionsAmong t.nodesBelow := by
    rw [functions, nodes_eq, functionsAmong_cons_of_ne hother]
  have hsum : branchesOf t.walk
      = branchesOf (owned t ++ (functionsAmong t.nodesBelow).flatMap owned) :=
    ((perm_walk t).map branches).sum_eq
  have htags : ∀ f ∈ functionsAmong t.nodesBelow, f.tag = .functionDef := by
    intro f hf
    simpa using (List.mem_filter.1 hf).2
  rw [hsum, branchesOf_append, branchesOf_owned_functions htags, owned, branchesOf_cons, hbranches,
    hfunctions, wholeComplexity]
  omega

theorem exists_analysis (hroot : t.tag = .module) (h : WholeCounts t) :
    ∃ m, analyze t = .ok m ∧ m.functions = t.functions.map measured ∧
      m.complexity
        = .int (wholeComplexity t + (t.functions.map fun f => wholeComplexity f - 1).sum) := by
  obtain ⟨count, hsurvey⟩ := foldlM_visit h (fun _ hnode => hnode) 0 0 []
  rw [Int.zero_add, List.nil_append] at hsurvey
  have hadd : Magnitude.add (Number.int 1) (.int (branchesOf t.walk))
      = .ok (.int (1 + branchesOf t.walk)) := rfl
  unfold analyze
  rw [hsurvey, Except.ok_bind]
  dsimp only
  rw [hadd, Except.ok_bind, branchesOf_walk hroot, functions, ← walk_eq_nodes]
  exact ⟨_, rfl, rfl, rfl⟩

end

/-! ### Bands -/

/-- Every complexity is in one band. -/
theorem countIn_bands (m : StructureMetrics) :
    m.countIn "low" + m.countIn "medium" + m.countIn "high" = m.functions.length := by
  unfold StructureMetrics.countIn
  induction m.functions with
  | nil => rfl
  | cons f rest ih =>
    have hband : band f.complexity = "low" ∨ band f.complexity = "medium"
        ∨ band f.complexity = "high" := by
      unfold band
      split
      · exact .inl rfl
      · split
        · exact .inr (.inl rfl)
        · exact .inr (.inr rfl)
    rw [List.countP_cons, List.countP_cons, List.countP_cons, List.length_cons, ← ih]
    rcases hband with h | h | h
    · simp [h]
      omega
    · simp [h]
      omega
    · simp [h]
      omega

/-- What a document says of the number of functions and of their bands. -/
theorem counts_document {m : StructureMetrics} {document : Value} (h : m.document = .ok document) :
    document.member? "function_count" = some (.ofNat m.functions.length) ∧
      document.member? "complexity_distribution"
        = some (.object [("low", .ofNat (m.countIn "low")), ("medium", .ofNat (m.countIn "medium")),
            ("high", .ofNat (m.countIn "high"))]) := by
  obtain ⟨average, _, h⟩ := Except.bind_eq_ok.1 h
  cases h
  exact ⟨rfl, rfl⟩

/-- What a candidate says of the measurements of a function. -/
def FunctionMetrics.table (f : FunctionMetrics) : Table String Number :=
  [("cyclomatic_complexity", f.complexity), ("nesting_depth", .int f.nestingDepth)]

end Metrics

/-! ### Searching for patterns -/

namespace Candidate

open Metrics

/-- The measurements of the candidates that are functions. -/
def functionMetrics (candidates : List Candidate) : List (Table String Number) :=
  (candidates.filter fun c => c.kind = .functionDefinition).map (·.metrics)

theorem ofTag?_eq_function_iff {tag : Tag} :
    PatternKind.ofTag? tag = some .functionDefinition ↔ tag = .functionDef := by
  cases tag <;> decide

/-- A function gives a candidate with its measurements, and other nodes give no function. -/
theorem functionMetrics_of_ofNode {t node : Tree} (h : WholeCounts t) (hnode : node ∈ t.walk)
    {language sourceFile : String} {fileStyle : Table String Value} {height : Nat}
    {found? : Option Candidate}
    (hfound : ofNode language sourceFile fileStyle node height = .ok found?) :
    functionMetrics found?.toList
      = (Tree.functionsAmong [node]).map fun f => (measured f).table := by
  unfold ofNode at hfound
  cases hkind : PatternKind.ofTag? node.tag with
  | none =>
    have hother : node.tag ≠ .functionDef := by
      rintro hfunction
      rw [hfunction] at hkind
      cases hkind
    rw [hkind] at hfound
    cases hfound
    rw [Tree.functionsAmong_cons_of_ne hother]
    rfl
  | some kind =>
    rw [hkind] at hfound
    obtain ⟨style, _, hrest⟩ := Except.bind_eq_ok.1 hfound
    obtain ⟨metrics, hmetrics, hmade⟩ := Except.bind_eq_ok.1 hrest
    cases hmade
    by_cases hfunction : node.tag = .functionDef
    · rw [hfunction] at hkind
      cases hkind
      rw [nodeMetrics, if_pos hfunction, complexity_eq h hnode, Except.ok_bind] at hmetrics
      cases hmetrics
      rw [Tree.functionsAmong_cons_of_tag hfunction]
      rfl
    · have hother : kind ≠ .functionDefinition := by
        rintro rfl
        exact hfunction (ofTag?_eq_function_iff.1 hkind)
      rw [Tree.functionsAmong_cons_of_ne hfunction]
      simp [functionMetrics, hother, Tree.functionsAmong]

/-- Candidates for nodes of a tree: those that are functions have the measurements of the
functions among the nodes. -/
theorem functionMetrics_of_mapM {t : Tree} (h : WholeCounts t) {entries : List (Tree × Nat)}
    (hentries : ∀ entry ∈ entries, entry.1 ∈ t.walk) {language sourceFile : String}
    {fileStyle : Table String Value} {found : List (Option Candidate)}
    (hfound : entries.mapM (fun entry => ofNode language sourceFile fileStyle entry.1 entry.2)
      = .ok found) :
    functionMetrics (found.filterMap id)
      = (Tree.functionsAmong (entries.map Prod.fst)).map fun f => (measured f).table := by
  have hall := Except.mapM_eq_ok_iff.1 hfound
  clear hfound
  induction hall with
  | nil => rfl
  | @cons entry found? rest founds hfound _ ih =>
    obtain ⟨hentry, hrest⟩ := List.forall_mem_cons.1 hentries
    have hsplit : (found? :: founds).filterMap id = found?.toList ++ founds.filterMap id := by
      cases found? <;> rfl
    have happend : ∀ front back : List Candidate,
        functionMetrics (front ++ back) = functionMetrics front ++ functionMetrics back := by
      intro front back
      rw [functionMetrics, List.filter_append, List.map_append, functionMetrics, functionMetrics]
    rw [hsplit, happend, functionMetrics_of_ofNode h hentry hfound, ih hrest, ← List.map_append,
      ← Tree.functionsAmong_append, List.map_cons, List.singleton_append]

end Candidate

namespace Metrics

/-- The complexity of a module is that of its root as an owner, and for each function in it
what the complexity of the function is above one. The functions are told in pre-order, each
is in one band, and the candidates for functions that a search makes have their
measurements, in this order and as far as the search gets. -/
theorem branches_charged_once {t : Tree} (hroot : t.tag = .module) (hcounts : WholeCounts t)
    (language : String) :
    ∃ (m : StructureMetrics) (whole : Tree → Int),
      analyze t = .ok m ∧
      (∀ owner ∈ t.walk, complexity owner = .ok (.int (whole owner))) ∧
      m.complexity = .int (whole t + (t.functions.map fun f => whole f - 1).sum) ∧
      List.Forall₂ (fun f entry => ofFunction f = .ok entry) t.functions m.functions ∧
      m.countIn "low" + m.countIn "medium" + m.countIn "high" = m.functions.length ∧
      (∀ document, m.document = .ok document →
        document.member? "function_count" = some (.ofNat t.functions.length) ∧
        document.member? "complexity_distribution"
          = some (.object [("low", .ofNat (m.countIn "low")),
              ("medium", .ofNat (m.countIn "medium")), ("high", .ofNat (m.countIn "high"))])) ∧
      (∀ sourceFile formatting candidates,
        Candidate.extract t language sourceFile formatting = .ok candidates →
        Candidate.functionMetrics candidates = m.functions.map FunctionMetrics.table) ∧
      ∀ sourceFile fileStyle entries found, entries <+: t.walk.zip (Tree.heights t.walk) →
        entries.mapM (fun entry =>
          Candidate.ofNode language sourceFile fileStyle entry.1 entry.2) = .ok found →
        Candidate.functionMetrics (found.filterMap id)
          <+: m.functions.map FunctionMetrics.table := by
  obtain ⟨m, hanalyze, hfunctions, hcomplexity⟩ := exists_analysis hroot hcounts
  have hmem : ∀ entry ∈ t.walk.zip (Tree.heights t.walk), entry.1 ∈ t.walk :=
    fun entry hentry => (List.of_mem_zip hentry).1
  have hfirsts : (t.walk.zip (Tree.heights t.walk)).map Prod.fst = t.walk := by
    rw [Tree.heights_walk]
    exact List.map_fst_zip (by simp)
  have htables : m.functions.map FunctionMetrics.table
      = (Tree.functionsAmong t.walk).map fun f => (measured f).table := by
    rw [hfunctions, List.map_map, Tree.walk_eq_nodes]
    rfl
  refine ⟨m, wholeComplexity, hanalyze, fun owner howner => complexity_eq hcounts howner,
    hcomplexity, ?_, countIn_bands m, ?_, ?_, ?_⟩
  · rw [hfunctions, List.forall₂_map_right_iff, List.forall₂_same]
    intro f hf
    rw [Tree.functions, ← Tree.walk_eq_nodes] at hf
    exact ofFunction_eq hcounts (List.mem_filter.1 hf).1
  · intro document hdocument
    have hcount := counts_document hdocument
    rw [hfunctions, List.length_map] at hcount
    exact hcount
  · intro sourceFile formatting candidates hextract
    obtain ⟨found, hfound, hrest⟩ := Except.bind_eq_ok.1 hextract
    cases hrest
    rw [Candidate.functionMetrics_of_mapM hcounts hmem hfound, hfirsts, htables]
  · intro sourceFile fileStyle entries found hfront hfound
    rw [Candidate.functionMetrics_of_mapM hcounts
      (fun entry hentry => hmem entry (hfront.subset hentry)) hfound, htables]
    have hnodes := hfront.map Prod.fst
    rw [hfirsts] at hnodes
    exact (hnodes.filter _).map _

section

open Tree

/-- A function with a switch over three cases. -/
def innerFunction : Tree :=
  .node .functionDef ⟨"a.js", 3, 4, 5, 5⟩ [("name", .text "inner")]
    [.node .conditional ⟨"a.js", 4, 6, 4, 40⟩ [("kind", .text "switch"), ("case_count", .int 3)] []]

/-- A function with the other one in its loop. -/
def outerFunction : Tree :=
  .node .functionDef ⟨"a.js", 1, 0, 7, 1⟩ [("name", .text "outer")]
    [.node .loop ⟨"a.js", 2, 2, 6, 3⟩ [] [innerFunction]]

/-- A module with these functions and a block that catches. -/
def nestedFunctions : Tree :=
  .node .module ⟨"a.js", 1, 0, 9, 0⟩ []
    [outerFunction, .node .trying ⟨"a.js", 8, 0, 8, 30⟩ [("has_catch", .bool true)] []]

/-- The root owns one branch, the outer function one and the inner function three. -/
theorem branches_charged_once_nested :
    nestedFunctions.tag = .module ∧ WholeCounts nestedFunctions ∧
      ∃ (m : StructureMetrics) (whole : Tree → Int),
        analyze nestedFunctions = .ok m ∧ nestedFunctions.functions = [outerFunction, innerFunction] ∧
        whole nestedFunctions = 2 ∧ whole outerFunction = 2 ∧ whole innerFunction = 4 ∧
        m.complexity = .int 6 ∧ m.functions.length = 2 := by
  have hcounts : WholeCounts nestedFunctions := by
    intro node hnode name hname value hvalue
    rw [walk_eq_nodes] at hnode
    simp only [nestedFunctions, outerFunction, innerFunction, nodes, nodesOfAll, List.append_nil,
      List.nil_append, List.cons_append, List.mem_cons, List.not_mem_nil, or_false] at hnode
    rcases hnode with rfl | rfl | rfl | rfl | rfl | rfl <;> rcases hname with rfl | rfl <;>
      cases hvalue
    exact ⟨3, rfl⟩
  obtain ⟨m, whole, hanalyze, hwhole, hcomplexity, hfunctions, -⟩ :=
    branches_charged_once rfl hcounts "javascript"
  have hknown : ∀ owner ∈ nestedFunctions.walk, ∀ n,
      complexity owner = .ok (.int n) → whole owner = n := by
    intro owner howner n hn
    rw [hwhole owner howner] at hn
    cases hn
    rfl
  have hroot : whole nestedFunctions = 2 := by
    refine hknown _ (by simp [walk_eq_nodes, nodes_eq]) 2 ?_
    rw [complexity, scope_eq]
    rfl
  have houter : whole outerFunction = 2 := by
    refine hknown _ (by simp [walk_eq_nodes, nestedFunctions, nodes, nodesOfAll, nodes_eq]) 2 ?_
    rw [complexity, scope_eq]
    rfl
  have hinner : whole innerFunction = 4 := by
    refine hknown _ ?_ 4 ?_
    · simp [walk_eq_nodes, nestedFunctions, outerFunction, nodes, nodesOfAll, nodes_eq innerFunction]
    · rw [complexity, scope_eq]
      rfl
  have hlist : nestedFunctions.functions = [outerFunction, innerFunction] := rfl
  rw [hlist] at hcomplexity hfunctions
  refine ⟨rfl, hcounts, m, whole, hanalyze, hlist, hroot, houter, hinner, ?_, ?_⟩
  · simpa [hroot, houter, hinner] using hcomplexity
  · exact hfunctions.length_eq.symm

end

end Metrics

end CodeHabits
