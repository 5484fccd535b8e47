import CodeHabits.Candidate
import CodeHabits.Proofs.Except
import CodeHabits.Proofs.Table
import CodeHabits.Proofs.Tree.Nested

/-!
# `CodeHabits.Proofs.Tree.Plain`: trees that can be measured

A tree may note anything under any name, and a tree from outside may hold a list for a
name or a text for a count. A tree is `Plain` if none of its nodes does so: names and
styles of braces are texts or null, and the numbers of cases and arms are whole.

Plain trees can be searched for patterns: there is a candidate for every node with the
tag of a pattern, and every habit of its style is a text (`exists_extract`). They can be
measured as well, and the only thing that may go wrong then is that the average of the
complexities is too large for a number (`document_eq_error`).
-/

set_option autoImplicit false

namespace CodeHabits

/-- A text, or null. -/
def Value.IsName (value : Value) : Prop :=
  value = .null ∨ ∃ s, value = .text s

@[simp] theorem Value.isName_null : Value.null.IsName :=
  .inl rfl

@[simp] theorem Value.isName_text (s : String) : (Value.text s).IsName :=
  .inr ⟨s, rfl⟩

@[simp] theorem Value.isName_ite {p : Prop} [Decidable p] {a b : Value} :
    (if p then a else b).IsName ↔ (p → a.IsName) ∧ (¬p → b.IsName) := by
  by_cases h : p <;> simp [h]

/-- What may be noted under a name so that it can be measured. -/
def Attributes.Fits (name : String) (value : Value) : Prop :=
  (name = "name" ∨ name = "brace_style" → value.IsName) ∧
    (name = "case_count" ∨ name = "arm_count" → ∃ n, value = .int n)

/-- Everything that is noted fits. -/
def Attributes.Plain (attributes : Attributes) : Prop :=
  ∀ fact ∈ attributes, Fits fact.1 fact.2

@[simp] theorem Attributes.plain_nil : Attributes.Plain [] := by
  simp [Plain]

@[simp] theorem Attributes.plain_cons {name : String} {value : Value} {rest : Attributes} :
    Attributes.Plain ((name, value) :: rest) ↔ Fits name value ∧ Plain rest := by
  simp [Plain]

@[simp] theorem Attributes.plain_append {front rest : Attributes} :
    Attributes.Plain (front ++ rest) ↔ Plain front ∧ Plain rest := by
  simp [Plain, or_imp, forall_and]

@[simp] theorem Attributes.plain_ite {p : Prop} [Decidable p] {front rest : Attributes} :
    Attributes.Plain (if p then front else rest) ↔ (p → Plain front) ∧ (¬p → Plain rest) := by
  by_cases h : p <;> simp [h]

/-- What is found under a name fits it. -/
theorem Attributes.Plain.fits {attributes : Attributes} (h : attributes.Plain) {name : String}
    {value : Value} (hget : attributes.get? name = some value) : Fits name value := by
  obtain ⟨fact, hmem, hname, rfl⟩ := Table.exists_mem_of_get? hget
  have hfits := h fact hmem
  rw [eq_of_beq hname] at hfits
  exact hfits

theorem Attributes.Plain.put {attributes : Attributes} (h : attributes.Plain) {name : String}
    {value : Value} (hfits : Fits name value) : Plain (Table.put attributes name value) := by
  induction attributes with
  | nil =>
    intro fact hfact
    rw [List.mem_singleton.1 hfact]
    exact hfits
  | cons first rest ih =>
    have hfirst := h first (by simp)
    have hrest : Plain rest := fun fact hfact => h fact (by simp [hfact])
    by_cases hkey : (first.1 == name) = true
    · have hput : Table.put (first :: rest) name value = (first.1, value) :: rest := by
        simp [Table.put, hkey]
      rw [hput, eq_of_beq hkey]
      exact plain_cons.2 ⟨hfits, hrest⟩
    · have hput : Table.put (first :: rest) name value = first :: Table.put rest name value := by
        simp [Table.put, hkey]
      rw [hput]
      exact plain_cons.2 ⟨hfirst, ih hrest⟩

namespace Tree

/-- What all nodes of a tree note fits. -/
inductive Plain : Tree → Prop
  | node {tag : Tag} {span : Span} {attributes : Attributes} {children : List Tree}
      (hattributes : attributes.Plain) (hchildren : ∀ t ∈ children, t.Plain) :
      Plain (.node tag span attributes children)

theorem Plain.attributes {t : Tree} (h : t.Plain) : t.attributes.Plain := by
  cases h with
  | node hattributes _ => exact hattributes

theorem Plain.children {t : Tree} (h : t.Plain) : ∀ child ∈ t.children, child.Plain := by
  cases h with
  | node _ hchildren => exact hchildren

theorem Plain.intro {t : Tree} (hattributes : t.attributes.Plain)
    (hchildren : ∀ child ∈ t.children, child.Plain) : t.Plain := by
  cases t with
  | node tag span attributes children => exact .node hattributes hchildren

theorem Plain.withAttribute {t : Tree} (h : t.Plain) {name : String} {value : Value}
    (hfits : Attributes.Fits name value) : (t.withAttribute name value).Plain :=
  .node (h.attributes.put hfits) h.children

theorem Plain.withSpan {t : Tree} (h : t.Plain) (s : Span) : (t.withSpan s).Plain :=
  .node h.attributes h.children

/-- A name that is noted is a text or null. -/
theorem Plain.isName {t : Tree} (h : t.Plain) {name : String} {value : Value}
    (hname : name = "name" ∨ name = "brace_style") (hget : t.attribute? name = some value) :
    value.IsName :=
  (h.attributes.fits hget).1 hname

/-- Every node of plain trees is plain. -/
theorem plain_of_mem_walkFrom {stack : List Tree} (h : ∀ t ∈ stack, t.Plain) :
    ∀ t ∈ walkFrom stack, t.Plain :=
  forall_mem_walkFrom (fun _ ht => ht.children) h

theorem Plain.walk {t : Tree} (h : t.Plain) : ∀ node ∈ t.walk, node.Plain :=
  plain_of_mem_walkFrom (by simpa using h)

end Tree

/-! ### Measuring -/

/-- A whole number. -/
def Number.IsWhole (number : Number) : Prop :=
  ∃ n, number = .int n

namespace Metrics

variable {t : Tree}

/-- The number of a kind of branch is whole. -/
theorem exists_branchCount (h : t.Plain) {name : String}
    (hname : name = "case_count" ∨ name = "arm_count") :
    ∃ n, branchCount t name = .ok (.int n) := by
  unfold branchCount
  cases hget : t.attribute? name with
  | none => exact ⟨0, rfl⟩
  | some value =>
    obtain ⟨n, rfl⟩ := (h.attributes.fits hget).2 hname
    exact ⟨n, rfl⟩

/-- The larger of two whole numbers is whole. -/
theorem exists_larger_int (a b : Int) :
    ∃ n, larger (Number.int a) (.int b) = .ok n ∧ n.IsWhole := by
  show ∃ n, Except.ok (if decide (a < b) = true then Number.int b else .int a) = .ok n ∧ _
  by_cases h : a < b
  · exact ⟨.int b, by simp [h], b, rfl⟩
  · exact ⟨.int a, by simp [h], a, rfl⟩

/-- A node that notes whole numbers of branches adds a whole number of branches. -/
theorem exists_decisionPoints_of_counts
    (h : ∀ name, name = "case_count" ∨ name = "arm_count" →
      ∃ n, branchCount t name = .ok (.int n)) :
    ∃ n, decisionPoints t = .ok n ∧ n.IsWhole := by
  unfold decisionPoints
  cases t.tag with
  | loop => exact ⟨.int 1, rfl, 1, rfl⟩
  | conditional =>
    dsimp only
    by_cases hswitch : isKind t "switch" = true
    · obtain ⟨n, hn⟩ := h "case_count" (.inl rfl)
      rw [if_pos hswitch, hn, Except.ok_bind]
      exact exists_larger_int n 1
    · rw [if_neg hswitch]
      by_cases hmatch : isKind t "match" = true
      · obtain ⟨n, hn⟩ := h "arm_count" (.inr rfl)
        rw [if_pos hmatch, hn, Except.ok_bind]
        exact exists_larger_int (n - 1) 1
      · rw [if_neg hmatch]
        exact ⟨.int 1, rfl, 1, rfl⟩
  | trying => exact ⟨_, rfl, _, rfl⟩
  | _ => exact ⟨.int 0, rfl, 0, rfl⟩

/-- Every node adds a whole number of branches. -/
theorem exists_decisionPoints (h : t.Plain) : ∃ n, decisionPoints t = .ok n ∧ n.IsWhole :=
  exists_decisionPoints_of_counts fun _ hname => exists_branchCount h hname

/-- The nodes that belong to plain trees are plain. -/
theorem plain_of_mem_scopeFrom {stack : List (Tree × Nat)} (h : ∀ entry ∈ stack, entry.1.Plain) :
    ∀ entry ∈ scopeFrom stack, entry.1.Plain := by
  induction stack using scopeFrom.induct with
  | case1 => simp [scopeFrom]
  | case2 t level rest hfunction ih =>
    rw [scopeFrom, if_pos hfunction]
    exact ih fun entry hentry => h entry (by simp [hentry])
  | case3 t level rest hother ih =>
    have ht : t.Plain := h (t, level) (by simp)
    rw [scopeFrom, if_neg hother]
    refine List.forall_mem_cons.2 ⟨ht, ih ?_⟩
    intro entry hentry
    rcases List.mem_append.1 hentry with hchild | hrest
    · obtain ⟨child, hmem, rfl⟩ := List.mem_map.1 hchild
      exact ht.children child hmem
    · exact h entry (by simp [hrest])

/-- Adding up whole numbers of branches gives one. -/
theorem exists_decisions {entries : List (Tree × Nat)} (h : ∀ entry ∈ entries, entry.1.Plain) :
    ∃ sum, entries.foldlM
      (fun sum entry => do Magnitude.add sum (← decisionPoints entry.1)) (Number.int 0)
        = .ok sum ∧ sum.IsWhole := by
  refine Except.exists_foldlM (fun sum entry hentry hsum => ?_) ⟨0, rfl⟩
  obtain ⟨m, rfl⟩ := hsum
  obtain ⟨_, hn, n, rfl⟩ := exists_decisionPoints (h entry hentry)
  rw [hn]
  exact ⟨.int (m + n), rfl, m + n, rfl⟩

theorem exists_complexity (h : t.Plain) : ∃ n, complexity t = .ok n ∧ n.IsWhole := by
  have hchildren : ∀ entry ∈ t.children.map (·, 0), (entry : Tree × Nat).1.Plain := by
    intro entry hentry
    obtain ⟨child, hmem, rfl⟩ := List.mem_map.1 hentry
    exact h.children child hmem
  refine Except.exists_bind (exists_decisions (plain_of_mem_scopeFrom hchildren)) ?_
  rintro _ ⟨n, rfl⟩
  exact ⟨.int (1 + n), rfl, 1 + n, rfl⟩

/-- A survey that counts whole numbers. -/
def Survey.Whole (s : Survey) : Prop :=
  s.decisions.IsWhole ∧ ∀ f ∈ s.functions, f.complexity.IsWhole

/-- A plain node leaves it one. -/
theorem Survey.exists_visit {s : Survey} (hs : s.Whole) (h : t.Plain) :
    ∃ next, s.visit t = .ok next ∧ next.Whole := by
  obtain ⟨⟨m, hm⟩, hfunctions⟩ := hs
  obtain ⟨_, hn, n, rfl⟩ := exists_decisionPoints h
  have hadd : Magnitude.add (Number.int m) (.int n) = .ok (.int (m + n)) := rfl
  unfold Survey.visit
  rw [hn, Except.ok_bind, hm, hadd, Except.ok_bind]
  cases t.tag with
  | functionDef =>
    obtain ⟨complexity, hcomplexity, hwhole⟩ := exists_complexity h
    have hmeasured : ofFunction t
        = .ok ⟨(t.attribute? "name").getD .null, t.span.startLine, complexity, nestingDepth t⟩ := by
      unfold ofFunction
      rw [hcomplexity]
      rfl
    dsimp only
    rw [hmeasured]
    refine ⟨_, rfl, ⟨m + n, rfl⟩, ?_⟩
    intro f hf
    rcases List.mem_append.1 hf with hold | hnew
    · exact hfunctions f hold
    · rw [List.mem_singleton.1 hnew]
      exact hwhole
  | _ => exact ⟨_, rfl, ⟨m + n, rfl⟩, hfunctions⟩

/-- A plain tree has measurements, with whole complexities. -/
theorem exists_analyze (h : t.Plain) :
    ∃ m, analyze t = .ok m ∧ ∀ f ∈ m.functions, f.complexity.IsWhole := by
  have hsurvey : ∃ s, t.walk.foldlM Survey.visit ⟨.int 0, 0, []⟩ = .ok s ∧ s.Whole :=
    Except.exists_foldlM (fun s node hnode hs => s.exists_visit hs (h.walk node hnode))
      ⟨⟨0, rfl⟩, by simp⟩
  refine Except.exists_bind hsurvey ?_
  rintro s ⟨⟨n, hn⟩, hfunctions⟩
  dsimp only
  rw [hn]
  exact ⟨_, rfl, hfunctions⟩

/-- Only the average of complexities may be too large. -/
theorem document_eq_error {m : StructureMetrics} (h : ∀ f ∈ m.functions, f.complexity.IsWhole)
    {fault : Fault} (hfails : m.document = .error fault) : fault = .overflow := by
  have htotal : ∃ sum, total (m.functions.map (·.complexity)) = .ok sum ∧ sum.IsWhole := by
    refine Except.exists_foldlM (fun sum complexity hmem hsum => ?_) ⟨0, rfl⟩
    obtain ⟨f, hf, rfl⟩ := List.mem_map.1 hmem
    obtain ⟨a, rfl⟩ := hsum
    obtain ⟨b, hb⟩ := h f hf
    rw [hb]
    exact ⟨.int (a + b), rfl, a + b, rfl⟩
  obtain ⟨sum, hsum, _⟩ := htotal
  have haverage : m.average = .error fault := by
    rcases Except.bind_eq_error.1 hfails with haverage | ⟨_, _, hrest⟩
    · exact haverage
    · cases hrest
  unfold StructureMetrics.average at haverage
  rw [hsum, Except.ok_bind] at haverage
  by_cases hnone : m.functions.isEmpty = true
  · rw [if_pos hnone] at haverage
    cases haverage
  · rw [if_neg hnone] at haverage
    cases hover : sum.over? m.functions.length with
    | none =>
      rw [hover] at haverage
      cases haverage
      rfl
    | some x =>
      rw [hover] at haverage
      cases haverage

end Metrics

/-! ### Searching for patterns -/

namespace Candidate

variable {t : Tree}

/-- Every habit is a text. -/
def TextStyle (style : Table String Value) : Prop :=
  ∀ habit ∈ style, ∃ s, habit.2 = .text s

theorem TextStyle.append {front rest : Table String Value} (hfront : TextStyle front)
    (hrest : TextStyle rest) : TextStyle (front ++ rest) := by
  intro habit hhabit
  rcases List.mem_append.1 hhabit with h | h
  · exact hfront habit h
  · exact hrest habit h

/-- A habit that is there only now and then. -/
theorem textStyle_toList {α : Type} (found : Option α) {name : String} {text : α → String} :
    TextStyle (found.map fun a => (name, Value.text (text a))).toList := by
  intro habit hhabit
  cases found with
  | none => cases hhabit
  | some a =>
    rw [List.mem_singleton.1 hhabit]
    exact ⟨text a, rfl⟩

theorem TextStyle.overlay {upper lower : Table String Value} (hupper : TextStyle upper)
    (hlower : TextStyle lower) : TextStyle (Table.overlay upper lower) := by
  induction upper generalizing lower with
  | nil => exact hlower
  | cons habit rest ih =>
    refine ih (fun other hother => hupper other (by simp [hother])) ?_
    exact Table.forall_values_put (P := fun value : Value => ∃ s, value = .text s) hlower
      (hupper habit (by simp))

theorem textStyle_signatureStyle (name : Option String) : TextStyle (signatureStyle t name) := by
  unfold signatureStyle
  refine ((textStyle_toList _).append ?_).append ?_
  · intro habit hhabit
    obtain ⟨answer, hanswer, rfl⟩ := Option.map_eq_some_iff.1 (Option.mem_toList.1 hhabit)
    split at hanswer
    · obtain ⟨value, _, rfl⟩ := Option.map_eq_some_iff.1 hanswer
      exact ⟨_, rfl⟩
    · cases hanswer
  · intro habit hhabit
    obtain ⟨answer, hanswer, rfl⟩ := Option.map_eq_some_iff.1 (Option.mem_toList.1 hhabit)
    split at hanswer
    · cases hanswer
    · obtain ⟨value, _, rfl⟩ := Option.map_eq_some_iff.1 hanswer
      exact ⟨_, rfl⟩

/-- Of a brace only a text counts as its style. -/
theorem textStyle_braces (h : t.Plain) :
    TextStyle (match t.attribute? "brace_style" with
      | some value => if value.truthy then [("brace_style", value)] else []
      | none => []) := by
  cases hbrace : t.attribute? "brace_style" with
  | none => simp [TextStyle]
  | some value =>
    rcases h.isName (.inr rfl) hbrace with rfl | ⟨s, rfl⟩
    · simp [TextStyle, Value.truthy]
    · by_cases hs : (Value.text s).truthy = true
      · simp [TextStyle, hs]
      · simp [TextStyle, hs]

/-- The habits that show in a node are texts. -/
theorem exists_nodeStyle (h : t.Plain) : ∃ style, nodeStyle t = .ok style ∧ TextStyle style := by
  have hindent : TextStyle
      ((indentation? t).map fun depth => ("indentation", Value.text (toString depth))).toList :=
    textStyle_toList _
  have hfront := hindent.append (textStyle_braces h)
  unfold nodeStyle
  by_cases hnamed : isNamed t.tag = true
  · have hname : ∃ name, Naming.nameOf ((t.attribute? "name").getD .null) = .ok name := by
      cases hget : t.attribute? "name" with
      | none => exact ⟨none, rfl⟩
      | some value =>
        rcases h.isName (.inl rfl) hget with rfl | ⟨s, rfl⟩
        · exact ⟨none, rfl⟩
        · exact ⟨some s, rfl⟩
    obtain ⟨name, hname⟩ := hname
    rw [if_pos hnamed, hname]
    refine ⟨_, rfl, (hfront.append (textStyle_toList _)).append ?_⟩
    split
    · exact textStyle_signatureStyle name
    · simp [TextStyle]
  · rw [if_neg hnamed]
    exact ⟨_, rfl, hfront⟩

theorem exists_nodeMetrics (h : t.Plain) : ∃ metrics, nodeMetrics t = .ok metrics := by
  unfold nodeMetrics
  split
  · obtain ⟨n, hn, _⟩ := Metrics.exists_complexity h
    rw [hn]
    exact ⟨_, rfl⟩
  · exact ⟨_, rfl⟩

/-- A node gives a candidate with texts for its habits, or none. -/
theorem exists_ofNode (h : t.Plain) (language sourceFile : String) {fileStyle : Table String Value}
    (hfile : TextStyle fileStyle) (height : Nat) :
    ∃ found, ofNode language sourceFile fileStyle t height = .ok found ∧
      ∀ c ∈ found, TextStyle c.style := by
  unfold ofNode
  cases PatternKind.ofTag? t.tag with
  | none => exact ⟨none, rfl, by simp⟩
  | some kind =>
    obtain ⟨style, hstyle, htexts⟩ := exists_nodeStyle h
    obtain ⟨metrics, hmetrics⟩ := exists_nodeMetrics h
    dsimp only
    rw [hstyle, Except.ok_bind, hmetrics]
    refine ⟨_, rfl, ?_⟩
    intro c hc
    cases hc
    exact htexts.overlay hfile

/-- A plain tree can be searched, and the habits of all candidates are texts. -/
theorem exists_extract (h : t.Plain) (language : String) (sourceFile : Option String)
    (formatting : Option Formatting) :
    ∃ candidates, extract t language sourceFile formatting = .ok candidates ∧
      ∀ c ∈ candidates, TextStyle c.style := by
  have hfile : TextStyle ((formatting.elim [] Formatting.style).map fun entry =>
      (entry.1, Value.text entry.2)) := by
    intro habit hhabit
    obtain ⟨entry, _, rfl⟩ := List.mem_map.1 hhabit
    exact ⟨_, rfl⟩
  have hnodes : ∀ entry ∈ t.walk.zip (Tree.heights t.walk), entry.1.Plain := fun entry hentry =>
    h.walk entry.1 (List.of_mem_zip hentry).1
  unfold extract
  refine Except.exists_bind (Except.exists_mapM fun entry hentry =>
    exists_ofNode (hnodes entry hentry) language _ hfile entry.2) ?_
  intro found hfound
  refine ⟨_, rfl, ?_⟩
  intro c hc
  obtain ⟨found?, hmem, rfl⟩ := List.mem_filterMap.1 hc
  exact hfound (some c) hmem c rfl

end Candidate

end CodeHabits
