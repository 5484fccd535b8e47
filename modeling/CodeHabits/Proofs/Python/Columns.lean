import CodeHabits.Proofs.Python.Chunks
import CodeHabits.Proofs.Python.Constructs
import CodeHabits.Proofs.Python.Recovery
import CodeHabits.Proofs.Tree.Nested

/-!
# `CodeHabits.Proofs.Python.Columns`: what columns count

Reading a Python text gives places with columns in bytes of UTF-8. Lowering takes them as
they are (`span_of_mem_nodes_treeOf`), while the root of a source and the nodes for problems
end at a number of characters. `columns_count_bytes` states for every source that is read what
the two kinds of nodes count, and when the difference is seen: a column of a statement is not
the number of characters in front of it as soon as one of them has more than one byte, and a
statement that ends on the last line may end behind the root.

The lines of a chunk are lines of the source, so places that fit the chunk fit the source
once they are moved down (`Place.Fits.down`).
-/

set_option autoImplicit false

namespace CodeHabits.Python

open Text

variable {read : String → Reading} {source file language : String}

/-- A line, counted from one, and a column in bytes: behind characters of the line. -/
def BytesBehind (lines : List (List Char)) (front : List Char) (line column : Int) : Prop :=
  ∃ (i : Nat) (rest : List Char), line = i + 1 ∧ lines[i]? = some (front ++ rest) ∧
    column = (bytesOf front).length

/-- A place begins and ends behind characters of lines. -/
structure Place.Fits (lines : List (List Char)) (p : Place) : Prop where
  start : ∃ front, BytesBehind lines front p.line p.column
  stop : ∃ front, BytesBehind lines front p.endLine p.endColumn

/-- All that is read of a source or of one of its chunks is at places in the text that was
read. -/
def FitsTexts (read : String → Reading) (source : String) : Prop :=
  ∀ text ∈ source :: (splitTopLevel source).map Chunk.text, ∀ body, read text = .statements body →
    ∀ t ∈ body, ∀ p ∈ t.places, p.Fits (feedLines text.toList)

/-! ### Moved down -/

section

variable {lines : List (List Char)} {start length : Nat}

theorem BytesBehind.down {front : List Char} {line column : Int}
    (h : BytesBehind ((lines.drop start).take length) front line column) :
    BytesBehind lines front (line + start) column := by
  obtain ⟨i, rest, rfl, hline, hcolumn⟩ := h
  refine ⟨i + start, rest, by omega, ?_, hcolumn⟩
  rw [List.getElem?_take] at hline
  split at hline
  · rw [List.getElem?_drop] at hline
    rwa [Nat.add_comm]
  · cases hline

theorem Place.fits_nowhere (h : lines ≠ []) : Place.nowhere.Fits lines := by
  obtain ⟨first, rest, rfl⟩ := List.exists_cons_of_ne_nil h
  exact ⟨⟨[], 0, first, rfl, rfl, rfl⟩, ⟨[], 0, first, rfl, rfl, rfl⟩⟩

theorem Place.Fits.down {p : Place} (h : p.Fits ((lines.drop start).take length))
    (hlines : lines ≠ []) : (p.down start).Fits lines := by
  by_cases hp : p = .nowhere
  · rw [hp]
    exact Place.fits_nowhere hlines
  · rw [Place.down, if_neg hp]
    obtain ⟨⟨front, hfront⟩, longer, hlonger⟩ := h
    exact ⟨⟨front, hfront.down⟩, longer, hlonger.down⟩

end

/-- All statements that are read of a source are at places in the source. -/
theorem fits_of_mem_statementsRead (hread : FitsTexts read source) {t : Stmt}
    (h : t ∈ statementsRead read source) {p : Place} (hp : p ∈ t.places) :
    p.Fits (feedLines source.toList) := by
  rw [statementsRead] at h
  cases hsource : read source with
  | refused =>
    rw [hsource] at h
    cases h
  | statements body =>
    rw [hsource] at h
    exact hread source List.mem_cons_self body hsource t h p hp
  | broken message line? column? =>
    rw [hsource] at h
    obtain ⟨chunk, hchunk, ht⟩ := List.mem_flatMap.1 h
    have hlines := (cut_splitTopLevel source).feedLines_text hchunk
    rw [Chunk.statements] at ht
    split at ht
    · cases ht
    · split at ht
      · rename_i body hbody
        obtain ⟨u, hu, rfl⟩ := List.mem_map.1 ht
        rw [Stmt.places_down] at hp
        obtain ⟨q, hq, rfl⟩ := List.mem_map.1 hp
        -- The statement was read in the text of the chunk, whose lines are lines of the source, and
        -- it is moved down to where they begin.
        have htext : chunk.text ∈ source :: (splitTopLevel source).map Chunk.text :=
          List.mem_cons_of_mem source (List.mem_map_of_mem hchunk)
        have hfits := hread _ htext body hbody u hu q hq
        obtain ⟨start, length, -, rfl, -, -⟩ := (cut_splitTopLevel source).of_mem hchunk
        rw [hlines] at hfits
        have hshift : (((chunkAt (feedLines source.toList) start length).firstLine : Nat) : Int) - 1
            = start := by
          simp only [chunkAt]
          omega
        rw [hshift]
        exact hfits.down (List.splitOn_ne_nil _ _)
      · cases ht

/-! ### Nodes -/

section

variable (file : String)

/-- A node in an expression is at the place of an expression in it. -/
theorem span_of_mem_nodesOf {e : Expr} {node : Tree} (h : node ∈ nodesOf file e) :
    (node.tag ≠ .error ∧ node.tag ≠ .module) ∧ ∃ x ∈ e.within, node.span = x.place.span file := by
  induction e using Expr.induction with
  | step e ih =>
    obtain ⟨own, hown⟩ := exists_adds file e
    rw [Expr.within_eq]
    rcases List.mem_append.1 (hown.nodes.mem_iff.1 h) with h | h
    · refine ⟨?_, ?_⟩
      · rcases hown.known node h with htag | hconstruct
        · simp [htag]
        · constructor
          · intro htag
            simp [nodeConstruct?, htag] at hconstruct
          · intro htag
            simp [nodeConstruct?, htag] at hconstruct
      · obtain ⟨x, hx, hspan⟩ := hown.spans node h
        rcases List.mem_cons.1 hx with rfl | hx
        · exact ⟨x, List.mem_cons_self, hspan⟩
        · refine ⟨x, List.mem_cons_of_mem e (List.mem_flatMap.2 ⟨x, ?_, ?_⟩), hspan⟩
          · exact Expr.mem_parts_of_mem_followed hx
          · rw [Expr.within_eq]
            exact List.mem_cons_self
    · obtain ⟨x, hx, h⟩ := List.mem_flatMap.1 h
      have hparts := Expr.mem_parts_of_mem_followed hx
      obtain ⟨htag, y, hy, hspan⟩ := ih x hparts h
      exact ⟨htag, y, List.mem_cons_of_mem e (List.mem_flatMap.2 ⟨x, hparts, hy⟩), hspan⟩

/-- A node for a statement is at the place of a statement or an expression in it. -/
theorem span_of_mem_nodes_treeOf {depth : Nat} {t : Stmt} {node : Tree}
    (h : node ∈ (treeOf file depth t).nodes) :
    (node.tag ≠ .error ∧ node.tag ≠ .module) ∧ ∃ p ∈ t.places, node.span = p.span file := by
  induction t using Stmt.induction generalizing depth with
  | step t ih =>
    rw [Stmt.places_eq]
    rw [Tree.nodes_eq, Tree.nodesBelow, children_treeOf, List.flatMap_append] at h
    rcases List.mem_cons.1 h with rfl | h
    · rw [tag_treeOf, span_treeOf]
      exact ⟨t.tag_ne, t.place, List.mem_cons_self, rfl⟩
    · rcases List.mem_append.1 h with h | h
      · rw [List.flatMap_assoc] at h
        obtain ⟨e, he, h⟩ := List.mem_flatMap.1 h
        obtain ⟨htag, x, hx, hspan⟩ := span_of_mem_nodesOf file h
        refine ⟨htag, x.place, List.mem_cons_of_mem _ (List.mem_append_left _ ?_), hspan⟩
        exact List.mem_flatMap.2 ⟨e, he, List.mem_map_of_mem hx⟩
      · obtain ⟨tree, htree, h⟩ := List.mem_flatMap.1 h
        obtain ⟨body, hbody, htree⟩ := List.mem_flatMap.1 htree
        rw [treesOf_eq] at htree
        obtain ⟨u, hu, rfl⟩ := List.mem_map.1 htree
        have hinside : u ∈ t.inside :=
          List.mem_flatten.2 ⟨body, hbody, mem_of_mem_withoutDocstring hu⟩
        obtain ⟨htag, p, hp, hspan⟩ := ih u hinside h
        refine ⟨htag, p, List.mem_cons_of_mem _ (List.mem_append_right _ ?_), hspan⟩
        exact List.mem_flatMap.2 ⟨u, hinside, hp⟩

/-- A node of a Python tree is the root, for a chunk with a problem, or for a statement that was
read. -/
theorem mem_walk_moduleTree {node : Tree}
    (h : node ∈ (Parsed.moduleTree source file (sourceTrees read source file)).walk) :
    node = Parsed.moduleTree source file (sourceTrees read source file) ∨
      (∃ chunk ∈ splitTopLevel source, ∃ problem, node = chunk.errorTree file problem) ∨
      ∃ t ∈ statementsRead read source, node ∈ (treeOf file 0 t).nodes := by
  rw [Tree.walk_eq_nodes, Tree.nodes_eq] at h
  rcases List.mem_cons.1 h with h | h
  · exact .inl h
  · obtain ⟨tree, htree, h⟩ := List.mem_flatMap.1 h
    rcases mem_sourceTrees htree with ⟨chunk, hchunk, problem, rfl⟩ | ⟨t, ht, rfl⟩
    · exact .inr (.inl ⟨chunk, hchunk, problem, List.mem_singleton.1 h⟩)
    · exact .inr (.inr ⟨t, ht, h⟩)

end

/-! ### Counts -/

/-- A column counts the bytes in front of it, and the characters only as long as each of them
has one byte. -/
def CountsBytes (lines : List (List Char)) (line column : Int) : Prop :=
  ∃ front, BytesBehind lines front line column ∧
    (column = front.length ↔ ∀ c ∈ front, c.toNat < 128)

/-- A column at the end of a line, in characters. -/
def EndsLine (lines : List (List Char)) (line column : Int) : Prop :=
  ∃ (i : Nat) (text : List Char), line = i + 1 ∧ lines[i]? = some text ∧ column = text.length

theorem BytesBehind.countsBytes {lines : List (List Char)} {front : List Char} {line column : Int}
    (h : BytesBehind lines front line column) : CountsBytes lines line column := by
  obtain ⟨i, rest, hline, hfront, hcolumn⟩ := h
  refine ⟨front, ⟨i, rest, hline, hfront, hcolumn⟩, ?_⟩
  rw [hcolumn, Nat.cast_inj, length_bytesOf_eq_iff]

/-- The node for a chunk with a problem ends with the last line of the chunk. -/
theorem endsLine_errorTree {chunk : Chunk} (hchunk : chunk ∈ splitTopLevel source)
    (problem : Diagnostic) :
    EndsLine (feedLines source.toList) (chunk.errorTree file problem).span.endLine
      (chunk.errorTree file problem).span.endColumn := by
  obtain ⟨start, length, -, rfl, hstretch, -⟩ := (cut_splitTopLevel source).of_mem hchunk
  have hlength := hstretch.length_lines
  have hpos := hstretch.pos
  have hfits := hstretch.fits
  set lines := feedLines source.toList
  -- The last line of the chunk is this one of the source.
  have hlast : (chunkAt lines start length).lines.getLast? = lines[start + (length - 1)]? := by
    rw [List.getLast?_eq_getElem?, hlength, chunkAt, List.getElem?_take, if_pos (by omega),
      List.getElem?_drop]
  refine ⟨start + (length - 1), lines[start + (length - 1)], ?_, List.getElem?_eq_getElem _, ?_⟩
  · show ((start + 1 : Nat) : Int) + ((chunkAt lines start length).lines.length : Nat) - 1 = _
    rw [hlength]
    omega
  · show (((chunkAt lines start length).lines.getLast?.getD []).length : Int) = _
    rw [hlast, List.getElem?_eq_getElem (by omega)]
    rfl

theorem endsLine_moduleTree (trees : List Tree) :
    EndsLine (feedLines source.toList) (Parsed.moduleTree source file trees).span.endLine
      (Parsed.moduleTree source file trees).span.endColumn := by
  have hpos : 0 < (feedLines source.toList).length :=
    List.length_pos_iff.2 (List.splitOn_ne_nil _ _)
  set lines := feedLines source.toList with hlines
  refine ⟨lines.length - 1, lines[lines.length - 1], ?_, List.getElem?_eq_getElem _, ?_⟩
  · show (lines.length : Int) = _
    omega
  · show ((lines.getLast?.getD []).length : Int) = _
    rw [List.getLast?_eq_getElem?, List.getElem?_eq_getElem (by omega)]
    rfl

/-- A place in lines begins on the first one or further down, and it ends behind the last one
only if it ends on it. -/
theorem Place.Fits.within_iff {lines : List (List Char)} {p : Place} (h : p.Fits lines)
    (width : Nat) :
    (p.span file).Within ⟨file, 1, 0, lines.length, width⟩ ↔
      p.endLine < lines.length ∨ p.endColumn ≤ width := by
  obtain ⟨⟨front, i, rest, hline, -, hcolumn⟩, longer, j, more, hendLine, hlast, -⟩ := h
  have hj := (List.getElem?_eq_some_iff.1 hlast).1
  have hfirst : (⟨file, 1, 0, lines.length, width⟩ : Span).first ≤ (p.span file).first := by
    rw [Span.first, Span.first, Prod.Lex.toLex_le_toLex]
    simp only [Place.span]
    omega
  have hend : (p.span file).last ≤ (⟨file, 1, 0, lines.length, width⟩ : Span).last ↔
      p.endLine < lines.length ∨ p.endColumn ≤ width := by
    rw [Span.last, Span.last, Prod.Lex.toLex_le_toLex]
    simp only [Place.span]
    omega
  rw [← hend]
  exact ⟨fun h => h.last, fun h => ⟨hfirst, h⟩⟩

/-- Columns of statements and expressions count bytes, those where the root and the nodes for
problems end count characters. So the root contains a statement below it unless that ends on
the last line, with more bytes in front of its end than the line has characters. -/
theorem columns_count_bytes {budget : Budget} {parsed : Parsed} {looks : Nat}
    (hread : FitsTexts read source)
    (h : (build read source file language).outcome budget = (.ok parsed, looks)) :
    (∀ node ∈ parsed.tree.walk, node.tag ≠ .error → node.tag ≠ .module →
        CountsBytes (feedLines source.toList) node.span.startLine node.span.startColumn ∧
          CountsBytes (feedLines source.toList) node.span.endLine node.span.endColumn) ∧
      (∀ node ∈ parsed.tree.walk, node.tag = .error ∨ node.tag = .module →
        EndsLine (feedLines source.toList) node.span.endLine node.span.endColumn) ∧
      ∀ child ∈ parsed.tree.children, child.tag ≠ .error →
        (child.span.Within parsed.tree.span ↔
          child.span.endLine < parsed.tree.span.endLine ∨
            child.span.endColumn ≤ parsed.tree.span.endColumn) := by
  rw [tree_of_build h]
  refine ⟨fun node hnode herror hmodule => ?_, fun node hnode htag => ?_, fun child hchild htag => ?_⟩
  · rcases mem_walk_moduleTree file hnode with rfl | ⟨chunk, _, problem, rfl⟩ | ⟨t, ht, hnode⟩
    · exact absurd rfl hmodule
    · exact absurd rfl herror
    · obtain ⟨-, p, hp, hspan⟩ := span_of_mem_nodes_treeOf file hnode
      obtain ⟨⟨front, hfront⟩, longer, hlonger⟩ := fits_of_mem_statementsRead hread ht hp
      rw [hspan]
      exact ⟨hfront.countsBytes, hlonger.countsBytes⟩
  · rcases mem_walk_moduleTree file hnode with rfl | ⟨chunk, hchunk, problem, rfl⟩ | ⟨t, ht, hnode⟩
    · exact endsLine_moduleTree _
    · exact endsLine_errorTree hchunk problem
    · exact absurd htag (not_or.2 (span_of_mem_nodes_treeOf file hnode).1)
  · rcases mem_sourceTrees hchild with ⟨chunk, _, problem, rfl⟩ | ⟨t, ht, rfl⟩
    · exact absurd rfl htag
    · have hplace : t.place ∈ t.places := by
        rw [Stmt.places_eq]
        exact List.mem_cons_self
      rw [span_treeOf]
      exact (fits_of_mem_statementsRead hread ht hplace).within_iff _

/-- An assignment of a text with a character of two bytes. -/
def accentSource : String :=
  "x = \"é\""

/-- The assignment at its places in bytes. -/
def accentStatement : Stmt :=
  .assign ⟨1, 0, 1, 8⟩ false [.name ⟨1, 0, 1, 1⟩ "x"] (some (.constant ⟨1, 4, 1, 8⟩ true))

/-- What reading texts answers. -/
def accentReading (text : String) : Reading :=
  if text = accentSource then .statements [accentStatement] else .refused

/-- The assignment ends in column 8 of a line with 7 characters, behind the root. -/
theorem columns_count_bytes_of_accent :
    FitsTexts accentReading accentSource ∧
      ∃ parsed looks,
        (build accentReading accentSource "a.py" "python").outcome .unlimited
            = (.ok parsed, looks) ∧
          ∃ child ∈ parsed.tree.children, child.span.endColumn = 8 ∧
            parsed.tree.span.endColumn = 7 ∧ ¬ child.span.Within parsed.tree.span := by
  have hlines : feedLines accentSource.toList = [accentSource.toList] := by decide +kernel
  have hfits : FitsTexts accentReading accentSource := by
    intro text _ body hbody t ht p hp
    unfold accentReading at hbody
    split at hbody
    · rename_i htext
      cases hbody
      rw [List.mem_singleton.1 ht, Stmt.places_eq] at hp
      have hstop : ∃ front, BytesBehind [accentSource.toList] front 1 8 :=
        ⟨accentSource.toList, 0, [], rfl, by decide +kernel, by decide +kernel⟩
      have hplaces : p = ⟨1, 0, 1, 8⟩ ∨ p = ⟨1, 4, 1, 8⟩ := by
        simpa [accentStatement, Stmt.values, Stmt.inside, Stmt.bodies, Stmt.place,
          Expr.within_eq, Expr.parts, Expr.place] using hp
      rw [htext, hlines]
      rcases hplaces with rfl | rfl
      · exact ⟨⟨[], 0, accentSource.toList, rfl, rfl, rfl⟩, hstop⟩
      · exact ⟨⟨"x = ".toList, 0, "\"é\"".toList, rfl, by decide +kernel, by decide +kernel⟩, hstop⟩
    · cases hbody
  have hread : accentReading accentSource = .statements [accentStatement] := if_pos rfl
  obtain ⟨parsed, looks, h⟩ := exists_build_of_statements "a.py" "python" hread
  obtain ⟨-, -, hwithin⟩ := columns_count_bytes hfits h
  have htree : parsed.tree = Parsed.moduleTree accentSource "a.py"
      (sourceTrees accentReading accentSource "a.py") := tree_of_build h
  have hroot : parsed.tree.span = ⟨"a.py", 1, 0, 1, 7⟩ := by
    rw [htree]
    decide +kernel
  have hchild : treeOf "a.py" 0 accentStatement ∈ parsed.tree.children := by
    rw [htree, sourceTrees, hread]
    show _ ∈ treesOf _ _ _
    rw [treesOf_eq]
    exact List.mem_singleton_self _
  refine ⟨hfits, parsed, looks, h, _, hchild, ?_, ?_, ?_⟩
  · rw [span_treeOf]
    rfl
  · rw [hroot]
  · rw [hwithin _ hchild (by rw [tag_treeOf]; decide), hroot, span_treeOf]
    decide

end CodeHabits.Python
