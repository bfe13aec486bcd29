import RubyPress.Proofs.Render.Pieces
import RubyPress.Proofs.Ruby.Scan

/-!
# Line breaks

Line breaks come from separators and from nowhere else: fixed text, numbers and literals are
printable, and names are taken as they are. So a text with semicolons is the text with line breaks
in which every line break has become a semicolon, and whatever cannot be written with one separator
cannot be written with the other for the same reason.
-/

namespace RubyPress

namespace Render

def HasNoBreak (node : Node) : Prop := ∀ name ∈ node.names, '\n' ∉ name.toList

instance (node : Node) : Decidable (HasNoBreak node) :=
  inferInstanceAs (Decidable (∀ name ∈ node.names, '\n' ∉ name.toList))

/-- What stands in a text with semicolons where the character stands in a text with line breaks. -/
def joinLine (c : Char) : Char := if c = '\n' then ';' else c

/-- The text with a semicolon for every line break. -/
def oneLine (content : String) : String := content.map joinLine

theorem joinLine_ne_newline (c : Char) : joinLine c ≠ '\n' := by
  unfold joinLine
  split
  · decide
  · assumption

theorem not_mem_map_joinLine (content : List Char) : '\n' ∉ content.map joinLine := by
  intro h
  obtain ⟨c, -, hc⟩ := List.mem_map.1 h
  exact joinLine_ne_newline c hc

theorem map_joinLine_of_not_mem {content : List Char} (h : '\n' ∉ content) :
    content.map joinLine = content := by
  have hself : ∀ c ∈ content, joinLine c = c := by
    intro c hc
    refine if_neg ?_
    rintro rfl
    exact h hc
  rw [List.map_congr_left hself, List.map_id']

theorem ofList_map_joinLine (content : List Char) :
    String.ofList (content.map joinLine) = oneLine (String.ofList content) := by
  rw [oneLine, String.map_eq_internal, String.toList_ofList]

theorem not_mem_text {node : Node} (hnode : HasNoBreak node) {content : List Char}
    (h : (Piece.text content).Of node) : '\n' ∉ content := by
  intro hmem
  rcases h '\n' hmem with hprintable | hletter
  · exact absurd hprintable (by decide)
  · obtain ⟨name, hname, hmem⟩ := List.mem_flatMap.1 hletter
    rcases List.mem_append.1 hname with hname | hsymbol
    · exact hnode name hname hmem
    · cases node with
      | symbol value =>
          rw [Node.plainSymbols] at hsymbol
          split at hsymbol
          · next hplain =>
              rw [List.mem_singleton.1 hsymbol] at hmem
              exact absurd (Ruby.isNameChar_of_isPlain hplain _ hmem) (by decide)
          · cases hsymbol
      | _ => cases hsymbol

/-! ### Two ways to write a tree -/

section TwoWays

variable (style : LiteralStyle) {node : Node}
  {emit emitLines : Node → Except Unsupported (List Char)}

theorem writePieces_semicolon (hnode : HasNoBreak node) {pieces : List Piece}
    (hpieces : Pieces node pieces)
    (hemit : ∀ other, node.Near other → emit other = (emitLines other).map (·.map joinLine)) :
    writePieces .semicolon emit pieces =
      (writePieces .newline emitLines pieces).map (·.map joinLine) := by
  induction pieces with
  | nil => rfl
  | cons piece pieces ih =>
      obtain ⟨hpiece, hpieces⟩ := List.forall_mem_cons.1 hpieces
      have hfirst : writePiece .semicolon emit piece =
          (writePiece .newline emitLines piece).map (·.map joinLine) := by
        cases piece with
        | text content =>
            have hcontent := map_joinLine_of_not_mem (not_mem_text hnode hpiece)
            exact congrArg Except.ok hcontent.symm
        | separator => rfl
        | child other => exact hemit other hpiece
      rw [writePieces, writePieces, hfirst, ih hpieces]
      cases writePiece .newline emitLines piece with
      | error cause => rfl
      | ok first =>
          cases writePieces .newline emitLines pieces with
          | error cause => rfl
          | ok rest => exact congrArg Except.ok List.map_append.symm

theorem write_semicolon (hnode : node.Everywhere HasNoBreak) (room : Nat) :
    write ⟨.semicolon, style⟩ room node =
      (write ⟨.newline, style⟩ room node).map (·.map joinLine) := by
  induction room generalizing node with
  | zero => rfl
  | succ room ih =>
      rw [write, write]
      split
      · next hrule =>
          simp only [hrule]
          rfl
      · next pieces hrule =>
          simp only [hrule]
          exact writePieces_semicolon (Node.everywhere_iff.1 hnode).1 (pieces_rule hrule)
            fun other hnear => ih (hnode.of_near hnear)

theorem writeEach_semicolon {nodes : List Node}
    (hnodes : ∀ node ∈ nodes, node.Everywhere HasNoBreak) (index : Nat) :
    writeEach ⟨.semicolon, style⟩ index nodes =
      (writeEach ⟨.newline, style⟩ index nodes).map (·.map (·.map joinLine)) := by
  induction nodes generalizing index with
  | nil => rfl
  | cons node nodes ih =>
      rw [List.forall_mem_cons] at hnodes
      rw [writeEach, writeEach, write_semicolon style hnodes.1, ih hnodes.2]
      cases write ⟨.newline, style⟩ maxDepth node with
      | error cause => rfl
      | ok first => cases writeEach ⟨.newline, style⟩ (index + 1) nodes <;> rfl

end TwoWays

end Render

open Render

section EntryPoints

variable (style : LiteralStyle) {tree : Node}

theorem renderNode_semicolon (htree : tree.Everywhere HasNoBreak) :
    renderNode ⟨.semicolon, style⟩ tree = (renderNode ⟨.newline, style⟩ tree).map oneLine := by
  rw [renderNode, renderNode, write_semicolon style htree]
  cases write ⟨.newline, style⟩ maxDepth tree with
  | error cause => rfl
  | ok content => exact congrArg Except.ok (ofList_map_joinLine content)

theorem renderStatements_semicolon (htree : tree.Everywhere HasNoBreak) :
    renderStatements ⟨.semicolon, style⟩ tree =
      (renderStatements ⟨.newline, style⟩ tree).map oneLine := by
  -- The statements of a body are pieces of anything that has the body as a part.
  have hpieces : Pieces (.ret tree) (statements style tree) := pieces_statements (.head _)
  have hwhole : (Node.ret tree).Everywhere HasNoBreak :=
    .intro (List.forall_mem_nil _) (List.forall_mem_singleton.2 htree)
  have hwrite := writePieces_semicolon (Node.everywhere_iff.1 hwhole).1 hpieces
    fun other hnear => write_semicolon style (hwhole.of_near hnear) maxDepth
  rw [renderStatements, renderStatements, hwrite]
  cases writePieces .newline (write ⟨.newline, style⟩ maxDepth) (statements style tree) with
  | error cause => rfl
  | ok content => exact congrArg Except.ok (ofList_map_joinLine content)

theorem renderProgram_semicolon_eq_error (htree : tree.Everywhere HasNoBreak)
    (error : RenderError) :
    renderProgram ⟨.semicolon, style⟩ tree = .error error ↔
      renderProgram ⟨.newline, style⟩ tree = .error error := by
  rw [renderProgram, renderProgram,
    writeEach_semicolon style fun statement hmem => htree.of_mem_statements hmem]
  cases writeEach ⟨.newline, style⟩ 0 tree.statements with
  | error other => exact Iff.rfl
  | ok texts => constructor <;> intro h <;> cases h

theorem renderProgram_semicolon_eq_ok (htree : tree.Everywhere HasNoBreak) {texts : List String}
    (htexts : tree.statements.map (renderNode ⟨.newline, style⟩) = texts.map .ok) :
    renderProgram ⟨.semicolon, style⟩ tree =
      .ok ("\n".intercalate ((texts.map oneLine).filter (· ≠ ""))) := by
  have hlines : tree.statements.map (renderNode ⟨.semicolon, style⟩) =
      (tree.statements.map (renderNode ⟨.newline, style⟩)).map (·.map oneLine) := by
    rw [List.map_map]
    exact List.map_congr_left fun statement hmem =>
      renderNode_semicolon style (htree.of_mem_statements hmem)
  refine renderProgram_eq_ok.2 ⟨texts.map oneLine, ?_, rfl⟩
  rw [hlines, htexts, List.map_map, List.map_map]
  rfl

/-- **Separators differ in one character.** Written with semicolons, a tree without line breaks in
its names fails as it does with line breaks, or else every line break of its text has become a
semicolon. In a program this holds of each statement, and line breaks remain only between them. -/
theorem render_semicolon (htree : tree.Everywhere HasNoBreak) :
    renderNode ⟨.semicolon, style⟩ tree = (renderNode ⟨.newline, style⟩ tree).map oneLine ∧
    renderStatements ⟨.semicolon, style⟩ tree =
      (renderStatements ⟨.newline, style⟩ tree).map oneLine ∧
    (∀ error, renderProgram ⟨.semicolon, style⟩ tree = .error error ↔
      renderProgram ⟨.newline, style⟩ tree = .error error) ∧
    ∀ content, renderProgram ⟨.newline, style⟩ tree = .ok content →
      ∃ texts : List String,
        tree.statements.map (renderNode ⟨.newline, style⟩) = texts.map .ok ∧
        content = "\n".intercalate (texts.filter (· ≠ "")) ∧
        renderProgram ⟨.semicolon, style⟩ tree =
          .ok ("\n".intercalate ((texts.map oneLine).filter (· ≠ ""))) ∧
        ∀ text ∈ texts, '\n' ∉ (oneLine text).toList := by
  refine ⟨renderNode_semicolon style htree, renderStatements_semicolon style htree,
    renderProgram_semicolon_eq_error style htree, fun content hcontent => ?_⟩
  obtain ⟨texts, htexts, hjoined⟩ := renderProgram_eq_ok.1 hcontent
  refine ⟨texts, htexts, hjoined, renderProgram_semicolon_eq_ok style htree htexts, ?_⟩
  intro text _
  rw [oneLine, String.toList_map]
  exact not_mem_map_joinLine text.toList

end EntryPoints

/-- The line break in a literal is none in the text, and the line breaks around an empty statement
become semicolons like all others. -/
theorem render_semicolon_of_definition :
    let tree : Node := .block [
      .definition "f" ["x"] (.block [.string "a\nb", .ret (.localRead "x")]), .nil, .symbol "f"]
    renderStatements ⟨.newline, .verbose⟩ tree =
        .ok "def f(x)\n\"a\\nb\"\nx\nend\n\n:f" ∧
      renderStatements ⟨.semicolon, .verbose⟩ tree =
        .ok "def f(x);\"a\\nb\";x;end;;:f" := by
  intro tree
  have htree : tree.Everywhere HasNoBreak := by
    repeat' first
      | exact List.forall_mem_nil _
      | refine List.forall_mem_cons.2 ⟨?_, ?_⟩
      | refine .intro (by decide) ?_
  have hlines : renderStatements ⟨.newline, .verbose⟩ tree =
      .ok "def f(x)\n\"a\\nb\"\nx\nend\n\n:f" := by decide
  refine ⟨hlines, ?_⟩
  rw [(render_semicolon .verbose htree).2.1, hlines]
  decide +kernel

end RubyPress
