import RubyPress.Proofs.Render.Levels

/-!
# Texts of statements put together

The statements of a body and of a program are written one by one. A body is their texts with
separators between them, a program is those of them that are not empty with line breaks between
them, and both fail where the first of their statements does. This holds of texts that are put
together as well as of a draft from which a line break is taken back.
-/

namespace RubyPress

open Render

namespace Render

variable {config : RenderConfig} {style : LiteralStyle} {separator : Separator}
  {emit : Node → Except Unsupported (List Char)} {nodes : List Node} {tree : Node}

theorem writePieces_statementList {texts : List (List Char)}
    (h : nodes.map emit = texts.map .ok) :
    writePieces separator emit ((nodes.map Piece.child).intersperse .separator) =
      .ok (separator.text.toList.intercalate texts) := by
  induction nodes generalizing texts with
  | nil =>
      obtain rfl := List.map_eq_nil_iff.1 h.symm
      rfl
  | cons node nodes ih =>
      obtain ⟨first, rest, rfl, hfirst, hrest⟩ := List.map_eq_cons_iff.1 h.symm
      cases nodes with
      | nil =>
          obtain rfl := List.map_eq_nil_iff.1 hrest
          rw [List.intercalate_singleton]
          exact writePieces_child_eq_ok.2 hfirst.symm
      | cons second nodes =>
          have hne : rest ≠ [] := by
            rintro rfl
            cases hrest
          have hlist : ((node :: second :: nodes).map Piece.child).intersperse .separator =
              .child node :: .separator ::
                ((second :: nodes).map Piece.child).intersperse .separator := rfl
          rw [hlist, writePieces_cons (.child node) hfirst.symm, writePieces_cons _ rfl,
            ih hrest.symm, List.intercalate_cons_of_ne_nil hne, List.append_assoc]
          rfl

theorem statements_of_ne_nil (h : tree.statements ≠ []) :
    statements style tree = (tree.statements.map Piece.child).intersperse .separator := by
  unfold statements
  split
  · next hnil => exact absurd hnil h
  · rfl

theorem statements_of_eq_nil (h : tree.statements = []) :
    statements style tree = [text style.emptyBlock] := by
  rw [statements, h]

theorem writeEach_eq_error {before after : List Node} {statement : Node} {cause : Unsupported}
    (hbefore : ∀ earlier ∈ before, ∃ content, write config maxDepth earlier = .ok content)
    (hstatement : write config maxDepth statement = .error cause) (index : Nat) :
    writeEach config index (before ++ statement :: after) =
      .error ⟨cause, some (index + before.length)⟩ := by
  induction before generalizing index with
  | nil =>
      rw [List.nil_append, writeEach, hstatement]
      rfl
  | cons earlier before ih =>
      rw [List.forall_mem_cons] at hbefore
      obtain ⟨⟨content, hcontent⟩, hbefore⟩ := hbefore
      rw [List.cons_append, writeEach, hcontent, ih hbefore, List.length_cons]
      simp only [Nat.add_assoc, Nat.add_comm 1]

theorem writePieces_statements_eq_error {before after : List Node} {statement : Node}
    {cause : Unsupported} (htree : tree.statements = before ++ statement :: after)
    (hbefore : ∀ earlier ∈ before, ∃ content, emit earlier = .ok content)
    (hstatement : emit statement = .error cause) :
    writePieces separator emit (statements style tree) = .error cause := by
  rw [← failure?_eq_some_iff, failure?_writePieces, nested_statements, htree,
    List.findSome?_append, List.findSome?_eq_none_iff.2, Option.none_or, List.findSome?_cons,
    hstatement]
  · rfl
  · exact fun earlier hearlier => failure?_eq_none_iff.2 (hbefore earlier hearlier)

/-- Written as a list of statements, a node has the same text. -/
theorem writePieces_statements_of_write {content : List Char} {room : Nat}
    (h : write config room tree = .ok content) :
    writePieces config.separator (write config room) (statements config.style tree) =
      .ok content := by
  cases tree with
  | block list =>
      obtain ⟨less, pieces, rfl, hrule, hpieces⟩ := exists_of_write h
      obtain rfl := Except.ok.inj hrule
      exact writePieces_mono (fun node content => write_mono (Nat.le_succ less)) hpieces
  | _ => exact writePieces_child_eq_ok.2 h

theorem renderStatements_of_texts {texts : List String}
    (h : tree.statements.map (renderNode config) = texts.map .ok) :
    renderStatements config tree = .ok (if tree.statements = [] then config.style.emptyBlock
      else config.separator.text.intercalate texts) := by
  rw [renderStatements_eq_ok]
  split_ifs with htree
  · rw [statements_of_eq_nil htree]
    exact writePieces_text
  · have hletters : tree.statements.map (write config maxDepth) =
        (texts.map String.toList).map .ok := by
      rw [← forall₂_iff_map_eq, List.forall₂_map_right_iff]
      simpa only [renderNode_eq_ok] using forall₂_iff_map_eq.2 h
    rw [statements_of_ne_nil htree, writePieces_statementList hletters, String.toList_intercalate]

theorem write_of_renderNode {error : RenderError} (h : renderNode config tree = .error error) :
    write config maxDepth tree = .error error.cause ∧ error.statement = none := by
  rw [renderNode] at h
  split at h
  · next hcause =>
      obtain rfl := Except.error.inj h
      exact ⟨hcause, rfl⟩
  · cases h

end Render

/-- **Statements are put together from their texts.** With the texts of all statements, a body is
these with separators between them, and a program is those that are not empty, one per line. The
first statement without a text gives both their error, and a program tells which one it was. A node
that has a text keeps it as a body. The entry points that work on a draft do the same. -/
theorem render_joins_texts (config : RenderConfig) (tree : Node) :
    (Draft.renderNode config tree = renderNode config tree ∧
      Draft.renderStatements config tree = renderStatements config tree ∧
      Draft.renderProgram config tree = renderProgram config tree) ∧
    (∀ texts : List String, tree.statements.map (renderNode config) = texts.map .ok →
      renderStatements config tree = .ok (if tree.statements = [] then config.style.emptyBlock
        else config.separator.text.intercalate texts) ∧
      renderProgram config tree = .ok ("\n".intercalate (texts.filter (· ≠ "")))) ∧
    (∀ before statement after error, tree.statements = before ++ statement :: after →
      (∀ earlier ∈ before, ∃ text, renderNode config earlier = .ok text) →
      renderNode config statement = .error error →
      renderStatements config tree = .error error ∧
        renderProgram config tree = .error { error with statement := some before.length }) ∧
    ∀ content, renderNode config tree = .ok content →
      renderStatements config tree = .ok content := by
  refine ⟨⟨Draft.renderNode_eq config tree, Draft.renderStatements_eq config tree,
    Draft.renderProgram_eq config tree⟩, fun texts htexts => ⟨?_, ?_⟩,
    fun before statement after error htree hbefore hstatement => ⟨?_, ?_⟩,
    fun content hcontent => ?_⟩
  · exact renderStatements_of_texts htexts
  · exact renderProgram_eq_ok.2 ⟨texts, htexts, rfl⟩
  · obtain ⟨hcause, hnone⟩ := write_of_renderNode hstatement
    rw [renderStatements, writePieces_statements_eq_error htree
      (fun earlier hearlier => renderNode_isOk.1 (hbefore earlier hearlier)) hcause, ← hnone]
  · rw [renderProgram, htree, writeEach_eq_error
      (fun earlier hearlier => renderNode_isOk.1 (hbefore earlier hearlier))
      (write_of_renderNode hstatement).1, Nat.zero_add]
  · exact renderStatements_eq_ok.2 (writePieces_statements_of_write (renderNode_eq_ok.1 hcontent))

/-- Statements without text around two that have one, and in front of two that cannot be written. -/
theorem render_joins_texts_of_silent :
    let statements : List Node := [.nil, .localRead "a", .ret (.block [.nil]), .selfRef, .block []]
    let refused : List Node := [.hash [.selfRef] [], .unmapped "while"]
    (renderStatements .compact (.block statements) = .ok ";a;;self;" ∧
      renderProgram .compact (.block statements) = .ok "a\nself") ∧
    (∃ error, renderStatements .compact (.block (statements ++ refused)) = .error error ∧
      renderProgram .compact (.block (statements ++ refused)) =
        .error { error with statement := some 5 }) ∧
    renderStatements .compact (.block [.block statements]) = .ok ";a;;self;" := by
  intro statements refused
  have htexts : statements.map (renderNode .compact) = ["", "a", "", "self", ""].map .ok := by
    decide
  have hrefused : renderNode .compact (.hash [.selfRef] []) = .error ⟨.hashMismatch 1 0, none⟩ := by
    decide
  have hbefore : ∀ earlier ∈ statements, ∃ text, renderNode .compact earlier = .ok text := by
    intro earlier hearlier
    have hmem : renderNode .compact earlier ∈ ["", "a", "", "self", ""].map .ok :=
      htexts ▸ List.mem_map_of_mem hearlier
    obtain ⟨text, -, htext⟩ := List.mem_map.1 hmem
    exact ⟨text, htext.symm⟩
  exact ⟨(render_joins_texts .compact (.block statements)).2.1 _ htexts,
    ⟨_, (render_joins_texts .compact (.block (statements ++ refused))).2.2.1 statements _ _ _ rfl
      hbefore hrefused⟩,
    (render_joins_texts .compact (.block [.block statements])).2.2.2 _ (by decide)⟩

end RubyPress
