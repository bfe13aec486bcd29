import RubyPress.Proofs.Render.Written

/-!
# Texts within texts

The text of a node holds the texts of the nodes written in it, and so does the text of any tree that
these are written in, at all entry points.
-/

namespace RubyPress

open Render

/-- The second node is written in the text of the first, or is the first itself. -/
def Node.Writes (style : LiteralStyle) : Node → Node → Prop :=
  Relation.ReflTransGen fun node other => other ∈ node.written style

theorem Node.Everywhere.of_writes {p : Node → Prop} {style : LiteralStyle} {node other : Node}
    (hnode : node.Everywhere p) (h : node.Writes style other) : other.Everywhere p := by
  induction h with
  | refl => exact hnode
  | tail _ hmem ih => exact ih.of_near (near_of_mem_written hmem)

namespace Render

section Pieces

variable {separator : Separator} {emit : Node → Except Unsupported (List Char)} {node : Node}
  {pieces inner : List Piece} {content : List Char}

theorem exists_infix_writePieces (hinner : inner <:+: pieces)
    (h : writePieces separator emit pieces = .ok content) :
    ∃ part, writePieces separator emit inner = .ok part ∧ part <:+: content := by
  obtain ⟨before, after, rfl⟩ := hinner
  obtain ⟨front, last, hfront, -, rfl⟩ := writePieces_append_eq_ok.1 h
  obtain ⟨first, part, -, hpart, rfl⟩ := writePieces_append_eq_ok.1 hfront
  exact ⟨part, hpart, List.infix_append _ _ _⟩

theorem exists_infix_of_mem_nested (hnode : node ∈ nested pieces)
    (h : writePieces separator emit pieces = .ok content) :
    ∃ part, emit node = .ok part ∧ part <:+: content := by
  obtain ⟨before, after, rfl⟩ := List.append_of_mem (mem_nested.1 hnode)
  have hinner : [.child node] <:+: before ++ .child node :: after :=
    List.infix_append' before [.child node] after
  obtain ⟨part, hpart, hinfix⟩ := exists_infix_writePieces hinner h
  exact ⟨part, writePieces_child_eq_ok.1 hpart, hinfix⟩

theorem infix_intercalate {α : Type} {joiner part : List α} {parts : List (List α)}
    (h : part ∈ parts) : part <:+: joiner.intercalate parts := by
  induction parts with
  | nil => cases h
  | cons first parts ih =>
      cases parts with
      | nil =>
          obtain rfl := List.mem_singleton.1 h
          rw [List.intercalate_singleton]
      | cons second parts =>
          rw [List.intercalate_cons_cons, List.append_assoc]
          rcases List.mem_cons.1 h with rfl | h
          · exact (List.prefix_append _ _).isInfix
          · rw [← List.append_assoc]
            exact (ih h).trans (List.suffix_append _ _).isInfix

end Pieces

variable {config : RenderConfig} {tree node : Node}

theorem exists_infix_of_writes {room : Nat} (hroom : room ≤ maxDepth) {content : List Char}
    (hcontent : write config room tree = .ok content) (h : tree.Writes config.style node) :
    ∃ part, write config maxDepth node = .ok part ∧ part <:+: content := by
  induction h using Relation.ReflTransGen.head_induction_on generalizing room content with
  | refl => exact ⟨content, write_mono hroom hcontent, List.infix_rfl⟩
  | head hother _ ih =>
      obtain ⟨less, pieces, rfl, hrule, hpieces⟩ := exists_of_write hcontent
      rw [← nested_rule hrule] at hother
      obtain ⟨inner, hinner, hinfix⟩ := exists_infix_of_mem_nested hother hpieces
      obtain ⟨part, hpart, hwithin⟩ := ih (Nat.le_of_succ_le hroom) hinner
      exact ⟨part, hpart, hwithin.trans hinfix⟩

variable {content : String}

theorem writes_of_mem_statements {style : LiteralStyle} (h : node ∈ tree.statements) :
    tree.Writes style node := by
  cases tree with
  | block statements => exact .single h
  | _ => exact List.mem_singleton.1 h ▸ .refl

/-- What is written in a tree is written in one of its statements, unless it is the list of them. -/
theorem exists_statement_of_writes {style : LiteralStyle}
    (hnode : ∀ statements, node ≠ .block statements) (h : tree.Writes style node) :
    ∃ statement ∈ tree.statements, statement.Writes style node := by
  cases tree with
  | block statements =>
      rcases Relation.ReflTransGen.cases_head h with heq | ⟨other, hother, h⟩
      · exact absurd heq.symm (hnode statements)
      · exact ⟨other, hother, h⟩
  | _ => exact ⟨_, List.mem_singleton_self _, h⟩

theorem exists_infix_of_mem_statements (h : renderNode config tree = .ok content ∨
    renderStatements config tree = .ok content ∨ renderProgram config tree = .ok content) :
    ∀ statement ∈ tree.statements,
      ∃ part, write config maxDepth statement = .ok part ∧ part <:+: content.toList := by
  intro statement hstatement
  rcases h with h | h | h
  · exact exists_infix_of_writes (Nat.le_refl _) (renderNode_eq_ok.1 h)
      (writes_of_mem_statements hstatement)
  · rw [← @nested_statements config.style] at hstatement
    exact exists_infix_of_mem_nested hstatement (renderStatements_eq_ok.1 h)
  · obtain ⟨texts, htexts, rfl⟩ := renderProgram_eq_ok.1 h
    have hmem : renderNode config statement ∈ texts.map .ok :=
      htexts ▸ List.mem_map_of_mem hstatement
    obtain ⟨text, htext, hrender⟩ := List.mem_map.1 hmem
    refine ⟨text.toList, renderNode_eq_ok.1 hrender.symm, ?_⟩
    by_cases hempty : text = ""
    · -- A statement without text is left out of a program, but then it has no parts either.
      subst hempty
      exact List.nil_infix
    · rw [String.toList_intercalate]
      have hkept : text ∈ texts.filter (· ≠ "") := List.mem_filter.2 ⟨htext, by simpa using hempty⟩
      exact infix_intercalate (List.mem_map_of_mem hkept)

/-- **Texts within texts.** What is written in a statement of a tree has a text, and it is a part of
the text of the tree. -/
theorem exists_text_of_writes (hcontent : renderNode config tree = .ok content ∨
      renderStatements config tree = .ok content ∨ renderProgram config tree = .ok content)
    {statement : Node} (hstatement : statement ∈ tree.statements)
    (h : statement.Writes config.style node) :
    ∃ text, renderNode config node = .ok text ∧ text.toList <:+: content.toList := by
  obtain ⟨outer, houter, hinfix⟩ := exists_infix_of_mem_statements hcontent statement hstatement
  obtain ⟨part, hpart, hwithin⟩ := exists_infix_of_writes (Nat.le_refl _) houter h
  refine ⟨String.ofList part, ?_, ?_⟩
  · rw [renderNode_eq_ok, String.toList_ofList]
    exact hpart
  · rw [String.toList_ofList]
    exact hwithin.trans hinfix

end Render

end RubyPress
