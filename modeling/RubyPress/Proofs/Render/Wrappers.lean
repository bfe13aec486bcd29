import RubyPress.Proofs.Render.Levels

/-!
# Wrappers

A return of a value and a block of one statement have no text of their own: the text is that of the
node inside. How tightly an operand binds is told from the innermost such node, while its text is
written wrapper by wrapper, so the two have to come to the same node however the wrappers are
stacked. They do, and a wrapped operand differs from the bare one in one way only. Every wrapper is
one more open node, so the wrapped operand can be too deep where the bare one is not.
-/

namespace RubyPress

open Render

namespace Node

variable {node inner other : Node}

/-- The first node has the text of the second and nothing around it. -/
inductive Wraps : Node → Node → Prop where
  | ret {argument : Node} (hargument : argument ≠ .nil) : Wraps (.ret argument) argument
  | block (statement : Node) : Wraps (.block [statement]) statement

theorem Wraps.rendered_eq (h : node.Wraps inner) : node.rendered = inner.rendered := by
  cases h with
  | ret hargument => exact rendered_ret hargument
  | block => rfl

theorem Wraps.rule_eq (h : node.Wraps inner) (style : LiteralStyle) :
    rule style node = .ok [.child inner] := by
  cases h with
  | ret hargument => exact rule_ret hargument style
  | block => rfl

theorem Wraps.writable_iff (h : node.Wraps inner) : node.Writable ↔ inner.Writable := by
  have hrule := h.rule_eq .verbose
  have hwritten : node.written .verbose = [inner] := (nested_rule hrule).symm
  rw [Render.writable_iff .verbose, hwritten, List.forall_mem_singleton]
  exact and_iff_right (rule_isOk.1 ⟨_, hrule⟩)

theorem reaches_rendered (node : Node) : Relation.ReflTransGen Wraps node node.rendered := by
  induction node using Node.rendered.induct with
  | case1 => exact .refl
  | case2 argument hargument ih =>
      have hwraps : Wraps (.ret argument) argument := .ret hargument
      rw [hwraps.rendered_eq]
      exact .head hwraps ih
  | case3 statement ih => exact .head (.block statement) ih
  | case4 node hnil hret hblock =>
      rw [rendered_eq_self hret hblock]

theorem not_wraps_rendered (node inner : Node) : ¬node.rendered.Wraps inner := by
  induction node using Node.rendered.induct with
  | case1 =>
      intro hwraps
      cases hwraps with
      | ret hargument => exact hargument rfl
  | case2 argument hargument ih =>
      have hwraps : Wraps (.ret argument) argument := .ret hargument
      rwa [hwraps.rendered_eq]
  | case3 statement ih => exact ih
  | case4 node hnil hret hblock =>
      rw [rendered_eq_self hret hblock]
      intro hwraps
      cases hwraps with
      | ret => exact hret _ rfl
      | block => exact hblock _ rfl

theorem rendered_eq_of_reaches (h : Relation.ReflTransGen Wraps node other) :
    node.rendered = other.rendered := by
  induction h with
  | refl => rfl
  | tail _ hwraps ih => rw [ih, hwraps.rendered_eq]

theorem rendered_rendered (node : Node) : node.rendered.rendered = node.rendered :=
  (rendered_eq_of_reaches node.reaches_rendered).symm

/-- There is one way through the wrappers, and it ends at the rendered node. -/
theorem eq_rendered_iff : other = node.rendered ↔
    Relation.ReflTransGen Wraps node other ∧ ∀ inner, ¬other.Wraps inner := by
  constructor
  · rintro rfl
    exact ⟨node.reaches_rendered, node.not_wraps_rendered⟩
  · rintro ⟨hreaches, hlast⟩
    rw [rendered_eq_of_reaches hreaches]
    rcases Relation.ReflTransGen.cases_head other.reaches_rendered with heq | ⟨inner, hwraps, -⟩
    · exact heq
    · exact absurd hwraps (hlast inner)

theorem writable_iff_of_reaches (h : Relation.ReflTransGen Wraps node other) :
    node.Writable ↔ other.Writable := by
  induction h with
  | refl => rfl
  | tail _ hwraps ih => rw [ih, hwraps.writable_iff]

end Node

namespace Render

variable {config : RenderConfig} {style : LiteralStyle} {separator : Separator}
  {emit : Node → Except Unsupported (List Char)} {least : Precedence} {node inner : Node}
  {room : Nat} {content : List Char} {cause : Unsupported}

theorem write_of_wraps (h : node.Wraps inner) (hcontent : write config room node = .ok content) :
    write config room inner = .ok content := by
  obtain ⟨less, pieces, rfl, hrule, hpieces⟩ := exists_of_write hcontent
  obtain rfl := Except.ok.inj ((h.rule_eq config.style).symm.trans hrule)
  exact write_mono (Nat.le_succ less) (writePieces_child_eq_ok.1 hpieces)

theorem write_of_reaches (h : Relation.ReflTransGen Node.Wraps node inner)
    (hcontent : write config room node = .ok content) : write config room inner = .ok content := by
  induction h with
  | refl => exact hcontent
  | tail _ hwraps ih => exact write_of_wraps hwraps ih

/-- Where the bare node has a text, only a lack of room keeps the wrapped one from it. -/
theorem exists_tooDeep_of_reaches (h : Relation.ReflTransGen Node.Wraps node inner)
    (hinner : write config room inner = .ok content)
    (hcause : write config room node = .error cause) : ∃ kind, cause = .tooDeep kind := by
  have hwritable := (Node.writable_iff_of_reaches h).2 (writable_of_write hinner)
  have hfailure := failure?_write config room hwritable
  rw [failure?_eq_some_iff.2 hcause] at hfailure
  obtain ⟨other, -, hkind⟩ := Option.map_eq_some_iff.1 hfailure.symm
  exact ⟨other.kind, hkind.symm⟩

theorem precedence_rendered (style : LiteralStyle) (node : Node) :
    precedence style node.rendered = precedence style node := by
  rw [precedence, node.rendered_rendered, ← precedence]

theorem failure?_operand : failure? (writePieces separator emit (operand style least node)) =
    failure? (emit node) := by
  rw [failure?_writePieces, nested_operand, List.findSome?_singleton]

theorem operand_cases (hlevel : precedence style inner = precedence style node) :
    operand style least node = [text "(", .child node, text ")"] ∧
        operand style least inner = [text "(", .child inner, text ")"] ∨
      operand style least node = [.child node] ∧ operand style least inner = [.child inner] := by
  unfold operand
  rw [hlevel]
  split_ifs
  · exact .inl ⟨rfl, rfl⟩
  · exact .inr ⟨rfl, rfl⟩

/-- An operand that is written for another one of the same strength is written in the same way. -/
theorem writePieces_operand_congr (hlevel : precedence style inner = precedence style node)
    (hemit : ∀ text, emit node = .ok text → emit inner = .ok text)
    (h : writePieces separator emit (operand style least node) = .ok content) :
    writePieces separator emit (operand style least inner) = .ok content := by
  unfold operand at h ⊢
  rw [hlevel]
  split_ifs at h ⊢
  · have henclosed : writePieces separator emit (text "(" :: [.child node] ++ [text ")"]) =
        .ok content := h
    obtain ⟨letters, hletters, rfl⟩ := writePieces_enclosed_eq_ok.1 henclosed
    have hinner : writePieces separator emit [.child inner] = .ok letters :=
      writePieces_child_eq_ok.2 (hemit letters (writePieces_child_eq_ok.1 hletters))
    exact writePieces_enclosed_eq_ok.2 ⟨letters, hinner, rfl⟩
  · exact writePieces_child_eq_ok.2 (hemit content (writePieces_child_eq_ok.1 h))

end Render

namespace Draft

/-- An operand in a draft. -/
def addOperand (config : RenderConfig) (least : Precedence) (node : Node) : Step :=
  addPieces config.separator (operand config.style least node) fun child _ => addNode config child

theorem adds_operand (config : RenderConfig) (least : Precedence) (node : Node) (draft : Draft) :
    Adds draft (writePieces config.separator (write config (maxDepth - draft.depth))
      (operand config.style least node)) (addOperand config least node draft) := by
  refine adds_pieces (fun child _ after hafter => ?_) rfl
  rw [← hafter]
  exact adds_node config child after

end Draft

/-- **Wrappers are transparent to operands.** The rendered node is the one node that is reached
through the wrappers and wraps no other. It binds as tightly as the node itself, so that both stand
in parentheses as operands or neither does. Where the node has a text as an operand, the rendered
node has the same one. Where only the rendered node has one, the node is too deep. A draft gains
these texts for the levels that are left in it, and where it gains that of the node the rendered
node leaves it in the same state. -/
theorem operand_rendered (config : RenderConfig) (least : Precedence) (node : Node) :
    let inner := node.rendered
    let written (room : Nat) (node : Node) :=
      writePieces config.separator (write config room) (operand config.style least node)
    (∀ other, other = inner ↔
      Relation.ReflTransGen Node.Wraps node other ∧ ∀ next, ¬other.Wraps next) ∧
    precedence config.style node = precedence config.style inner ∧
    (operand config.style least node = [text "(", .child node, text ")"] ∧
        operand config.style least inner = [text "(", .child inner, text ")"] ∨
      operand config.style least node = [.child node] ∧
        operand config.style least inner = [.child inner]) ∧
    (∀ room content, written room node = .ok content → written room inner = .ok content) ∧
    (∀ room content cause, written room inner = .ok content → written room node = .error cause →
      ∃ kind, cause = .tooDeep kind) ∧
    ∀ draft : Draft,
      draft.Adds (written (maxDepth - draft.depth) node)
        (Draft.addOperand config least node draft) ∧
      draft.Adds (written (maxDepth - draft.depth) inner)
        (Draft.addOperand config least inner draft) ∧
      ((Draft.addOperand config least node draft).1 = .ok () →
        Draft.addOperand config least inner draft = Draft.addOperand config least node draft) := by
  intro inner written
  have hlevel := precedence_rendered config.style node
  have hwritten (room : Nat) (content : List Char) (h : written room node = .ok content) :
      written room inner = .ok content :=
    writePieces_operand_congr hlevel (fun _ => write_of_reaches node.reaches_rendered) h
  refine ⟨fun other => Node.eq_rendered_iff, hlevel.symm, operand_cases hlevel, hwritten, ?_, ?_⟩
  · intro room content cause hinner hnode
    have hnone := failure?_eq_none_iff.2 ⟨content, hinner⟩
    have hsome := failure?_eq_some_iff.2 hnode
    rw [failure?_operand] at hnone hsome
    obtain ⟨bare, hbare⟩ := failure?_eq_none_iff.1 hnone
    exact exists_tooDeep_of_reaches node.reaches_rendered hbare (failure?_eq_some_iff.1 hsome)
  · intro draft
    have hnode := Draft.adds_operand config least node draft
    have hinner := Draft.adds_operand config least inner draft
    exact ⟨hnode, hinner, hnode.eq_of_forall_ok hinner (hwritten _)⟩

/-- A modifier below three wrappers, in a draft with room for those and the two levels of the
modifier. Both are written with the parentheses of the modifier. With one level less the bare one
still is, and the wrapped one is too deep. -/
theorem operand_rendered_of_modifier :
    let inner : Node := .ifElse (.localRead "a") (.send "f" []) none
    let node : Node := .ret (.block [.ret inner])
    let draft : Draft := ⟨['x', '='], 123⟩
    (Relation.ReflTransGen Node.Wraps node inner ∧ precedence .verbose node = .modifier) ∧
    writePieces .newline (write .readable 5) (operand .verbose .assign inner) =
      .ok "(f if a)".toList ∧
    (∃ cause kind, writePieces .newline (write .readable 4) (operand .verbose .assign node) =
      .error cause ∧ cause = .tooDeep kind) ∧
    Draft.addOperand .readable .assign node draft = (.ok (), ⟨"x=(f if a)".toList, 123⟩) ∧
    Draft.addOperand .readable .assign inner draft =
      Draft.addOperand .readable .assign node draft := by
  intro inner node draft
  have hnode : writePieces .newline (write .readable 5) (operand .verbose .assign node) =
      .ok "(f if a)".toList := by decide
  have hbare : writePieces .newline (write .readable 4) (operand .verbose .assign inner) =
      .ok "(f if a)".toList := by decide
  have hdeep : writePieces .newline (write .readable 4) (operand .verbose .assign node) =
      .error (.tooDeep .call) := by decide
  obtain ⟨hreached, hlevel, -, hsame, hfailure, hdraft⟩ := operand_rendered .readable .assign node
  obtain ⟨hgains, -, hequal⟩ := hdraft draft
  have hadds : draft.Adds (writePieces .newline (write .readable 5) (operand .verbose .assign node))
      (Draft.addOperand .readable .assign node draft) := hgains
  rw [hnode] at hadds
  have hafter : Draft.addOperand .readable .assign node draft =
      (.ok (), ⟨"x=(f if a)".toList, 123⟩) := hadds.eq_of_ok
  obtain ⟨kind, hkind⟩ := hfailure 4 _ _ hbare hdeep
  exact ⟨⟨((hreached inner).1 rfl).1, hlevel⟩, hsame 5 _ hnode, ⟨_, kind, hdeep, hkind⟩, hafter,
    hequal (congrArg Prod.fst hafter)⟩

end RubyPress
