import RubyPress.Proofs.Render.Written
import RubyPress.Tree.Build

/-!
# When a tree has a text

A rule refuses a node only for what the node is, never for what its children are, and never for the
style. So a tree that is not too high has a text exactly if none of the visited nodes is malformed,
and this is the same in all configurations. Dropped children have no say: a construct that is not
mapped goes unnoticed inside of them.
-/

namespace RubyPress

namespace Node

def Writable : Node → Prop := Throughout fun node => node.isMalformed = false

theorem isMalformed_of_isOpened {node : Node} (h : node.isOpened) : node.isMalformed = false := by
  unfold isOpened at h
  split at h <;> first | rfl | cases h | simp [isMalformed, h]

end Node

namespace Render

variable {style : LiteralStyle} {node : Node}

theorem plainCall_isOk {receiver : Option Node} {method : String} {args : List Node} :
    (∃ pieces, plainCall style receiver method args = .ok pieces) ↔
      (if Operator.isIndexRead method || Operator.isNot method then receiver.isNone
        else Operator.isIndexWrite method && (receiver.isNone || decide (args.length < 2))) =
          false := by
  unfold plainCall
  by_cases hread : Operator.isIndexRead method
  · cases receiver <;> simp [hread]
  by_cases hwrite : Operator.isIndexWrite method
  · have hnot : Operator.isNot method = false := by
      simp only [Operator.isIndexWrite, beq_iff_eq] at hwrite
      subst hwrite
      rfl
    cases receiver with
    | none => simp [hread, hwrite, hnot]
    | some target =>
        -- The last argument is the value, and an index is left in front of it if there are two.
        rcases args with _ | ⟨first, _ | ⟨second, rest⟩⟩
        · simp [hread, hwrite, hnot]
        · simp [hread, hwrite, hnot]
        · simp [hread, hwrite, hnot, List.getLast?_cons]
  by_cases hnot : Operator.isNot method
  · cases receiver <;> simp [hread, hwrite, hnot]
  · simp [hread, hwrite, hnot]

theorem call_isOk {receiver : Option Node} {method : String} {args : List Node}
    {params : List String} {body forward : Option Node} :
    (∃ pieces, call style receiver method args params body forward = .ok pieces) ↔
      (Node.call receiver method args params body forward).isMalformed = false := by
  unfold call Node.isMalformed
  by_cases hbinary : Operator.isBinary method
  · rcases receiver with _ | lhs
    · simp [hbinary]
    · rcases args with _ | ⟨rhs, _ | ⟨second, rest⟩⟩ <;> simp [hbinary]
  · cases body with
    | some body => simp [hbinary]
    | none =>
        cases forward with
        | some block => simp [hbinary]
        | none => simpa [hbinary] using plainCall_isOk

/-- A rule refuses malformed nodes and no others. -/
theorem rule_isOk : (∃ pieces, rule style node = .ok pieces) ↔ node.isMalformed = false := by
  have hrefused {cause : Unsupported} (hrule : rule style node = .error cause)
      (hnode : node.isMalformed = true) :
      (∃ pieces, rule style node = .ok pieces) ↔ node.isMalformed = false := by
    simp [hrule, hnode]
  cases node with
  | call => exact call_isOk
  | caseWhen | hash =>
      simp only [rule, caseWhen, Node.isMalformed, bne_eq_false_iff_eq]
      split <;> simp_all
  | ret argument => cases argument <;> exact iff_of_true ⟨_, rfl⟩ rfl
  | including args =>
      cases args with
      | nil => exact hrefused rfl rfl
      | cons => exact iff_of_true ⟨_, rfl⟩ rfl
  | unmapped => exact hrefused rfl rfl
  | _ => exact iff_of_true ⟨_, rfl⟩ rfl

theorem writePieces_isOk {separator : Separator} {emit : Node → Except Unsupported (List Char)}
    {pieces : List Piece} :
    (∃ content, writePieces separator emit pieces = .ok content) ↔
      ∀ other ∈ nested pieces, ∃ content, emit other = .ok content := by
  induction pieces with
  | nil => exact iff_of_true ⟨[], rfl⟩ (List.forall_mem_nil _)
  | cons piece pieces ih =>
      have hcons : (∃ content, writePieces separator emit (piece :: pieces) = .ok content) ↔
          (∃ content, writePiece separator emit piece = .ok content) ∧
            ∃ content, writePieces separator emit pieces = .ok content := by
        simp only [writePieces_cons_eq_ok]
        exact ⟨fun ⟨_, first, rest, hfirst, hrest, _⟩ => ⟨⟨first, hfirst⟩, rest, hrest⟩,
          fun ⟨⟨first, hfirst⟩, rest, hrest⟩ => ⟨_, first, rest, hfirst, hrest, rfl⟩⟩
      rw [hcons, ih]
      cases piece with
      | text content => exact and_iff_right ⟨content, rfl⟩
      | separator => exact and_iff_right ⟨_, rfl⟩
      | child other =>
          rw [nested_child, List.forall_mem_cons]
          rfl

theorem writable_iff (style : LiteralStyle) : node.Writable ↔
    node.isMalformed = false ∧ ∀ other ∈ node.written style, other.Writable := by
  refine Node.throughout_iff.trans (and_congr_right fun hnode => ?_)
  exact (Node.forall_written_iff (fun _ => Node.isMalformed_of_isOpened) hnode).symm

variable {config : RenderConfig} {room : Nat}

theorem write_succ_isOk : (∃ content, write config (room + 1) node = .ok content) ↔
    node.isMalformed = false ∧
      ∀ other ∈ node.written config.style, ∃ content, write config room other = .ok content := by
  rw [← @rule_isOk config.style]
  cases hrule : rule config.style node with
  | error cause => simp [write, hrule]
  | ok pieces => rw [write_succ hrule, writePieces_isOk, nested_rule hrule, and_iff_right ⟨_, rfl⟩]

theorem writable_of_write {content : List Char} (h : write config room node = .ok content) :
    node.Writable := by
  induction room generalizing node content with
  | zero => cases h
  | succ room ih =>
      obtain ⟨hnode, hwritten⟩ := write_succ_isOk.1 ⟨content, h⟩
      refine (writable_iff config.style).2 ⟨hnode, fun other hother => ?_⟩
      obtain ⟨inner, hinner⟩ := hwritten other hother
      exact ih hinner

/-- Written nodes are less high, for they are near. -/
theorem height_lt_of_mem_written (hnode : node.isMalformed = false) {other : Node}
    (h : other ∈ node.written style) : other.height < node.height := by
  obtain ⟨pieces, hrule⟩ := rule_isOk.2 hnode
  rw [← nested_rule hrule, mem_nested] at h
  rcases pieces_rule hrule _ h with hmem | ⟨child, hchild, hmem⟩
  · exact Node.height_lt_of_mem_children hmem
  · exact (Node.height_lt_of_mem_children hmem).trans (Node.height_lt_of_mem_children hchild)

theorem write_isOk (hroom : node.height ≤ room) :
    (∃ content, write config room node = .ok content) ↔ node.Writable := by
  refine ⟨fun ⟨content, h⟩ => writable_of_write h, fun h => ?_⟩
  induction room generalizing node with
  | zero => exact absurd (node.height_eq ▸ hroom) (Nat.not_succ_le_zero _)
  | succ room ih =>
      obtain ⟨hnode, hwritten⟩ := (writable_iff config.style).1 h
      refine write_succ_isOk.2 ⟨hnode, fun other hother => ?_⟩
      have hlower := height_lt_of_mem_written hnode hother
      exact ih (Nat.le_of_lt_succ (hlower.trans_le hroom)) (hwritten other hother)

/-- Whether each statement has a text decides at which statement a program fails. -/
theorem exists_error_writeEach {other : RenderConfig} {nodes : List Node} {index : Nat}
    (hnodes : ∀ node ∈ nodes, (∃ content, write config maxDepth node = .ok content) ↔
      ∃ content, write other maxDepth node = .ok content) {error : RenderError}
    (h : writeEach config index nodes = .error error) :
    ∃ otherError, writeEach other index nodes = .error otherError ∧
      otherError.statement = error.statement := by
  induction nodes generalizing index with
  | nil => cases h
  | cons node nodes ih =>
      rw [List.forall_mem_cons] at hnodes
      rw [writeEach] at h ⊢
      cases hfirst : write config maxDepth node with
      | error cause =>
          cases hother : write other maxDepth node with
          | error otherCause =>
              rw [hfirst] at h
              obtain rfl := Except.error.inj h
              exact ⟨_, rfl, rfl⟩
          | ok content =>
              obtain ⟨letters, hletters⟩ := hnodes.1.2 ⟨content, hother⟩
              cases hfirst.symm.trans hletters
      | ok content =>
          obtain ⟨letters, hletters⟩ := hnodes.1.1 ⟨content, hfirst⟩
          rw [hletters]
          rw [hfirst] at h
          cases hrest : writeEach config (index + 1) nodes with
          | ok texts =>
              rw [hrest] at h
              cases h
          | error cause =>
              rw [hrest] at h
              obtain rfl := Except.error.inj h
              obtain ⟨otherError, hotherError, hstatement⟩ := ih hnodes.2 hrest
              exact ⟨otherError, by rw [hotherError], hstatement⟩

end Render

open Render

section EntryPoints

variable {tree : Node} {config : RenderConfig}

theorem exists_error_iff {ε α : Type} {result : Except ε α} :
    (∃ error, result = .error error) ↔ ¬∃ value, result = .ok value := by
  cases result <;> simp

theorem renderNode_isOk :
    (∃ content, renderNode config tree = .ok content) ↔
      ∃ content, write config maxDepth tree = .ok content := by
  rw [renderNode]
  cases write config maxDepth tree <;> simp

theorem writable_of_renderNode {content : String} (h : renderNode config tree = .ok content) :
    tree.Writable :=
  writable_of_write (renderNode_eq_ok.1 h)

theorem exists_write_of_renderStatements {content : String}
    (h : renderStatements config tree = .ok content) :
    ∀ statement ∈ tree.statements, ∃ text, write config maxDepth statement = .ok text := by
  unfold renderStatements at h
  split at h
  · cases h
  · next letters hletters =>
      have hall := writePieces_isOk.1 ⟨letters, hletters⟩
      rwa [nested_statements] at hall

theorem exists_write_of_renderProgram {content : String}
    (h : renderProgram config tree = .ok content) :
    ∀ statement ∈ tree.statements, ∃ text, write config maxDepth statement = .ok text := by
  intro statement hstatement
  obtain ⟨texts, htexts, -⟩ := renderProgram_eq_ok.1 h
  have hmem : renderNode config statement ∈ texts.map .ok := htexts ▸ List.mem_map_of_mem hstatement
  obtain ⟨text, -, htext⟩ := List.mem_map.1 hmem
  exact ⟨text.toList, renderNode_eq_ok.1 htext.symm⟩

theorem writable_of_statements
    (h : ∀ statement ∈ tree.statements, ∃ text, write config maxDepth statement = .ok text) :
    tree.Writable := by
  refine (Node.throughout_statements fun _ => Node.isMalformed_of_isOpened).1 ?_
  intro statement hmem
  obtain ⟨text, htext⟩ := h statement hmem
  exact writable_of_write htext

theorem exists_error_renderProgram (htree : tree.height ≤ maxDepth) (other : RenderConfig)
    {error : RenderError} (h : renderProgram config tree = .error error) :
    ∃ otherError, renderProgram other tree = .error otherError ∧
      otherError.statement = error.statement := by
  have hstatements : ∀ statement ∈ tree.statements,
      (∃ content, write config maxDepth statement = .ok content) ↔
        ∃ content, write other maxDepth statement = .ok content := by
    intro statement hstatement
    have hheight : statement.height ≤ maxDepth := by
      rcases Node.mem_statements hstatement with rfl | hmem
      · exact htree
      · exact (Node.height_lt_of_mem_children hmem).le.trans htree
    exact (write_isOk hheight).trans (write_isOk hheight).symm
  unfold renderProgram at h ⊢
  split at h
  · next cause hcause =>
      obtain rfl := Except.error.inj h
      obtain ⟨otherError, hotherError, hstatement⟩ := exists_error_writeEach hstatements hcause
      exact ⟨otherError, by rw [hotherError], hstatement⟩
  · cases h

end EntryPoints

/-- **A construct that is not mapped is not written.** Wherever it is visited, it fails the node,
the statements and the program that it is part of. -/
theorem render_eq_error_of_visits_unmapped {tree : Node} {construct : String}
    (htree : tree.Visits (.unmapped construct)) (config : RenderConfig) :
    (∃ error, renderNode config tree = .error error) ∧
      (∃ error, renderStatements config tree = .error error) ∧
      ∃ error, renderProgram config tree = .error error := by
  have hnot : ¬tree.Writable := fun h => Bool.noConfusion (h _ htree)
  simp only [exists_error_iff]
  exact ⟨fun ⟨_, h⟩ => hnot (writable_of_renderNode h),
    fun ⟨_, h⟩ => hnot (writable_of_statements (exists_write_of_renderStatements h)),
    fun ⟨_, h⟩ => hnot (writable_of_statements (exists_write_of_renderProgram h))⟩

/-- The construct is in the branch of a conditional, in the block of a call, in a definition. -/
theorem render_eq_error_of_visits_unmapped_in_block :
    let tree : Node := .block [.selfRef, .definition "f" [] (.withBlock (.send "loop" []) ["x"]
      (.ifElse (.localRead "x") (.unmapped "while") none))]
    tree.Visits (.unmapped "while") ∧
      (∃ error, renderNode .compact tree = .error error) ∧
      ∃ error, renderProgram .readable tree = .error error := by
  intro tree
  have htree : tree.Visits (.unmapped "while") :=
    .head (.tail _ (.head _)) (.head (.head _) (.head (.head _) (.head (.tail _ (.head _)) .refl)))
  exact ⟨htree, (render_eq_error_of_visits_unmapped htree .compact).1,
    (render_eq_error_of_visits_unmapped htree .readable).2.2⟩

/-- A block has no place behind the operands of an operator. It is dropped with the construct inside
of it, and so are the arguments of a negation, all modules of an `include` but the first, and a
forwarded block beside a body. -/
theorem render_drops_unmapped :
    let sum : Node := .withBlock (.binary (.localRead "a") "+" (.integer 1)) [] (.unmapped "while")
    let negation : Node := .invoke (.localRead "a") "!" [.unmapped "while"]
    let inclusion : Node := .including [.constant "A", .unmapped "while"]
    let forwarding : Node := .withBlock (.withBlockForward (.send "f" []) (.unmapped "while")) []
      .selfRef
    (∀ tree ∈ [sum, negation, inclusion, forwarding],
      ¬tree.Everywhere fun node => node.kind ≠ .unmapped) ∧
    [sum, negation, inclusion, forwarding].map (renderNode .readable) =
      [.ok "a+1", .ok "!a", .ok "include A", .ok "f\x7b||self\x7d"] ∧
    renderStatements .readable sum = .ok "a+1" ∧ renderProgram .readable sum = .ok "a+1" := by
  intro sum negation inclusion forwarding
  have hmapped {tree : Node} (h : .unmapped "while" ∈ tree.children) :
      ¬tree.Everywhere fun node => node.kind ≠ .unmapped :=
    fun heverywhere => (Node.everywhere_iff.1 ((Node.everywhere_iff.1 heverywhere).2 _ h)).1 rfl
  refine ⟨?_, by decide, by decide, by decide⟩
  simp only [List.forall_mem_cons]
  exact ⟨hmapped (Node.mem_children_call.2 (.inr (.inr (.inl rfl)))),
    hmapped (Node.mem_children_call.2 (.inr (.inl (.head _)))),
    hmapped (.tail _ (.head _)),
    hmapped (Node.mem_children_call.2 (.inr (.inr (.inr rfl)))), List.forall_mem_nil _⟩

/-- **Success.** A tree of limited height has a text exactly if no visited node is malformed. So all
configurations agree on it, and on the first statement of a program that has none. -/
theorem renderNode_isOk_iff {tree : Node} (htree : tree.height ≤ maxDepth) :
    (∀ config, (∃ content, renderNode config tree = .ok content) ↔
      ∀ node, tree.Visits node → node.isMalformed = false) ∧
    ((∃ config content, renderNode config tree = .ok content) ↔
      ∀ config, ∃ content, renderNode config tree = .ok content) ∧
    ∀ config error, renderProgram config tree = .error error →
      ∀ other, ∃ otherError, renderProgram other tree = .error otherError ∧
        otherError.statement = error.statement := by
  have hiff (config : RenderConfig) :
      (∃ content, renderNode config tree = .ok content) ↔ tree.Writable :=
    renderNode_isOk.trans (write_isOk htree)
  refine ⟨hiff, ⟨?_, fun hall => ⟨.readable, hall .readable⟩⟩,
    fun config error herror other => exists_error_renderProgram htree other herror⟩
  rintro ⟨config, hok⟩ other
  exact (hiff other).2 ((hiff config).1 hok)

/-- The styles write condition and branch of the first statement in a different order. Both fail at
the second statement, which is an assignment to an element without index. -/
theorem renderNode_isOk_iff_of_assignments :
    let first : Node := .ifElse (.localWrite "x" (.binary (.localRead "x") "+" (.integer 1)))
      (.withBlock (.send "f" [.localRead "x"]) [] .nil) none
    let second : Node := .invoke (.localRead "x") "[]=" [.integer 1]
    (∀ config, ∃ content, renderNode config first = .ok content) ∧
      ∀ config, ∃ error, renderProgram config (.block [first, second]) = .error error ∧
        error.statement = some 1 := by
  intro first second
  have hfirst : first.height ≤ maxDepth := by
    simp [first, Node.height_eq, Node.children, Node.binary, Node.invoke, Node.send,
      Node.withBlock, maxDepth]
  have hboth : (Node.block [first, second]).height ≤ maxDepth := by
    simp [first, second, Node.height_eq, Node.children, Node.binary, Node.invoke, Node.send,
      Node.withBlock, maxDepth]
  have hok : renderNode .readable first = .ok "f(x)\x7b||\x7d if x+=1" := by decide
  have herror : renderProgram .readable (.block [first, second]) =
      .error ⟨.indexWriteIndex, some 1⟩ := by decide
  exact ⟨(renderNode_isOk_iff hfirst).2.1.1 ⟨_, _, hok⟩,
    (renderNode_isOk_iff hboth).2.2 _ _ herror⟩

end RubyPress
