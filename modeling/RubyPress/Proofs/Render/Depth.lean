import RubyPress.Proofs.Render.Success

/-!
# The limit of depth

A tree is written down to a fixed number of levels. No rule refuses a node for its depth, and a
written node is less high than the node it is written in, so a tree that is no higher than the limit
never reaches it.
-/

namespace RubyPress

namespace Render

variable {config : RenderConfig} {style : LiteralStyle} {node : Node} {kind : Kind} {room : Nat}

theorem plainCall_ne_tooDeep {receiver : Option Node} {method : String} {args : List Node} :
    plainCall style receiver method args ≠ .error (.tooDeep kind) := by
  unfold plainCall
  by_cases hread : Operator.isIndexRead method
  · rw [if_pos hread]
    cases receiver <;> simp
  rw [if_neg hread]
  by_cases hwrite : Operator.isIndexWrite method
  · rw [if_pos hwrite]
    by_cases hindex : args.dropLast.isEmpty <;> cases receiver <;> cases args.getLast? <;>
      simp [hindex]
  rw [if_neg hwrite]
  by_cases hnot : Operator.isNot method
  · rw [if_pos hnot]
    cases receiver <;> simp
  · rw [if_neg hnot]
    simp

theorem call_ne_tooDeep {receiver : Option Node} {method : String} {args : List Node}
    {params : List String} {body forward : Option Node} :
    call style receiver method args params body forward ≠ .error (.tooDeep kind) := by
  unfold call
  by_cases hbinary : Operator.isBinary method
  · rw [if_pos hbinary]
    split <;> simp
  · rw [if_neg hbinary]
    split
    · simp
    · simp
    · exact plainCall_ne_tooDeep

theorem rule_ne_tooDeep : rule style node ≠ .error (.tooDeep kind) := by
  cases node with
  | call => exact call_ne_tooDeep
  | caseWhen | hash =>
      simp only [rule, caseWhen]
      split_ifs <;> simp
  | ret argument => cases argument <;> simp [rule]
  | including args => cases args <;> simp [rule]
  | _ => simp [rule]

theorem exists_error_of_writePieces {separator : Separator}
    {emit : Node → Except Unsupported (List Char)} {pieces : List Piece} {cause : Unsupported}
    (h : writePieces separator emit pieces = .error cause) :
    ∃ child ∈ nested pieces, emit child = .error cause := by
  induction pieces with
  | nil => cases h
  | cons piece pieces ih =>
      rw [writePieces] at h
      cases hpiece : writePiece separator emit piece with
      | error cause =>
          rw [hpiece] at h
          obtain rfl := Except.error.inj h
          cases piece with
          | child node => exact ⟨node, List.mem_cons_self .., hpiece⟩
          | text | separator => cases hpiece
      | ok first =>
          rw [hpiece] at h
          cases hrest : writePieces separator emit pieces with
          | ok others =>
              rw [hrest] at h
              cases h
          | error cause =>
              rw [hrest] at h
              obtain rfl := Except.error.inj h
              obtain ⟨child, hchild, herror⟩ := ih hrest
              refine ⟨child, ?_, herror⟩
              rw [mem_nested] at hchild ⊢
              exact List.mem_cons_of_mem _ hchild

/-- **A tree that is no higher than the limit is not too deep.** -/
theorem write_ne_tooDeep (h : node.height ≤ room) :
    write config room node ≠ .error (.tooDeep kind) := by
  induction room generalizing node with
  | zero => exact absurd (node.height_eq ▸ h) (Nat.not_succ_le_zero _)
  | succ room ih =>
      rw [write]
      cases hrule : rule config.style node with
      | error cause =>
          intro heq
          obtain rfl := Except.error.inj heq
          exact rule_ne_tooDeep hrule
      | ok pieces =>
          intro heq
          obtain ⟨child, hchild, herror⟩ := exists_error_of_writePieces heq
          rw [nested_rule hrule] at hchild
          have hlower := height_lt_of_mem_written (rule_isOk.1 ⟨pieces, hrule⟩) hchild
          exact ih (Nat.le_of_lt_succ (hlower.trans_le h)) herror

theorem exists_error_of_writeEach {nodes : List Node} {index : Nat} {error : RenderError}
    (h : writeEach config index nodes = .error error) :
    ∃ node ∈ nodes, write config maxDepth node = .error error.cause := by
  induction nodes generalizing index with
  | nil => cases h
  | cons node nodes ih =>
      rw [writeEach] at h
      cases hfirst : write config maxDepth node with
      | error cause =>
          rw [hfirst] at h
          obtain rfl := Except.error.inj h
          exact ⟨node, List.mem_cons_self .., hfirst⟩
      | ok first =>
          rw [hfirst] at h
          cases hrest : writeEach config (index + 1) nodes with
          | ok others =>
              rw [hrest] at h
              cases h
          | error cause =>
              rw [hrest] at h
              obtain rfl := Except.error.inj h
              obtain ⟨other, hother, herror⟩ := ih hrest
              exact ⟨other, List.mem_cons_of_mem _ hother, herror⟩

end Render

open Render

section EntryPoints

variable {config : RenderConfig} {tree : Node} {error : RenderError}

theorem height_le_of_mem_statements {statement : Node} (h : statement ∈ tree.statements) :
    statement.height ≤ tree.height := by
  rcases Node.mem_statements h with rfl | hmem
  · exact le_rfl
  · exact (Node.height_lt_of_mem_children hmem).le

theorem renderNode_cause_ne_tooDeep (htree : tree.height ≤ maxDepth)
    (h : renderNode config tree = .error error) (kind : Kind) : error.cause ≠ .tooDeep kind := by
  rw [renderNode] at h
  split at h
  · next cause hcause =>
      obtain rfl := Except.error.inj h
      rintro rfl
      exact write_ne_tooDeep htree hcause
  · cases h

theorem renderStatements_cause_ne_tooDeep (htree : tree.height ≤ maxDepth)
    (h : renderStatements config tree = .error error) (kind : Kind) :
    error.cause ≠ .tooDeep kind := by
  rw [renderStatements] at h
  split at h
  · next cause hcause =>
      obtain rfl := Except.error.inj h
      obtain ⟨statement, hmem, herror⟩ := exists_error_of_writePieces hcause
      rw [nested_statements] at hmem
      rintro rfl
      exact write_ne_tooDeep ((height_le_of_mem_statements hmem).trans htree) herror
  · cases h

theorem renderProgram_cause_ne_tooDeep (htree : tree.height ≤ maxDepth)
    (h : renderProgram config tree = .error error) (kind : Kind) :
    error.cause ≠ .tooDeep kind := by
  rw [renderProgram] at h
  split at h
  · next cause hcause =>
      obtain rfl := Except.error.inj h
      obtain ⟨statement, hmem, herror⟩ := exists_error_of_writeEach hcause
      intro heq
      rw [heq] at herror
      exact write_ne_tooDeep ((height_le_of_mem_statements hmem).trans htree) herror
  · cases h

end EntryPoints

end RubyPress
