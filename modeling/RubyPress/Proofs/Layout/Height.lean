import RubyPress.Proofs.Layout.Reading
import RubyPress.Proofs.Render.Depth

/-!
# The height of stored trees

Every node of a stored tree has brackets of its own around it, so a tree is no higher than the
brackets of its text are nested. The limit of nesting is below the limit of depth, and so a tree
that can be read is never too deep to be written.
-/

namespace RubyPress

open Json (Value)

namespace Layout

def FieldType.nodesOf : (type : FieldType) → type.Content → List Node
  | .node, content => [content]
  | .optionalNode, content => content.toList
  | .nodes, content => content
  | .text, _ | .texts, _ | .path, _ | .optionalPath, _ | .flag, _ | .integer, _ => []

theorem nodesOf_missing {field : Field} {content : field.type.Content}
    (h : field.missing? = some content) : field.type.nodesOf content = [] := by
  obtain ⟨name, type, mayMiss⟩ := field
  rw [Field.missing?] at h
  split_ifs at h
  cases type with
  | node => cases h
  | optionalNode | nodes =>
      obtain rfl := Option.some.inj h
      rfl
  | _ => rfl

theorem children_assemble (kind : Kind) (record : Record (fields kind)) :
    (assemble kind record).children =
      record.entries.flatMap fun entry => entry.1.type.nodesOf entry.2 := by
  cases kind <;> simp [assemble, Record.entries, FieldType.nodesOf, Node.children]

theorem mem_zip_or_mem_drop {α β : Type} {entry : α} {entries : List α} (values : List β)
    (h : entry ∈ entries) :
    (∃ value, (entry, value) ∈ entries.zip values) ∨ entry ∈ entries.drop values.length := by
  induction entries generalizing values with
  | nil => cases h
  | cons first entries ih =>
      cases values with
      | nil => exact .inr h
      | cons value values =>
          rcases List.mem_cons.1 h with rfl | hmem
          · exact .inl ⟨value, List.mem_cons_self ..⟩
          · refine (ih values hmem).imp (fun ⟨other, hother⟩ => ⟨other, ?_⟩) id
            exact List.mem_cons_of_mem _ hother

theorem height_assemble_le {kind : Kind} {record : Record (fields kind)} {room : Nat}
    (h : ∀ entry ∈ record.entries, ∀ node ∈ entry.1.type.nodesOf entry.2, node.height ≤ room) :
    (assemble kind record).height ≤ room + 1 := by
  rw [Node.height_eq, Nat.add_le_add_iff_right]
  refine List.max_le_of_forall_le _ room ?_
  rw [List.forall_mem_map, children_assemble]
  intro child hchild
  obtain ⟨entry, hentry, hmem⟩ := List.mem_flatMap.1 hchild
  exact h entry hentry child hmem

/-- **A tree is no higher than the value that represents it is nested.** -/
theorem Represents.height_le {tags : Value → Kind → Prop} {type : FieldType} {value : Value}
    {content : type.Content} (h : Represents tags type value content) :
    ∀ node ∈ type.nodesOf content, node.height ≤ value.nesting := by
  induction h with
  | text | texts | flag | integer | pathObject | pathList | noPath | somePath | noNode =>
      intro node hnode
      cases hnode
  | someNode h ih => exact ih
  | @nodes items hitems ih =>
      intro node hnode
      obtain ⟨item, hitem, rfl⟩ := List.mem_map.1 hnode
      have hlower := ih item hitem item.2 (List.mem_singleton_self _)
      have hpart : item.1 ∈ (Value.arr (items.map Prod.fst)).parts := List.mem_map_of_mem hitem
      exact hlower.trans (Json.nesting_lt_of_mem_parts hpart).le
  | @object members tag kind record htag hkind honce hpresent hmissing ih =>
      intro node hnode
      obtain rfl := List.mem_singleton.1 hnode
      refine height_assemble_le fun entry hentry child hchild => ?_
      cases hvalues : valuesOf entry.1.name members with
      | nil =>
          rw [nodesOf_missing (hmissing entry hentry hvalues)] at hchild
          cases hchild
      | cons value values =>
          have hvalue : value ∈ valuesOf entry.1.name members := by simp [hvalues]
          have hlower := ih entry hentry value hvalue child hchild
          have hmember := Json.nestingMembers_le_iff.1 le_rfl _ (mem_of_mem_valuesOf hvalue)
          exact hlower.trans hmember
  | @list tag values kind record hkind hlength hpresent hmissing ih =>
      intro node hnode
      obtain rfl := List.mem_singleton.1 hnode
      refine height_assemble_le fun entry hentry child hchild => ?_
      rcases mem_zip_or_mem_drop values hentry with ⟨value, hpair⟩ | hdropped
      · have hlower := ih (entry, value) hpair child hchild
        have helement := Json.nestingAll_le_iff.1 le_rfl value
          (List.mem_cons_of_mem tag (List.of_mem_zip hpair).2)
        exact hlower.trans helement
      · rw [nodesOf_missing (hmissing entry hdropped)] at hchild
        cases hchild

end Layout

open Layout (store holds_encode)

theorem height_le_of_readTree {source : String} {tree : Node} (h : readTree source = .ok tree) :
    tree.height ≤ Json.maxNesting := by
  obtain ⟨value, hvalue, -, hrepresents⟩ := exists_denotes_of_readTree h
  exact (hrepresents.height_le tree (List.mem_singleton_self _)).trans hvalue.nesting_le

/-- **A tree that can be read is not too deep to be written**, in any configuration and from any
entry point. -/
theorem readTree_not_tooDeep {source : String} {tree : Node} (h : readTree source = .ok tree) :
    tree.height ≤ 127 ∧
      ∀ config kind statement, renderProgram config tree ≠ .error ⟨.tooDeep kind, statement⟩ ∧
        renderNode config tree ≠ .error ⟨.tooDeep kind, statement⟩ ∧
        renderStatements config tree ≠ .error ⟨.tooDeep kind, statement⟩ := by
  have hheight := height_le_of_readTree h
  have hdepth : tree.height ≤ maxDepth := hheight.trans (by decide)
  refine ⟨hheight, fun config kind statement => ⟨?_, ?_, ?_⟩⟩
  · exact fun herror => renderProgram_cause_ne_tooDeep hdepth herror kind rfl
  · exact fun herror => renderNode_cause_ne_tooDeep hdepth herror kind rfl
  · exact fun herror => renderStatements_cause_ne_tooDeep hdepth herror kind rfl

theorem height_iterate_ret (count : Nat) (tree : Node) :
    (Node.ret^[count] tree).height = tree.height + count := by
  induction count with
  | zero => rfl
  | succ count ih =>
      rw [Function.iterate_succ_apply', Node.height_eq, Node.children, List.map_singleton,
        List.foldr_cons, List.foldr_nil, Nat.max_zero, ih]
      rfl

/-- The highest tree that can be read has 126 nodes around its last. -/
theorem readTree_not_tooDeep_of_returns :
    readTree (store (Node.ret^[126] .nil)) = .ok (Node.ret^[126] .nil) ∧
      (Node.ret^[126] .nil).height = 127 ∧
      ∀ config kind statement,
        renderProgram config (Node.ret^[126] .nil) ≠ .error ⟨.tooDeep kind, statement⟩ := by
  have houter := (Layout.reads_outerValue (Node.ret^[126] .nil)).1 (by decide +kernel)
  have hread : readTree (store (Node.ret^[126] .nil)) = .ok (Node.ret^[126] .nil) := by
    refine readTree_eq_ok_iff.2 ⟨_, [], ?_, (holds_encode _).decode_eq, rfl⟩
    rw [store, Value.compact, String.toList_ofList, houter]
  refine ⟨hread, ?_, fun config kind statement => ?_⟩
  · rw [height_iterate_ret, Node.height_eq]
    rfl
  · exact ((readTree_not_tooDeep hread).2 config kind statement).1

end RubyPress
