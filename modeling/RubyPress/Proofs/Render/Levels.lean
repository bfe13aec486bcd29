import RubyPress.Proofs.Render.Draft
import RubyPress.Proofs.Render.Success

/-!
# Levels of depth

The height of a written tree is the greatest number of nodes that are open at a time while it is
written. It can be less than the height of the tree, since a body is opened into its statements and
an abbreviated assignment into its operand, and it depends on the style.

The nodes of one level are listed in the order in which they are written, so that the first of them
is where a tree that is too high fails. Nothing else can go wrong in a tree without malformed nodes.
-/

namespace RubyPress

open Render

namespace Node

variable {style : LiteralStyle} {node other : Node}

/-- The number of nodes on the longest way down the text of a node. -/
def writtenHeight (style : LiteralStyle) (node : Node) : Nat :=
  ((node.written style).attach.map fun other => other.1.writtenHeight style).foldr max 0 + 1
termination_by node
decreasing_by exact Draft.sizeOf_lt_of_near (near_of_mem_written other.2)

/-- The nodes that are open when `depth` others are, in the order in which they are written. -/
def level (style : LiteralStyle) : Nat → Node → List Node
  | 0, node => [node]
  | depth + 1, node => (node.written style).flatMap (level style depth)

theorem writtenHeight_le_iff {bound : Nat} : node.writtenHeight style ≤ bound + 1 ↔
    ∀ other ∈ node.written style, other.writtenHeight style ≤ bound := by
  have hmax (nodes : List Node) :
      (nodes.map (writtenHeight style)).foldr max 0 ≤ bound ↔
        ∀ other ∈ nodes, other.writtenHeight style ≤ bound := by
    induction nodes with
    | nil => simp
    | cons first nodes ih => simp [ih]
  rw [writtenHeight, List.attach_map_val (f := writtenHeight style), Nat.add_le_add_iff_right, hmax]

theorem writtenHeight_pos : 0 < node.writtenHeight style := by
  rw [writtenHeight]
  exact Nat.succ_pos _

theorem level_eq_nil_iff {depth : Nat} :
    node.level style depth = [] ↔ node.writtenHeight style ≤ depth := by
  induction depth generalizing node with
  | zero => simp [level, writtenHeight_pos.ne']
  | succ depth ih => simp [level, writtenHeight_le_iff, ih]

end Node

namespace Render

/-! ### Failures -/

variable {α : Type} {style : LiteralStyle} {separator : Separator} {config : RenderConfig}
  {emit : Node → Except Unsupported (List Char)} {pieces : List Piece} {node : Node} {room : Nat}

def failure? : Except Unsupported α → Option Unsupported
  | .error cause => some cause
  | .ok _ => none

theorem failure?_eq_none_iff {result : Except Unsupported α} :
    failure? result = none ↔ ∃ value, result = .ok value := by
  cases result <;> simp [failure?]

theorem failure?_eq_some_iff {result : Except Unsupported α} {cause : Unsupported} :
    failure? result = some cause ↔ result = .error cause := by
  cases result <;> simp [failure?]

theorem findSome?_congr {β γ : Type} {items : List β} {f g : β → Option γ}
    (h : ∀ item ∈ items, f item = g item) : items.findSome? f = items.findSome? g := by
  induction items with
  | nil => rfl
  | cons item items ih =>
      rw [List.forall_mem_cons] at h
      rw [List.findSome?_cons, List.findSome?_cons, h.1, ih h.2]

/-- Pieces fail as the first of their nodes that does. -/
theorem failure?_writePieces : failure? (writePieces separator emit pieces) =
    (nested pieces).findSome? fun other => failure? (emit other) := by
  induction pieces with
  | nil => rfl
  | cons piece pieces ih =>
      have hrest {first : List Char} (hfirst : writePiece separator emit piece = .ok first) :
          failure? (writePieces separator emit (piece :: pieces)) =
            failure? (writePieces separator emit pieces) := by
        rw [writePieces_cons _ hfirst]
        cases writePieces separator emit pieces <;> rfl
      cases piece with
      | text content | separator => exact (hrest rfl).trans ih
      | child other =>
          rw [nested_child, List.findSome?_cons]
          cases hother : emit other with
          | error cause =>
              rw [writePieces, writePiece, hother]
              rfl
          | ok content => exact (hrest hother).trans ih

/-- **The limit of depth.** If no visited node is malformed, a node fails at the first of the nodes
for which no room is left. -/
theorem failure?_write (config : RenderConfig) (room : Nat) {node : Node} (h : node.Writable) :
    failure? (write config room node) =
    (node.level config.style room).head?.map fun other => .tooDeep other.kind := by
  induction room generalizing node with
  | zero => rfl
  | succ room ih =>
      obtain ⟨hnode, hwritten⟩ := (writable_iff config.style).1 h
      obtain ⟨pieces, hrule⟩ := rule_isOk.2 hnode
      rw [write_succ hrule, failure?_writePieces, nested_rule hrule, Node.level,
        List.head?_flatMap, List.map_findSome?]
      exact findSome?_congr fun other hother => ih (hwritten other hother)

end Render

namespace Draft

variable {config : RenderConfig} {node : Node} {draft : Draft}

theorem addNode_eq_of_ok (h : (addNode config node draft).1 = .ok ()) :
    ∃ content, write config (maxDepth - draft.depth) node = .ok content ∧
      (addNode config node draft).2 = draft.push content := by
  have hnode := adds_node config node draft
  generalize addNode config node draft = outcome at h hnode
  generalize write config (maxDepth - draft.depth) node = result at hnode ⊢
  cases hnode with
  | ok content => exact ⟨content, rfl, rfl⟩
  | error => cases h

/-- What is added for a node does not depend on how many nodes are open. -/
theorem exists_push_of_ok {other : Draft} (h : (addNode config node draft).1 = .ok ())
    (hother : (addNode config node other).1 = .ok ()) :
    ∃ content, (addNode config node draft).2 = draft.push content ∧
      (addNode config node other).2 = other.push content := by
  obtain ⟨content, hcontent, hpush⟩ := addNode_eq_of_ok h
  obtain ⟨letters, hletters, hpushOther⟩ := addNode_eq_of_ok hother
  have hsame : content = letters := by
    have hmore := write_mono (Nat.sub_le maxDepth draft.depth) hcontent
    exact Except.ok.inj (hmore.symm.trans (write_mono (Nat.sub_le maxDepth other.depth) hletters))
  exact ⟨content, hpush, hsame ▸ hpushOther⟩

end Draft

/-- **The limit of depth is exact.** A tree without malformed nodes has a text exactly if no more
than 128 nodes are open at a time while it is written. Otherwise it fails at the first node for
which that is not so. A node leaves the count of open nodes as it was, whether it succeeds or fails,
and its text does not depend on the count. -/
theorem renderNode_isOk_iff_writtenHeight_le (config : RenderConfig) :
    (∀ tree : Node, (∀ node, tree.Visits node → node.isMalformed = false) →
      ((∃ content, renderNode config tree = .ok content) ↔
        tree.writtenHeight config.style ≤ maxDepth) ∧
      (¬tree.writtenHeight config.style ≤ maxDepth → ∃ first error,
        (tree.level config.style maxDepth).head? = some first ∧
        renderNode config tree = .error error ∧ error.statement = none ∧
        error.construct = first.kind.name ++ " nested deeper than 128 levels")) ∧
    (∀ node, Draft.renderNode config node = renderNode config node) ∧
    ∀ node (draft : Draft), (Draft.addNode config node draft).2.depth = draft.depth ∧
      ∀ other : Draft, (Draft.addNode config node draft).1 = .ok () →
        (Draft.addNode config node other).1 = .ok () →
        ∃ content, (Draft.addNode config node draft).2 = draft.push content ∧
          (Draft.addNode config node other).2 = other.push content := by
  refine ⟨fun tree htree => ?_, Draft.renderNode_eq config, fun node draft =>
    ⟨Draft.depth_addNode config node draft, fun other => Draft.exists_push_of_ok⟩⟩
  have hfailure := failure?_write config maxDepth htree
  have hok : (∃ content, renderNode config tree = .ok content) ↔
      tree.writtenHeight config.style ≤ maxDepth := by
    rw [renderNode_isOk, ← failure?_eq_none_iff, hfailure, ← Node.level_eq_nil_iff]
    simp
  refine ⟨hok, fun hheight => ?_⟩
  rw [← Node.level_eq_nil_iff] at hheight
  obtain ⟨first, rest, hlevel⟩ := List.exists_cons_of_ne_nil hheight
  rw [hlevel] at hfailure
  have herror := failure?_eq_some_iff.1 hfailure
  refine ⟨first, ⟨.tooDeep first.kind, none⟩, by rw [hlevel]; rfl, ?_, rfl, ?_⟩
  · rw [renderNode, herror]
  · cases first.kind <;> decide

theorem writable_iterate_array {node : Node} (count : Nat) (h : node.Writable) :
    ((fun inner => Node.array [inner])^[count] node).Writable := by
  induction count with
  | zero => exact h
  | succ count ih =>
      rw [Function.iterate_succ_apply']
      exact Node.throughout_iff.2 ⟨rfl, List.forall_mem_singleton.2 ih⟩

/-- The branch of a conditional is an abbreviated assignment, which opens its operand directly. Both
branch and condition have a node too many, and the styles write them in a different order. -/
theorem renderNode_deep_conditional :
    let nest (count : Nat) (node : Node) : Node := (fun inner => .array [inner])^[count] node
    let branch : Node := .localWrite "x" (.logicalAnd (.localRead "x") (nest 126 (.integer 1)))
    let tree : Node := .ifElse (nest 127 .selfRef) branch none
    (∀ node, tree.Visits node → node.isMalformed = false) ∧
      (∃ content, renderNode .readable branch = .ok content) ∧
      (∃ error, renderNode .readable tree = .error error ∧
        error.construct = "integer_lit nested deeper than 128 levels") ∧
      (∃ error, renderNode .compact tree = .error error ∧
        error.construct = "self_ref nested deeper than 128 levels") ∧
      ∃ content, (Draft.addNode .readable (nest 1 .selfRef) {}).2 = Draft.push {} content ∧
        (Draft.addNode .readable (nest 1 .selfRef) ⟨['x', '='], 126⟩).2 =
          ⟨['x', '='] ++ content, 126⟩ := by
  intro nest branch tree
  have hleaf {leaf : Node} (hnode : leaf.isMalformed = false) (hvisited : leaf.visited = []) :
      leaf.Writable := Node.throughout_iff.2 ⟨hnode, by simp [hvisited]⟩
  have hbranch : branch.Writable := by
    refine Node.throughout_iff.2 ⟨rfl, List.forall_mem_singleton.2 ?_⟩
    refine Node.throughout_iff.2 ⟨rfl, ?_⟩
    exact List.forall_mem_cons.2 ⟨hleaf rfl rfl,
      List.forall_mem_singleton.2 (writable_iterate_array 126 (hleaf rfl rfl))⟩
  have htree : tree.Writable := by
    refine Node.throughout_iff.2 ⟨rfl, ?_⟩
    exact List.forall_mem_cons.2 ⟨writable_iterate_array 127 (hleaf rfl rfl),
      List.forall_mem_singleton.2 hbranch⟩
  have hdeep (config : RenderConfig) (kind : Kind)
      (hkind : (tree.level config.style maxDepth).head?.map Node.kind = some kind) :
      ∃ error, renderNode config tree = .error error ∧
        error.construct = kind.name ++ " nested deeper than 128 levels" := by
    obtain ⟨first, hfirst, rfl⟩ := Option.map_eq_some_iff.1 hkind
    have hheight : ¬tree.writtenHeight config.style ≤ maxDepth := by
      rw [← Node.level_eq_nil_iff]
      exact fun hnil => by simp [hnil] at hfirst
    obtain ⟨other, error, hother, herror, -, hconstruct⟩ :=
      ((renderNode_isOk_iff_writtenHeight_le config).1 tree htree).2 hheight
    obtain rfl := Option.some.inj (hfirst.symm.trans hother)
    exact ⟨error, herror, hconstruct⟩
  refine ⟨htree, ?_, hdeep .readable .integer (by decide +kernel),
    hdeep .compact .selfRef (by decide +kernel), ?_⟩
  · rw [((renderNode_isOk_iff_writtenHeight_le .readable).1 branch hbranch).1,
      ← Node.level_eq_nil_iff, ← List.isEmpty_iff]
    decide +kernel
  · have hok (draft : Draft) (hroom : write .readable (maxDepth - draft.depth) (nest 1 .selfRef) =
        .ok "[self]".toList) : (Draft.addNode .readable (nest 1 .selfRef) draft).1 = .ok () :=
      congrArg Prod.fst (Draft.addNode_of_write hroom)
    exact ((renderNode_isOk_iff_writtenHeight_le .readable).2.2 (nest 1 .selfRef) {}).2
      ⟨['x', '='], 126⟩ (hok _ (by decide)) (hok _ (by decide))

end RubyPress
