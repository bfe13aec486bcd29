import Mathlib.Logic.Relation
import Mathlib.Tactic
import RubyPress.Operator
import RubyPress.Proofs.Tree.Children

/-!
# Visited nodes

Not every child of a node has a place in its text. A binary operator has two operands and no block,
a negation has one operand, a call has one block at most, and an `include` names one module. The
other children are dropped, whatever they are.

A node is malformed if it cannot be written whatever its children are. Visited nodes that are not
malformed are all that it takes for a tree to have a text.
-/

namespace RubyPress.Node

/-- The visited children of a call. An empty body leaves nothing between the braces of its block. -/
def visitedCall (receiver : Option Node) (method : String) (args : List Node)
    (body forward : Option Node) : List Node :=
  if Operator.isBinary method then receiver.toList ++ args
  else
    match body, forward with
    | some body, _ => receiver.toList ++ args ++ if body.isEmptyBody then [] else [body]
    | none, some forward => receiver.toList ++ args ++ [forward]
    | none, none => if Operator.isNot method then receiver.toList else receiver.toList ++ args

/-- The children that have a place in the text of a node. -/
def visited : Node → List Node
  | call receiver method args _ body forward => visitedCall receiver method args body forward
  | including args => args.take 1
  | node => node.children

def droppedCall (method : String) (args : List Node) (body forward : Option Node) : List Node :=
  if Operator.isBinary method then body.toList ++ forward.toList
  else
    match body, forward with
    | some _, forward => forward.toList
    | none, some _ => []
    | none, none => if Operator.isNot method then args else []

/-- The children that have no place in the text of a node. -/
def dropped : Node → List Node
  | call _ method args _ body forward => droppedCall method args body forward
  | including args => args.drop 1
  | _ => []

/-- Whether a node is written by no rule: a construct that is not mapped, parts that should come in
pairs and do not, or an operand that is missing. -/
def isMalformed : Node → Bool
  | unmapped _ => true
  | caseWhen _ clauses whens _ => clauses.length != whens.length
  | hash keys values => keys.length != values.length
  | including args => args.isEmpty
  | call receiver method args _ body forward =>
    if Operator.isBinary method then receiver.isNone || args.length != 1
    else if body.isSome || forward.isSome then false
    else if Operator.isIndexRead method || Operator.isNot method then receiver.isNone
    else Operator.isIndexWrite method && (receiver.isNone || decide (args.length < 2))
  | _ => false

/-- The second node is visited on the way down from the first, or is the first itself. -/
def Visits : Node → Node → Prop :=
  Relation.ReflTransGen fun node child => child ∈ node.visited

def Throughout (p : Node → Prop) (node : Node) : Prop := ∀ other, node.Visits other → p other

theorem throughout_iff {p : Node → Prop} {node : Node} :
    Throughout p node ↔ p node ∧ ∀ child ∈ node.visited, Throughout p child := by
  constructor
  · intro h
    exact ⟨h node .refl, fun child hchild other hother => h other (.head hchild hother)⟩
  · rintro ⟨hnode, hchildren⟩ other hother
    rcases Relation.ReflTransGen.cases_head hother with rfl | ⟨child, hchild, hother⟩
    · exact hnode
    · exact hchildren child hchild other hother

theorem Throughout.imp {p q : Node → Prop} (h : ∀ node, p node → q node) {node : Node}
    (hnode : Throughout p node) : Throughout q node :=
  fun other hother => h other (hnode other hother)

theorem mem_children_of_mem_visited {node child : Node} (h : child ∈ node.visited) :
    child ∈ node.children := by
  cases node with
  | call receiver method args params body forward =>
      have hcall : child ∈ visitedCall receiver method args body forward := h
      unfold visitedCall at hcall
      rw [mem_children_call]
      by_cases hbinary : Operator.isBinary method
      · simp only [if_pos hbinary, List.mem_append, Option.mem_toList] at hcall
        tauto
      rw [if_neg hbinary] at hcall
      rcases body with _ | body
      · rcases forward with _ | forward
        · by_cases hnot : Operator.isNot method <;> simp [hnot] at hcall ⊢ <;> tauto
        · simp at hcall ⊢
          tauto
      · by_cases hempty : body.isEmptyBody <;> simp [hempty] at hcall ⊢ <;> tauto
  | including args => exact List.mem_of_mem_take h
  | _ => exact h

theorem Everywhere.of_visits {p : Node → Prop} {node other : Node} (hnode : node.Everywhere p)
    (h : node.Visits other) : other.Everywhere p := by
  induction h with
  | refl => exact hnode
  | tail _ hchild ih => exact (everywhere_iff.1 ih).2 _ (mem_children_of_mem_visited hchild)

end RubyPress.Node
