import Mathlib.Tactic
import RubyPress.Text.SymbolName
import RubyPress.Tree.Node

/-!
# Children

The children of a node are the nodes it is built from directly. What holds of a tree because it
holds of its parts is stated through them, so that it need not mention thirty kinds of nodes: the
height of a tree, and that a property holds of every node in it. The names of a node are what else
it is built from that ends up in a text as it is.
-/

namespace RubyPress.Node

/-- The nodes directly inside a node, in the order of its fields. -/
def children : Node → List Node
  | call receiver _ args _ body forward => receiver.toList ++ args ++ body.toList ++ forward.toList
  | definition _ _ body => [body]
  | ifElse test thenBranch elseBranch => test :: thenBranch :: elseBranch.toList
  | unlessElse test thenBranch elseBranch => test :: thenBranch :: elseBranch.toList
  | caseWhen pivot clauses whens elseClause => pivot :: clauses ++ whens ++ elseClause.toList
  | ret argument => [argument]
  | yielding args => args
  | classDef _ _ body => [body]
  | moduleDef _ body => [body]
  | logicalAnd lhs rhs => [lhs, rhs]
  | logicalOr lhs rhs => [lhs, rhs]
  | localWrite _ rhs => [rhs]
  | instanceWrite _ rhs => [rhs]
  | constRead base _ => base.toList
  | constWrite _ rhs => [rhs]
  | array elements => elements
  | hash keys values => keys ++ values
  | interpolatedString parts => parts
  | interpolatedSymbol parts => parts
  | including args => args
  | block statements => statements
  | boolean _ | selfRef | localRead _ | instanceRead _ | string _ | integer _ | symbol _ | nil |
    unmapped _ => []

section Membership

variable {child : Node}

theorem mem_children_call {receiver body forward : Option Node} {method : String}
    {args : List Node} {params : List String} :
    child ∈ (call receiver method args params body forward).children ↔
      child ∈ receiver ∨ child ∈ args ∨ child ∈ body ∨ child ∈ forward := by
  change child ∈ receiver.toList ++ args ++ body.toList ++ forward.toList ↔ _
  simp only [List.mem_append, Option.mem_toList, Option.mem_def, or_assoc]

theorem mem_children_ifElse {test thenBranch : Node} {elseBranch : Option Node} :
    child ∈ (ifElse test thenBranch elseBranch).children ↔
      child = test ∨ child = thenBranch ∨ child ∈ elseBranch := by
  change child ∈ test :: thenBranch :: elseBranch.toList ↔ _
  simp only [List.mem_cons, Option.mem_toList, Option.mem_def]

theorem mem_children_unlessElse {test thenBranch : Node} {elseBranch : Option Node} :
    child ∈ (unlessElse test thenBranch elseBranch).children ↔
      child = test ∨ child = thenBranch ∨ child ∈ elseBranch := by
  change child ∈ test :: thenBranch :: elseBranch.toList ↔ _
  simp only [List.mem_cons, Option.mem_toList, Option.mem_def]

theorem mem_children_caseWhen {pivot : Node} {clauses whens : List Node}
    {elseClause : Option Node} :
    child ∈ (caseWhen pivot clauses whens elseClause).children ↔
      child = pivot ∨ child ∈ clauses ∨ child ∈ whens ∨ child ∈ elseClause := by
  change child ∈ pivot :: clauses ++ whens ++ elseClause.toList ↔ _
  simp only [List.cons_append, List.mem_cons, List.mem_append, Option.mem_toList, Option.mem_def,
    or_assoc]

end Membership

theorem sizeOf_le_of_mem_toList {child : Node} {part : Option Node} (h : child ∈ part.toList) :
    sizeOf child ≤ sizeOf part := by
  rw [Option.mem_toList] at h
  subst h
  simp

theorem sizeOf_lt_of_mem_children {child node : Node} (h : child ∈ node.children) :
    sizeOf child < sizeOf node := by
  have hlist : ∀ nodes : List Node, child ∈ nodes → sizeOf child < sizeOf nodes :=
    fun nodes => List.sizeOf_lt_of_mem
  have hpart := @sizeOf_le_of_mem_toList child
  cases node <;> simp only [children, List.mem_append, List.mem_cons, List.not_mem_nil] at h
  all_goals simp only [call.sizeOf_spec, definition.sizeOf_spec, ifElse.sizeOf_spec,
    unlessElse.sizeOf_spec, caseWhen.sizeOf_spec, ret.sizeOf_spec, yielding.sizeOf_spec,
    classDef.sizeOf_spec, moduleDef.sizeOf_spec, logicalAnd.sizeOf_spec, logicalOr.sizeOf_spec,
    localWrite.sizeOf_spec, instanceWrite.sizeOf_spec, constRead.sizeOf_spec,
    constWrite.sizeOf_spec, array.sizeOf_spec, hash.sizeOf_spec, interpolatedString.sizeOf_spec,
    interpolatedSymbol.sizeOf_spec, including.sizeOf_spec, block.sizeOf_spec]
  all_goals grind

/-- What holds of a node whenever it holds of its children holds of every node. -/
@[elab_as_elim]
theorem induction_children {motive : Node → Prop}
    (step : ∀ node, (∀ child ∈ node.children, motive child) → motive node) (node : Node) :
    motive node :=
  step node fun child _ => induction_children step child
termination_by node
decreasing_by exact sizeOf_lt_of_mem_children ‹_›

/-- The number of nodes on the longest way down a tree. -/
def height (node : Node) : Nat :=
  (node.children.attach.map fun child => child.1.height).foldr max 0 + 1
termination_by node
decreasing_by exact sizeOf_lt_of_mem_children child.2

theorem height_eq (node : Node) : node.height = (node.children.map height).foldr max 0 + 1 := by
  rw [height, List.attach_map_val]

theorem height_lt_of_mem_children {child node : Node} (h : child ∈ node.children) :
    child.height < node.height := by
  have hmax : ∀ nodes : List Node, child ∈ nodes →
      child.height ≤ (nodes.map height).foldr max 0 := by
    intro nodes hmem
    induction nodes with
    | nil => cases hmem
    | cons node nodes ih =>
        rw [List.map_cons, List.foldr_cons]
        rcases List.mem_cons.1 hmem with rfl | hmem
        · exact Nat.le_max_left _ _
        · exact (ih hmem).trans (Nat.le_max_right _ _)
  rw [height_eq node]
  exact Nat.lt_succ_of_le (hmax _ h)

/-- A property of a node and of all nodes inside it. -/
inductive Everywhere (p : Node → Prop) : Node → Prop where
  | intro {node : Node} (hnode : p node) (hchildren : ∀ child ∈ node.children, Everywhere p child) :
      Everywhere p node

theorem everywhere_iff {p : Node → Prop} {node : Node} :
    Everywhere p node ↔ p node ∧ ∀ child ∈ node.children, Everywhere p child :=
  ⟨fun ⟨hnode, hchildren⟩ => ⟨hnode, hchildren⟩, fun h => .intro h.1 h.2⟩

theorem mem_statements {node statement : Node} (h : statement ∈ node.statements) :
    statement = node ∨ statement ∈ node.children := by
  unfold statements at h
  split at h
  · exact .inr h
  · exact .inl (List.mem_singleton.1 h)

theorem Everywhere.of_mem_statements {p : Node → Prop} {node statement : Node}
    (hnode : node.Everywhere p) (h : statement ∈ node.statements) : statement.Everywhere p := by
  rcases mem_statements h with rfl | hmem
  · exact hnode
  · exact (everywhere_iff.1 hnode).2 statement hmem

/-- The names that a node gives: of methods and their parameters, of variables and of constants. -/
def names : Node → List String
  | call _ method _ params _ _ => method :: params
  | definition method params _ => method :: params
  | classDef path superclass _ => path.segments ++ superclass.toList.flatMap ConstPath.segments
  | moduleDef path _ => path.segments
  | localRead name | localWrite name _ | instanceRead name | instanceWrite name _ |
    constRead _ name => [name]
  | constWrite path _ => path
  | ifElse .. | unlessElse .. | caseWhen .. | ret _ | yielding _ | boolean _ | selfRef |
    logicalAnd .. | logicalOr .. | string _ | integer _ | array _ | symbol _ | hash .. |
    interpolatedString _ | interpolatedSymbol _ | including _ | nil | block _ | unmapped _ => []

/-- The symbols that a node writes without quotes. -/
def plainSymbols : Node → List String
  | symbol value => if SymbolName.isPlain value then [value] else []
  | _ => []

def parts : Node → List Node
  | interpolatedString parts => parts
  | interpolatedSymbol parts => parts
  | _ => []

/-- Whether a part of a literal stands for itself. -/
def isFragment : Node → Bool
  | string _ => true
  | _ => false

end RubyPress.Node
