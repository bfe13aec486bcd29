import RubyPress.Proofs.Render.Pieces
import RubyPress.Proofs.Tree.Visited

/-!
# Written nodes

Of all that a rule says, this module keeps which nodes it writes, and in which order: `written` is
that list, without any texts. A rule writes the visited children of its node, save that a body is
opened into its statements and that an abbreviated assignment keeps only the operand that remains.
-/

namespace RubyPress

open Render

/-- The nodes that pieces hold, in their order. -/
def Render.nested (pieces : List Piece) : List Node :=
  pieces.filterMap fun
    | .child node => some node
    | _ => none

namespace Node

/-- The nodes in the text of a call: its operands, or receiver and arguments and one block. -/
def writtenCall (receiver : Option Node) (method : String) (args : List Node)
    (body forward : Option Node) : List Node :=
  if Operator.isBinary method then receiver.toList ++ args
  else
    match body, forward with
    | some body, _ => receiver.toList ++ args ++ if body.isEmptyBody then [] else body.statements
    | none, some forward => receiver.toList ++ args ++ [forward]
    | none, none => if Operator.isNot method then receiver.toList else receiver.toList ++ args

/-- A `case` without a value to compare has nothing for it in its text. -/
def writtenPivot : Node → List Node
  | nil => []
  | pivot => [pivot]

/-- The nodes in the text of a `case`, each test in front of its clause. -/
def writtenCase (pivot : Node) (clauses whens : List Node) (elseClause : Option Node) :
    List Node :=
  pivot.writtenPivot ++
  (List.zipWith (fun clause test => test :: clause.statements) clauses whens).flatten ++
  elseClause.toList.flatMap statements

/-- A modifier has its branch in front of its condition, a ternary behind it. -/
def writtenConditional (style : LiteralStyle) (test thenBranch : Node)
    (elseBranch : Option Node) : List Node :=
  match style, elseBranch with
  | .verbose, none => [thenBranch, test]
  | _, _ => test :: thenBranch :: elseBranch.toList

def writtenAssignment (style : LiteralStyle) (target : Variable) (rhs : Node) : List Node :=
  match rhs.abbreviation? style target with
  | some (_, value) => [value]
  | none => [rhs]

def writtenPart : Node → List Node
  | string _ => []
  | part => part.statements

/-- The nodes that stand directly inside of the text of a node, in their order. -/
def written (style : LiteralStyle) : Node → List Node
  | call receiver method args _ body forward => writtenCall receiver method args body forward
  | definition _ _ body | classDef _ _ body | moduleDef _ body => body.statements
  | ifElse test thenBranch elseBranch | unlessElse test thenBranch elseBranch =>
    writtenConditional style test thenBranch elseBranch
  | caseWhen pivot clauses whens elseClause => writtenCase pivot clauses whens elseClause
  | ret nil => []
  | localWrite name rhs => writtenAssignment style (.localVar name) rhs
  | instanceWrite name rhs => writtenAssignment style (.instanceVar name) rhs
  | hash keys values => (List.zipWith (fun key value => [key, value]) keys values).flatten
  | interpolatedString parts | interpolatedSymbol parts => parts.flatMap writtenPart
  | including args => args.take 1
  | node => node.children

end Node

namespace Render

variable {style : LiteralStyle} {node : Node} {pieces others : List Piece}

@[simp]
theorem nested_nil : nested [] = [] := rfl

@[simp]
theorem nested_text (content : List Char) : nested (.text content :: pieces) = nested pieces := rfl

@[simp]
theorem nested_fixed (content : String) : nested (text content :: pieces) = nested pieces := rfl

@[simp]
theorem nested_separator : nested (.separator :: pieces) = nested pieces := rfl

@[simp]
theorem nested_child : nested (.child node :: pieces) = node :: nested pieces := rfl

@[simp]
theorem nested_append : nested (pieces ++ others) = nested pieces ++ nested others :=
  List.filterMap_append

theorem mem_nested : node ∈ nested pieces ↔ .child node ∈ pieces := by
  induction pieces with
  | nil => simp
  | cons piece pieces ih => cases piece <;> simp [ih]

theorem nested_flatten (lists : List (List Piece)) :
    nested lists.flatten = lists.flatMap nested := by
  induction lists with
  | nil => rfl
  | cons list lists ih => rw [List.flatten_cons, nested_append, ih, List.flatMap_cons]

theorem nested_commas (lists : List (List Piece)) :
    nested ([text ","].intercalate lists) = lists.flatMap nested := by
  induction lists with
  | nil => rfl
  | cons list lists ih =>
      cases lists with
      | nil => simp
      | cons second lists =>
          rw [List.intercalate_cons_cons, nested_append, nested_append, ih, nested_fixed, nested_nil,
            List.append_nil, List.flatMap_cons (x := list)]

/-! ### Parts of rules -/

@[simp]
theorem nested_operand (least : Precedence) : nested (operand style least node) = [node] := by
  unfold operand
  split <;> rfl

theorem nested_statementList (nodes : List Node) :
    nested ((nodes.map Piece.child).intersperse .separator) = nodes := by
  induction nodes with
  | nil => rfl
  | cons node nodes ih =>
      cases nodes with
      | nil => rfl
      | cons second nodes => exact congrArg (node :: ·) ih

@[simp]
theorem nested_statements : nested (statements style node) = node.statements := by
  unfold statements
  split
  · next hempty => rw [hempty, nested_fixed, nested_nil]
  · exact nested_statementList _

@[simp]
theorem nested_arguments (args : List Node) : nested (arguments style args) = args := by
  rw [arguments, nested_commas, List.flatMap_map]
  simp

@[simp]
theorem nested_argumentList (args : List Node) : nested (argumentList style args) = args := by
  cases args <;> simp [argumentList]

@[simp]
theorem nested_keywordBody : nested (keywordBody style node) = node.statements := by
  simp [keywordBody]

@[simp]
theorem nested_callHead (receiver : Option Node) (method : String) :
    nested (callHead style receiver method) = receiver.toList := by
  cases receiver <;> simp [callHead]

@[simp]
theorem nested_condition (negate : Bool) (least : Precedence) :
    nested (condition style negate least node) = [node] := by
  cases negate <;> simp [condition]

theorem nested_conditional (negate : Bool) (test thenBranch : Node) (elseBranch : Option Node) :
    nested (conditional style negate test thenBranch elseBranch) =
      Node.writtenConditional style test thenBranch elseBranch := by
  cases style <;> cases elseBranch <;> simp [conditional, Node.writtenConditional]

theorem nested_assignment (target : Variable) (name : String) (rhs : Node) :
    nested (assignment style target name rhs) = Node.writtenAssignment style target rhs := by
  unfold assignment Node.writtenAssignment
  cases rhs.abbreviation? style target <;> simp

theorem nested_interpolated (parts : List Node) :
    nested (parts.flatMap (interpolatedPart style)) = parts.flatMap Node.writtenPart := by
  have hpart (part : Node) : nested (interpolatedPart style part) = part.writtenPart := by
    cases part <;> simp [interpolatedPart, Node.writtenPart]
  rw [List.flatMap, nested_flatten, List.flatMap_map]
  exact List.flatMap_congr fun part _ => hpart part

theorem nested_call {receiver : Option Node} {method : String} {args : List Node}
    {params : List String} {body forward : Option Node}
    (hpieces : call style receiver method args params body forward = .ok pieces) :
    nested pieces = Node.writtenCall receiver method args body forward := by
  cases callForm hpieces with
  | operator lhs rhs hbinary => simp [Node.writtenCall, hbinary]
  | block body hbinary =>
      by_cases hempty : body.isEmptyBody <;> simp [Node.writtenCall, hbinary, hempty]
  | forward block hbinary => cases args <;> simp [Node.writtenCall, hbinary]
  | indexRead =>
      have hbinary : ¬Operator.isBinary "[]" := by decide
      have hnot : ¬Operator.isNot "[]" := by decide
      simp [Node.writtenCall, hbinary, hnot]
  | indexWrite target value hvalue =>
      have hbinary : ¬Operator.isBinary "[]=" := by decide
      have hnot : ¬Operator.isNot "[]=" := by decide
      simp [Node.writtenCall, hbinary, hnot, List.dropLast_append_getLast? value hvalue]
  | negation =>
      have hbinary : ¬Operator.isBinary "!" := by decide
      have hnot : Operator.isNot "!" := by decide
      simp [Node.writtenCall, hbinary, hnot]
  | plain hbinary _ _ hnot => simp [Node.writtenCall, hbinary, hnot]

theorem nested_caseWhen {pivot : Node} {clauses whens : List Node} {elseClause : Option Node}
    (hpieces : caseWhen style pivot clauses whens elseClause = .ok pieces) :
    nested pieces = Node.writtenCase pivot clauses whens elseClause := by
  have hclauses : (List.zipWith (whenClause style) clauses whens).flatMap nested =
      (List.zipWith (fun clause test => test :: clause.statements) clauses whens).flatten := by
    rw [List.flatMap, List.map_zipWith]
    simp [whenClause]
  unfold caseWhen at hpieces
  split_ifs at hpieces
  obtain rfl := Except.ok.inj hpieces
  cases elseClause <;> cases pivot <;>
    simp [Node.writtenCase, Node.writtenPivot, nested_flatten, hclauses]

/-- **Written nodes.** The nodes in the pieces of a rule are those that are written. -/
theorem nested_rule (hpieces : rule style node = .ok pieces) :
    nested pieces = node.written style := by
  cases node with
  | call => exact nested_call hpieces
  | caseWhen => exact nested_caseWhen hpieces
  | ifElse | unlessElse =>
      obtain rfl := Except.ok.inj hpieces
      exact nested_conditional ..
  | localWrite | instanceWrite =>
      obtain rfl := Except.ok.inj hpieces
      exact nested_assignment ..
  | ret argument =>
      cases argument <;> obtain rfl := Except.ok.inj hpieces <;> rfl
  | hash keys values =>
      rw [rule] at hpieces
      split_ifs at hpieces
      obtain rfl := Except.ok.inj hpieces
      simp only [List.cons_append, nested_fixed, nested_append, nested_commas, nested_nil,
        List.append_nil, Node.written]
      rw [List.flatMap, List.map_zipWith]
      simp [hashPair]
  | including args =>
      cases args with
      | nil => cases hpieces
      | cons included rest =>
          obtain rfl := Except.ok.inj hpieces
          simp [Node.written]
  | interpolatedString | interpolatedSymbol =>
      obtain rfl := Except.ok.inj hpieces
      simp [nested_interpolated, Node.written]
  | block body =>
      obtain rfl := Except.ok.inj hpieces
      exact nested_statements
  | unmapped => cases hpieces
  | definition _ params _ =>
      obtain rfl := Except.ok.inj hpieces
      cases params <;> simp [Node.written]
  | classDef _ superclass _ =>
      obtain rfl := Except.ok.inj hpieces
      cases superclass <;> simp [Node.written]
  | moduleDef =>
      obtain rfl := Except.ok.inj hpieces
      simp [Node.written]
  | yielding args =>
      obtain rfl := Except.ok.inj hpieces
      cases args <;> simp [Node.written, Node.children]
  | constRead base =>
      obtain rfl := Except.ok.inj hpieces
      cases base <;> simp [Node.written, Node.children]
  | symbol value =>
      obtain rfl := Except.ok.inj hpieces
      cases hplain : SymbolName.isPlain value <;> simp [Node.written, Node.children]
  | _ =>
      obtain rfl := Except.ok.inj hpieces
      simp [Node.written, Node.children]

end Render

namespace Node

section Near

variable {style : LiteralStyle} {node other : Node}

theorem near_of_mem_statements {body : Node} (hbody : body ∈ node.children)
    (h : other ∈ body.statements) : node.Near other := by
  rcases mem_statements h with rfl | hmem
  · exact .inl hbody
  · exact .inr ⟨body, hbody, hmem⟩

theorem near_of_mem_writtenCall {receiver body forward : Option Node} {method : String}
    {args : List Node} {params : List String}
    (h : other ∈ writtenCall receiver method args body forward) :
    (call receiver method args params body forward).Near other := by
  have hreceiver (hmem : other ∈ receiver.toList) :
      (call receiver method args params body forward).Near other :=
    .inl (mem_children_call.2 (.inl (Option.mem_toList.1 hmem)))
  have hargs (hmem : other ∈ args) : (call receiver method args params body forward).Near other :=
    .inl (mem_children_call.2 (.inr (.inl hmem)))
  have hboth (hmem : other ∈ receiver.toList ++ args) :
      (call receiver method args params body forward).Near other :=
    (List.mem_append.1 hmem).elim hreceiver hargs
  unfold writtenCall at h
  split at h
  · exact hboth h
  split at h
  · next block =>
      rcases List.mem_append.1 h with h | h
      · exact hboth h
      · split at h
        · cases h
        · exact near_of_mem_statements (mem_children_call.2 (.inr (.inr (.inl rfl)))) h
  · next block =>
      rcases List.mem_append.1 h with h | h
      · exact hboth h
      · obtain rfl := List.mem_singleton.1 h
        exact .inl (mem_children_call.2 (.inr (.inr (.inr rfl))))
  · split at h
    · exact hreceiver h
    · exact hboth h

theorem near_of_mem_writtenCase {pivot : Node} {clauses whens : List Node}
    {elseClause : Option Node} (h : other ∈ writtenCase pivot clauses whens elseClause) :
    (caseWhen pivot clauses whens elseClause).Near other := by
  unfold writtenCase at h
  rcases List.mem_append.1 h with h | h
  · rcases List.mem_append.1 h with h | h
    · cases pivot with
      | nil => cases h
      | _ =>
          obtain rfl := List.mem_singleton.1 h
          exact .inl (.head _)
    · obtain ⟨list, hlist, hmem⟩ := List.mem_flatten.1 h
      obtain ⟨clause, hclause, test, htest, rfl⟩ := exists_of_mem_zipWith hlist
      rcases List.mem_cons.1 hmem with rfl | hmem
      · exact .inl (mem_children_caseWhen.2 (.inr (.inr (.inl htest))))
      · exact near_of_mem_statements (mem_children_caseWhen.2 (.inr (.inl hclause))) hmem
  · obtain ⟨clause, hclause, hmem⟩ := List.mem_flatMap.1 h
    exact near_of_mem_statements
      (mem_children_caseWhen.2 (.inr (.inr (.inr (Option.mem_toList.1 hclause))))) hmem

theorem near_of_mem_writtenPart {part : Node} (hpart : part ∈ node.children)
    (h : other ∈ part.writtenPart) : node.Near other := by
  unfold writtenPart at h
  split at h
  · cases h
  · exact near_of_mem_statements hpart h

theorem near_of_mem_writtenAssignment {target : Variable} {rhs : Node} (hrhs : rhs ∈ node.children)
    (h : other ∈ writtenAssignment style target rhs) : node.Near other := by
  unfold writtenAssignment at h
  split at h
  · next habbreviation =>
      obtain rfl := List.mem_singleton.1 h
      exact .inr ⟨rhs, hrhs, (abbreviation?_cases habbreviation).1⟩
  · obtain rfl := List.mem_singleton.1 h
    exact .inl hrhs

theorem mem_of_mem_writtenConditional {test thenBranch : Node} {elseBranch : Option Node}
    (h : other ∈ writtenConditional style test thenBranch elseBranch) :
    other ∈ test :: thenBranch :: elseBranch.toList := by
  unfold writtenConditional at h
  split at h
  · simp at h ⊢
    tauto
  · exact h

theorem near_of_mem_written (h : other ∈ node.written style) : node.Near other := by
  cases node with
  | call => exact near_of_mem_writtenCall h
  | caseWhen => exact near_of_mem_writtenCase h
  | definition | classDef | moduleDef => exact near_of_mem_statements (.head _) h
  | ifElse | unlessElse => exact .inl (mem_of_mem_writtenConditional h)
  | localWrite | instanceWrite => exact near_of_mem_writtenAssignment (.head _) h
  | ret argument =>
      cases argument with
      | nil => cases h
      | _ => exact .inl h
  | hash keys values =>
      obtain ⟨list, hlist, hmem⟩ := List.mem_flatten.1 h
      obtain ⟨key, hkey, value, hvalue, rfl⟩ := exists_of_mem_zipWith hlist
      rcases List.mem_cons.1 hmem with rfl | hmem
      · exact .inl (List.mem_append_left _ hkey)
      · obtain rfl := List.mem_singleton.1 hmem
        exact .inl (List.mem_append_right _ hvalue)
  | interpolatedString parts | interpolatedSymbol parts =>
      obtain ⟨part, hpart, hmem⟩ := List.mem_flatMap.1 h
      exact near_of_mem_writtenPart hpart hmem
  | including args => exact .inl (List.mem_of_mem_take h)
  | _ => exact .inl h

end Near

end Node

/-! ### Written and visited nodes -/

namespace Node

/-- Nodes that a rule can open on the spot, so that only nodes inside of them are written. -/
def isOpened : Node → Bool
  | nil | string _ | localRead _ | instanceRead _ | logicalAnd .. | logicalOr .. | block _ => true
  | call (some _) method [_] _ none none => Operator.isBinary method
  | _ => false

variable {style : LiteralStyle} {p : Node → Prop}

theorem forall_mem_flatten_zipWith {α β γ : Type} {f : α → β → List γ} {q : γ → Prop}
    {first : α → Prop} {second : β → Prop}
    (hf : ∀ a b, (∀ c ∈ f a b, q c) ↔ first a ∧ second b) {left : List α} {right : List β}
    (hlength : left.length = right.length) :
    (∀ c ∈ (List.zipWith f left right).flatten, q c) ↔
      (∀ a ∈ left, first a) ∧ ∀ b ∈ right, second b := by
  induction left generalizing right with
  | nil =>
      obtain rfl := List.length_eq_zero_iff.1 hlength.symm
      simp
  | cons a left ih =>
      obtain ⟨b, right, rfl⟩ := List.exists_cons_of_length_eq_add_one hlength.symm
      rw [List.zipWith_cons_cons, List.flatten_cons, List.forall_mem_append, hf,
        ih (Nat.succ.inj hlength), List.forall_mem_cons, List.forall_mem_cons]
      exact and_and_and_comm

section Opened

variable (hopened : ∀ node : Node, node.isOpened → p node)

include hopened

theorem throughout_of_isOpened {node : Node} (hnode : node.isOpened)
    (hvisited : node.visited = []) : Throughout p node :=
  throughout_iff.2 ⟨hopened node hnode, by simp [hvisited]⟩

theorem throughout_statements {body : Node} :
    (∀ statement ∈ body.statements, Throughout p statement) ↔ Throughout p body := by
  cases body with
  | block statements =>
      rw [throughout_iff, and_iff_right (hopened _ rfl)]
      rfl
  | _ => exact List.forall_mem_singleton

/-- What remains of an abbreviated value is visited whenever the value is, and the other operand is
a variable. -/
theorem throughout_abbreviation {target : Variable} {rhs value : Node} {operator : String}
    (h : rhs.abbreviation? style target = some (operator, value)) :
    Throughout p value ↔ Throughout p rhs := by
  -- The operand that is left out is a variable, which is opened.
  have hvariable {lhs : Node} (hreads : lhs.reads target) : Throughout p lhs := by
    cases lhs <;> first | cases hreads | exact throughout_of_isOpened hopened rfl rfl
  cases abbreviationForm h with
  | @conjunction lhs _ hreads =>
      rw [@throughout_iff p (logicalAnd _ _), and_iff_right (hopened _ rfl)]
      simp [visited, children, hvariable hreads]
  | @disjunction lhs _ hreads =>
      rw [@throughout_iff p (logicalOr _ _), and_iff_right (hopened _ rfl)]
      simp [visited, children, hvariable hreads]
  | @arithmetic lhs _ _ params _ hcompound hreads =>
      have hbinary := isBinary_of_mem_compoundNames hcompound
      have hcall := hopened (call (some lhs) operator [value] params none none) hbinary
      rw [@throughout_iff p (call ..), and_iff_right hcall]
      simp [visited, visitedCall, hbinary, hvariable hreads]

theorem forall_writtenAssignment {target : Variable} {rhs : Node} :
    (∀ other ∈ writtenAssignment style target rhs, Throughout p other) ↔ Throughout p rhs := by
  unfold writtenAssignment
  split
  · next habbreviation =>
      rw [List.forall_mem_singleton]
      exact throughout_abbreviation hopened habbreviation
  · exact List.forall_mem_singleton

theorem forall_writtenPart {part : Node} :
    (∀ other ∈ part.writtenPart, Throughout p other) ↔ Throughout p part := by
  unfold writtenPart
  split
  · exact iff_of_true (List.forall_mem_nil _) (throughout_of_isOpened hopened rfl rfl)
  · exact throughout_statements hopened

theorem forall_writtenCase {pivot : Node} {clauses whens : List Node} {elseClause : Option Node}
    (hlength : clauses.length = whens.length) :
    (∀ other ∈ writtenCase pivot clauses whens elseClause, Throughout p other) ↔
      ∀ child ∈ (caseWhen pivot clauses whens elseClause).children, Throughout p child := by
  have hpivot : (∀ other ∈ pivot.writtenPivot, Throughout p other) ↔ Throughout p pivot := by
    cases pivot with
    | nil => exact iff_of_true (List.forall_mem_nil _) (throughout_of_isOpened hopened rfl rfl)
    | _ => exact List.forall_mem_singleton
  have hclause (clause test : Node) : (∀ other ∈ test :: clause.statements, Throughout p other) ↔
      Throughout p clause ∧ Throughout p test := by
    rw [List.forall_mem_cons, throughout_statements hopened, and_comm]
  have helse : (∀ other ∈ elseClause.toList.flatMap statements, Throughout p other) ↔
      ∀ clause ∈ elseClause.toList, Throughout p clause := by
    cases elseClause with
    | none => simp
    | some clause => simpa using throughout_statements hopened
  unfold writtenCase
  rw [List.forall_mem_append, List.forall_mem_append, hpivot,
    forall_mem_flatten_zipWith hclause hlength, helse]
  simp only [children, List.cons_append, List.forall_mem_cons, List.forall_mem_append, and_assoc]

theorem forall_writtenCall {receiver : Option Node} {method : String} {args : List Node}
    {body forward : Option Node} :
    (∀ other ∈ writtenCall receiver method args body forward, Throughout p other) ↔
      ∀ child ∈ visitedCall receiver method args body forward, Throughout p child := by
  unfold writtenCall visitedCall
  split
  · exact Iff.rfl
  · cases body with
    | none => cases forward <;> exact Iff.rfl
    | some inner =>
        refine List.forall_mem_append.trans (Iff.trans (and_congr_right' ?_)
          List.forall_mem_append.symm)
        split
        · exact Iff.rfl
        · rw [throughout_statements hopened, List.forall_mem_singleton]

/-- **Written nodes are visited.** What is true throughout the written nodes of a node is true
throughout its visited children, as long as nodes that are opened on the spot do not matter. -/
theorem forall_written_iff {node : Node} (hnode : node.isMalformed = false) :
    (∀ other ∈ node.written style, Throughout p other) ↔
      ∀ child ∈ node.visited, Throughout p child := by
  have hbody {body : Node} : (∀ other ∈ body.statements, Throughout p other) ↔
      ∀ child ∈ [body], Throughout p child := by
    rw [throughout_statements hopened, List.forall_mem_singleton]
  have hconditional {test thenBranch : Node} {elseBranch : Option Node} :
      (∀ other ∈ writtenConditional style test thenBranch elseBranch, Throughout p other) ↔
        ∀ child ∈ test :: thenBranch :: elseBranch.toList, Throughout p child := by
    cases style <;> cases elseBranch <;> simp [writtenConditional, and_comm]
  have hassignment {target : Variable} {rhs : Node} :
      (∀ other ∈ writtenAssignment style target rhs, Throughout p other) ↔
        ∀ child ∈ [rhs], Throughout p child := by
    rw [forall_writtenAssignment hopened, List.forall_mem_singleton]
  have hparts {parts : List Node} : (∀ other ∈ parts.flatMap writtenPart, Throughout p other) ↔
      ∀ child ∈ parts, Throughout p child := by
    simp only [List.mem_flatMap, forall_exists_index, and_imp]
    rw [forall_comm]
    refine forall_congr' fun part => ?_
    rw [← forall_writtenPart hopened]
    tauto
  cases node with
  | call => exact forall_writtenCall hopened
  | definition | classDef | moduleDef => exact hbody
  | ifElse | unlessElse => exact hconditional
  | caseWhen => exact forall_writtenCase hopened (by simpa [isMalformed] using hnode)
  | ret argument =>
      cases argument with
      | nil =>
          have hnil : Throughout p nil := throughout_of_isOpened hopened rfl rfl
          exact iff_of_true (List.forall_mem_nil _) (List.forall_mem_singleton.2 hnil)
      | _ => exact Iff.rfl
  | localWrite | instanceWrite => exact hassignment
  | hash keys values =>
      have hpair (key value : Node) : (∀ other ∈ [key, value], Throughout p other) ↔
          Throughout p key ∧ Throughout p value := by simp
      refine (forall_mem_flatten_zipWith hpair (by simpa [isMalformed] using hnode)).trans ?_
      exact List.forall_mem_append.symm
  | interpolatedString | interpolatedSymbol => exact hparts
  | _ => exact Iff.rfl

end Opened

end Node

end RubyPress
