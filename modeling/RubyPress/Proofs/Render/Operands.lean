import Mathlib.Data.List.TakeWhile
import RubyPress.Proofs.Render.Levels
import RubyPress.Proofs.Render.Lists
import RubyPress.Proofs.Render.Silent
import RubyPress.Proofs.Render.Slots

/-!
# Operands

Nothing is written for a node that stands for nil, nor for one that stands for a block without
statements where the style has no literal for it. Such a node binds more loosely than any operand
may, so that as an operand it is written in parentheses, which read as nil. Every other node that
has a text has one that is not empty, as long as no name is empty. At the top level of a program,
where no place is left open by it, a void node is dropped.
-/

namespace RubyPress

open Render

namespace Node

/-- Whether a node is written as nothing. -/
def isVoid (style : LiteralStyle) (node : Node) : Bool :=
  match node.rendered with
  | nil => true
  | block [] => style = .obfuscated
  | _ => false

/-- The operands of a call with the least levels they stand at. -/
def callOperands (receiver : Option Node) (method : String) (args : List Node)
    (body forward : Option Node) : List (Precedence × Node) :=
  if Operator.isBinary method then
    receiver.toList.map ((Operator.operandLevels method).1, ·) ++
      args.map ((Operator.operandLevels method).2, ·)
  else
    match body, forward with
    | none, none =>
      if Operator.isNot method then receiver.toList.map (.unary, ·)
      else receiver.toList.map (.primary, ·) ++ args.map (.assign, ·)
    | some _, _ => receiver.toList.map (.primary, ·) ++ args.map (.assign, ·)
    | none, some forward =>
      receiver.toList.map (.primary, ·) ++ (args ++ [forward]).map (.assign, ·)

/-- The operands of a conditional. A negated condition has parentheses of its own. -/
def conditionalOperands (style : LiteralStyle) (negate : Bool) (test thenBranch : Node)
    (elseBranch : Option Node) : List (Precedence × Node) :=
  match style, elseBranch with
  | .verbose, none => (.assign, thenBranch) :: if negate then [] else [(.assign, test)]
  | _, _ =>
    (if negate then [] else [(Precedence.ternary + 1, test)]) ++
      (thenBranch :: elseBranch.toList).map (.ternary, ·)

/-- The operands of a node with the least levels they stand at. -/
def operands (style : LiteralStyle) : Node → List (Precedence × Node)
  | call receiver method args _ body forward => callOperands receiver method args body forward
  | ifElse test thenBranch elseBranch => conditionalOperands style false test thenBranch elseBranch
  | unlessElse test thenBranch elseBranch =>
    conditionalOperands style true test thenBranch elseBranch
  | caseWhen pivot _ whens _ => (pivot.writtenPivot ++ whens).map (.assign, ·)
  | logicalAnd lhs rhs => [(.and, lhs), (Precedence.and + 1, rhs)]
  | logicalOr lhs rhs => [(.or, lhs), (Precedence.or + 1, rhs)]
  | localWrite name rhs => (writtenAssignment style (.localVar name) rhs).map (.assign, ·)
  | instanceWrite name rhs => (writtenAssignment style (.instanceVar name) rhs).map (.assign, ·)
  | constRead base _ => base.toList.map (.primary, ·)
  | constWrite _ rhs => [(.assign, rhs)]
  | yielding nodes | array nodes => nodes.map (.assign, ·)
  | hash keys values => (keys ++ values).map (.assign, ·)
  | including args => (args.take 1).map (.assign, ·)
  | _ => []

/-- The nodes in the text of a node that are no operands: the statements of its bodies, what it
returns, and a negated condition, which has parentheses of its own. -/
def freestanding : Node → List Node
  | ret argument => [argument]
  | unlessElse test _ _ => [test]
  | node => node.bodies.flatMap statements

def Named : Node → Prop := Everywhere fun node => ∀ name ∈ node.names, name ≠ ""

theorem isVoid_iff {style : LiteralStyle} {node : Node} :
    node.isVoid style ↔ node.rendered = nil ∨ node.rendered = block [] ∧ style = .obfuscated := by
  unfold isVoid
  split <;> simp_all

theorem Everywhere.rendered {p : Node → Prop} {node : Node} (h : node.Everywhere p) :
    node.rendered.Everywhere p := by
  induction node using Node.rendered.induct with
  | case1 => exact h
  | case2 argument hargument ih =>
      have hne : argument ≠ .nil := hargument
      rw [rendered_ret hne]
      exact ih ((everywhere_iff.1 h).2 argument (.head _))
  | case3 statement ih => exact ih ((everywhere_iff.1 h).2 statement (.head _))
  | case4 node hnil hret hblock =>
      rwa [rendered_eq_self hret hblock]

theorem isSilent_rendered {style : LiteralStyle} {node : Node} (h : node.Named) :
    node.rendered.isSilent style = node.isVoid style := by
  have hnames := (everywhere_iff.1 h.rendered).1
  rw [isVoid]
  generalize node.rendered = inner at hnames ⊢
  unfold isSilent
  split
  case h_3 | h_4 | h_5 | h_6 => exact decide_eq_false (hnames _ (.head _))
  case h_7 hnil hblock _ _ _ _ =>
    split
    · exact absurd rfl hnil
    · exact absurd rfl hblock
    · rfl
  all_goals rfl

end Node

namespace Render

variable {config : RenderConfig} {style : LiteralStyle} {node : Node} {least : Precedence}
  {room : Nat} {content : List Char}

theorem precedence_of_isVoid (h : node.isVoid style) : precedence style node = .modifier := by
  unfold Node.isVoid at h
  rw [precedence]
  split at h
  · next heq => rw [heq]
  · next heq =>
      rw [heq]
      simpa using h
  · cases h

theorem write_eq_nil_iff_isVoid (hnode : node.Named) (h : write config room node = .ok content) :
    content = [] ↔ node.isVoid config.style := by
  rw [write_eq_nil_iff h, Node.isSilent_rendered hnode]

/-- **Operands are not empty.** A void node is written as two parentheses. -/
theorem operand_text (hnode : node.Named) (hleast : Precedence.modifier < least)
    (h : writePieces config.separator (write config room) (operand config.style least node) =
      .ok content) : content ≠ [] ∧ (node.isVoid config.style → content = ['(', ')']) := by
  unfold operand at h
  split_ifs at h with hloose
  · have henclosed : writePieces config.separator (write config room)
        (text "(" :: [.child node] ++ [text ")"]) = .ok content := h
    obtain ⟨inner, hinner, rfl⟩ := writePieces_enclosed_eq_ok.1 henclosed
    refine ⟨by simp, fun hvoid => ?_⟩
    rw [(write_eq_nil_iff_isVoid hnode (writePieces_child_eq_ok.1 hinner)).2 hvoid]
    rfl
  · have hvoid : ¬node.isVoid config.style := by
      intro hvoid
      rw [precedence_of_isVoid hvoid] at hloose
      exact hloose hleast
    have hcontent := write_eq_nil_iff_isVoid hnode (writePieces_child_eq_ok.1 h)
    exact ⟨fun hnil => hvoid (hcontent.1 hnil), fun h => absurd h hvoid⟩

/-! ### Places of operands -/

theorem mem_map_level {nodes : List Node} {level : Precedence} {child : Node} :
    (least, child) ∈ nodes.map (level, ·) ↔ least = level ∧ child ∈ nodes := by
  simp [eq_comm, and_comm]

theorem infix_append_cons (before : List Piece) (piece : Piece) (pieces : List Piece) :
    pieces <:+: before ++ piece :: pieces :=
  (List.suffix_cons _ _).isInfix.trans (List.suffix_append _ _).isInfix

section Calls

variable {pieces : List Piece} {receiver body forward : Option Node} {method : String}
  {args : List Node} {params : List String} {child : Node}

theorem infix_callHead (method : String) (h : child ∈ receiver.toList) :
    operand style .primary child <:+: callHead style receiver method := by
  obtain rfl := Option.mem_toList.1 h
  exact (List.prefix_append _ _).isInfix

theorem infix_callOperands
    (hpieces : call style receiver method args params body forward = .ok pieces)
    (h : (least, child) ∈ Node.callOperands receiver method args body forward) :
    operand style least child <:+: pieces := by
  -- The arguments are items of the list of a call.
  have hitem {place : ListPlace}
      (hplace : ListForm style (.call receiver method args params body forward) place)
      {item : List Piece} (hmem : item ∈ place.items) : item <:+: pieces :=
    hplace.infix_item hpieces hmem
  cases callForm hpieces with
  | operator lhs rhs hbinary =>
      simp only [Node.callOperands, if_pos hbinary, Option.toList_some, List.mem_append,
        mem_map_level, List.mem_singleton] at h
      rcases h with ⟨rfl, rfl⟩ | ⟨rfl, rfl⟩
      · exact (List.prefix_append _ _).isInfix
      · exact infix_append_cons ..
  | block body hbinary =>
      simp only [Node.callOperands, if_neg hbinary, List.mem_append, mem_map_level] at h
      rcases h with ⟨rfl, hmem⟩ | ⟨rfl, hmem⟩
      · refine (infix_callHead method hmem).trans ?_
        simp only [List.append_assoc]
        exact (List.prefix_append _ _).isInfix
      · exact hitem (.block body (List.ne_nil_of_mem hmem) hbinary) (List.mem_map_of_mem hmem)
  | forward block hbinary =>
      simp only [Node.callOperands, if_neg hbinary, List.mem_append, mem_map_level,
        List.mem_singleton] at h
      rcases h with ⟨rfl, hmem⟩ | ⟨rfl, hmem | rfl⟩
      · refine (infix_callHead method hmem).trans ?_
        simp only [List.append_assoc]
        exact (List.prefix_append _ _).isInfix
      · exact hitem (.forward block hbinary)
          (List.mem_append_left _ (List.mem_map_of_mem hmem))
      · refine List.IsInfix.trans (List.suffix_cons (text "&") _).isInfix ?_
        exact hitem (.forward child hbinary) (List.mem_append_right _ (.head _))
  | indexRead target =>
      have hoperands : Node.callOperands (some target) "[]" args none none =
          [(.primary, target)] ++ args.map (.assign, ·) := rfl
      rw [hoperands, List.mem_append, List.mem_singleton, Prod.mk.injEq, mem_map_level] at h
      rcases h with ⟨rfl, rfl⟩ | ⟨rfl, hmem⟩
      · rw [List.append_assoc]
        exact (List.prefix_append _ _).isInfix
      · exact hitem (.indexRead target args) (List.mem_map_of_mem hmem)
  | indexWrite target value hvalue =>
      obtain ⟨index, rfl⟩ := List.getLast?_eq_some_iff.1 hvalue
      have hoperands : Node.callOperands (some target) "[]=" (index ++ [value]) none none =
          [(.primary, target)] ++ (index ++ [value]).map (.assign, ·) := rfl
      rw [hoperands, List.mem_append, List.mem_singleton, Prod.mk.injEq, mem_map_level,
        List.mem_append, List.mem_singleton] at h
      rcases h with ⟨rfl, rfl⟩ | ⟨rfl, hmem | rfl⟩
      · rw [List.append_assoc]
        exact (List.prefix_append _ _).isInfix
      · exact hitem (.indexWrite target index value) (List.mem_map_of_mem hmem)
      · exact infix_append_cons ..
  | negation subject =>
      have hoperands : Node.callOperands (some subject) "!" args none none =
          [(.unary, subject)] := rfl
      obtain ⟨rfl, rfl⟩ := Prod.mk.inj (List.mem_singleton.1 (hoperands ▸ h))
      exact (List.suffix_cons _ _).isInfix
  | plain hbinary hread hwrite hnot =>
      simp only [Node.callOperands, if_neg hbinary, if_neg hnot, List.mem_append,
        mem_map_level] at h
      rcases h with ⟨rfl, hmem⟩ | ⟨rfl, hmem⟩
      · exact (infix_callHead method hmem).trans (List.prefix_append _ _).isInfix
      · refine hitem (.plain (List.ne_nil_of_mem hmem) hbinary ?_ ?_ ?_) (List.mem_map_of_mem hmem)
        · simpa [Operator.isNot] using hnot
        · simpa [Operator.isIndexRead] using hread
        · simpa [Operator.isIndexWrite] using hwrite

end Calls

section Operands

variable {pieces : List Piece} {child : Node}

theorem infix_conditionalOperands {negate : Bool} {test thenBranch : Node}
    {elseBranch : Option Node}
    (h : (least, child) ∈ Node.conditionalOperands style negate test thenBranch elseBranch) :
    operand style least child <:+: conditional style negate test thenBranch elseBranch := by
  unfold conditional
  unfold Node.conditionalOperands at h
  split at h
  · rcases List.mem_cons.1 h with h | h
    · obtain ⟨rfl, rfl⟩ := Prod.mk.inj h
      exact (List.prefix_append _ _).isInfix
    · cases negate with
      | true => cases h
      | false =>
          obtain ⟨rfl, rfl⟩ := Prod.mk.inj (List.mem_singleton.1 h)
          exact infix_append_cons ..
  · simp only [List.append_assoc, List.cons_append]
    rcases List.mem_append.1 h with h | h
    · cases negate with
      | true => cases h
      | false =>
          obtain ⟨rfl, rfl⟩ := Prod.mk.inj (List.mem_singleton.1 h)
          exact (List.prefix_append _ _).isInfix
    · obtain ⟨rfl, hmem⟩ := mem_map_level.1 h
      refine List.IsInfix.trans ?_ (List.suffix_append _ _).isInfix
      rcases List.mem_cons.1 hmem with rfl | hmem
      · exact List.infix_append [text " ? "] _ _
      · obtain rfl := Option.mem_toList.1 hmem
        exact (List.suffix_append (text " ? " :: operand style .ternary thenBranch ++ [text " : "])
          _).isInfix.trans (by simp)

theorem infix_caseOperands {pivot : Node} {clauses whens : List Node} {elseClause : Option Node}
    (hpieces : caseWhen style pivot clauses whens elseClause = .ok pieces)
    (h : child ∈ pivot.writtenPivot ++ whens) : operand style .assign child <:+: pieces := by
  unfold caseWhen at hpieces
  split_ifs at hpieces with hlength
  obtain rfl := Except.ok.inj hpieces
  refine List.IsInfix.trans ?_ (List.prefix_append _ _).isInfix
  refine List.IsInfix.trans ?_ (List.prefix_append _ _).isInfix
  rcases List.mem_append.1 h with hpivot | hwhen
  · refine List.IsInfix.trans ?_ (List.prefix_append _ _).isInfix
    refine List.IsInfix.trans ?_ (List.suffix_cons _ _).isInfix
    cases pivot with
    | nil => cases hpivot
    | _ =>
        obtain rfl := List.mem_singleton.1 hpivot
        exact (List.suffix_cons _ _).isInfix
  · obtain ⟨clause, hclause⟩ := exists_mem_zipWith_right (whenClause style) hlength hwhen
    have hoperand : operand style .assign child <:+: whenClause style clause child :=
      ⟨[text "when "], .separator :: statements style clause ++ [.separator], by simp [whenClause]⟩
    refine (hoperand.trans (List.infix_of_mem_flatten hclause)).trans ?_
    exact infix_append_cons ..

theorem infix_assignmentOperands {target : Variable} {name : String} {rhs : Node}
    (h : child ∈ Node.writtenAssignment style target rhs) :
    operand style .assign child <:+: assignment style target name rhs := by
  unfold Node.writtenAssignment at h
  rw [assignment]
  cases habbreviation : rhs.abbreviation? style target <;>
    · rw [habbreviation] at h
      obtain rfl := List.mem_singleton.1 h
      exact (List.suffix_append _ _).isInfix

/-- The operands of a node stand in its pieces, each at its level. -/
theorem infix_operands (hpieces : rule style node = .ok pieces)
    (h : (least, child) ∈ node.operands style) : operand style least child <:+: pieces := by
  cases node with
  | call => exact infix_callOperands hpieces h
  | ifElse | unlessElse =>
      obtain rfl := Except.ok.inj hpieces
      exact infix_conditionalOperands h
  | caseWhen =>
      obtain ⟨rfl, hmem⟩ := mem_map_level.1 h
      exact infix_caseOperands hpieces hmem
  | logicalAnd lhs rhs | logicalOr lhs rhs =>
      obtain rfl := Except.ok.inj hpieces
      rcases List.mem_cons.1 h with h | h
      · obtain ⟨rfl, rfl⟩ := Prod.mk.inj h
        exact (List.prefix_append _ _).isInfix
      · obtain ⟨rfl, rfl⟩ := Prod.mk.inj (List.mem_singleton.1 h)
        exact infix_append_cons ..
  | localWrite | instanceWrite =>
      obtain rfl := Except.ok.inj hpieces
      obtain ⟨rfl, hmem⟩ := mem_map_level.1 h
      exact infix_assignmentOperands hmem
  | constRead base name =>
      obtain rfl := Except.ok.inj hpieces
      obtain ⟨rfl, hmem⟩ := mem_map_level.1 h
      obtain rfl := Option.mem_toList.1 hmem
      rw [List.append_assoc]
      exact (List.prefix_append _ _).isInfix
  | constWrite path rhs =>
      obtain rfl := Except.ok.inj hpieces
      obtain ⟨rfl, rfl⟩ := Prod.mk.inj (List.mem_singleton.1 h)
      exact (List.suffix_append _ _).isInfix
  | yielding nodes =>
      obtain ⟨rfl, hmem⟩ := mem_map_level.1 h
      have hplace : ListForm style (.yielding nodes) _ := .yielding (List.ne_nil_of_mem hmem)
      exact hplace.infix_item hpieces (List.mem_map_of_mem hmem)
  | array elements =>
      obtain ⟨rfl, hmem⟩ := mem_map_level.1 h
      exact (ListForm.array elements).infix_item hpieces (List.mem_map_of_mem hmem)
  | hash keys values =>
      obtain ⟨rfl, hmem⟩ := mem_map_level.1 h
      have hlength : keys.length = values.length := by
        simpa [Node.isMalformed] using rule_isOk.1 ⟨pieces, hpieces⟩
      have hpair {pair : List Piece} (hmem : pair ∈ List.zipWith (hashPair style) keys values) :
          pair <:+: pieces := (ListForm.hash keys values).infix_item hpieces hmem
      rcases List.mem_append.1 hmem with hkey | hvalue
      · obtain ⟨value, hvalue⟩ := exists_mem_zipWith_left (hashPair style) hlength hkey
        exact (List.prefix_append _ _).isInfix.trans (hpair hvalue)
      · obtain ⟨key, hkey⟩ := exists_mem_zipWith_right (hashPair style) hlength hvalue
        exact (infix_append_cons ..).trans (hpair hkey)
  | including args =>
      obtain ⟨rfl, hmem⟩ := mem_map_level.1 h
      cases args with
      | nil => cases hpieces
      | cons included rest =>
          obtain rfl := Except.ok.inj hpieces
          obtain rfl := List.mem_singleton.1 hmem
          exact (List.suffix_cons _ _).isInfix
  | _ => cases h

theorem mem_written_of_mem_operands (hpieces : rule style node = .ok pieces)
    (h : (least, child) ∈ node.operands style) : child ∈ node.written style := by
  obtain ⟨before, after, hoperand⟩ := infix_operands hpieces h
  rw [← nested_rule hpieces, ← hoperand]
  simp

theorem modifier_lt_operandLevels {method : String} (hbinary : Operator.isBinary method) :
    Precedence.modifier < (Operator.operandLevels method).1 ∧
      Precedence.modifier < (Operator.operandLevels method).2 := by
  have hreceiver : (Slot.receiver method [] [] none none).IsTight .verbose := trivial
  have hright : (Slot.right .nil method [] none none).IsTight .verbose := hbinary
  have hlevel : (Slot.receiver method [] [] none none).level =
      (Operator.operandLevels method).1 := if_pos hbinary
  rw [← hlevel]
  exact ⟨Nat.zero_lt_of_lt (level_bounds hreceiver).1, Nat.zero_lt_of_lt (level_bounds hright).1⟩

theorem modifier_lt_of_mem_map {level : Precedence} (hlevel : Precedence.modifier < level)
    (nodes : List Node) : ∀ slot ∈ nodes.map (level, ·), Precedence.modifier < slot.1 :=
  List.forall_mem_map.2 fun _ _ => hlevel

theorem modifier_lt_of_mem_callOperands {receiver body forward : Option Node} {method : String}
    {args : List Node} :
    ∀ slot ∈ Node.callOperands receiver method args body forward, Precedence.modifier < slot.1 := by
  have happlied (args : List Node) :
      ∀ slot ∈ receiver.toList.map (Precedence.primary, ·) ++ args.map (Precedence.assign, ·),
        Precedence.modifier < slot.1 :=
    List.forall_mem_append.2
      ⟨modifier_lt_of_mem_map (by decide) _, modifier_lt_of_mem_map (by decide) args⟩
  unfold Node.callOperands
  split
  · next hbinary =>
      obtain ⟨hleft, hright⟩ := modifier_lt_operandLevels hbinary
      exact List.forall_mem_append.2
        ⟨modifier_lt_of_mem_map hleft _, modifier_lt_of_mem_map hright args⟩
  · split
    · split
      · exact modifier_lt_of_mem_map (by decide) _
      · exact happlied args
    · exact happlied args
    · exact happlied _

theorem modifier_lt_of_mem_conditionalOperands {negate : Bool} {test thenBranch : Node}
    {elseBranch : Option Node} :
    ∀ slot ∈ Node.conditionalOperands style negate test thenBranch elseBranch,
      Precedence.modifier < slot.1 := by
  cases style <;> cases elseBranch <;> cases negate <;> simp [Node.conditionalOperands]

/-- No operand may be as loose as a void node is. -/
theorem modifier_lt_of_mem_operands :
    ∀ slot ∈ node.operands style, Precedence.modifier < slot.1 := by
  cases node with
  | call => exact modifier_lt_of_mem_callOperands
  | ifElse | unlessElse => exact modifier_lt_of_mem_conditionalOperands
  | caseWhen | localWrite | instanceWrite | constRead | yielding | array | hash | including =>
      exact modifier_lt_of_mem_map (by decide) _
  | _ => simp [Node.operands]

theorem writtenCall_subset {receiver body forward : Option Node} {method : String}
    {args : List Node} {params : List String} :
    Node.writtenCall receiver method args body forward ⊆
      (Node.call receiver method args params body forward).freestanding ++
        (Node.callOperands receiver method args body forward).map Prod.snd := by
  unfold Node.writtenCall Node.callOperands
  split
  · simp
  · next hbinary =>
      cases body with
      | none =>
          cases forward with
          | none => cases hnot : Operator.isNot method <;> simp
          | some block => simp
      | some block =>
          cases hempty : block.isEmptyBody <;>
            simp [Node.freestanding, Node.bodies, hbinary, hempty]

theorem writtenCase_subset {pivot : Node} {clauses whens : List Node} {elseClause : Option Node} :
    Node.writtenCase pivot clauses whens elseClause ⊆
      (clauses ++ elseClause.toList).flatMap Node.statements ++ (pivot.writtenPivot ++ whens) := by
  intro child h
  have hclause (hmem : child ∈ (List.zipWith (fun clause test => test :: clause.statements) clauses
      whens).flatten) : child ∈ clauses.flatMap Node.statements ∨ child ∈ whens := by
    obtain ⟨list, hlist, hmem⟩ := List.mem_flatten.1 hmem
    obtain ⟨clause, hclause, test, htest, rfl⟩ := exists_of_mem_zipWith hlist
    rcases List.mem_cons.1 hmem with rfl | hmem
    · exact .inr htest
    · exact .inl (List.mem_flatMap.2 ⟨clause, hclause, hmem⟩)
  simp only [Node.writtenCase, List.flatMap_append, List.mem_append] at h ⊢
  tauto

/-- A written node is an operand, or it stands where no operand is asked for. -/
theorem written_subset (style : LiteralStyle) (node : Node) :
    node.written style ⊆ node.freestanding ++ (node.operands style).map Prod.snd := by
  cases node with
  | call => exact writtenCall_subset
  | caseWhen pivot clauses whens elseClause =>
      refine List.Subset.trans writtenCase_subset ?_
      simp [Node.freestanding, Node.bodies, Node.operands]
  | ifElse test yes no | unlessElse test yes no =>
      cases style <;> cases no <;>
        simp [Node.freestanding, Node.bodies, Node.operands, Node.written, Node.conditionalOperands,
          Node.writtenConditional]
  | ret argument => cases argument <;> simp [Node.freestanding, Node.written, Node.children]
  | hash keys values =>
      intro child h
      obtain ⟨list, hlist, hmem⟩ := List.mem_flatten.1 h
      obtain ⟨key, hkey, value, hvalue, rfl⟩ := exists_of_mem_zipWith hlist
      have hpair : child = key ∨ child = value := by simpa using hmem
      rcases hpair with rfl | rfl <;> simp [Node.operands, hkey, hvalue]
  | interpolatedString parts | interpolatedSymbol parts =>
      intro child h
      obtain ⟨part, hpart, hmem⟩ := List.mem_flatMap.1 h
      cases part with
      | string value => cases hmem
      | _ =>
          have hbody : _ ∈ parts.filter fun part => !part.isFragment :=
            List.mem_filter.2 ⟨hpart, rfl⟩
          exact List.mem_append_left _ (List.mem_flatMap.2 ⟨_, hbody, hmem⟩)
  | _ =>
      simp [Node.freestanding, Node.bodies, Node.operands, Node.written, Node.children,
        Node.statements]

end Operands

/-! ### Texts of operands -/

theorem exists_operand_text {inner : List Char} (hnode : node.Named)
    (hleast : Precedence.modifier < least) (h : write config room node = .ok inner) :
    ∃ text, writePieces config.separator (write config room) (operand config.style least node) =
      .ok text ∧ text ≠ [] ∧ (node.isVoid config.style → text = ['(', ')']) := by
  obtain ⟨text, htext⟩ : ∃ text, writePieces config.separator (write config room)
      (operand config.style least node) = .ok text := by
    rw [writePieces_isOk, nested_operand]
    exact List.forall_mem_singleton.2 ⟨inner, h⟩
  exact ⟨text, htext, operand_text hnode hleast htext⟩

theorem exists_slot_text {child : Node} (hnode : node.Named)
    (h : write config maxDepth node = .ok content)
    (hchild : (least, child) ∈ node.operands config.style) :
    ∃ text, writePieces config.separator (write config maxDepth)
      (operand config.style least child) = .ok text ∧ text ≠ [] ∧ text <:+: content := by
  obtain ⟨less, pieces, hroom, hrule, hpieces⟩ := exists_of_write h
  obtain ⟨text, htext, hinfix⟩ := exists_infix_writePieces (infix_operands hrule hchild) hpieces
  have hnamed := hnode.of_near (Node.near_of_mem_written (mem_written_of_mem_operands hrule hchild))
  have hmore : writePieces config.separator (write config maxDepth)
      (operand config.style least child) = .ok text :=
    writePieces_mono (fun node content => write_mono (hroom ▸ Nat.le_succ less)) htext
  have hleast := modifier_lt_of_mem_operands _ hchild
  exact ⟨text, hmore, (operand_text hnamed hleast hmore).1, hinfix⟩

section Programs

variable {tree : Node} {content : String}

theorem eq_empty_iff_isVoid (htree : tree.Named) (h : renderNode config tree = .ok content) :
    content = "" ↔ tree.isVoid config.style := by
  rw [← write_eq_nil_iff_isVoid htree (renderNode_eq_ok.1 h), String.toList_eq_nil_iff]

theorem dropped_eq (htree : tree.Named) (h : renderProgram config tree = .ok content) :
    dropped config tree = (tree.statements.zipIdx.filter fun (statement, _) =>
      statement.isVoid config.style).map Prod.swap := by
  have htext {statement : Node} {index : Nat} (hmem : (statement, index) ∈ tree.statements.zipIdx) :
      ∃ text, write config maxDepth statement = .ok text ∧
        (text = [] ↔ statement.isVoid config.style) := by
    have hstatement : statement ∈ tree.statements := List.fst_mem_of_mem_zipIdx hmem
    obtain ⟨text, hwrite⟩ := exists_write_of_renderProgram h statement hstatement
    exact ⟨text, hwrite, write_eq_nil_iff_isVoid (htree.of_mem_statements hstatement) hwrite⟩
  have hall : (tree.statements.zipIdx.takeWhile fun (statement, _) =>
      (write config maxDepth statement).isOk) = tree.statements.zipIdx := by
    refine List.takeWhile_eq_self_iff.2 fun (statement, index) hmem => ?_
    obtain ⟨text, hwrite, -⟩ := htext hmem
    simp only [hwrite, Except.isOk, Except.toBool]
  rw [dropped, hall, ← List.filterMap_eq_map, List.filterMap_filter]
  refine List.filterMap_congr fun (statement, index) hmem => ?_
  obtain ⟨text, hwrite, hempty⟩ := htext hmem
  cases text with
  | nil => simp only [hwrite, hempty.1 rfl, if_true, Function.comp_apply, Prod.swap_prod_mk]
  | cons letter letters =>
      have hvoid : ¬statement.isVoid config.style := fun h => List.cons_ne_nil _ _ (hempty.2 h)
      simp only [hwrite, if_neg hvoid]

theorem exists_texts_of_not_isVoid (htree : tree.Named)
    (h : renderProgram config tree = .ok content) :
    ∃ texts : List String, (tree.statements.filter fun statement =>
        !statement.isVoid config.style).map (renderNode config) = texts.map .ok ∧
      (∀ text ∈ texts, text ≠ "") ∧ content = "\n".intercalate texts := by
  obtain ⟨texts, htexts, rfl⟩ := renderProgram_eq_ok.1 h
  refine ⟨texts.filter (· ≠ ""), ?_, by simp, rfl⟩
  rw [← forall₂_iff_map_eq] at htexts ⊢
  have hnamed := (List.forall₂_and_left (p := Node.Named) _ _).2
    ⟨fun statement hstatement => Node.Everywhere.of_mem_statements htree hstatement, htexts⟩
  refine (List.rel_filter (fun statement text hpair => ?_) hnamed).imp fun _ _ h => h.2
  simp [eq_empty_iff_isVoid hpair.1 hpair.2]

end Programs

end Render

/-- **No operand is left empty.** Exactly the void nodes have no text, and they are loosest of all.
So any place for an operand is filled, and with two parentheses if the operand is void. This is so
of all places for operands in the text of a tree, which are those of all written nodes save
statements, returned nodes and negated conditions. At the top level of a program void statements are
dropped and no others. -/
theorem operand_texts_ne_nil (config : RenderConfig) {tree : Node} (htree : tree.Named) :
    (∀ content, renderNode config tree = .ok content →
      (content = "" ↔ tree.rendered = .nil ∨
        tree.rendered = .block [] ∧ config.style = .obfuscated) ∧
      (precedence config.style tree = .modifier ∧ content = "" ↔ tree.isVoid config.style)) ∧
    (∀ least room inner, Precedence.modifier < least → write config room tree = .ok inner →
      ∃ text, writePieces config.separator (write config room) (operand config.style least tree) =
        .ok text ∧ text ≠ [] ∧ (tree.isVoid config.style → text = ['(', ')'])) ∧
    (∀ content, (renderNode config tree = .ok content ∨
        renderStatements config tree = .ok content ∨ renderProgram config tree = .ok content) →
      ∀ statement ∈ tree.statements, ∀ node, statement.Writes config.style node →
        node.written config.style ⊆
          node.freestanding ++ (node.operands config.style).map Prod.snd ∧
        ∀ least child, (least, child) ∈ node.operands config.style → Precedence.modifier < least ∧
          ∃ text, writePieces config.separator (write config maxDepth)
            (operand config.style least child) = .ok text ∧ text ≠ [] ∧
            text <:+: content.toList) ∧
    ∀ content, renderProgram config tree = .ok content →
      dropped config tree = (tree.statements.zipIdx.filter fun (statement, _) =>
        statement.isVoid config.style).map Prod.swap ∧
      ∃ texts : List String, (tree.statements.filter fun statement =>
          !statement.isVoid config.style).map (renderNode config) = texts.map .ok ∧
        (∀ text ∈ texts, text ≠ "") ∧ content = "\n".intercalate texts := by
  refine ⟨fun content hcontent => ?_, fun least room inner hleast hinner => ?_,
    fun content hcontent statement hstatement node hnode => ⟨written_subset _ _,
      fun least child hchild => ⟨modifier_lt_of_mem_operands _ hchild, ?_⟩⟩,
    fun content hcontent => ⟨dropped_eq htree hcontent, exists_texts_of_not_isVoid htree hcontent⟩⟩
  · have hempty := eq_empty_iff_isVoid htree hcontent
    exact ⟨hempty.trans Node.isVoid_iff, fun h => hempty.1 h.2,
      fun h => ⟨precedence_of_isVoid h, hempty.2 h⟩⟩
  · exact exists_operand_text htree hleast hinner
  · obtain ⟨whole, hwhole, hinfix⟩ := exists_text_of_writes hcontent hstatement hnode
    have hnamed := Node.Everywhere.of_writes (htree.of_mem_statements hstatement) hnode
    obtain ⟨text, htext, hne, hwithin⟩ :=
      exists_slot_text hnamed (renderNode_eq_ok.1 hwhole) hchild
    exact ⟨text, htext, hne, hwithin.trans hinfix⟩

/-- An assignment of a returned list without statements, between two statements that only one of the
styles drops both of. -/
theorem operand_texts_ne_nil_of_returned_list :
    let value : Node := .ret (.block [.block []])
    let tree : Node := .block [.ret (.block [.nil]), .localWrite "x" value, .block []]
    tree.Named ∧ renderProgram .compact tree = .ok "x=()" ∧
      dropped .compact tree = [(0, .ret (.block [.nil])), (2, .block [])] ∧
      dropped .readable tree = [(0, .ret (.block [.nil]))] ∧
      (∃ text, writePieces .semicolon (write .compact maxDepth)
        (operand .obfuscated .assign value) = .ok text ∧ text ≠ [] ∧ text <:+: "x=()".toList) ∧
      writePieces .semicolon (write .compact 3) (operand .obfuscated .primary value) =
        .ok ['(', ')'] := by
  intro value tree
  have htree : tree.Named := by
    repeat' first
      | exact List.forall_mem_nil _
      | refine List.forall_mem_cons.2 ⟨?_, ?_⟩
      | refine .intro (by decide) ?_
  have hvalue : value.Named :=
    htree.of_near (.inr ⟨.localWrite "x" value, .tail _ (.head _), .head _⟩)
  have hcompact : renderProgram .compact tree = .ok "x=()" := by decide
  have hreadable : renderProgram .readable tree = .ok "x=\"\"\n\"\"" := by decide
  obtain ⟨-, -, hslots, hprogram⟩ := operand_texts_ne_nil .compact htree
  obtain ⟨-, text, htext, hne, hinfix⟩ := (hslots _ (.inr (.inr hcompact))
    (.localWrite "x" value) (.tail _ (.head _)) _ .refl).2 .assign value (.head _)
  obtain ⟨parens, hparens, -, hvoid⟩ :=
    (operand_texts_ne_nil .compact hvalue).2.1 .primary 3 [] (by decide) (by decide)
  exact ⟨htree, hcompact, (hprogram _ hcompact).1,
    ((operand_texts_ne_nil .readable htree).2.2.2 _ hreadable).1,
    ⟨text, htext, hne, hinfix⟩, hvoid rfl ▸ hparens⟩

end RubyPress
