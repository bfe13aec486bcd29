import RubyPress.Proofs.Render.Success

/-!
# Calls that look like reads

A call without receiver, arguments and block is written as its name, and so is a read of a local. No
rule asks which locals are visible, so the two look alike wherever they stand: `x = x()` and `x = x`
are both written `x=x`, and the text of either reads the local. The one place where the kind of the
node shows is in front of the operator of an assignment to the same name, because a read is
abbreviated there and a call is not.
-/

namespace RubyPress

/-- Whether a method of this name is written by its name when it has no receiver. -/
def Operator.isWord (name : String) : Bool :=
  !(isBinary name || isIndexRead name || isIndexWrite name || isNot name)

theorem Operator.isWord_iff {name : String} : isWord name ↔ isBinary name = false ∧
    isIndexRead name = false ∧ isIndexWrite name = false ∧ isNot name = false := by
  simp [isWord, and_assoc]

namespace Node

/-- The second tree has reads of locals where the first has some of its bare calls, and no
assignment is abbreviated for that. -/
inductive Lookalike (style : LiteralStyle) : Node → Node → Prop where
  | refl (node : Node) : Lookalike style node node
  | bare {name : String} (params : List String) (hname : Operator.isWord name) :
      Lookalike style (call none name [] params none none) (localRead name)
  | call {receiver receiver' body body' forward forward' : Option Node} (method : String)
      {args args' : List Node} (params : List String)
      (hreceiver : Option.Rel (Lookalike style) receiver receiver')
      (hargs : List.Forall₂ (Lookalike style) args args')
      (hbody : Option.Rel (Lookalike style) body body')
      (hforward : Option.Rel (Lookalike style) forward forward') :
      Lookalike style (call receiver method args params body forward)
        (call receiver' method args' params body' forward')
  | definition (method : String) (params : List String) {body body' : Node}
      (hbody : Lookalike style body body') :
      Lookalike style (definition method params body) (definition method params body')
  | ifElse {test test' thenBranch thenBranch' : Node} {elseBranch elseBranch' : Option Node}
      (htest : Lookalike style test test') (hthen : Lookalike style thenBranch thenBranch')
      (helse : Option.Rel (Lookalike style) elseBranch elseBranch') :
      Lookalike style (ifElse test thenBranch elseBranch) (ifElse test' thenBranch' elseBranch')
  | unlessElse {test test' thenBranch thenBranch' : Node} {elseBranch elseBranch' : Option Node}
      (htest : Lookalike style test test') (hthen : Lookalike style thenBranch thenBranch')
      (helse : Option.Rel (Lookalike style) elseBranch elseBranch') :
      Lookalike style (unlessElse test thenBranch elseBranch)
        (unlessElse test' thenBranch' elseBranch')
  | caseWhen {pivot pivot' : Node} {clauses clauses' whens whens' : List Node}
      {elseClause elseClause' : Option Node} (hpivot : Lookalike style pivot pivot')
      (hclauses : List.Forall₂ (Lookalike style) clauses clauses')
      (hwhens : List.Forall₂ (Lookalike style) whens whens')
      (helse : Option.Rel (Lookalike style) elseClause elseClause') :
      Lookalike style (caseWhen pivot clauses whens elseClause)
        (caseWhen pivot' clauses' whens' elseClause')
  | ret {argument argument' : Node} (hargument : Lookalike style argument argument') :
      Lookalike style (ret argument) (ret argument')
  | yielding {args args' : List Node} (hargs : List.Forall₂ (Lookalike style) args args') :
      Lookalike style (yielding args) (yielding args')
  | classDef (path : ConstPath) (superclass : Option ConstPath) {body body' : Node}
      (hbody : Lookalike style body body') :
      Lookalike style (classDef path superclass body) (classDef path superclass body')
  | moduleDef (path : ConstPath) {body body' : Node} (hbody : Lookalike style body body') :
      Lookalike style (moduleDef path body) (moduleDef path body')
  | logicalAnd {lhs lhs' rhs rhs' : Node} (hlhs : Lookalike style lhs lhs')
      (hrhs : Lookalike style rhs rhs') :
      Lookalike style (logicalAnd lhs rhs) (logicalAnd lhs' rhs')
  | logicalOr {lhs lhs' rhs rhs' : Node} (hlhs : Lookalike style lhs lhs')
      (hrhs : Lookalike style rhs rhs') :
      Lookalike style (logicalOr lhs rhs) (logicalOr lhs' rhs')
  /-- A read in front of an operator would be abbreviated, where a call is not. -/
  | localWrite {name : String} {rhs rhs' : Node} (hrhs : Lookalike style rhs rhs')
      (hplain : rhs.abbreviation? style (.localVar name) = none →
        rhs'.abbreviation? style (.localVar name) = none) :
      Lookalike style (localWrite name rhs) (localWrite name rhs')
  | instanceWrite (name : String) {rhs rhs' : Node} (hrhs : Lookalike style rhs rhs') :
      Lookalike style (instanceWrite name rhs) (instanceWrite name rhs')
  | constRead {base base' : Option Node} (name : String)
      (hbase : Option.Rel (Lookalike style) base base') :
      Lookalike style (constRead base name) (constRead base' name)
  | constWrite (path : List String) {rhs rhs' : Node} (hrhs : Lookalike style rhs rhs') :
      Lookalike style (constWrite path rhs) (constWrite path rhs')
  | array {elements elements' : List Node}
      (helements : List.Forall₂ (Lookalike style) elements elements') :
      Lookalike style (array elements) (array elements')
  | hash {keys keys' values values' : List Node}
      (hkeys : List.Forall₂ (Lookalike style) keys keys')
      (hvalues : List.Forall₂ (Lookalike style) values values') :
      Lookalike style (hash keys values) (hash keys' values')
  | interpolatedString {parts parts' : List Node}
      (hparts : List.Forall₂ (Lookalike style) parts parts') :
      Lookalike style (interpolatedString parts) (interpolatedString parts')
  | interpolatedSymbol {parts parts' : List Node}
      (hparts : List.Forall₂ (Lookalike style) parts parts') :
      Lookalike style (interpolatedSymbol parts) (interpolatedSymbol parts')
  | including {args args' : List Node} (hargs : List.Forall₂ (Lookalike style) args args') :
      Lookalike style (including args) (including args')
  | block {statements statements' : List Node}
      (hstatements : List.Forall₂ (Lookalike style) statements statements') :
      Lookalike style (block statements) (block statements')

/-- A value that is abbreviated when it is assigned to its left operand. -/
structure Operation where
  operator : String
  lhs : Node
  rhs : Node

def operation? (style : LiteralStyle) : Node → Option Operation
  | logicalAnd lhs rhs => some ⟨"&&", lhs, rhs⟩
  | logicalOr lhs rhs => some ⟨"||", lhs, rhs⟩
  | call (some lhs) method [rhs] _ none none =>
    if style = .verbose ∧ Operator.isCompound method then some ⟨method, lhs, rhs⟩ else none
  | _ => none

def Operation.abbreviation? (target : Variable) (operation : Operation) : Option (String × Node) :=
  if operation.lhs.reads target then some (operation.operator, operation.rhs) else none

theorem abbreviation?_eq {style : LiteralStyle} {target : Variable} (node : Node) :
    node.abbreviation? style target =
      (node.operation? style).bind (Operation.abbreviation? target) := by
  unfold abbreviation?
  split
  · rfl
  · rfl
  · simp only [operation?]
    split_ifs <;> simp_all [Operation.abbreviation?]
  · rw [operation?] <;> simp_all

namespace Lookalike

variable {style : LiteralStyle} {node other : Node}

theorem statements (h : Lookalike style node other) :
    List.Forall₂ (Lookalike style) node.statements other.statements := by
  have hself := h
  cases h with
  | refl => exact List.forall₂_same.2 fun statement _ => refl statement
  | block hstatements => exact hstatements
  | _ => exact .cons hself .nil

theorem isEmptyBody_eq (h : Lookalike style node other) :
    node.isEmptyBody = other.isEmptyBody := by
  cases h with
  | block hstatements => cases hstatements <;> rfl
  | _ => rfl

/-- Nothing but a missing value is written as one. -/
theorem eq_nil_iff (h : Lookalike style node other) : node = .nil ↔ other = .nil := by
  cases h with
  | refl => exact Iff.rfl
  | _ => constructor <;> intro h <;> cases h

/-- What reads a variable is no call, so it stays as it is. -/
theorem eq_of_reads {target : Variable} (h : Lookalike style node other)
    (hreads : node.reads target) : other = node := by
  cases h with
  | refl => rfl
  | _ => cases hreads

theorem reads_instanceVar (h : Lookalike style node other) (name : String) :
    node.reads (.instanceVar name) = other.reads (.instanceVar name) := by
  cases h with
  | bare => simp [reads]
  | _ => rfl

theorem operation? (h : Lookalike style node other) :
    Option.Rel (fun first second => first.operator = second.operator ∧
      Lookalike style first.lhs second.lhs ∧ Lookalike style first.rhs second.rhs)
      (node.operation? style) (other.operation? style) := by
  cases h with
  | refl =>
      cases node.operation? style with
      | none => exact .none
      | some operation => exact .some ⟨rfl, refl _, refl _⟩
  | logicalAnd hlhs hrhs | logicalOr hlhs hrhs => exact .some ⟨rfl, hlhs, hrhs⟩
  | call method params hreceiver hargs hbody hforward =>
      -- Only a call with a receiver, one argument and no block is an operation.
      rcases hreceiver with hreceiver | _
      · rcases hargs with _ | ⟨harg, _ | _⟩
        · exact .none
        · rcases hbody with _ | _
          · exact .none
          · rcases hforward with _ | _
            · exact .none
            · rw [Node.operation?, Node.operation?]
              split
              · exact .some ⟨rfl, hreceiver, harg⟩
              · exact .none
        · exact .none
      · exact .none
  | _ => exact .none

variable {target : Variable} {value : Node} {operator : String}

theorem exists_abbreviation? (h : Lookalike style node other)
    (hsome : node.abbreviation? style target = some (operator, value)) :
    ∃ value', other.abbreviation? style target = some (operator, value') ∧
      Lookalike style value value' := by
  have hoperations := h.operation?
  rw [abbreviation?_eq] at hsome ⊢
  generalize node.operation? style = first, other.operation? style = second at *
  cases hoperations with
  | none => cases hsome
  | some hoperation =>
      obtain ⟨hoperator, hlhs, hrhs⟩ := hoperation
      rw [Option.bind_some, Operation.abbreviation?, Option.ite_none_right_eq_some] at hsome
      obtain ⟨hreads, heq⟩ := hsome
      obtain ⟨rfl, rfl⟩ := Prod.mk.inj (Option.some.inj heq)
      refine ⟨_, ?_, hrhs⟩
      rw [Option.bind_some, Operation.abbreviation?, hlhs.eq_of_reads hreads, if_pos hreads,
        hoperator]

theorem abbreviation?_instanceVar_eq_none {name : String} (h : Lookalike style node other)
    (hnone : node.abbreviation? style (.instanceVar name) = none) :
    other.abbreviation? style (.instanceVar name) = none := by
  have hoperations := h.operation?
  rw [abbreviation?_eq] at hnone ⊢
  generalize node.operation? style = first, other.operation? style = second at *
  cases hoperations with
  | none => rfl
  | some hoperation =>
      obtain ⟨-, hlhs, -⟩ := hoperation
      simpa [Operation.abbreviation?, hlhs.reads_instanceVar] using hnone

end Lookalike

end Node

open Node (Lookalike)

namespace Render

/-- Pieces that are the same, or children that look alike. -/
inductive PieceAlike (style : LiteralStyle) : Piece → Piece → Prop where
  | same (piece : Piece) : PieceAlike style piece piece
  | child {node other : Node} (h : Lookalike style node other) :
      PieceAlike style (.child node) (.child other)

abbrev PiecesAlike (style : LiteralStyle) : List Piece → List Piece → Prop :=
  List.Forall₂ (PieceAlike style)

variable {config : RenderConfig} {style : LiteralStyle} {node other : Node}

/-- Looking alike needs the same parentheses. -/
theorem precedence_eq_of_lookalike (h : Lookalike style node other) :
    precedence style node = precedence style other := by
  induction node using Node.induction_children generalizing other with
  | step node ih =>
  cases h with
  | bare params hname =>
      obtain ⟨hbinary, -, hwrite, hnot⟩ := Operator.isWord_iff.1 hname
      simp [precedence, Node.rendered, hbinary, hwrite, hnot]
  | call method params hreceiver hargs hbody hforward =>
      cases hbody <;> cases hforward <;> rfl
  | ifElse htest hthen helse | unlessElse htest hthen helse => cases helse <;> rfl
  | @ret argument argument' hargument =>
      by_cases hnil : argument = .nil
      · rw [hnil, hargument.eq_nil_iff.1 hnil]
      · rw [precedence_ret hnil, precedence_ret (mt hargument.eq_nil_iff.2 hnil)]
        exact ih argument (.head _) hargument
  | yielding hargs => cases hargs <;> rfl
  | block hstatements =>
      rcases hstatements with _ | ⟨hfirst, _ | _⟩
      · rfl
      · have hsame := ih _ (.head _) hfirst
        exact hsame
      · rfl
  | _ => rfl

/-- What two rules give: pieces that look alike, or the same refusal. -/
inductive RulesAlike (style : LiteralStyle) :
    Except Unsupported (List Piece) → Except Unsupported (List Piece) → Prop where
  | ok {pieces others : List Piece} (h : PiecesAlike style pieces others) :
      RulesAlike style (.ok pieces) (.ok others)
  | error (cause : Unsupported) : RulesAlike style (.error cause) (.error cause)

namespace PiecesAlike

variable {pieces pieces' others others' : List Piece}

theorem refl (pieces : List Piece) : PiecesAlike style pieces pieces :=
  List.forall₂_same.2 fun piece _ => PieceAlike.same piece

theorem cons (piece : Piece) (h : PiecesAlike style pieces pieces') :
    PiecesAlike style (piece :: pieces) (piece :: pieces') :=
  List.Forall₂.cons (PieceAlike.same piece) h

theorem child (h : Lookalike style node other) (hrest : PiecesAlike style pieces pieces') :
    PiecesAlike style (.child node :: pieces) (.child other :: pieces') :=
  List.Forall₂.cons (PieceAlike.child h) hrest

theorem append (hfirst : PiecesAlike style pieces pieces')
    (hsecond : PiecesAlike style others others') :
    PiecesAlike style (pieces ++ others) (pieces' ++ others') := List.rel_append hfirst hsecond

end PiecesAlike

theorem forall₂_intersperse {α β : Type} {r : α → β → Prop} {separator : α} {separator' : β}
    (hseparator : r separator separator') {items : List α} {items' : List β}
    (h : List.Forall₂ r items items') :
    List.Forall₂ r (items.intersperse separator) (items'.intersperse separator') := by
  induction h with
  | nil => exact .nil
  | cons hfirst hrest ih =>
      cases hrest with
      | nil => exact .cons hfirst .nil
      | cons => exact .cons hfirst (.cons hseparator ih)

theorem forall₂_zipWith {α β γ δ : Type} {r : α → α → Prop} {q : β → β → Prop} {t : γ → δ → Prop}
    {f : α → β → γ} {g : α → β → δ} (hf : ∀ a a' b b', r a a' → q b b' → t (f a b) (g a' b'))
    {left left' : List α} {right right' : List β} (hleft : List.Forall₂ r left left')
    (hright : List.Forall₂ q right right') :
    List.Forall₂ t (List.zipWith f left right) (List.zipWith g left' right') := by
  induction hleft generalizing right right' with
  | nil => exact .nil
  | cons hfirst _ ih =>
      cases hright with
      | nil => exact .nil
      | cons hsecond hright => exact .cons (hf _ _ _ _ hfirst hsecond) (ih hright)

section Parts

variable {args args' : List Node} {receiver receiver' : Option Node}

theorem operand_alike (least : Precedence) (h : Lookalike style node other) :
    PiecesAlike style (operand style least node) (operand style least other) := by
  rw [operand, operand, precedence_eq_of_lookalike h]
  split
  · exact .cons _ (.child h (.refl _))
  · exact .child h (.refl _)

theorem statements_alike (h : Lookalike style node other) :
    PiecesAlike style (statements style node) (statements style other) := by
  have hstatements := h.statements
  unfold statements
  generalize node.statements = first, other.statements = second at hstatements
  cases hstatements with
  | nil => exact .refl _
  | cons hfirst hrest =>
      refine forall₂_intersperse (PieceAlike.same _) ?_
      exact PiecesAlike.child hfirst (List.rel_map (fun _ _ h => .child h) hrest)

theorem commas_alike {lists lists' : List (List Piece)}
    (h : List.Forall₂ (PiecesAlike style) lists lists') :
    PiecesAlike style ([text ","].intercalate lists) ([text ","].intercalate lists') :=
  List.rel_flatten (forall₂_intersperse (PiecesAlike.refl _) h)

theorem arguments_alike (hargs : List.Forall₂ (Lookalike style) args args') :
    PiecesAlike style (arguments style args) (arguments style args') :=
  commas_alike (List.rel_map (fun _ _ h => operand_alike _ h) hargs)

theorem isEmpty_eq_of_forall₂ {α : Type} {r : α → α → Prop} {items items' : List α}
    (h : List.Forall₂ r items items') : items.isEmpty = items'.isEmpty := by
  cases h <;> rfl

theorem argumentList_alike (hargs : List.Forall₂ (Lookalike style) args args') :
    PiecesAlike style (argumentList style args) (argumentList style args') := by
  rw [argumentList, argumentList, isEmpty_eq_of_forall₂ hargs]
  split
  · exact .refl _
  · exact .append (.cons _ (arguments_alike hargs)) (.refl _)

theorem keywordBody_alike (h : Lookalike style node other) :
    PiecesAlike style (keywordBody style node) (keywordBody style other) :=
  .append (.cons _ (statements_alike h)) (.refl _)

theorem callHead_alike (hreceiver : Option.Rel (Lookalike style) receiver receiver')
    (method : String) :
    PiecesAlike style (callHead style receiver method) (callHead style receiver' method) := by
  cases hreceiver with
  | none => exact .refl _
  | some h => exact .append (operand_alike _ h) (.refl _)

theorem getLast?_alike (hargs : List.Forall₂ (Lookalike style) args args') :
    Option.Rel (Lookalike style) args.getLast? args'.getLast? := by
  rw [List.getLast?_eq_head?_reverse, List.getLast?_eq_head?_reverse]
  have hreverse := List.rel_reverse hargs
  generalize args.reverse = first, args'.reverse = second at hreverse
  cases hreverse with
  | nil => exact .none
  | cons hlast => exact .some hlast

theorem plainCall_alike (hreceiver : Option.Rel (Lookalike style) receiver receiver')
    (method : String) (hargs : List.Forall₂ (Lookalike style) args args') :
    RulesAlike style (plainCall style receiver method args)
      (plainCall style receiver' method args') := by
  unfold plainCall
  by_cases hread : Operator.isIndexRead method
  · rw [if_pos hread, if_pos hread]
    cases hreceiver with
    | none => exact .error _
    | some htarget =>
        exact .ok (.append (.append (operand_alike _ htarget) (.cons _ (arguments_alike hargs)))
          (.refl _))
  rw [if_neg hread, if_neg hread]
  by_cases hwrite : Operator.isIndexWrite method
  · rw [if_pos hwrite, if_pos hwrite]
    have hlast := getLast?_alike hargs
    have hindices : List.Forall₂ (Lookalike style) args.dropLast args'.dropLast := by
      rw [List.dropLast_eq_take, List.dropLast_eq_take, hargs.length_eq]
      exact List.forall₂_take _ hargs
    generalize args.getLast? = last, args'.getLast? = last' at hlast
    rw [isEmpty_eq_of_forall₂ hindices]
    cases hreceiver with
    | none => exact .error _
    | some htarget =>
        cases hlast with
        | none => exact .error _
        | some hvalue =>
            by_cases hindex : args'.dropLast.isEmpty
            · simp only [hindex, if_true]
              exact .error _
            · simp only [hindex]
              exact .ok (.append (.append (operand_alike _ htarget)
                (.cons _ (arguments_alike hindices))) (.cons _ (operand_alike _ hvalue)))
  rw [if_neg hwrite, if_neg hwrite]
  by_cases hnot : Operator.isNot method
  · rw [if_pos hnot, if_pos hnot]
    cases hreceiver with
    | none => exact .error _
    | some hsubject => exact .ok (.cons _ (operand_alike _ hsubject))
  · rw [if_neg hnot, if_neg hnot]
    exact .ok (.append (callHead_alike hreceiver method) (argumentList_alike hargs))

theorem call_alike (hreceiver : Option.Rel (Lookalike style) receiver receiver') (method : String)
    (hargs : List.Forall₂ (Lookalike style) args args') (params : List String)
    {body body' forward forward' : Option Node}
    (hbody : Option.Rel (Lookalike style) body body')
    (hforward : Option.Rel (Lookalike style) forward forward') :
    RulesAlike style (call style receiver method args params body forward)
      (call style receiver' method args' params body' forward') := by
  have hhead := callHead_alike hreceiver method
  unfold call
  by_cases hbinary : Operator.isBinary method
  · rw [if_pos hbinary, if_pos hbinary]
    rcases hreceiver with hlhs | _
    · rcases hargs with _ | ⟨hrhs, _ | _⟩
      · exact .error _
      · exact .ok (.append (operand_alike _ hlhs) (.cons _ (operand_alike _ hrhs)))
      · exact .error _
    · exact .error _
  · rw [if_neg hbinary, if_neg hbinary]
    cases hbody with
    | some hbody =>
        refine .ok (.append (.append (.append (.append hhead (argumentList_alike hargs))
          (.refl _)) ?_) (.refl _))
        rw [hbody.isEmptyBody_eq]
        split
        · exact .refl _
        · exact statements_alike hbody
    | none =>
        cases hforward with
        | none => exact plainCall_alike hreceiver method hargs
        | some hblock =>
            refine .ok (.append (.append (.append hhead (.cons _ ?_))
              (.cons _ (operand_alike _ hblock))) (.refl _))
            rw [isEmpty_eq_of_forall₂ hargs]
            split
            · exact .refl _
            · exact .append (arguments_alike hargs) (.refl _)

theorem condition_alike (negate : Bool) (least : Precedence) (h : Lookalike style node other) :
    PiecesAlike style (condition style negate least node) (condition style negate least other) := by
  rw [condition, condition]
  split
  · exact .cons _ (.child h (.refl _))
  · exact operand_alike _ h

theorem conditional_alike (negate : Bool) {test test' thenBranch thenBranch' : Node}
    (htest : Lookalike style test test') (hthen : Lookalike style thenBranch thenBranch')
    {elseBranch elseBranch' : Option Node}
    (helse : Option.Rel (Lookalike style) elseBranch elseBranch') :
    PiecesAlike style (conditional style negate test thenBranch elseBranch)
      (conditional style negate test' thenBranch' elseBranch') := by
  cases helse with
  | some helse =>
      have hbranches := PiecesAlike.append (condition_alike negate (Precedence.ternary + 1) htest)
        (.cons (text " ? ") (operand_alike .ternary hthen))
      cases style <;> exact .append hbranches (.cons _ (operand_alike _ helse))
  | none =>
      cases style with
      | verbose =>
          exact .append (operand_alike _ hthen) (.cons _ (condition_alike negate _ htest))
      | obfuscated =>
          exact .append (.append (condition_alike negate _ htest)
            (.cons _ (operand_alike _ hthen))) (.refl _)

theorem assignment_alike {target : Variable} (name : String) (h : Lookalike style node other)
    (hplain : node.abbreviation? style target = none → other.abbreviation? style target = none) :
    PiecesAlike style (assignment style target name node)
      (assignment style target name other) := by
  rw [assignment, assignment]
  cases hnode : node.abbreviation? style target with
  | none =>
      rw [hplain hnode]
      exact .append (.refl _) (operand_alike _ h)
  | some abbreviation =>
      obtain ⟨value', hother, hvalue⟩ := h.exists_abbreviation? hnode
      rw [hother]
      exact .append (.refl _) (operand_alike _ hvalue)

theorem interpolatedPart_alike (h : Lookalike style node other) :
    PiecesAlike style (interpolatedPart style node) (interpolatedPart style other) := by
  have hembedded := PiecesAlike.append (.cons (text "#\x7b") (statements_alike h))
    (.refl [text "\x7d"])
  cases h with
  | refl => exact .refl _
  | _ => exact hembedded

theorem interpolated_alike {parts parts' : List Node}
    (hparts : List.Forall₂ (Lookalike style) parts parts') :
    PiecesAlike style (parts.flatMap (interpolatedPart style))
      (parts'.flatMap (interpolatedPart style)) :=
  List.rel_flatMap hparts fun _ _ h => interpolatedPart_alike h

theorem caseWhen_alike {pivot pivot' : Node} (hpivot : Lookalike style pivot pivot')
    {clauses clauses' whens whens' : List Node}
    (hclauses : List.Forall₂ (Lookalike style) clauses clauses')
    (hwhens : List.Forall₂ (Lookalike style) whens whens') {elseClause elseClause' : Option Node}
    (helse : Option.Rel (Lookalike style) elseClause elseClause') :
    RulesAlike style (caseWhen style pivot clauses whens elseClause)
      (caseWhen style pivot' clauses' whens' elseClause') := by
  have hwhenClauses : PiecesAlike style (List.zipWith (whenClause style) clauses whens).flatten
      (List.zipWith (whenClause style) clauses' whens').flatten := by
    refine List.rel_flatten (forall₂_zipWith ?_ hclauses hwhens)
    intro clause clause' test test' hclause htest
    exact PiecesAlike.append (.append (.cons _ (operand_alike _ htest))
      (.cons _ (statements_alike hclause))) (.refl _)
  have hheading := PiecesAlike.cons (text " ") (operand_alike .assign hpivot)
  unfold caseWhen
  rw [hclauses.length_eq, hwhens.length_eq]
  split_ifs
  · refine .ok (.append (.append (.append (.cons _ ?_) (.cons _ hwhenClauses)) ?_) (.refl _))
    · cases hpivot with
      | refl => exact .refl _
      | _ => exact hheading
    · cases helse with
      | none => exact .refl _
      | some helse => exact .append (.append (.refl _) (statements_alike helse)) (.refl _)
  · exact .error _

end Parts

theorem rule_bare {name : String} {params : List String} (hname : Operator.isWord name) :
    rule style (.call none name [] params none none) = .ok [text name] := by
  obtain ⟨hbinary, hread, hwrite, hnot⟩ := Operator.isWord_iff.1 hname
  simp [rule, call, plainCall, callHead, argumentList, hbinary, hread, hwrite, hnot]

/-- **Rules do not tell a bare call from a read.** Nodes that look alike are written from the same
texts, and from children that look alike. -/
theorem rule_alike (h : Lookalike style node other) :
    RulesAlike style (rule style node) (rule style other) := by
  cases h with
  | refl =>
      cases rule style node with
      | ok pieces => exact .ok (.refl pieces)
      | error cause => exact .error cause
  | bare params hname =>
      rw [rule_bare hname, rule]
      exact .ok (.refl _)
  | call method params hreceiver hargs hbody hforward =>
      exact call_alike hreceiver method hargs params hbody hforward
  | definition method params hbody => exact .ok (.append (.refl _) (keywordBody_alike hbody))
  | ifElse htest hthen helse => exact .ok (conditional_alike false htest hthen helse)
  | unlessElse htest hthen helse => exact .ok (conditional_alike true htest hthen helse)
  | caseWhen hpivot hclauses hwhens helse => exact caseWhen_alike hpivot hclauses hwhens helse
  | @ret argument argument' hargument =>
      by_cases hnil : argument = .nil
      · rw [hnil, hargument.eq_nil_iff.1 hnil]
        exact .ok (.refl _)
      · rw [rule_ret hnil, rule_ret (mt hargument.eq_nil_iff.2 hnil)]
        exact .ok (.child hargument (.refl _))
  | yielding hargs =>
      rw [rule, rule, isEmpty_eq_of_forall₂ hargs]
      refine .ok (.cons _ ?_)
      split
      · exact .refl _
      · exact .cons _ (arguments_alike hargs)
  | classDef path superclass hbody => exact .ok (.append (.refl _) (keywordBody_alike hbody))
  | moduleDef path hbody => exact .ok (.append (.refl _) (keywordBody_alike hbody))
  | logicalAnd hlhs hrhs | logicalOr hlhs hrhs =>
      exact .ok (.append (operand_alike _ hlhs) (.cons _ (operand_alike _ hrhs)))
  | localWrite hrhs hplain => exact .ok (assignment_alike _ hrhs hplain)
  | instanceWrite name hrhs =>
      exact .ok (assignment_alike name hrhs hrhs.abbreviation?_instanceVar_eq_none)
  | constRead name hbase =>
      refine .ok (.append ?_ (.refl _))
      cases hbase with
      | none => exact .refl _
      | some hbase => exact .append (operand_alike _ hbase) (.refl _)
  | constWrite path hrhs => exact .ok (.append (.refl _) (operand_alike _ hrhs))
  | array helements => exact .ok (.append (.cons _ (arguments_alike helements)) (.refl _))
  | hash hkeys hvalues =>
      rw [rule, rule, hkeys.length_eq, hvalues.length_eq]
      split_ifs
      · refine .ok (.append (.cons _ (commas_alike (forall₂_zipWith ?_ hkeys hvalues))) (.refl _))
        intro key key' value value' hkey hvalue
        exact .append (operand_alike _ hkey) (.cons _ (operand_alike _ hvalue))
      · exact .error _
  | interpolatedString hparts | interpolatedSymbol hparts =>
      exact .ok (.append (.cons _ (interpolated_alike hparts)) (.refl _))
  | including hargs =>
      cases hargs with
      | nil => exact .error _
      | cons hincluded => exact .ok (.cons _ (operand_alike _ hincluded))
  | block hstatements => exact .ok (statements_alike (.block hstatements))

theorem writePieces_eq_ok_iff_of_alike {separator : Separator}
    {emit : Node → Except Unsupported (List Char)}
    (hemit : ∀ node other, Lookalike style node other →
      ∀ content, emit node = .ok content ↔ emit other = .ok content)
    {pieces others : List Piece} (h : PiecesAlike style pieces others) {content : List Char} :
    writePieces separator emit pieces = .ok content ↔
      writePieces separator emit others = .ok content := by
  induction h generalizing content with
  | nil => exact Iff.rfl
  | @cons piece other _ _ hpiece _ ih =>
      have hfirst (first : List Char) : writePiece separator emit piece = .ok first ↔
          writePiece separator emit other = .ok first := by
        cases hpiece with
        | same => exact Iff.rfl
        | child h => exact hemit _ _ h first
      simp only [writePieces_cons_eq_ok, hfirst, ih]

theorem write_eq_ok_iff_of_lookalike {room : Nat} {content : List Char}
    (h : Lookalike config.style node other) :
    write config room node = .ok content ↔ write config room other = .ok content := by
  induction room generalizing node other content with
  | zero => simp [write]
  | succ room ih =>
      have hrules := rule_alike h
      rw [write, write]
      generalize rule config.style node = first, rule config.style other = second at hrules
      cases hrules with
      | error cause => exact Iff.rfl
      | ok hpieces => exact writePieces_eq_ok_iff_of_alike (fun _ _ h _ => ih h) hpieces

/-- An assignment shows whether it is abbreviated: the sign behind its target is the operator or the
equals sign. -/
theorem write_ne_of_abbreviation? {room : Nat} {name : String} {rhs rhs' : Node}
    (hplain : rhs.abbreviation? config.style (.localVar name) = none)
    (habbreviated : rhs'.abbreviation? config.style (.localVar name) ≠ none) {content : List Char}
    (hwrite : write config room (.localWrite name rhs) = .ok content) :
    write config room (.localWrite name rhs') ≠ .ok content := by
  intro hwrite'
  cases room with
  | zero => cases hwrite
  | succ room =>
      obtain ⟨⟨operator, value⟩, hsome⟩ := Option.ne_none_iff_exists'.1 habbreviated
      rw [write_succ rfl, assignment, hplain] at hwrite
      rw [write_succ rfl, assignment, hsome] at hwrite'
      simp only [List.cons_append, List.nil_append, writePieces_cons_eq_ok] at hwrite hwrite'
      obtain ⟨_, _, hname, ⟨_, _, hequals, -, rfl⟩, rfl⟩ := hwrite
      obtain ⟨_, _, hname', ⟨_, _, hoperator, -, rfl⟩, heq⟩ := hwrite'
      obtain rfl := Except.ok.inj hname
      obtain rfl := Except.ok.inj hname'
      obtain rfl := Except.ok.inj hequals
      obtain rfl := Except.ok.inj hoperator
      have hrest := List.append_cancel_left heq
      have table : ∀ operator ∈ "&&" :: "||" :: Operator.compoundNames,
          operator.toList.head?.getD '=' ≠ '=' := by decide
      have hsign := table operator (abbreviation?_cases hsome).2
      cases hletters : operator.toList with
      | nil => exact hsign (by rw [hletters, List.head?_nil, Option.getD_none])
      | cons sign others =>
          rw [hletters] at hrest hsign
          exact hsign (List.cons.inj hrest).1.symm

end Render

open Render

section EntryPoints

variable {config : RenderConfig} {tree other : Node}

theorem renderNode_eq_ok_iff_of_lookalike (h : tree.Lookalike config.style other)
    {content : String} :
    renderNode config tree = .ok content ↔ renderNode config other = .ok content := by
  rw [renderNode_eq_ok, renderNode_eq_ok, write_eq_ok_iff_of_lookalike h]

theorem renderStatements_eq_ok_iff_of_lookalike (h : tree.Lookalike config.style other)
    {content : String} :
    renderStatements config tree = .ok content ↔ renderStatements config other = .ok content := by
  rw [renderStatements_eq_ok, renderStatements_eq_ok]
  exact writePieces_eq_ok_iff_of_alike (fun _ _ h _ => write_eq_ok_iff_of_lookalike h)
    (statements_alike h)

theorem map_renderNode_iff_of_lookalike {nodes others : List Node} {texts : List String}
    (h : List.Forall₂ (Lookalike config.style) nodes others) :
    nodes.map (renderNode config) = texts.map .ok ↔
      others.map (renderNode config) = texts.map .ok := by
  induction h generalizing texts with
  | nil => exact Iff.rfl
  | cons hfirst _ ih =>
      cases texts with
      | nil => simp
      | cons =>
          simp only [List.map_cons, List.cons.injEq, renderNode_eq_ok_iff_of_lookalike hfirst, ih]

theorem renderProgram_eq_ok_iff_of_lookalike (h : tree.Lookalike config.style other)
    {content : String} :
    renderProgram config tree = .ok content ↔ renderProgram config other = .ok content := by
  simp only [renderProgram_eq_ok, map_renderNode_iff_of_lookalike h.statements]

end EntryPoints

/-- **Bare calls and reads have one text.** Wherever a bare call stands, and whether or not a local
of its name is visible there, the text stays the same when a read takes its place. The exception is
an assignment that is abbreviated with one of them only: its text differs. -/
theorem render_bare_call_as_read (config : RenderConfig) :
    (∀ tree other : Node, tree.Lookalike config.style other → ∀ content,
      (renderNode config tree = .ok content ↔ renderNode config other = .ok content) ∧
      (renderStatements config tree = .ok content ↔ renderStatements config other = .ok content) ∧
      (renderProgram config tree = .ok content ↔ renderProgram config other = .ok content)) ∧
    ∀ (name : String) (rhs rhs' : Node),
      rhs.abbreviation? config.style (.localVar name) = none →
      rhs'.abbreviation? config.style (.localVar name) ≠ none → ∀ content,
      renderNode config (.localWrite name rhs) = .ok content →
        renderNode config (.localWrite name rhs') ≠ .ok content := by
  refine ⟨fun tree other h content => ⟨renderNode_eq_ok_iff_of_lookalike h,
    renderStatements_eq_ok_iff_of_lookalike h, renderProgram_eq_ok_iff_of_lookalike h⟩, ?_⟩
  intro name rhs rhs' hplain habbreviated content hcontent hcontent'
  rw [renderNode_eq_ok] at hcontent hcontent'
  exact write_ne_of_abbreviation? hplain habbreviated hcontent hcontent'

/-- One local is a parameter and the other is assigned in the line before. The value of `x=x()||1`
keeps its shape, where that of `x=x||1` is abbreviated. -/
theorem render_bare_call_as_read_in_method :
    let method (arguments : List Node) : Node := .definition "f" ["x"]
      (.block [.localWrite "y" (.integer 1), .send "g" arguments])
    let calls : List Node := [.send "x" [], .send "y" []]
    let reads : List Node := [.localRead "x", .localRead "y"]
    let fallback (first : Node) : Node := .localWrite "x" (.logicalOr first (.integer 1))
    (method calls).Lookalike .verbose (method reads) ∧
      renderProgram .readable (method calls) = .ok "def f(x)\ny=1\ng(x,y)\nend" ∧
      renderProgram .readable (method reads) = .ok "def f(x)\ny=1\ng(x,y)\nend" ∧
      renderNode .readable (fallback (.send "x" [])) = .ok "x=x||1" ∧
      renderNode .readable (fallback (.localRead "x")) ≠ .ok "x=x||1" := by
  intro method calls reads fallback
  have hcalls : List.Forall₂ (Lookalike .verbose) calls reads :=
    .cons (.bare [] (by decide)) (.cons (.bare [] (by decide)) .nil)
  have hmethod : (method calls).Lookalike .verbose (method reads) :=
    .definition "f" ["x"] (.block (.cons (.refl _) (.cons (.call "g" [] .none hcalls .none .none)
      .nil)))
  have htext : renderProgram .readable (method calls) = .ok "def f(x)\ny=1\ng(x,y)\nend" := by
    decide
  have hfallback : renderNode .readable (fallback (.send "x" [])) = .ok "x=x||1" := by decide
  obtain ⟨halike, hdiffers⟩ := render_bare_call_as_read .readable
  exact ⟨hmethod, htext, (halike _ _ hmethod _).2.2.1 htext, hfallback,
    hdiffers "x" _ _ (by decide) (by decide) _ hfallback⟩

/-- The text of `x = x()` assigns a local to itself. -/
theorem render_assigned_bare_call :
    let assigned (value : Node) : Node := .localWrite "x" value
    assigned (.send "x" []) ≠ assigned (.localRead "x") ∧
      ∀ config ∈ [RenderConfig.readable, .compact],
        renderNode config (assigned (.send "x" [])) = .ok "x=x" ∧
        renderNode config (assigned (.localRead "x")) = .ok "x=x" ∧
        renderProgram config (assigned (.send "x" [])) =
          renderProgram config (assigned (.localRead "x")) := by
  intro assigned
  refine ⟨fun h => ?_, by decide⟩
  cases (Node.localWrite.inj h).2

end RubyPress
