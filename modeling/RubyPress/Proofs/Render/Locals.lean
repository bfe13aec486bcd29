import RubyPress.Proofs.Render.Success
import RubyPress.Proofs.Ruby.Scope

/-!
# Locals in the text

The order in which a program is evaluated and the order in which it is written are not the same. An
assignment evaluates its value first and is written with its target first, which does no harm. A
modifier is written with its branch in front of its condition, and a branch that reads what the
condition assigns then reads a name that is not yet known. Dropped children are evaluated and not
written at all. Apart from these two, locals that are assigned before they are read stay so in the
text.
-/

namespace RubyPress

open Render

open Ruby (Trace)

/-- Whether a conditional with a single branch is written as a modifier. -/
def LiteralStyle.hasModifier (style : LiteralStyle) : Bool := style = .verbose

namespace Node

/-! ### Two orders -/

/-- What a branch needs, if it is asked for before the condition. -/
def foreseen (ahead : Bool) (elseBranch : Option Node) (branch : Trace) : List Trace :=
  if ahead ∧ elseBranch.isNone then branch.needs.map .read else []

mutual

/-- What happens to locals when a node is evaluated. If asked `ahead`, a conditional with a single
branch needs the locals of its branch before it evaluates its condition. -/
def evaluation (ahead : Bool) : Node → Trace
  | call receiver _ args params body forward =>
    .sequence (evaluationPart ahead receiver ++ evaluationEach ahead args ++
      evaluationPart ahead forward ++ [.closure params (.sequence (evaluationPart ahead body))])
  | definition _ params body => .method params (body.evaluation ahead)
  | classDef _ _ body | moduleDef _ body => .method [] (body.evaluation ahead)
  | ifElse test thenBranch elseBranch | unlessElse test thenBranch elseBranch =>
    .sequence (foreseen ahead elseBranch (thenBranch.evaluation ahead) ++
      test.evaluation ahead :: thenBranch.evaluation ahead :: evaluationPart ahead elseBranch)
  | caseWhen pivot clauses whens elseClause =>
    .sequence (pivot.evaluation ahead ::
      (List.zipWith (fun clause test => [test, clause]) (evaluationEach ahead clauses)
        (evaluationEach ahead whens)).flatten ++ evaluationPart ahead elseClause)
  | localRead name => .read name
  | localWrite name rhs => .seq (rhs.evaluation ahead) (.write name)
  | ret node | instanceWrite _ node | constWrite _ node => node.evaluation ahead
  | logicalAnd lhs rhs | logicalOr lhs rhs =>
    .sequence [lhs.evaluation ahead, rhs.evaluation ahead]
  | constRead base _ => .sequence (evaluationPart ahead base)
  | hash keys values =>
    .sequence (List.zipWith (fun key value => [key, value]) (evaluationEach ahead keys)
      (evaluationEach ahead values)).flatten
  | yielding nodes | array nodes | interpolatedString nodes | interpolatedSymbol nodes |
    including nodes | block nodes => .sequence (evaluationEach ahead nodes)
  | boolean _ | selfRef | instanceRead _ | string _ | integer _ | symbol _ | nil | unmapped _ =>
    .text []
termination_by structural node => node

def evaluationPart (ahead : Bool) : Option Node → List Trace
  | none => []
  | some node => [node.evaluation ahead]
termination_by structural part => part

def evaluationEach (ahead : Bool) : List Node → List Trace
  | [] => []
  | node :: nodes => node.evaluation ahead :: evaluationEach ahead nodes
termination_by structural nodes => nodes

end

/-- Where the text of a node mentions a local, and where the body of a method or block is. The parts
are what is known of the pieces of the node. -/
def marked (style : LiteralStyle) : Node → List Trace → Trace
  | localRead name, _ => .read name
  | localWrite name rhs, parts =>
    .sequence ((if (rhs.abbreviation? style (.localVar name)).isSome then .update name
      else .write name) :: parts.drop 1)
  | definition _ params _, parts => .method params (.sequence parts)
  | classDef .., parts | moduleDef .., parts => .method [] (.sequence parts)
  | call receiver method args params (some _) _, parts =>
    if Operator.isBinary method then .sequence parts
    else
      let head := (callHead style receiver method ++ argumentList style args).length
      .sequence (parts.take head ++ [.closure params (.sequence (parts.drop head))])
  | _, parts => .sequence parts

end Node

namespace Render

def pieceTrace (separator : Separator) (emit : Node → Trace) : Piece → Trace
  | .text content => .text content
  | .separator => .text separator.text.toList
  | .child node => emit node

/-- What happens to locals in the text of a node, in the order of the text. -/
def trace (config : RenderConfig) : Nat → Node → Trace
  | 0, _ => .text []
  | room + 1, node =>
    match rule config.style node with
    | .error _ => .text []
    | .ok pieces =>
      node.marked config.style (pieces.map (pieceTrace config.separator (trace config room)))

variable {config : RenderConfig} {separator : Separator} {style : LiteralStyle} {room : Nat}
  {node : Node} {pieces : List Piece} {content : List Char} {emit : Node → Trace}

theorem trace_succ (hrule : rule config.style node = .ok pieces) :
    trace config (room + 1) node =
      node.marked config.style (pieces.map (pieceTrace config.separator (trace config room))) := by
  rw [trace, hrule]

theorem assignment_eq (target : Variable) (name : String) (rhs : Node) :
    assignment style target name rhs =
      text name :: (assignment style target name rhs).drop 1 := by
  unfold assignment
  split <;> rfl

theorem call_eq_ok_of_body {receiver : Option Node} {method : String} {args : List Node}
    {params : List String} {body : Node} {forward : Option Node}
    (hmethod : ¬Operator.isBinary method)
    (hpieces : call style receiver method args params (some body) forward = .ok pieces) :
    pieces = callHead style receiver method ++ argumentList style args ++
      ([text "\x7b|", text (",".intercalate params), text "|"] ++
        (if body.isEmptyBody then [] else statements style body) ++ [text "\x7d"]) := by
  cases callForm hpieces with
  | operator _ _ hbinary => exact absurd hbinary hmethod
  | block => simp only [List.append_assoc]

theorem spelling_marked (hrule : rule style node = .ok pieces) :
    (node.marked style (pieces.map (pieceTrace separator emit))).spelling =
      (pieces.map (pieceTrace separator emit)).flatMap Trace.spelling := by
  cases node with
  | localRead name =>
      obtain rfl := Except.ok.inj hrule
      exact (List.append_nil _).symm
  | localWrite name rhs =>
      obtain rfl := Except.ok.inj hrule
      rw [assignment_eq, List.map_cons, List.flatMap_cons, Node.marked, Trace.sequence_cons,
        Trace.spelling, Trace.spelling_sequence, List.drop_one, List.tail_cons]
      split <;> rfl
  | definition | classDef | moduleDef => exact Trace.spelling_sequence _
  | call receiver method args params body forward =>
      cases body with
      | none => exact Trace.spelling_sequence _
      | some body =>
          rw [Node.marked]
          split
          · exact Trace.spelling_sequence _
          · simp only [Trace.spelling_sequence, List.flatMap_append, List.flatMap_singleton,
              Trace.spelling]
            rw [← List.flatMap_append, List.take_append_drop]
  | _ => exact Trace.spelling_sequence _

theorem spelling_pieces {write : Node → Except Unsupported (List Char)}
    (hwrite : ∀ child content, write child = .ok content → (emit child).spelling = content)
    (h : writePieces separator write pieces = .ok content) :
    (pieces.map (pieceTrace separator emit)).flatMap Trace.spelling = content := by
  induction pieces generalizing content with
  | nil =>
      obtain rfl := Except.ok.inj h
      rfl
  | cons piece pieces ih =>
      obtain ⟨first, rest, hfirst, hrest, rfl⟩ := writePieces_cons_eq_ok.1 h
      rw [List.map_cons, List.flatMap_cons, ih hrest]
      congr 1
      cases piece with
      | text | separator => exact Except.ok.inj hfirst
      | child child => exact hwrite child first hfirst

/-- **The trace of a text is spelled like the text.** -/
theorem spelling_trace (h : write config room node = .ok content) :
    (trace config room node).spelling = content := by
  induction room generalizing node content with
  | zero => cases h
  | succ room ih =>
      obtain ⟨pieces, hrule, hpieces⟩ := write_succ_eq_ok.1 h
      rw [trace_succ hrule, spelling_marked hrule]
      exact spelling_pieces (fun child content => ih) hpieces

theorem assigned_pieces (pieces : List Piece) :
    (Trace.sequence (pieces.map (pieceTrace separator emit))).assigned =
      (Trace.sequence ((nested pieces).map emit)).assigned := by
  induction pieces with
  | nil => rfl
  | cons piece pieces ih => cases piece <;> simp [Trace.assigned, pieceTrace, ih]

theorem defined_pieces (known : List String) :
    (Trace.sequence (pieces.map (pieceTrace separator emit))).Defined known ↔
      (Trace.sequence ((nested pieces).map emit)).Defined known := by
  induction pieces generalizing known with
  | nil => rfl
  | cons piece pieces ih =>
      cases piece <;> simp [Trace.Defined, Trace.assigned, pieceTrace, ih]

theorem refines_pieces {trace : Trace}
    (h : trace.Refines (.sequence ((nested pieces).map emit))) :
    trace.Refines (.sequence (pieces.map (pieceTrace separator emit))) :=
  ⟨fun known hdefined => (defined_pieces known).2 (h.defined known hdefined),
    (assigned_pieces pieces).symm ▸ h.assigned⟩

/-! ### From evaluation to text -/

variable {ahead : Bool}

theorem evaluationPart_eq (part : Option Node) :
    Node.evaluationPart ahead part = part.toList.map (Node.evaluation ahead) := by
  cases part <;> rfl

theorem evaluationEach_eq (nodes : List Node) :
    Node.evaluationEach ahead nodes = nodes.map (Node.evaluation ahead) := by
  induction nodes with
  | nil => rfl
  | cons node nodes ih => rw [Node.evaluationEach, ih, List.map_cons]

theorem evaluation_call {receiver : Option Node} {method : String} {args : List Node}
    {params : List String} {body forward : Option Node} :
    (Node.call receiver method args params body forward).evaluation ahead =
      .sequence ((receiver.toList ++ args).map (Node.evaluation ahead) ++
        forward.toList.map (Node.evaluation ahead) ++
        [.closure params (.sequence (body.toList.map (Node.evaluation ahead)))]) := by
  simp only [Node.evaluation, evaluationPart_eq, evaluationEach_eq, List.map_append]

theorem refines_dropped {nodes : List Node}
    (h : ∀ node ∈ nodes, (node.evaluation ahead).assigned = []) :
    (Trace.sequence (nodes.map (Node.evaluation ahead))).Refines (.sequence []) := by
  refine .omitted ?_
  rw [Trace.assigned_sequence, List.flatMap_map]
  exact List.flatMap_eq_nil_iff.2 h

theorem refines_body {body : Node}
    (h : ∀ statement ∈ body.statements,
      (statement.evaluation ahead).Refines (emit statement)) :
    (body.evaluation ahead).Refines (.sequence (body.statements.map emit)) := by
  cases body with
  | block statements =>
      rw [Node.evaluation, evaluationEach_eq]
      exact .map h
  | _ => exact (h _ (List.mem_singleton_self _)).wrap

theorem refines_conditional {test thenBranch : Node} {elseBranch : Option Node}
    (h : ∀ other ∈ Node.writtenConditional style test thenBranch elseBranch,
      (other.evaluation style.hasModifier).Refines (emit other)) :
    ((Node.ifElse test thenBranch elseBranch).evaluation style.hasModifier).Refines
      (.sequence ((Node.writtenConditional style test thenBranch elseBranch).map emit)) := by
  have hordered (h : ∀ other ∈ test :: thenBranch :: elseBranch.toList,
      (other.evaluation style.hasModifier).Refines (emit other)) :
      (Trace.sequence (test.evaluation style.hasModifier ::
        thenBranch.evaluation style.hasModifier ::
          Node.evaluationPart style.hasModifier elseBranch)).Refines
        (.sequence ((test :: thenBranch :: elseBranch.toList).map emit)) := by
    rw [evaluationPart_eq]
    exact .map h
  rw [Node.evaluation]
  cases style with
  | obfuscated => exact hordered h
  | verbose =>
      cases elseBranch with
      | some branch => exact hordered h
      | none =>
          have hthen := h thenBranch (.head _)
          have htest := h test (.tail _ (.head _))
          exact .branch_first htest hthen

/-- The value of an abbreviated assignment is what remains after its target is read. -/
theorem refines_abbreviation (ahead : Bool) {target : Variable} {rhs value : Node}
    {operator : String} (h : rhs.abbreviation? style target = some (operator, value)) :
    ∃ lhs : Node, lhs.reads target ∧
      (rhs.evaluation ahead).Refines (.seq (lhs.evaluation ahead) (value.evaluation ahead)) := by
  have hpair (lhs : Node) : (Trace.sequence [lhs.evaluation ahead, value.evaluation ahead]).Refines
      (.seq (lhs.evaluation ahead) (value.evaluation ahead)) :=
    ⟨fun known h => ⟨h.1, h.2.1⟩, by simp [Trace.assigned]⟩
  cases abbreviationForm h with
  | conjunction hreads => exact ⟨_, hreads, hpair _⟩
  | disjunction hreads => exact ⟨_, hreads, hpair _⟩
  | arithmetic _ _ hreads =>
      refine ⟨_, hreads, .trans ?_ (hpair _)⟩
      rw [evaluation_call]
      exact .append (.append .refl .refl) (.omitted rfl)

theorem refines_localWrite {name : String} {rhs : Node}
    (h : ∀ other ∈ Node.writtenAssignment style (.localVar name) rhs,
      (other.evaluation ahead).Refines (emit other)) :
    ((Node.localWrite name rhs).evaluation ahead).Refines
      ((Node.localWrite name rhs).marked style
        ((assignment style (.localVar name) name rhs).map (pieceTrace separator emit))) := by
  have hrest : nested ((assignment style (.localVar name) name rhs).drop 1) =
      Node.writtenAssignment style (.localVar name) rhs := by
    rw [← nested_assignment (.localVar name) name, assignment_eq]
    rfl
  rw [Node.marked, ← List.map_drop, Node.evaluation]
  cases habbreviation : rhs.abbreviation? style (.localVar name) with
  | none =>
      have hwritten : Node.writtenAssignment style (.localVar name) rhs = [rhs] := by
        rw [Node.writtenAssignment, habbreviation]
      rw [hwritten] at h hrest
      have hvalue := h rhs (.head _)
      exact .target_first name (refines_pieces (hrest ▸ hvalue.wrap))
  | some abbreviation =>
      obtain ⟨operator, value⟩ := abbreviation
      have hwritten : Node.writtenAssignment style (.localVar name) rhs = [value] := by
        rw [Node.writtenAssignment, habbreviation]
      rw [hwritten] at h hrest
      have hvalue := h value (.head _)
      obtain ⟨lhs, hlhs, hrhs⟩ := refines_abbreviation ahead habbreviation
      have hread : lhs.evaluation ahead = .read name := by
        cases lhs <;> simp_all [Node.reads, Node.evaluation]
      rw [hread] at hrhs
      exact .trans (hrhs.before_write name)
        (.update_first name (refines_pieces (hrest ▸ hvalue.wrap)))

theorem refines_instanceWrite {name : String} {rhs : Node}
    (h : ∀ other ∈ Node.writtenAssignment style (.instanceVar name) rhs,
      (other.evaluation ahead).Refines (emit other)) :
    (rhs.evaluation ahead).Refines
      (.sequence ((Node.writtenAssignment style (.instanceVar name) rhs).map emit)) := by
  unfold Node.writtenAssignment at h ⊢
  split at h
  · next operator value habbreviation =>
      obtain ⟨lhs, hlhs, hrhs⟩ := refines_abbreviation ahead habbreviation
      have hread : lhs.evaluation ahead = .text [] := by
        cases lhs <;> simp_all [Node.reads, Node.evaluation]
      rw [hread] at hrhs
      have hvalue := h value (.head _)
      have hskip : (Trace.seq (.text []) (value.evaluation ahead)).Refines
          (value.evaluation ahead) :=
        ⟨fun known hdefined => by simpa [Trace.assigned] using hdefined.2, fun _ h => h⟩
      exact .trans (.trans hrhs hskip) hvalue.wrap
  · exact (h rhs (.head _)).wrap

theorem marked_of_body {receiver : Option Node} {method : String} {args : List Node}
    {params : List String} {body : Node} {forward : Option Node} {rest : List Piece}
    {parts : Piece → Trace} (hmethod : ¬Operator.isBinary method) :
    (Node.call receiver method args params (some body) forward).marked style
        ((callHead style receiver method ++ argumentList style args ++ rest).map parts) =
      .sequence ((callHead style receiver method ++ argumentList style args).map parts ++
        [.closure params (.sequence (rest.map parts))]) := by
  rw [Node.marked, if_neg hmethod, List.map_append]
  dsimp only
  rw [List.take_left' (List.length_map _), List.drop_left' (List.length_map _)]

theorem refines_call_of_body {receiver : Option Node} {method : String} {args : List Node}
    {params : List String} {body : Node} {forward : Option Node}
    (hmethod : ¬Operator.isBinary method)
    (hpieces : call style receiver method args params (some body) forward = .ok pieces)
    (hdropped : ∀ child ∈ forward.toList, (child.evaluation ahead).assigned = [])
    (houter : ∀ other ∈ receiver.toList ++ args, (other.evaluation ahead).Refines (emit other))
    (hinner : ∀ other ∈ if body.isEmptyBody then [] else body.statements,
      (other.evaluation ahead).Refines (emit other)) :
    ((Node.call receiver method args params (some body) forward).evaluation ahead).Refines
      ((Node.call receiver method args params (some body) forward).marked style
        (pieces.map (pieceTrace separator emit))) := by
  have hhead : nested (callHead style receiver method ++ argumentList style args) =
      receiver.toList ++ args := by simp
  have hbody : (body.evaluation ahead).Refines
      (.sequence ((if body.isEmptyBody then [] else body.statements).map emit)) := by
    cases hempty : body.isEmptyBody with
    | true =>
        refine .omitted ?_
        unfold Node.isEmptyBody at hempty
        split at hempty <;> first | rfl | cases hempty
    | false =>
        rw [hempty] at hinner
        exact refines_body hinner
  have houtside := Trace.Refines.append (.map houter) (refines_dropped hdropped)
  rw [List.append_nil] at houtside
  obtain rfl := call_eq_ok_of_body hmethod hpieces
  rw [evaluation_call, marked_of_body hmethod]
  refine .append (refines_pieces (hhead ▸ houtside)) (.cons (.closure params (.unwrap ?_)) .refl)
  refine refines_pieces ?_
  cases hempty : body.isEmptyBody <;> simpa [hempty] using hbody

theorem refines_call {receiver : Option Node} {method : String} {args : List Node}
    {params : List String} {body forward : Option Node}
    (hpieces : call style receiver method args params body forward = .ok pieces)
    (hdropped : ∀ child ∈ Node.droppedCall method args body forward,
      (child.evaluation ahead).assigned = [])
    (h : ∀ other ∈ Node.writtenCall receiver method args body forward,
      (other.evaluation ahead).Refines (emit other)) :
    ((Node.call receiver method args params body forward).evaluation ahead).Refines
      ((Node.call receiver method args params body forward).marked style
        (pieces.map (pieceTrace separator emit))) := by
  have hnested := nested_call hpieces
  have hclosure (part : Option Node)
      (hpart : ∀ child ∈ part.toList, (child.evaluation ahead).assigned = []) :
      (Trace.sequence [.closure params
        (.sequence (part.toList.map (Node.evaluation ahead)))]).Refines (.sequence []) :=
    .unwrap ⟨fun _ _ => trivial, (refines_dropped hpart).assigned⟩
  unfold Node.writtenCall at h hnested
  unfold Node.droppedCall at hdropped
  by_cases hbinary : Operator.isBinary method
  · -- Both kinds of blocks are dropped.
    rw [if_pos hbinary] at h hnested hdropped
    rw [List.forall_mem_append] at hdropped
    have hmarked : (Node.call receiver method args params body forward).marked style
        (pieces.map (pieceTrace separator emit)) =
          .sequence (pieces.map (pieceTrace separator emit)) := by
      cases body <;> simp [Node.marked, hbinary]
    rw [hmarked, evaluation_call]
    refine refines_pieces ?_
    rw [hnested]
    simpa only [List.append_nil] using
      Trace.Refines.append (.append (.map h) (refines_dropped hdropped.2))
        (hclosure body hdropped.1)
  rw [if_neg hbinary] at h hnested hdropped
  cases body with
  | some body =>
      rw [List.forall_mem_append] at h
      exact refines_call_of_body hbinary hpieces hdropped h.1 h.2
  | none =>
      -- Without a body the closure is empty, and it has no trace in the text.
      have hnoBlock := hclosure none (List.forall_mem_nil _)
      rw [evaluation_call]
      refine refines_pieces ?_
      rw [hnested]
      cases forward with
      | some forward =>
          have hboth := Trace.Refines.append (.map h) hnoBlock
          rw [List.append_nil, List.map_append] at hboth
          exact hboth
      | none =>
          rw [Option.toList_none, List.map_nil, List.append_nil]
          by_cases hnot : Operator.isNot method
          · simp only [if_pos hnot] at h hdropped ⊢
            have hboth :=
              Trace.Refines.append (.append (.map h) (refines_dropped hdropped)) hnoBlock
            rw [List.append_nil, List.append_nil, ← List.map_append] at hboth
            exact hboth
          · simp only [if_neg hnot] at h ⊢
            have hboth := Trace.Refines.append (.map h) hnoBlock
            rw [List.append_nil] at hboth
            exact hboth

theorem refines_caseWhen {pivot : Node} {clauses whens : List Node} {elseClause : Option Node}
    (h : ∀ other ∈ Node.writtenCase pivot clauses whens elseClause,
      (other.evaluation ahead).Refines (emit other)) :
    ((Node.caseWhen pivot clauses whens elseClause).evaluation ahead).Refines
      (.sequence ((Node.writtenCase pivot clauses whens elseClause).map emit)) := by
  simp only [Node.writtenCase, List.forall_mem_append] at h
  obtain ⟨⟨hpivot, hclauses⟩, helse⟩ := h
  have hfirst : (Trace.sequence [pivot.evaluation ahead]).Refines
      (.sequence (pivot.writtenPivot.map emit)) := by
    cases pivot with
    | nil => exact .unwrap .refl
    | _ => exact .cons (hpivot _ (.head _)) .refl
  have hlast : (Trace.sequence (elseClause.toList.map (Node.evaluation ahead))).Refines
      (.sequence ((elseClause.toList.flatMap Node.statements).map emit)) := by
    cases elseClause with
    | none => exact .refl
    | some clause =>
        rw [Option.toList_some, List.flatMap_singleton] at helse ⊢
        exact .unwrap (refines_body helse)
  have hmiddle : (Trace.sequence (List.zipWith (fun clause test => [test, clause])
      (clauses.map (Node.evaluation ahead)) (whens.map (Node.evaluation ahead))).flatten).Refines
        (.sequence ((List.zipWith (fun clause test => test :: clause.statements)
          clauses whens).flatten.map emit)) := by
    rw [List.zipWith_map]
    refine .zipWith hclauses fun clause test hwritten => ?_
    rw [List.forall_mem_cons] at hwritten
    exact .cons hwritten.1 (.unwrap (refines_body hwritten.2))
  simp only [Node.evaluation, evaluationPart_eq, evaluationEach_eq, Node.writtenCase,
    List.map_append]
  exact .append (.append hfirst hmiddle) hlast

theorem refines_interpolated {parts : List Node}
    (h : ∀ other ∈ parts.flatMap Node.writtenPart, (other.evaluation ahead).Refines (emit other)) :
    (Trace.sequence (parts.map (Node.evaluation ahead))).Refines
      (.sequence ((parts.flatMap Node.writtenPart).map emit)) := by
  rw [List.map_flatMap, List.map_eq_flatMap]
  refine .flatMap fun part hpart => .unwrap ?_
  have hwritten : ∀ other ∈ part.writtenPart, (other.evaluation ahead).Refines (emit other) :=
    fun other hother => h other (List.mem_flatMap.2 ⟨part, hpart, hother⟩)
  cases part with
  | string => exact .refl
  | _ => exact refines_body hwritten

/-- **What one rule does to locals.** If its children are written no worse than they are evaluated,
so is the node. -/
theorem refines_marked (hrule : rule style node = .ok pieces)
    (hdropped : ∀ child ∈ node.dropped, (child.evaluation style.hasModifier).assigned = [])
    (h : ∀ other ∈ node.written style,
      (other.evaluation style.hasModifier).Refines (emit other)) :
    (node.evaluation style.hasModifier).Refines
      (node.marked style (pieces.map (pieceTrace separator emit))) := by
  have hnested := nested_rule hrule
  -- All kinds but a few have no local of their own, and are evaluated as they are written.
  have hplain (hordered : (node.evaluation style.hasModifier).Refines
      (.sequence ((node.written style).map emit))) :
      (node.evaluation style.hasModifier).Refines
        (.sequence (pieces.map (pieceTrace separator emit))) :=
    refines_pieces (hnested ▸ hordered)
  have hmethod {body : Node} (params : List String) (hbody : node.written style = body.statements) :
      (Trace.method params (body.evaluation style.hasModifier)).Refines
        (.method params (.sequence (pieces.map (pieceTrace separator emit)))) := by
    rw [hbody] at hnested h
    exact .method params (refines_pieces (hnested ▸ refines_body h))
  cases node with
  | call => exact refines_call hrule hdropped h
  | localWrite name rhs =>
      obtain rfl := Except.ok.inj hrule
      exact refines_localWrite h
  | localRead => exact .refl
  | definition _ params _ => exact hmethod params rfl
  | classDef | moduleDef => exact hmethod [] rfl
  | ifElse | unlessElse => exact hplain (refines_conditional h)
  | caseWhen => exact hplain (refines_caseWhen h)
  | instanceWrite => exact hplain (refines_instanceWrite h)
  | constWrite => exact hplain (h _ (.head _)).wrap
  | ret argument =>
      cases argument with
      | nil => exact hplain .refl
      | _ => exact hplain (h _ (.head _)).wrap
  | logicalAnd | logicalOr => exact hplain (.map h)
  | constRead base =>
      refine hplain ?_
      rw [Node.evaluation, evaluationPart_eq]
      exact .map h
  | hash keys values =>
      refine hplain ?_
      simp only [Node.evaluation, evaluationEach_eq, List.zipWith_map]
      refine .zipWith h fun key value hpair => ?_
      exact .map hpair
  | interpolatedString parts | interpolatedSymbol parts =>
      refine hplain ?_
      rw [Node.evaluation, evaluationEach_eq]
      exact refines_interpolated h
  | including args =>
      have hargs : (Node.including args).written style ++ (Node.including args).dropped = args :=
        List.take_append_drop 1 args
      have hboth := Trace.Refines.append (.map h) (refines_dropped hdropped)
      rw [List.append_nil, ← List.map_append, hargs] at hboth
      refine hplain ?_
      rwa [Node.evaluation, evaluationEach_eq]
  | yielding | array | block =>
      refine hplain ?_
      rw [Node.evaluation, evaluationEach_eq]
      exact .map h
  | boolean | selfRef | instanceRead | string | integer | symbol | nil | unmapped =>
      exact hplain .refl

def KeepsAssignments (style : LiteralStyle) (node : Node) : Prop :=
  ∀ child ∈ node.dropped, (child.evaluation style.hasModifier).assigned = []

theorem keepsAssignments_of_isOpened (h : node.isOpened) : KeepsAssignments style node := by
  have hdropped : node.dropped = [] := by
    unfold Node.isOpened at h
    split at h <;> first | rfl | cases h | simp [Node.dropped, Node.droppedCall, h]
  simp [KeepsAssignments, hdropped]

/-- **What writing does to locals.** If no assignment is dropped, a tree is written no worse than it
is evaluated. -/
theorem refines_trace (hnode : node.Throughout (KeepsAssignments config.style))
    (h : write config room node = .ok content) :
    (node.evaluation config.style.hasModifier).Refines (trace config room node) := by
  induction room generalizing node content with
  | zero => cases h
  | succ room ih =>
      obtain ⟨hwell, hwritten⟩ := write_succ_isOk.1 ⟨content, h⟩
      obtain ⟨pieces, hrule⟩ := (@rule_isOk config.style _).2 hwell
      obtain ⟨hdropped, hvisited⟩ := Node.throughout_iff.1 hnode
      -- Nodes that are opened drop nothing, so it does not matter that they are not written.
      have hkeeps : ∀ other ∈ node.written config.style,
          other.Throughout (KeepsAssignments config.style) :=
        (Node.forall_written_iff (fun _ => keepsAssignments_of_isOpened) hwell).2 hvisited
      rw [trace_succ hrule]
      refine refines_marked hrule hdropped fun other hother => ?_
      obtain ⟨inner, hinner⟩ := hwritten other hother
      exact ih (hkeeps other hother) hinner

end Render

/-- Every local is assigned before it is read, or is a parameter around it, when the tree is
evaluated. -/
def Node.WellScoped (tree : Node) : Prop := (tree.evaluation false).Defined []

instance (tree : Node) : Decidable tree.WellScoped := Trace.decidableDefined _ _

/-- **Locals stay defined before use.** Take a tree that is well-scoped, in verbose style even if
the branch of a modifier has to know its locals before the condition, and that drops no child that
assigns a local. In its text, and in the texts of its statements, every local is read behind an
assignment to it or inside of a method or block with such a parameter. -/
theorem defined_trace {config : RenderConfig} {tree : Node} (hscoped : tree.WellScoped)
    (hmodifiers : config.style = .verbose → (tree.evaluation true).Defined [])
    (hdropped : ∀ node, tree.Visits node → ∀ child ∈ node.dropped,
      (child.evaluation config.style.hasModifier).assigned = []) :
    (∀ content, renderNode config tree = .ok content →
      (trace config maxDepth tree).spelling = content.toList ∧
        (trace config maxDepth tree).Defined []) ∧
    ∀ content, renderStatements config tree = .ok content ∨
        renderProgram config tree = .ok content →
      (Trace.sequence (tree.statements.map (trace config maxDepth))).Defined [] := by
  have hdefined : (tree.evaluation config.style.hasModifier).Defined [] := by
    cases hstyle : config.style with
    | verbose => exact hmodifiers hstyle
    | obfuscated => exact hscoped
  refine ⟨fun content h => ?_, fun content h => ?_⟩
  · have hwrite := renderNode_eq_ok.1 h
    exact ⟨spelling_trace hwrite, (refines_trace hdropped hwrite).defined [] hdefined⟩
  · have hwrite := h.elim exists_write_of_renderStatements exists_write_of_renderProgram
    have hkeeps := (Node.throughout_statements fun _ => keepsAssignments_of_isOpened).2 hdropped
    refine (refines_body fun statement hstatement => ?_).defined [] hdefined
    obtain ⟨text, htext⟩ := hwrite statement hstatement
    exact refines_trace (hkeeps statement hstatement) htext

/-- The condition of the modifier assigns a local, but one that is known before. The block updates
it and reads its own parameter. -/
theorem defined_trace_of_method :
    let tree : Node := .definition "m" ["a"] (.block [.localWrite "x" (.localRead "a"),
      .ifElse (.localWrite "x" (.send "f" [])) (.send "puts" [.localRead "x"]) none,
      .withBlock (.send "each" []) ["n"]
        (.localWrite "x" (.binary (.localRead "x") "+" (.localRead "n")))])
    renderNode .readable tree =
        .ok "def m(a)\nx=a\nputs(x) if x=f\neach\x7b|n|x+=n\x7d\nend" ∧
      (trace .readable maxDepth tree).Defined [] := by
  intro tree
  have hrender : renderNode .readable tree =
      .ok "def m(a)\nx=a\nputs(x) if x=f\neach\x7b|n|x+=n\x7d\nend" := by decide
  have hkeeps {node : Node} (hdropped : node.dropped = [])
      (hvisited : ∀ child ∈ node.visited, child.Throughout (KeepsAssignments .verbose)) :
      node.Throughout (KeepsAssignments .verbose) :=
    Node.throughout_iff.2 ⟨by simp [KeepsAssignments, hdropped], hvisited⟩
  have htree : tree.Throughout (KeepsAssignments .verbose) := by
    repeat' first
      | exact List.forall_mem_nil _
      | refine List.forall_mem_cons.2 ⟨?_, ?_⟩
      | refine hkeeps rfl ?_
  have hscoped : tree.WellScoped := by decide
  have hmodifiers : (tree.evaluation true).Defined [] := by decide
  have hall := @defined_trace .readable tree hscoped (fun _ => hmodifiers) htree
  exact ⟨hrender, (hall.1 _ hrender).2⟩

/-- A modifier reads what its condition assigns only behind it, and what a dropped block assigns
is not in the text. -/
theorem not_defined_trace :
    let modifier : Node := .ifElse (.localWrite "x" (.send "f" [])) (.send "puts" [.localRead "x"])
      none
    let sum : Node := .block [.withBlock (.binary (.integer 1) "+" (.integer 2)) []
      (.localWrite "x" (.integer 3)), .localRead "x"]
    modifier.WellScoped ∧ renderNode .readable modifier = .ok "puts(x) if x=f" ∧
      ¬(trace .readable maxDepth modifier).Defined [] ∧
    sum.WellScoped ∧ renderNode .compact sum = .ok "1+2;x" ∧
      ¬(trace .compact maxDepth sum).Defined [] := by
  intro modifier sum
  exact ⟨by decide, by decide, by decide, by decide, by decide, by decide⟩

end RubyPress
