import RubyPress.Proofs.Render.Within
import RubyPress.Tree.Build

/-!
# Assignments as operands

An assignment takes everything to its right for its value, so as an operand it needs parentheses
wherever something could follow it or stand in front of it. `Slot` lists the places in which the
writer asks for more than an assignment: both sides of the operators, the receiver of a call, the
test and the branches of a ternary, and the module of a constant.

The writer knows an assignment by the kind of its node and by the name of its method. It knows the
assignment to an element, but not the assignment to an attribute, which it takes for a call like any
other: that is the one form that stands in every slot without parentheses.
-/

namespace RubyPress

open Render

namespace Node

/-- Whether a method name is that of an attribute writer. -/
def isWriterName (name : String) : Bool :=
  name.toList.getLast? = some '=' && SymbolName.isIdentifier name.toList.dropLast

/-- Whether a node assigns to an attribute of its receiver. -/
def isAttributeWrite : Node → Bool
  | call (some _) method [_] _ none none => isWriterName method
  | _ => false

/-- Whether a node is written as an assignment. -/
def isAssignment : Node → Bool
  | localWrite .. | instanceWrite .. | constWrite .. => true
  | call receiver method args params none none =>
    Operator.isIndexWrite method || (call receiver method args params none none).isAttributeWrite
  | _ => false

end Node

/-- A node with a place for one operand. -/
inductive Slot where
  /-- The receiver of a call, which is the left operand of an operator, the operand of a negation,
  or what an index stands behind. -/
  | receiver (method : String) (args : List Node) (params : List String)
      (body forward : Option Node)
  | right (lhs : Node) (method : String) (params : List String) (body forward : Option Node)
  | andLeft (rhs : Node)
  | andRight (lhs : Node)
  | orLeft (rhs : Node)
  | orRight (lhs : Node)
  | condition (yes : Node) (no : Option Node)
  /-- A branch of an `if` or, negated, of an `unless`. -/
  | consequence (negate : Bool) (test : Node) (no : Option Node)
  | alternative (negate : Bool) (test yes : Node)
  | base (name : String)

namespace Slot

def fill (operand : Node) : Slot → Node
  | receiver method args params body forward =>
    .call (some operand) method args params body forward
  | right lhs method params body forward => .call (some lhs) method [operand] params body forward
  | andLeft rhs => .logicalAnd operand rhs
  | andRight lhs => .logicalAnd lhs operand
  | orLeft rhs => .logicalOr operand rhs
  | orRight lhs => .logicalOr lhs operand
  | condition yes no => .ifElse operand yes no
  | consequence false test no => .ifElse test operand no
  | consequence true test no => .unlessElse test operand no
  | alternative false test yes => .ifElse test yes (some operand)
  | alternative true test yes => .unlessElse test yes (some operand)
  | base name => .constRead (some operand) name

/-- How tightly an operand has to bind to stand there without parentheses. -/
def level : Slot → Precedence
  | receiver method _ _ body forward =>
    if Operator.isBinary method then (Operator.operandLevels method).1
    else if Operator.isNot method && body.isNone && forward.isNone then .unary
    else .primary
  | right _ method _ _ _ => (Operator.operandLevels method).2
  | andLeft _ => .and
  | andRight _ => .and + 1
  | orLeft _ => .or
  | orRight _ => .or + 1
  | condition .. => .ternary + 1
  | consequence .. | alternative .. => .ternary
  | base _ => .primary

/-- An argument is an operand only of an operator, and a modifier is no ternary. -/
def IsTight (style : LiteralStyle) : Slot → Prop
  | right _ method _ _ _ => Operator.isBinary method
  | condition _ no | consequence _ _ no => style = .obfuscated ∨ no.isSome
  | _ => True

end Slot

namespace Render

variable {style : LiteralStyle} {slot : Slot}

theorem level_bounds (hslot : slot.IsTight style) :
    Precedence.assign < slot.level ∧ slot.level ≤ Precedence.primary := by
  have table : ∀ name ∈ Operator.binaryNames,
      (Precedence.assign < (Operator.operandLevels name).1 ∧
        (Operator.operandLevels name).1 ≤ Precedence.primary) ∧
      Precedence.assign < (Operator.operandLevels name).2 ∧
        (Operator.operandLevels name).2 ≤ Precedence.primary := by decide
  have hlevels {name : String} (hname : Operator.isBinary name) :=
    table name (by simpa [Operator.isBinary] using hname)
  cases slot with
  | receiver method args params body forward =>
      rw [Slot.level]
      split_ifs with hbinary
      · exact (hlevels hbinary).1
      all_goals decide
  | right lhs method params body forward => exact (hlevels hslot).2
  | _ => exact ⟨Nat.le_of_ble_eq_true rfl, Nat.le_of_ble_eq_true rfl⟩

/-- The pieces around an operand do not depend on it. -/
def Holds (style : LiteralStyle) (slot : Slot) (before after : List Piece) : Prop :=
  ∀ filler pieces, rule style (slot.fill filler) = .ok pieces →
    pieces = before ++ operand style slot.level filler ++ after

theorem call_binary {method : String} (hbinary : Operator.isBinary method) {lhs rhs : Node}
    {params : List String} {body forward : Option Node} :
    call style (some lhs) method [rhs] params body forward =
      .ok (operand style (Operator.operandLevels method).1 lhs ++
        text method :: operand style (Operator.operandLevels method).2 rhs) := by
  unfold call
  rw [if_pos hbinary]

section Receiver

variable {method : String} (hbinary : ¬Operator.isBinary method) (args : List Node)
  (params : List String)

include hbinary

theorem exists_holds_plainCall :
    ∃ before after, Holds style (.receiver method args params none none) before after := by
  have hfill {filler : Node} {pieces : List Piece}
      (h : rule style ((Slot.receiver method args params none none).fill filler) = .ok pieces) :
      plainCall style (some filler) method args = .ok pieces := by
    have hcall : call style (some filler) method args params none none = .ok pieces := h
    unfold call at hcall
    rwa [if_neg hbinary] at hcall
  by_cases hnot : Operator.isNot method
  · obtain rfl : method = "!" := by simpa [Operator.isNot] using hnot
    refine ⟨[text "!"], [], fun filler pieces hpieces => ?_⟩
    obtain rfl := Except.ok.inj (hfill hpieces)
    exact (List.append_nil _).symm
  have hlevel : (Slot.receiver method args params none none).level = .primary := by
    simp [Slot.level, hbinary, hnot]
  by_cases hread : Operator.isIndexRead method
  · refine ⟨[], text "[" :: arguments style args ++ [text "]"], fun filler pieces hpieces => ?_⟩
    have hplain := hfill hpieces
    unfold plainCall at hplain
    rw [if_pos hread] at hplain
    obtain rfl := Except.ok.inj hplain
    rw [hlevel, List.nil_append, List.append_assoc]
  by_cases hwrite : Operator.isIndexWrite method
  · refine ⟨[], text "[" :: arguments style args.dropLast ++
      text "]=" :: args.getLast?.toList.flatMap (operand style .assign),
      fun filler pieces hpieces => ?_⟩
    have hplain := hfill hpieces
    unfold plainCall at hplain
    rw [if_neg hread, if_pos hwrite] at hplain
    split at hplain
    · next target value htarget hvalue =>
        obtain rfl := Option.some.inj htarget
        split_ifs at hplain
        obtain rfl := Except.ok.inj hplain
        simp [hlevel, hvalue]
    · cases hplain
  · refine ⟨[], [text ".", text method] ++ argumentList style args, fun filler pieces hpieces => ?_⟩
    have hplain := hfill hpieces
    unfold plainCall at hplain
    rw [if_neg hread, if_neg hwrite, if_neg hnot] at hplain
    obtain rfl := Except.ok.inj hplain
    rw [hlevel, List.nil_append, callHead, List.append_assoc]

theorem exists_holds_block (block : Node) (forward : Option Node) : ∃ before after,
    Holds style (.receiver method args params (some block) forward) before after := by
  refine ⟨[], [text ".", text method] ++ argumentList style args ++
    [text "\x7b|", text (",".intercalate params), text "|"] ++
    (if block.isEmptyBody then [] else statements style block) ++ [text "\x7d"],
    fun filler pieces hpieces => ?_⟩
  have hcall : call style (some filler) method args params (some block) forward = .ok pieces :=
    hpieces
  unfold call at hcall
  rw [if_neg hbinary] at hcall
  obtain rfl := Except.ok.inj hcall
  simp [callHead, Slot.level, hbinary]

theorem exists_holds_forward (block : Node) :
    ∃ before after, Holds style (.receiver method args params none (some block)) before after := by
  refine ⟨[], [text ".", text method, text "("] ++
    (if args.isEmpty then [] else arguments style args ++ [text ","]) ++
    text "&" :: operand style .assign block ++ [text ")"], fun filler pieces hpieces => ?_⟩
  have hcall : call style (some filler) method args params none (some block) = .ok pieces := hpieces
  unfold call at hcall
  rw [if_neg hbinary] at hcall
  obtain rfl := Except.ok.inj hcall
  simp [callHead, Slot.level, hbinary]

end Receiver

theorem exists_holds_receiver (method : String) (args : List Node) (params : List String)
    (body forward : Option Node) :
    ∃ before after, Holds style (.receiver method args params body forward) before after := by
  by_cases hbinary : Operator.isBinary method
  · refine ⟨[], text method :: args.flatMap (operand style (Operator.operandLevels method).2),
      fun filler pieces hpieces => ?_⟩
    have hcall : call style (some filler) method args params body forward = .ok pieces := hpieces
    have hlevel : (Slot.receiver method args params body forward).level =
        (Operator.operandLevels method).1 := by simp [Slot.level, hbinary]
    obtain ⟨rhs, rfl⟩ : ∃ rhs, args = [rhs] := by
      unfold call at hcall
      rw [if_pos hbinary] at hcall
      split at hcall
      · exact ⟨_, rfl⟩
      · cases hcall
    obtain rfl := Except.ok.inj ((call_binary hbinary).symm.trans hcall)
    rw [hlevel, List.nil_append, List.flatMap_singleton]
  · cases body with
    | some block => exact exists_holds_block hbinary args params block forward
    | none =>
        cases forward with
        | some block => exact exists_holds_forward hbinary args params block
        | none => exact exists_holds_plainCall hbinary args params

theorem conditional_of_isTight {negate : Bool} {test yes : Node} {no : Option Node}
    (h : style = .obfuscated ∨ no.isSome) : conditional style negate test yes no =
      condition style negate (Precedence.ternary + 1) test ++ text " ? " ::
        operand style .ternary yes ++ text " : " ::
        no.elim [text style.noValue] (operand style .ternary) := by
  cases style <;> cases no <;> first | rfl | simp at h

theorem exists_holds (hslot : slot.IsTight style) :
    ∃ before after, Holds style slot before after := by
  cases slot with
  | receiver method args params body forward =>
      exact exists_holds_receiver method args params body forward
  | right lhs method params body forward =>
      refine ⟨operand style (Operator.operandLevels method).1 lhs ++ [text method], [],
        fun filler pieces hpieces => ?_⟩
      obtain rfl := Except.ok.inj ((call_binary hslot).symm.trans hpieces)
      simp [Slot.level]
  | andLeft rhs => exact ⟨[], _, fun filler pieces hpieces => (Except.ok.inj hpieces).symm⟩
  | orLeft rhs => exact ⟨[], _, fun filler pieces hpieces => (Except.ok.inj hpieces).symm⟩
  | andRight lhs =>
      refine ⟨operand style .and lhs ++ [text "&&"], [], fun filler pieces hpieces => ?_⟩
      obtain rfl := Except.ok.inj hpieces
      simp [Slot.level]
  | orRight lhs =>
      refine ⟨operand style .or lhs ++ [text "||"], [], fun filler pieces hpieces => ?_⟩
      obtain rfl := Except.ok.inj hpieces
      simp [Slot.level]
  | condition yes no =>
      refine ⟨[], text " ? " :: operand style .ternary yes ++ text " : " ::
        no.elim [text style.noValue] (operand style .ternary), fun filler pieces hpieces => ?_⟩
      obtain rfl := Except.ok.inj hpieces
      simp [conditional_of_isTight hslot, condition, Slot.level]
  | consequence negate test no =>
      refine ⟨condition style negate (Precedence.ternary + 1) test ++ [text " ? "],
        text " : " :: no.elim [text style.noValue] (operand style .ternary),
        fun filler pieces hpieces => ?_⟩
      cases negate <;> obtain rfl := Except.ok.inj hpieces <;>
        simp [conditional_of_isTight hslot, Slot.level]
  | alternative negate test yes =>
      refine ⟨condition style negate (Precedence.ternary + 1) test ++ text " ? " ::
        operand style .ternary yes ++ [text " : "], [], fun filler pieces hpieces => ?_⟩
      have htight : style = .obfuscated ∨ (some filler).isSome := .inr rfl
      cases negate <;> obtain rfl := Except.ok.inj hpieces <;>
        simp [conditional_of_isTight htight, Slot.level]
  | base name =>
      refine ⟨[], [text "::", text name], fun filler pieces hpieces => ?_⟩
      obtain rfl := Except.ok.inj hpieces
      simp [Slot.level]

/-! ### Levels of assignments -/

theorem not_isWriterName {name : String}
    (h : name ∈ "!" :: "[]=" :: Operator.binaryNames) : Node.isWriterName name = false := by
  have table : ∀ name ∈ "!" :: "[]=" :: Operator.binaryNames, Node.isWriterName name = false := by
    decide
  exact table name h

/-- The writer takes an assignment to an attribute for a call and nothing else. -/
theorem precedence_of_isAttributeWrite {node : Node} (h : node.rendered.isAttributeWrite) :
    precedence style node = .primary := by
  unfold Node.isAttributeWrite at h
  split at h
  · next receiver method arg params heq =>
      have hother {name : String} (hname : name ∈ "!" :: "[]=" :: Operator.binaryNames) :
          method ≠ name := by
        rintro rfl
        cases h.symm.trans (not_isWriterName hname)
      have hbinary : Operator.isBinary method = false := by
        rw [Operator.isBinary, List.contains_eq_mem, decide_eq_false_iff_not]
        exact fun hmem => hother (.tail _ (.tail _ hmem)) rfl
      have hnot : Operator.isNot method = false := beq_false_of_ne (hother (.head _))
      have hindex : Operator.isIndexWrite method = false :=
        beq_false_of_ne (hother (.tail _ (.head _)))
      simp [precedence, heq, hbinary, hnot, hindex]
  · cases h

theorem precedence_of_isAssignment {node : Node} (h : node.rendered.isAssignment)
    (hattribute : node.rendered.isAttributeWrite = false) : precedence style node = .assign := by
  unfold Node.isAssignment at h
  split at h
  · next heq => simp [precedence, heq]
  · next heq => simp [precedence, heq]
  · next heq => simp [precedence, heq]
  · next method _ _ heq =>
      rw [heq] at hattribute
      rw [hattribute, Bool.or_false] at h
      obtain rfl : method = "[]=" := by simpa [Operator.isIndexWrite] using h
      have hbinary : Operator.isBinary "[]=" = false := by decide
      have hnot : Operator.isNot "[]=" = false := by decide
      simp [precedence, heq, hbinary, hnot, Node.hasTrailingBlock, Operator.isIndexWrite]
  · cases h

/-- What stands in a slot for an assignment. -/
theorem operand_of_isAssignment (hslot : slot.IsTight style) {node : Node}
    (h : node.rendered.isAssignment) : operand style slot.level node =
      if node.rendered.isAttributeWrite then [.child node]
      else [text "(", .child node, text ")"] := by
  obtain ⟨hassign, hprimary⟩ := level_bounds hslot
  cases hattribute : node.rendered.isAttributeWrite with
  | true =>
      rw [operand, precedence_of_isAttributeWrite hattribute, if_neg (Nat.not_lt.2 hprimary)]
      rfl
  | false =>
      rw [operand, precedence_of_isAssignment h hattribute, if_pos hassign]
      rfl

theorem fill_ne_block (operand : Node) (statements : List Node) :
    slot.fill operand ≠ .block statements := by
  cases slot with
  | consequence negate | alternative negate => cases negate <;> exact Node.noConfusion
  | _ => exact Node.noConfusion

section Writing

variable {separator : Separator} {emit : Node → Except Unsupported (List Char)}
  {content : List Char}

theorem exists_of_writePieces_assignment (hslot : slot.IsTight style) {node : Node}
    (h : node.rendered.isAssignment)
    (hcontent : writePieces separator emit (operand style slot.level node) = .ok content) :
    ∃ inner, emit node = .ok inner ∧
      content = if node.rendered.isAttributeWrite then inner else '(' :: inner ++ [')'] := by
  rw [operand_of_isAssignment hslot h] at hcontent
  split at hcontent
  · next hattribute =>
      exact ⟨content, writePieces_child_eq_ok.1 hcontent, by rw [if_pos hattribute]⟩
  · next hattribute =>
      have henclosed : writePieces separator emit (text "(" :: [.child node] ++ [text ")"]) =
          .ok content := hcontent
      obtain ⟨inner, hinner, rfl⟩ := writePieces_enclosed_eq_ok.1 henclosed
      exact ⟨inner, writePieces_child_eq_ok.1 hinner, by rw [if_neg hattribute]; rfl⟩

end Writing

end Render

/-- **Assignments as operands.** In a slot that asks for more than an assignment, an assignment
stands in parentheses unless it assigns to an attribute, and then it stands there as it is. What is
in front of the operand and behind it depends on the slot alone. -/
theorem render_assignment_in_slot (config : RenderConfig) {slot : Slot}
    (hslot : slot.IsTight config.style) :
    ∃ front back : String, ∀ operand : Node, operand.rendered.isAssignment →
      ∀ tree content, (renderNode config tree = .ok content ∨
        renderStatements config tree = .ok content ∨ renderProgram config tree = .ok content) →
      tree.Writes config.style (slot.fill operand) →
      ∃ whole inner, renderNode config (slot.fill operand) = .ok whole ∧
        whole.toList <:+: content.toList ∧ renderNode config operand = .ok inner ∧
        whole = front ++
          (if operand.rendered.isAttributeWrite then inner else "(" ++ inner ++ ")") ++ back := by
  obtain ⟨before, after, hpieces⟩ := exists_holds hslot
  obtain ⟨room, hroom⟩ : ∃ room, maxDepth = room + 1 := ⟨_, rfl⟩
  let textOf (pieces : List Piece) : String :=
    String.ofList ((writePieces config.separator (write config room) pieces).toOption.getD [])
  have htextOf {pieces : List Piece} {text : List Char}
      (h : writePieces config.separator (write config room) pieces = .ok text) :
      textOf pieces = String.ofList text := by
    simp only [textOf, h, Except.toOption, Option.getD_some]
  refine ⟨textOf before, textOf after, fun operand hoperand tree content hcontent hwrites => ?_⟩
  obtain ⟨statement, hstatement, hfill⟩ :=
    exists_statement_of_writes (fill_ne_block operand) hwrites
  obtain ⟨whole, hwhole, hinfix⟩ := exists_text_of_writes hcontent hstatement hfill
  have hwrite := renderNode_eq_ok.1 hwhole
  rw [hroom] at hwrite
  obtain ⟨pieces, hrule, hwritten⟩ := write_succ_eq_ok.1 hwrite
  rw [hpieces operand pieces hrule] at hwritten
  obtain ⟨first, back, hfirst, hback, heq⟩ := writePieces_append_eq_ok.1 hwritten
  obtain ⟨front, middle, hfront, hmiddle, rfl⟩ := writePieces_append_eq_ok.1 hfirst
  obtain ⟨inner, hinner, rfl⟩ := exists_of_writePieces_assignment hslot hoperand hmiddle
  refine ⟨whole, String.ofList inner, hwhole, hinfix, ?_, ?_⟩
  · rw [renderNode_eq_ok, String.toList_ofList, hroom]
    exact write_mono (Nat.le_succ room) hinner
  · rw [htextOf hfront, htextOf hback, ← String.toList_inj, heq]
    split <;> simp

/-- A returned assignment in front of an index, somewhere in a definition. -/
theorem render_assignment_in_index :
    let slot : Slot := .receiver "[]" [.integer 0] [] none none
    let operand : Node := .ret (.block [.localWrite "x" (.send "f" [])])
    ∃ front back whole inner : String, renderNode .compact (slot.fill operand) = .ok whole ∧
      whole.toList <:+: "def g;(x=f)[0];end".toList ∧ renderNode .compact operand = .ok inner ∧
      whole = front ++ ("(" ++ inner ++ ")") ++ back := by
  intro slot operand
  have htight : slot.IsTight .obfuscated := trivial
  obtain ⟨front, back, hslot⟩ := render_assignment_in_slot .compact htight
  have htree : renderNode .compact (.definition "g" [] (slot.fill operand)) =
      .ok "def g;(x=f)[0];end" := by decide
  obtain ⟨whole, inner, hfill, hinfix, hinner, hwhole⟩ :=
    hslot operand (by decide) _ _ (.inl htree) (.single (.head _))
  exact ⟨front, back, whole, inner, hfill, hinfix, hinner, hwhole⟩

/-- An assignment to an attribute takes in the operator and the operand behind it. -/
theorem render_attribute_write_in_sum :
    let slot : Slot := .receiver "+" [.integer 2] [] none none
    let operand : Node := .invoke (.localRead "r") "n=" [.integer 1]
    slot.IsTight .verbose ∧ operand.rendered.isAssignment ∧
      renderNode .readable operand = .ok "r.n=(1)" ∧
      renderNode .readable (slot.fill operand) = .ok "r.n=(1)+2" ∧
      ¬"(r.n=(1))".toList <:+: "r.n=(1)+2".toList := by
  intro slot operand
  exact ⟨trivial, by decide, by decide, by decide, by decide⟩

end RubyPress
