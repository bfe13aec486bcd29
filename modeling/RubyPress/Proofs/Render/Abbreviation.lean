import RubyPress.Proofs.Render.Writing
import RubyPress.Tree.Build

/-!
# Abbreviated assignments

`x OP= v` stands for `x = x OP v`. An assignment is written in this way exactly if its value is an
operation whose first operand reads the variable that is assigned, by name and by kind, and the
operation is one that the style abbreviates. The operator and the operand are then those of the
value, so nothing is lost.
-/

namespace RubyPress

open Render

namespace Variable

def name : Variable → String
  | localVar name => name
  | instanceVar name => name

def read : Variable → Node
  | localVar name => .localRead name
  | instanceVar name => .instanceRead name

def assign : Variable → Node → Node
  | localVar name, rhs => .localWrite name rhs
  | instanceVar name, rhs => .instanceWrite name rhs

/-- The operation of a variable and a value. A call can have names for the parameters of a block
that is not there. -/
def operation (target : Variable) (operator : String) (value : Node) (params : List String) :
    Node :=
  if operator = "&&" then .logicalAnd target.read value
  else if operator = "||" then .logicalOr target.read value
  else .call (some target.read) operator [value] params none none

end Variable

namespace Node

/-- The operations that an assignment to the variable can be abbreviated with. -/
inductive Accumulates (style : LiteralStyle) (target : Variable) : Node → String → Node → Prop where
  | conjunction (value : Node) : Accumulates style target (.logicalAnd target.read value) "&&" value
  | disjunction (value : Node) : Accumulates style target (.logicalOr target.read value) "||" value
  | arithmetic (hstyle : style = .verbose) {operator : String}
      (hoperator : operator ∈ ["+", "-", "*", "/", "**", "%", "^"]) (value : Node)
      (params : List String) :
      Accumulates style target (.call (some target.read) operator [value] params none none) operator
        value

/-- An operator with the operand behind it, without a look at the operand in front of it. -/
def tail? : Node → Option (String × Node)
  | logicalAnd _ value => some ("&&", value)
  | logicalOr _ value => some ("||", value)
  | call _ method args _ _ _ => args.head?.map (method, ·)
  | _ => none

variable {style : LiteralStyle} {target : Variable} {rhs value : Node} {operator : String}

theorem reads_iff {node : Node} : node.reads target ↔ node = target.read := by
  cases target <;> cases node <;> simp [reads, Variable.read, eq_comm]

theorem assignment?_assign : (target.assign rhs).assignment? = some (target, rhs) := by
  cases target <;> rfl

theorem accumulates_iff :
    Accumulates style target rhs operator value ↔
      rhs.abbreviation? style target = some (operator, value) := by
  constructor
  · intro h
    have hreads : target.read.reads target := reads_iff.2 rfl
    cases h with
    | conjunction | disjunction => exact if_pos hreads
    | arithmetic hstyle hoperator =>
        have hcompound : Operator.isCompound operator := List.contains_iff_mem.2 hoperator
        exact if_pos ⟨hstyle, hcompound, hreads⟩
  · intro h
    cases abbreviationForm h with
    | conjunction hreads =>
        rw [reads_iff.1 hreads]
        exact .conjunction _
    | disjunction hreads =>
        rw [reads_iff.1 hreads]
        exact .disjunction _
    | arithmetic hstyle hcompound hreads =>
        rw [reads_iff.1 hreads]
        exact .arithmetic hstyle hcompound _ _

theorem isSelfAssignment_assign : (target.assign rhs).isSelfAssignment style =
    (rhs.abbreviation? style target).isSome := by
  rw [isSelfAssignment, assignment?_assign]

theorem isSelfAssignment_iff : (target.assign rhs).isSelfAssignment style ↔
    ∃ operator value, Accumulates style target rhs operator value := by
  rw [isSelfAssignment_assign]
  simp only [Option.isSome_iff_exists, Prod.exists, accumulates_iff]

theorem Accumulates.eq_operation (h : Accumulates style target rhs operator value) :
    ∃ params, rhs = target.operation operator value params := by
  cases h with
  | conjunction | disjunction => exact ⟨[], rfl⟩
  | arithmetic _ hoperator _ params =>
      refine ⟨params, ?_⟩
      have hand : operator ≠ "&&" := by
        rintro rfl
        exact absurd hoperator (by decide)
      have hor : operator ≠ "||" := by
        rintro rfl
        exact absurd hoperator (by decide)
      rw [Variable.operation, if_neg hand, if_neg hor]

theorem Accumulates.tail?_eq (h : Accumulates style target rhs operator value) :
    rhs.tail? = some (operator, value) := by
  cases h <;> rfl

/-- The operator and the operand behind it are those of any operation, as long as it is recognized
as one that accumulates. -/
theorem abbreviation?_eq_filter : rhs.abbreviation? style target =
    rhs.tail?.filter fun _ => (target.assign rhs).isSelfAssignment style := by
  rw [isSelfAssignment_assign]
  cases h : rhs.abbreviation? style target with
  | none => simp
  | some pair =>
      obtain ⟨operator, value⟩ := pair
      rw [(accumulates_iff.2 h).tail?_eq]
      rfl

end Node

namespace Render

variable {config : RenderConfig} {room : Nat} {target : Variable} {rhs value : Node}
  {operator : String} {content : List Char}

theorem rule_assign (style : LiteralStyle) (target : Variable) (rhs : Node) :
    rule style (target.assign rhs) = .ok (assignment style target target.name rhs) := by
  cases target <;> rfl

theorem exists_text_of_assignment
    (h : writePieces config.separator (write config room)
      (assignment config.style target target.name rhs) = .ok content) :
    match rhs.abbreviation? config.style target with
    | some (operator, value) => ∃ text,
      writePieces config.separator (write config room) (operand config.style .assign value) =
        .ok text ∧ content = target.name.toList ++ operator.toList ++ '=' :: text
    | none => ∃ text,
      writePieces config.separator (write config room) (operand config.style .assign rhs) =
        .ok text ∧ content = target.name.toList ++ '=' :: text := by
  rw [assignment] at h
  cases habbreviation : rhs.abbreviation? config.style target with
  | none =>
      rw [habbreviation] at h
      obtain ⟨front, hfront, rfl⟩ := writePieces_text_cons_eq_ok.1 h
      obtain ⟨text, htext, rfl⟩ := writePieces_text_cons_eq_ok.1 hfront
      exact ⟨text, htext, rfl⟩
  | some abbreviation =>
      rw [habbreviation] at h
      obtain ⟨front, hfront, rfl⟩ := writePieces_text_cons_eq_ok.1 h
      obtain ⟨back, hback, rfl⟩ := writePieces_text_cons_eq_ok.1 hfront
      obtain ⟨text, htext, rfl⟩ := writePieces_text_cons_eq_ok.1 hback
      exact ⟨text, htext, (List.append_assoc ..).symm⟩

end Render

/-- **Abbreviations are faithful.** An assignment is recognized as one that accumulates exactly if
its value is an operation on the variable itself that the style abbreviates. It is then written with
the operator and the operand of that operation, from which the assignment is put together again, and
any other assignment is written in full. -/
theorem write_assign (target : Variable) (rhs : Node) (config : RenderConfig) :
    ((target.assign rhs).isSelfAssignment config.style ↔
      ∃ operator value, rhs.Accumulates config.style target operator value) ∧
    (rhs.abbreviation? config.style target =
      rhs.tail?.filter fun _ => (target.assign rhs).isSelfAssignment config.style) ∧
    ∀ room content, write config (room + 1) (target.assign rhs) = .ok content →
      (∀ operator value, rhs.Accumulates config.style target operator value →
        (∃ params, rhs = target.operation operator value params) ∧
        ∃ text, writePieces config.separator (write config room)
            (operand config.style .assign value) = .ok text ∧
          content = target.name.toList ++ operator.toList ++ '=' :: text) ∧
      (¬(target.assign rhs).isSelfAssignment config.style →
        ∃ text, writePieces config.separator (write config room)
            (operand config.style .assign rhs) = .ok text ∧
          content = target.name.toList ++ '=' :: text) := by
  refine ⟨Node.isSelfAssignment_iff, Node.abbreviation?_eq_filter, fun room content hcontent => ?_⟩
  rw [write_succ (rule_assign config.style target rhs)] at hcontent
  have htext := exists_text_of_assignment hcontent
  refine ⟨fun operator value haccumulates => ⟨haccumulates.eq_operation, ?_⟩, fun hnot => ?_⟩
  · rwa [Node.accumulates_iff.1 haccumulates] at htext
  · rw [Node.isSelfAssignment_assign, Option.not_isSome_iff_eq_none] at hnot
    rwa [hnot] at htext

/-- A sum that only one of the styles abbreviates, with an operand that is returned from a block. -/
theorem write_assign_of_sum :
    let target : Variable := .instanceVar "@n"
    let value : Node := .ret (.block [.integer (-2)])
    let rhs : Node := .binary (.instanceRead "@n") "+" value
    (∃ text, writePieces .newline (write .readable 127) (operand .verbose .assign value) =
        .ok text ∧ "@n+=-2".toList = target.name.toList ++ "+".toList ++ '=' :: text) ∧
      ∃ text, writePieces .semicolon (write .compact 127) (operand .obfuscated .assign rhs) =
        .ok text ∧ "@n=@n+-2".toList = target.name.toList ++ '=' :: text := by
  intro target value rhs
  have hsum : rhs.Accumulates .verbose target "+" value :=
    .arithmetic rfl (by decide) value []
  exact ⟨(((write_assign target rhs .readable).2.2 127 _ (by decide)).1 "+" value hsum).2,
    ((write_assign target rhs .compact).2.2 127 _ (by decide)).2 (by decide)⟩

end RubyPress
