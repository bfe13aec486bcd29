import Mathlib.Logic.Encodable.Pi
import RubyPress.Proofs.Render.Grouping
import RubyPress.Proofs.Render.Quoted

/-!
# Formulas

A formula consists of binary operators over symbols, variables and numbers. It is written as a list
of lexemes, in which a number is one lexeme with its sign. The parentheses are those that the levels
ask for, so a formula is determined by its lexemes (`Formula.eq_of_lexemes_eq`), whatever its
symbols look like.
-/

namespace RubyPress.Render

open Ruby (Phrase Token)
open SymbolName (isIdentifier)

/-- Trees of binary operators over symbols, variables and numbers. The operators are calls without
a block. -/
inductive Formula : Node → Prop where
  | symbol (value : String) : Formula (.symbol value)
  | localRead {name : String} (hname : isIdentifier name.toList) : Formula (.localRead name)
  | integer (value : Int64) : Formula (.integer value)
  | binary {lhs rhs : Node} {name : String} (hname : Operator.isBinary name) (hlhs : Formula lhs)
      (hrhs : Formula rhs) : Formula (lhs.binary name rhs)

inductive Lexeme where
  | symbol (value : String)
  | word (name : String)
  | integer (value : Int64)
  | operator (name : String)
  | opening
  | closing
  deriving DecidableEq

namespace Lexeme

def text : Lexeme → List Char
  | symbol value => ':' :: symbolText value
  | word name => name.toList
  | integer value => (toString value.toInt).toList
  | operator name => name.toList
  | opening => ['(']
  | closing => [')']

def spell (lexemes : List Lexeme) : List Char := lexemes.flatMap text

@[simp]
theorem spell_nil : spell [] = [] := rfl

@[simp]
theorem spell_cons (lexeme : Lexeme) (lexemes : List Lexeme) :
    spell (lexeme :: lexemes) = lexeme.text ++ spell lexemes := rfl

@[simp]
theorem spell_append (first second : List Lexeme) :
    spell (first ++ second) = spell first ++ spell second :=
  List.flatMap_append

end Lexeme

/-- The lexemes of an operand, in parentheses if its level is too low for its place. -/
def enclosed (least level : Precedence) (inner : List Lexeme) : List Lexeme :=
  if level < least then .opening :: inner ++ [.closing] else inner

def lexemes (style : LiteralStyle) : Node → List Lexeme
  | .symbol value => [.symbol value]
  | .localRead name => [.word name]
  | .integer value => [.integer value]
  | .call (some lhs) name [rhs] _ none none =>
    enclosed (Operator.operandLevels name).1 (precedence style lhs) (lexemes style lhs) ++
      .operator name ::
        enclosed (Operator.operandLevels name).2 (precedence style rhs) (lexemes style rhs)
  | _ => []
termination_by structural node => node

theorem lexemes_binary (style : LiteralStyle) (lhs rhs : Node) (name : String) :
    lexemes style (lhs.binary name rhs) =
      enclosed (Operator.operandLevels name).1 (precedence style lhs) (lexemes style lhs) ++
        .operator name ::
          enclosed (Operator.operandLevels name).2 (precedence style rhs) (lexemes style rhs) := rfl

theorem precedence_binary (style : LiteralStyle) (lhs rhs : Node) {name : String}
    (hname : Operator.isBinary name) :
    precedence style (lhs.binary name rhs) = Operator.precedence name := by
  simp only [Node.binary, Node.invoke, precedence, Node.rendered, hname, if_true]

theorem writePieces_operand {config : RenderConfig} {room : Nat} {node : Node}
    (least : Precedence) {inner : List Lexeme}
    (h : write config room node = .ok (Lexeme.spell inner)) :
    writePieces config.separator (write config room) (operand config.style least node) =
      .ok (Lexeme.spell (enclosed least (precedence config.style node) inner)) := by
  unfold operand enclosed
  split
  · rw [List.cons_append, Lexeme.spell_cons, Lexeme.spell_append]
    exact writePieces_text_cons (@writePieces_append _ _ [.child node] _ _ _
      (writePieces_child_eq_ok.2 h) writePieces_text)
  · exact writePieces_child_eq_ok.2 h

theorem Formula.write_eq {config : RenderConfig} {room : Nat} {node : Node} (hnode : Formula node)
    (hroom : node.height ≤ room) :
    write config room node = .ok (Lexeme.spell (lexemes config.style node)) := by
  induction room generalizing node with
  | zero =>
      rw [Node.height_eq] at hroom
      omega
  | succ room ih =>
      have hchild : ∀ child ∈ node.children, Formula child →
          write config room child = .ok (Lexeme.spell (lexemes config.style child)) := by
        intro child hmem hformula
        have := Node.height_lt_of_mem_children hmem
        exact ih hformula (by omega)
      cases hnode with
      | symbol value =>
          rw [lexemes, Lexeme.spell_cons, Lexeme.spell_nil, List.append_nil]
          exact write_symbol config room value
      | @localRead name hname =>
          rw [lexemes, Lexeme.spell_cons, Lexeme.spell_nil, List.append_nil]
          have hrule : rule config.style (.localRead name) = .ok [text name] := rfl
          exact (write_succ hrule).trans writePieces_text
      | integer value =>
          rw [lexemes, Lexeme.spell_cons, Lexeme.spell_nil, List.append_nil]
          have hrule : rule config.style (.integer value) = .ok [text (toString value.toInt)] := rfl
          exact (write_succ hrule).trans writePieces_text
      | @binary lhs rhs name hname hlhs hrhs =>
          have hrule : rule config.style (lhs.binary name rhs) =
              .ok (operand config.style (Operator.operandLevels name).1 lhs ++
                text name :: operand config.style (Operator.operandLevels name).2 rhs) := by
            simp only [Node.binary, Node.invoke, rule, call, hname, if_true]
          rw [write_succ hrule, lexemes_binary, Lexeme.spell_append, Lexeme.spell_cons]
          have hchildren : (lhs.binary name rhs).children = [lhs, rhs] := rfl
          have hfirst := hchild lhs (by simp [hchildren]) hlhs
          have hsecond := hchild rhs (by simp [hchildren]) hrhs
          exact writePieces_append (writePieces_operand _ hfirst)
            (writePieces_text_cons (writePieces_operand _ hsecond))

/-! ### Reading lexemes

The grammar of expressions has no symbols. With a variable in place of every leaf, the lexemes are a
phrase, and the phrase has one tree. -/

/-- What tells a lexeme from the others. -/
def Lexeme.code : Lexeme → List Nat
  | symbol value => 0 :: value.toList.map Char.toNat
  | word name => 1 :: name.toList.map Char.toNat
  | operator name => 2 :: name.toList.map Char.toNat
  | integer value => [3, Encodable.encode value.toInt]
  | opening => [4]
  | closing => [5]

/-- A variable that stands for a leaf. -/
def Lexeme.standIn (lexeme : Lexeme) : String :=
  String.ofList (List.replicate (Encodable.encode lexeme.code + 1) 'a')

def Lexeme.token : Lexeme → Token
  | operator name => .operator name
  | opening => .opening
  | closing => .closing
  | leaf => .word leaf.standIn

theorem Lexeme.isLocalName_standIn (lexeme : Lexeme) : IsLocalName lexeme.standIn := by
  have table : ∀ keyword ∈ Ruby.keywords, keyword.toList.any fun c => c ≠ 'a' := by decide
  refine ⟨?_, ?_⟩
  · have hchar : SymbolName.isIdentifierChar 'a' ∧ 'a'.isDigit = false := by decide
    simp [Lexeme.standIn, List.replicate_succ, isIdentifier, hchar]
  · rw [Ruby.isKeyword, ← Bool.not_eq_true, List.contains_iff_mem]
    intro hmem
    obtain ⟨c, hc, hne⟩ := List.any_eq_true.1 (table _ hmem)
    rw [Lexeme.standIn, String.toList_ofList] at hc
    exact of_decide_eq_true hne (List.eq_of_mem_replicate hc)

theorem Lexeme.code_injective : Function.Injective code := by
  have htext (first second : String) :
      first.toList.map Char.toNat = second.toList.map Char.toNat ↔ first = second := by
    rw [(List.map_injective_iff.2 fun _ _ => Char.toNat_inj.1).eq_iff, String.toList_inj]
  intro first second h
  cases first <;> cases second <;> simp_all [code, Int64.toInt_inj]

theorem Lexeme.standIn_injective : Function.Injective standIn := by
  intro first second h
  have hlength := congrArg String.length h
  simp only [Lexeme.standIn, String.length_ofList, List.length_replicate,
    Nat.add_right_cancel_iff] at hlength
  exact code_injective (Encodable.encode_injective hlength)

/-- A formula with a variable in place of every leaf. -/
def outline : Node → Node
  | .symbol value => .localRead (Lexeme.symbol value).standIn
  | .localRead name => .localRead (Lexeme.word name).standIn
  | .integer value => .localRead (Lexeme.integer value).standIn
  | .call (some lhs) name [rhs] _ none none => (outline lhs).binary name (outline rhs)
  | node => node
termination_by structural node => node

theorem Formula.eq_of_outline_eq {node other : Node} (hnode : Formula node) (hother : Formula other)
    (h : outline node = outline other) : node = other := by
  induction hnode generalizing other with
  | symbol | localRead | integer =>
      cases hother with
      | symbol | localRead | integer =>
          simpa using Lexeme.standIn_injective (Node.localRead.inj h)
      | binary => cases h
  | binary hname hlhs hrhs ihLhs ihRhs =>
      cases hother with
      | binary hname' hlhs' hrhs' =>
          simp only [Node.binary, Node.invoke, outline, Node.call.injEq, Option.some.injEq,
            List.cons.injEq, and_true] at h
          obtain ⟨hleft, rfl, hright⟩ := h
          rw [ihLhs hlhs' hleft, ihRhs hrhs' hright]
      | symbol | localRead | integer => cases h

theorem exists_phrase_enclosed {least level : Precedence} {inner : List Lexeme} {node : Node}
    (h : ∃ strength, level ≤ strength ∧ Phrase strength (inner.map Lexeme.token) node)
    (hleast : least ≤ Precedence.primary) :
    ∃ strength, least ≤ strength ∧
      Phrase strength ((enclosed least level inner).map Lexeme.token) node := by
  obtain ⟨strength, hlevel, phrase⟩ := h
  unfold enclosed
  split
  · rw [List.cons_append, List.map_cons, List.map_append]
    exact ⟨_, hleast, phrase.group⟩
  · next hlt => exact ⟨strength, (Nat.not_lt.1 hlt).trans hlevel, phrase⟩

theorem Formula.exists_phrase {style : LiteralStyle} {node : Node} (hnode : Formula node) :
    ∃ strength, precedence style node ≤ strength ∧
      Phrase strength ((lexemes style node).map Lexeme.token) (outline node) := by
  have hleaf (lexeme : Lexeme) :
      Phrase Precedence.primary [.word lexeme.standIn] (.localRead lexeme.standIn) :=
    .reading lexeme.isLocalName_standIn.valid lexeme.isLocalName_standIn.target
  induction hnode with
  | symbol value => exact ⟨_, Nat.le_refl _, hleaf (.symbol value)⟩
  | @localRead name hname => exact ⟨_, Nat.le_refl _, hleaf (.word name)⟩
  | integer value =>
      -- a negative number stands at a lower level than the variable in its place
      refine ⟨_, ?_, hleaf (.integer value)⟩
      simp only [precedence, Node.rendered]
      split <;> decide
  | @binary lhs rhs name hname hlhs hrhs ihLhs ihRhs =>
      obtain ⟨grouping, hstrength, hlevels⟩ := strength?_of_isBinary hname
      obtain ⟨hleft, hright⟩ := operandLevels_le hname
      obtain ⟨left, hleft, first⟩ := exists_phrase_enclosed ihLhs hleft
      obtain ⟨right, hright, second⟩ := exists_phrase_enclosed ihRhs hright
      rw [hlevels] at hleft hright
      have phrase := first.binary hstrength hleft second hright
      rw [combine_of_isBinary hname] at phrase
      refine ⟨_, (precedence_binary style lhs rhs hname).le, ?_⟩
      rw [lexemes_binary, List.map_append, List.map_cons]
      exact phrase

/-- The lexemes of a formula determine it. -/
theorem Formula.eq_of_lexemes_eq {style : LiteralStyle} {node other : Node} (hnode : Formula node)
    (hother : Formula other) (h : lexemes style node = lexemes style other) : node = other := by
  have hread {node : Node} (hnode : Formula node) :
      Ruby.readTokens ((lexemes style node).map Lexeme.token) = some (outline node) := by
    obtain ⟨_, -, phrase⟩ := @hnode.exists_phrase style
    exact phrase.readTokens
  refine hnode.eq_of_outline_eq hother (Option.some.inj ?_)
  rw [← hread hnode, h, hread hother]

end RubyPress.Render
