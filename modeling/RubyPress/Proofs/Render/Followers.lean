import Mathlib
import RubyPress.Proofs.Render.Quoted
import RubyPress.Proofs.Render.Silent
import RubyPress.Proofs.Render.Within

/-!
# What follows a node

Behind a child the pieces of a rule go on with a separator, with one of a few marks, or not at all:
never with another child, a name or a literal. So the text behind a node, however deep it stands in
a tree, starts with the mark that follows the outermost node it ends.
-/

namespace RubyPress

/-- The fixed texts that come directly behind a node. -/
def followers : List String :=
  [")", ",", "=>", "]", "]=", "\x7d", ".", "::", "[", "&&", "||", " ? ", " : ", " if ", "\n"] ++
    Operator.binaryNames

def Piece.Follows : Piece → Prop
  | text content => ∃ mark ∈ followers, content = mark.toList
  | separator => True
  | child _ => False

namespace Render

/-- Every child is the last piece or in front of one that may follow it. -/
def Followed : List Piece → Prop :=
  List.IsChain fun
    | .child _, next => next.Follows
    | _, _ => True

variable {style : LiteralStyle} {node : Node} {pieces others : List Piece} {mark : String}

namespace Followed

theorem nil : Followed [] := List.IsChain.nil

theorem child : Followed [.child node] := List.IsChain.singleton _

theorem text_cons {content : List Char} (h : Followed pieces) :
    Followed (.text content :: pieces) :=
  List.isChain_cons.2 ⟨fun _ _ => trivial, h⟩

theorem fixed (content : String) (h : Followed pieces) : Followed (text content :: pieces) :=
  h.text_cons

theorem separated (h : Followed pieces) : Followed (.separator :: pieces) :=
  List.isChain_cons.2 ⟨fun _ _ => trivial, h⟩

theorem append (hpieces : Followed pieces) (hothers : Followed others)
    (h : ∀ next ∈ others.head?, next.Follows) : Followed (pieces ++ others) := by
  refine List.isChain_append.2 ⟨hpieces, hothers, fun last _ next hnext => ?_⟩
  cases last with
  | child node => exact h next hnext
  | _ => trivial

theorem append_mark (hpieces : Followed pieces) (hmark : mark ∈ followers)
    (hothers : Followed others) : Followed (pieces ++ text mark :: others) :=
  hpieces.append (hothers.fixed mark) fun _ hnext =>
    Option.some.inj hnext ▸ ⟨mark, hmark, rfl⟩

theorem append_separator (hpieces : Followed pieces) (hothers : Followed others) :
    Followed (pieces ++ .separator :: others) :=
  hpieces.append hothers.separated fun _ hnext => Option.some.inj hnext ▸ trivial

theorem joined {lists : List (List Piece)} (hmark : mark ∈ followers)
    (h : ∀ list ∈ lists, Followed list) : Followed ([text mark].intercalate lists) := by
  induction lists with
  | nil => exact nil
  | cons list lists ih =>
      rw [List.forall_mem_cons] at h
      cases lists with
      | nil =>
          rw [List.intercalate_singleton]
          exact h.1
      | cons second lists =>
          rw [List.intercalate_cons_cons, List.append_assoc]
          exact h.1.append_mark hmark (ih h.2)

theorem follows {front back : List Piece} (h : Followed (front ++ .child node :: back)) :
    ∀ next ∈ back.head?, next.Follows :=
  (List.isChain_cons.1 (List.isChain_append.1 h).2.1).1

end Followed

theorem followed_operand (least : Precedence) : Followed (operand style least node) := by
  unfold operand
  split
  · exact .fixed "(" (.append_mark .child (by decide) .nil)
  · exact .child

theorem followed_statementList (nodes : List Node) :
    Followed ((nodes.map Piece.child).intersperse .separator) := by
  induction nodes with
  | nil => exact .nil
  | cons node nodes ih =>
      cases nodes with
      | nil => exact .child
      | cons second nodes => exact .append_separator .child ih

theorem followed_statements : Followed (statements style node) := by
  unfold statements
  split
  · exact .fixed _ .nil
  · exact followed_statementList _

theorem followed_arguments (args : List Node) : Followed (arguments style args) :=
  .joined (by decide) (List.forall_mem_map.2 fun _ _ => followed_operand _)

theorem followed_argumentList (args : List Node) (hothers : Followed others) :
    Followed (argumentList style args ++ others) := by
  unfold argumentList
  split
  · exact hothers
  · rw [List.append_assoc]
    exact .fixed "(" ((followed_arguments args).append_mark (by decide) hothers)

theorem followed_callHead (receiver : Option Node) (method : String) (hothers : Followed others) :
    Followed (callHead style receiver method ++ others) := by
  cases receiver with
  | none => exact .fixed method hothers
  | some receiver =>
      rw [callHead, List.append_assoc]
      exact (followed_operand _).append_mark (by decide) (.fixed method hothers)

theorem followed_keywordBody : Followed (keywordBody style node) :=
  (followed_statements.append_separator (.fixed "end" .nil)).separated

theorem followed_condition (negate : Bool) (least : Precedence) :
    Followed (condition style negate least node) := by
  cases negate with
  | false => exact followed_operand least
  | true => exact .fixed "!(" (.append_mark .child (by decide) .nil)

theorem followed_conditional (negate : Bool) (test thenBranch : Node) (elseBranch : Option Node) :
    Followed (conditional style negate test thenBranch elseBranch) := by
  unfold conditional
  split
  · exact (followed_operand _).append_mark (by decide) (followed_condition negate _)
  · rw [List.append_assoc]
    refine (followed_condition negate _).append_mark (by decide)
      ((followed_operand _).append_mark (by decide) ?_)
    split
    · exact followed_operand _
    · exact .fixed _ .nil

theorem followed_assignment (target : Variable) (name : String) (rhs : Node) :
    Followed (assignment style target name rhs) := by
  unfold assignment
  split
  · exact .fixed name (.fixed _ (.fixed "=" (followed_operand _)))
  · exact .fixed name (.fixed "=" (followed_operand _))

theorem followed_interpolated (parts : List Node) (closing : String) :
    Followed (parts.flatMap (interpolatedPart style) ++ [text closing]) := by
  induction parts with
  | nil => exact .fixed closing .nil
  | cons part parts ih =>
      rw [List.flatMap_cons, List.append_assoc]
      unfold interpolatedPart
      split
      · exact ih.text_cons
      · rw [List.append_assoc]
        exact .fixed _ (followed_statements.append_mark (by decide) ih)

theorem followed_whenClauses (clauses whens : List Node) (rest : List Piece)
    (hrest : Followed rest) :
    Followed ((List.zipWith (whenClause style) clauses whens).flatten ++ rest) := by
  induction clauses generalizing whens with
  | nil => exact hrest
  | cons clause clauses ih =>
      cases whens with
      | nil => exact hrest
      | cons test whens =>
          rw [List.zipWith_cons_cons, List.flatten_cons, List.append_assoc, whenClause]
          simp only [List.append_assoc, List.cons_append, List.nil_append]
          exact .fixed "when " ((followed_operand _).append_separator
            (followed_statements.append_separator (ih whens)))

theorem followed_caseWhen {pivot : Node} {clauses whens : List Node} {elseClause : Option Node}
    (h : caseWhen style pivot clauses whens elseClause = .ok pieces) : Followed pieces := by
  unfold caseWhen at h
  split_ifs at h
  rw [Except.ok.injEq] at h
  subst h
  simp only [List.append_assoc, List.cons_append]
  generalize hrest : (_ ++ [text "end"] : List Piece) = rest
  have htail : Followed rest := by
    rw [← hrest]
    split
    · simp only [List.append_assoc, List.cons_append]
      exact .fixed "else" (.separated (followed_statements.append_separator (.fixed "end" .nil)))
    · exact .fixed "end" .nil
  have hclauses : Followed ((List.zipWith (whenClause style) clauses whens).flatten ++ rest) :=
    followed_whenClauses clauses whens rest htail
  refine .fixed "case" ?_
  split
  · exact hclauses.separated
  · exact .fixed " " ((followed_operand _).append_separator hclauses)

theorem followed_call {receiver : Option Node} {method : String} {args : List Node}
    {params : List String} {body forward : Option Node}
    (h : call style receiver method args params body forward = .ok pieces) : Followed pieces := by
  cases callForm h with
  | operator lhs rhs hbinary =>
      have hmark : method ∈ followers := List.mem_append_right _ (List.contains_iff_mem.1 hbinary)
      exact (followed_operand _).append_mark hmark (followed_operand _)
  | block body hbinary =>
      simp only [List.append_assoc, List.cons_append, List.nil_append]
      refine followed_callHead receiver method (followed_argumentList args ?_)
      refine .fixed _ (.fixed _ (.fixed "|" ?_))
      split
      · exact .fixed _ .nil
      · exact followed_statements.append_mark (by decide) .nil
  | forward block hbinary =>
      simp only [List.append_assoc, List.cons_append]
      refine followed_callHead receiver method (.fixed "(" ?_)
      have hblock : Followed (text "&" :: (operand style .assign block ++ [text ")"])) :=
        .fixed "&" ((followed_operand _).append_mark (by decide) .nil)
      split
      · exact hblock
      · rw [List.append_assoc]
        exact (followed_arguments args).append_mark (by decide) hblock
  | indexRead target =>
      rw [List.append_assoc]
      exact (followed_operand _).append_mark (by decide)
        ((followed_arguments _).append_mark (by decide) .nil)
  | indexWrite target value hvalue hindex =>
      rw [List.append_assoc]
      exact (followed_operand _).append_mark (by decide)
        ((followed_arguments _).append_mark (by decide) (followed_operand _))
  | negation subject => exact .fixed "!" (followed_operand _)
  | plain hbinary hread hwrite hnot =>
      refine followed_callHead receiver method ?_
      have hlist : Followed (argumentList style args ++ []) := followed_argumentList args .nil
      rwa [List.append_nil] at hlist

theorem followed_rule (h : rule style node = .ok pieces) : Followed pieces := by
  cases node with
  | call => exact followed_call h
  | caseWhen => exact followed_caseWhen h
  | ifElse | unlessElse =>
      obtain rfl := Except.ok.inj h
      exact followed_conditional ..
  | localWrite | instanceWrite =>
      obtain rfl := Except.ok.inj h
      exact followed_assignment ..
  | definition method params body =>
      obtain rfl := Except.ok.inj h
      refine .fixed _ (.fixed method ?_)
      split
      · exact followed_keywordBody
      · exact .fixed _ (.fixed _ (.fixed _ followed_keywordBody))
  | classDef path superclass body =>
      obtain rfl := Except.ok.inj h
      refine .fixed _ (.fixed _ ?_)
      split
      · exact .fixed _ (.fixed _ followed_keywordBody)
      · exact followed_keywordBody
  | moduleDef path body =>
      obtain rfl := Except.ok.inj h
      exact .fixed _ (.fixed _ followed_keywordBody)
  | ret argument =>
      cases argument <;> obtain rfl := Except.ok.inj h
      case nil => exact .fixed _ .nil
      all_goals exact .child
  | yielding args =>
      obtain rfl := Except.ok.inj h
      refine .fixed "yield" ?_
      split
      · exact .nil
      · exact .fixed " " (followed_arguments args)
  | logicalAnd lhs rhs | logicalOr lhs rhs =>
      obtain rfl := Except.ok.inj h
      exact (followed_operand _).append_mark (by decide) (followed_operand _)
  | constRead base name =>
      obtain rfl := Except.ok.inj h
      cases base with
      | none => exact .fixed name .nil
      | some base =>
          rw [List.append_assoc]
          exact (followed_operand _).append_mark (by decide) (.fixed name .nil)
  | constWrite path rhs =>
      obtain rfl := Except.ok.inj h
      exact .fixed _ (.fixed "=" (followed_operand _))
  | array elements =>
      obtain rfl := Except.ok.inj h
      exact .fixed "[" ((followed_arguments elements).append_mark (by decide) .nil)
  | hash keys values =>
      rw [rule] at h
      split_ifs at h
      obtain rfl := Except.ok.inj h
      refine .fixed _ (.append_mark (.joined (by decide) fun pair hpair => ?_) (by decide) .nil)
      obtain ⟨key, -, value, -, rfl⟩ := exists_of_mem_zipWith hpair
      exact (followed_operand _).append_mark (by decide) (followed_operand _)
  | interpolatedString parts | interpolatedSymbol parts =>
      obtain rfl := Except.ok.inj h
      exact .fixed _ (followed_interpolated parts _)
  | including args =>
      cases args with
      | nil => cases h
      | cons included rest =>
          obtain rfl := Except.ok.inj h
          exact .fixed _ (followed_operand _)
  | block body =>
      obtain rfl := Except.ok.inj h
      exact followed_statements
  | symbol value =>
      obtain rfl := Except.ok.inj h
      refine .fixed ":" ?_
      split
      · exact .fixed value .nil
      · exact .text_cons .nil
  | nil =>
      obtain rfl := Except.ok.inj h
      exact .nil
  | unmapped => cases h
  | boolean | selfRef | localRead | instanceRead | string | integer =>
      obtain rfl := Except.ok.inj h
      exact .text_cons .nil

/-! ### Places -/

/-- The node stands among pieces or deeper in the text of one of them. What follows is the first
piece behind it, if any does not only end the text around it. -/
inductive Stands (config : RenderConfig) (node : Node) :
    List Piece → Option Piece → List Char → List Char → Prop where
  | here {front back : List Piece} {before after : List Char}
      (hfront : writePieces config.separator (write config maxDepth) front = .ok before)
      (hback : writePieces config.separator (write config maxDepth) back = .ok after) :
      Stands config node (front ++ .child node :: back) back.head? before after
  | inside {front back pieces : List Piece} {other : Node} {follower : Option Piece}
      {before after left right : List Char} (hrule : rule config.style other = .ok pieces)
      (h : Stands config node pieces follower before after)
      (hfront : writePieces config.separator (write config maxDepth) front = .ok left)
      (hback : writePieces config.separator (write config maxDepth) back = .ok right) :
      Stands config node (front ++ .child other :: back) (follower.or back.head?) (left ++ before)
        (after ++ right)

/-- The statements of a program that have a text, one per line. -/
def lines (style : LiteralStyle) (program : Node) : List Piece :=
  [text "\n"].intercalate ((program.statements.filter fun statement =>
    !statement.rendered.isSilent style).map fun statement => [.child statement])

/-- What an entry point writes for a tree: pieces, and the text of them. -/
inductive Rendering (config : RenderConfig) (tree : Node) : List Piece → String → Prop where
  | node {content : String} (h : renderNode config tree = .ok content) :
      Rendering config tree [.child tree] content
  | statements {content : String} (h : renderStatements config tree = .ok content) :
      Rendering config tree (Render.statements config.style tree) content
  | program {content : String} (h : renderProgram config tree = .ok content) :
      Rendering config tree (lines config.style tree) content

section Places

variable {config : RenderConfig} {tree other : Node} {follower : Option Piece} {room : Nat}
  {before after content : List Char}

theorem Stands.follows (h : Stands config node pieces follower before after)
    (hpieces : Followed pieces) : ∀ next ∈ follower, next.Follows := by
  induction h with
  | here => exact hpieces.follows
  | @inside front back pieces other follower before after left right hrule h _ _ ih =>
      cases follower with
      | none => exact hpieces.follows
      | some next => exact ih (followed_rule hrule)

theorem writePieces_around_eq_ok {separator : Separator}
    {emit : Node → Except Unsupported (List Char)} {front back : List Piece} :
    writePieces separator emit (front ++ .child node :: back) = .ok content ↔
      ∃ left inner right, writePieces separator emit front = .ok left ∧ emit node = .ok inner ∧
        writePieces separator emit back = .ok right ∧ content = left ++ (inner ++ right) := by
  rw [writePieces_append_eq_ok]
  simp only [writePieces_cons_eq_ok]
  constructor
  · rintro ⟨left, _, hleft, ⟨inner, right, hinner, hright, rfl⟩, rfl⟩
    exact ⟨left, inner, right, hleft, hinner, hright, rfl⟩
  · rintro ⟨left, inner, right, hleft, hinner, hright, rfl⟩
    exact ⟨left, _, hleft, ⟨inner, right, hinner, hright, rfl⟩, rfl⟩

theorem exists_pieces_of_write (h : write config maxDepth node = .ok content) :
    ∃ pieces, rule config.style node = .ok pieces ∧
      writePieces config.separator (write config maxDepth) pieces = .ok content := by
  obtain ⟨less, pieces, hroom, hrule, hpieces⟩ := exists_of_write h
  exact ⟨pieces, hrule,
    writePieces_mono (fun _ _ => write_mono (hroom ▸ Nat.le_succ less)) hpieces⟩

theorem Stands.exists_text (h : Stands config node pieces follower before after)
    (hcontent : writePieces config.separator (write config maxDepth) pieces = .ok content) :
    ∃ inner, write config maxDepth node = .ok inner ∧ content = before ++ (inner ++ after) := by
  induction h generalizing content with
  | here hfront hback =>
      obtain ⟨left, inner, right, hleft, hinner, hright, rfl⟩ := writePieces_around_eq_ok.1 hcontent
      obtain rfl := Except.ok.inj (hfront.symm.trans hleft)
      obtain rfl := Except.ok.inj (hback.symm.trans hright)
      exact ⟨inner, hinner, rfl⟩
  | inside hrule _ hfront hback ih =>
      obtain ⟨left, outer, right, hleft, houter, hright, rfl⟩ := writePieces_around_eq_ok.1 hcontent
      obtain rfl := Except.ok.inj (hfront.symm.trans hleft)
      obtain rfl := Except.ok.inj (hback.symm.trans hright)
      obtain ⟨pieces, hpieces, houter⟩ := exists_pieces_of_write houter
      obtain rfl := Except.ok.inj (hrule.symm.trans hpieces)
      obtain ⟨inner, hinner, rfl⟩ := ih houter
      exact ⟨inner, hinner, by simp⟩

theorem exists_stands (h : other.Writes config.style node) (hother : other ∈ nested pieces)
    (hcontent : writePieces config.separator (write config maxDepth) pieces = .ok content) :
    ∃ follower before after, Stands config node pieces follower before after := by
  induction h using Relation.ReflTransGen.head_induction_on generalizing pieces content with
  | refl =>
      obtain ⟨front, back, rfl⟩ := List.append_of_mem (mem_nested.1 hother)
      obtain ⟨left, _, right, hleft, -, hright, -⟩ := writePieces_around_eq_ok.1 hcontent
      exact ⟨_, _, _, .here hleft hright⟩
  | head hnext _ ih =>
      obtain ⟨front, back, rfl⟩ := List.append_of_mem (mem_nested.1 hother)
      obtain ⟨left, _, right, hleft, hinner, hright, -⟩ := writePieces_around_eq_ok.1 hcontent
      obtain ⟨pieces, hrule, hpieces⟩ := exists_pieces_of_write hinner
      rw [← nested_rule hrule] at hnext
      obtain ⟨follower, before, after, hstands⟩ := ih hnext hpieces
      exact ⟨_, _, _, .inside hrule hstands hleft hright⟩

/-- The text behind a node starts with the piece that follows. -/
theorem Stands.exists_after (h : Stands config node pieces follower before after) :
    (follower = none → after = []) ∧
      ∀ next ∈ follower, ∃ mark rest,
        writePiece config.separator (write config maxDepth) next = .ok mark ∧
          after = mark ++ rest := by
  have hhead {back : List Piece} {right : List Char}
      (hback : writePieces config.separator (write config maxDepth) back = .ok right) :
      (back.head? = none → right = []) ∧
        ∀ next ∈ back.head?, ∃ mark rest,
          writePiece config.separator (write config maxDepth) next = .ok mark ∧
            right = mark ++ rest := by
    cases back with
    | nil =>
        obtain rfl := Except.ok.inj hback
        exact ⟨fun _ => rfl, nofun⟩
    | cons piece back =>
        obtain ⟨first, rest, hfirst, -, rfl⟩ := writePieces_cons_eq_ok.1 hback
        refine ⟨nofun, fun next hnext => ?_⟩
        obtain rfl := Option.some.inj hnext
        exact ⟨first, rest, hfirst, rfl⟩
  induction h with
  | here _ hback => exact hhead hback
  | @inside front back pieces other follower before after left right hrule h _ hback ih =>
      cases follower with
      | none =>
          obtain rfl := ih.1 rfl
          exact hhead hback
      | some next =>
          refine ⟨nofun, fun next hnext => ?_⟩
          obtain ⟨mark, rest, hmark, rfl⟩ := ih.2 next hnext
          exact ⟨mark, rest ++ right, hmark, List.append_assoc ..⟩

theorem writePieces_joined {separator : Separator} {emit : Node → Except Unsupported (List Char)}
    {joiner : List Char} {lists : List (List Piece)} {texts : List (List Char)}
    (h : List.Forall₂ (fun list text => writePieces separator emit list = .ok text) lists texts) :
    writePieces separator emit ([.text joiner].intercalate lists) =
      .ok (joiner.intercalate texts) := by
  induction h with
  | nil => rfl
  | cons hfirst hrest ih =>
      cases hrest with
      | nil =>
          rw [List.intercalate_singleton, List.intercalate_singleton]
          exact hfirst
      | cons hsecond hrest =>
          rw [List.intercalate_cons_cons, List.intercalate_cons_cons]
          exact writePieces_append (writePieces_append hfirst writePieces_text) ih

theorem writePieces_lines {content : String} (h : renderProgram config tree = .ok content) :
    writePieces config.separator (write config maxDepth) (lines config.style tree) =
      .ok content.toList := by
  obtain ⟨texts, htexts, rfl⟩ := renderProgram_eq_ok.1 h
  rw [String.toList_intercalate]
  refine writePieces_joined ?_
  rw [List.forall₂_map_left_iff, List.forall₂_map_right_iff]
  rw [← forall₂_iff_map_eq] at htexts
  refine (List.rel_filter (fun statement text hpair => ?_) htexts).imp fun _ _ hpair => ?_
  · have hempty := write_eq_nil_iff (renderNode_eq_ok.1 hpair)
    rw [String.toList_eq_nil_iff] at hempty
    simp [hempty]
  · exact writePieces_child_eq_ok.2 (renderNode_eq_ok.1 hpair)

variable {content : String}

theorem Rendering.writePieces_eq (h : Rendering config tree pieces content) :
    writePieces config.separator (write config maxDepth) pieces = .ok content.toList := by
  cases h with
  | node h => exact writePieces_child_eq_ok.2 (renderNode_eq_ok.1 h)
  | statements h => exact renderStatements_eq_ok.1 h
  | program h => exact writePieces_lines h

theorem Rendering.followed (h : Rendering config tree pieces content) : Followed pieces := by
  cases h with
  | node => exact .child
  | statements => exact followed_statements
  | program => exact .joined (by decide) (List.forall_mem_map.2 fun _ _ => .child)

/-- Whatever has a text and is written in a statement has a place at every entry point. -/
theorem Rendering.exists_stands (h : Rendering config tree pieces content) {statement : Node}
    (hstatement : statement ∈ tree.statements) (hwrites : statement.Writes config.style node)
    (hnode : ∀ text, write config maxDepth node = .ok text → text ≠ []) :
    ∃ follower before after, Stands config node pieces follower before after := by
  have hpieces := h.writePieces_eq
  cases h with
  | node h =>
      exact Render.exists_stands ((writes_of_mem_statements hstatement).trans hwrites)
        (List.mem_singleton_self _) hpieces
  | statements h =>
      exact Render.exists_stands hwrites (by rwa [nested_statements]) hpieces
  | program h =>
      refine Render.exists_stands hwrites (mem_nested.2 ?_) hpieces
      obtain ⟨whole, hwhole, -⟩ :=
        exists_infix_of_mem_statements (.inr (.inr h)) statement hstatement
      obtain ⟨text, htext, hinfix⟩ := exists_infix_of_writes (Nat.le_refl _) hwhole hwrites
      have hkept : statement.rendered.isSilent config.style = false := by
        rw [← Bool.not_eq_true, ← write_eq_nil_iff hwhole]
        rintro rfl
        exact hnode text htext (List.infix_nil.1 hinfix)
      have hmem : [.child statement] ∈ (tree.statements.filter fun statement =>
          !statement.rendered.isSilent config.style).map fun statement => [Piece.child statement] :=
        List.mem_map_of_mem (List.mem_filter.2 ⟨hstatement, by simp [hkept]⟩)
      exact (infix_intercalate hmem).subset (List.mem_singleton_self _)

end Places

end Render

/-! ### Operators as symbols -/

/-- The operator that longest match reads at the start of a text. -/
def IsLongestOperator (value : String) (text : List Char) : Prop :=
  (value ∈ SymbolName.operators ∧ value.toList <+: text) ∧
    ∀ other ∈ SymbolName.operators, other.toList <+: text → other.length ≤ value.length

/-- The marks that longest match does not leave whole behind an operator. -/
def takers : String → List String
  | "*" => ["*", "**"]
  | "<" => ["<", "<=", "<=>", "==", "===", "=>"]
  | ">" => [">", ">=", "==", "===", "=>"]
  | "<=" => [">", ">="]
  | "==" | "!" | "[]" => ["==", "===", "=>"]
  | _ => []

section Longest

variable {value : String} {after : List Char}

/-- An operator goes on with a character only if that gives an operator. -/
theorem isLongestOperator_append_iff (hvalue : value ∈ SymbolName.operators) :
    IsLongestOperator value (value.toList ++ after) ↔
      ∀ c ∈ after.head?, value.push c ∉ SymbolName.operators := by
  have table : ∀ first ∈ SymbolName.operators, ∀ second ∈ SymbolName.operators,
      first.length < second.length → first.toList <+: second.toList →
        String.ofList (second.toList.take (first.length + 1)) ∈ SymbolName.operators := by
    decide +kernel
  constructor
  · rintro ⟨-, hlongest⟩ c hc hpush
    obtain ⟨rest, rfl⟩ := List.head?_eq_some_iff.1 hc
    have hprefix : (value.push c).toList <+: value.toList ++ c :: rest :=
      ⟨rest, by simp⟩
    have hle := hlongest _ hpush hprefix
    simp at hle
  · intro h
    refine ⟨⟨hvalue, List.prefix_append _ _⟩, fun other hother hprefix => ?_⟩
    by_contra hlt
    rw [not_le] at hlt
    obtain ⟨rest, hrest⟩ := List.prefix_of_prefix_length_le (List.prefix_append value.toList after)
      hprefix hlt.le
    obtain ⟨c, rest, rfl⟩ : ∃ c others, rest = c :: others := by
      cases rest with
      | nil =>
          rw [List.append_nil, String.toList_inj] at hrest
          exact absurd hrest (fun heq => hlt.ne (congrArg String.length heq))
      | cons c others => exact ⟨c, others, rfl⟩
    rw [← hrest, List.prefix_append_right_inj] at hprefix
    have hpush := table value hvalue other hother hlt (hrest ▸ List.prefix_append _ _)
    rw [← hrest, show value.length = value.toList.length from rfl, List.take_length_add_append,
      List.take_succ_cons, List.take_zero, ← String.toList_push, String.ofList_toList] at hpush
    obtain ⟨tail, rfl⟩ := hprefix
    exact h c rfl hpush

theorem mem_takers_iff : ∀ value ∈ SymbolName.operators, ∀ mark ∈ followers,
    (mark ∈ takers value ↔
      mark.toList.head?.any fun c => value.push c ∈ SymbolName.operators) := by
  decide +kernel

open Render

theorem symbolText_of_mem_operators (hvalue : value ∈ SymbolName.operators) :
    symbolText value = value.toList := by
  simp [symbolText, SymbolName.isPlain, hvalue]

/-- Whether what follows an operator lets longest match take more than the operator. -/
theorem forall_push_iff {config : RenderConfig} {next : Piece} {mark rest : List Char}
    (hvalue : value ∈ SymbolName.operators) (hnext : next.Follows)
    (hmark : writePiece config.separator (write config maxDepth) next = .ok mark) :
    (∀ c ∈ (mark ++ rest).head?, value.push c ∉ SymbolName.operators) ↔
      ∀ taker ∈ takers value, next ≠ text taker := by
  cases next with
  | child node => cases hnext
  | separator =>
      have table : ∀ value ∈ SymbolName.operators,
          value.push '\n' ∉ SymbolName.operators ∧ value.push ';' ∉ SymbolName.operators := by
        decide +kernel
      obtain rfl := Except.ok.inj hmark
      refine iff_of_true (fun c hc => ?_) fun taker _ heq => by cases heq
      cases hseparator : config.separator <;> rw [hseparator] at hc <;>
        obtain rfl := Option.some.inj hc
      · exact (table value hvalue).1
      · exact (table value hvalue).2
  | text content =>
      obtain ⟨follower, hfollower, rfl⟩ := hnext
      obtain rfl := Except.ok.inj hmark
      have htext (taker : String) : Piece.text follower.toList ≠ text taker ↔ follower ≠ taker := by
        rw [text, Ne, Piece.text.injEq, String.toList_inj]
      have hne : ∀ mark ∈ followers, mark.toList ≠ [] := by decide
      rw [List.head?_append_of_ne_nil _ (hne follower hfollower)]
      have htakers := mem_takers_iff value hvalue follower hfollower
      simp only [Option.any_eq_true, decide_eq_true_eq] at htakers
      constructor
      · intro h taker htaker
        rw [htext]
        rintro rfl
        obtain ⟨c, hc, hpush⟩ := htakers.1 htaker
        exact h c hc hpush
      · intro h c hc hpush
        exact (htext follower).1 (h follower (htakers.2 ⟨c, hc, hpush⟩)) rfl

end Longest

open Render

/-- **Operators as symbols end where they should, except in front of a few marks.** Wherever an
operator stands as a symbol without quotes, at any entry point, longest match reads that operator
again exactly if what follows directly is not one of its takers. -/
theorem isLongestOperator_iff_follower {config : RenderConfig} {tree : Node} {pieces : List Piece}
    {content : String} (hcontent : Rendering config tree pieces content) :
    (∀ statement ∈ tree.statements, ∀ value, statement.Writes config.style (.symbol value) →
      ∃ follower before after, Stands config (.symbol value) pieces follower before after) ∧
    ∀ value ∈ SymbolName.operators, ∀ follower before after,
      Stands config (.symbol value) pieces follower before after →
        content.toList = before ++ ':' :: (value.toList ++ after) ∧
        (IsLongestOperator value (value.toList ++ after) ↔
          ∀ mark ∈ takers value, follower ≠ some (text mark)) := by
  refine ⟨fun statement hstatement value hwrites => ?_, fun value hvalue follower before after h =>
    ⟨?_, ?_⟩⟩
  · refine hcontent.exists_stands hstatement hwrites fun text htext => ?_
    obtain rfl := Except.ok.inj ((write_symbol config _ value).symm.trans htext)
    exact List.cons_ne_nil _ _
  · obtain ⟨inner, hinner, heq⟩ := h.exists_text hcontent.writePieces_eq
    obtain rfl := Except.ok.inj ((write_symbol config _ value).symm.trans hinner)
    rw [heq, symbolText_of_mem_operators hvalue, List.cons_append]
  · rw [isLongestOperator_append_iff hvalue]
    cases follower with
    | none =>
        obtain rfl := h.exists_after.1 rfl
        exact iff_of_true nofun fun _ _ => nofun
    | some next =>
        obtain ⟨mark, rest, hmark, rfl⟩ := h.exists_after.2 next rfl
        rw [forall_push_iff hvalue (h.follows hcontent.followed next rfl) hmark]
        simp only [ne_eq, Option.some.injEq]

/-- A factor in brackets, although a factor itself would run into the operator behind it. -/
theorem isLongestOperator_in_brackets :
    let tree : Node := .binary (.array [.symbol "*"]) "*" (.integer 2)
    Rendering .readable tree [.child tree] "[:*]*2" ∧
      Stands .readable (.symbol "*") [.child tree] (some (text "]")) ['['] "]*2".toList ∧
      IsLongestOperator "*" "*]*2".toList := by
  intro tree
  have hcontent : Rendering .readable tree [.child tree] "[:*]*2" := .node (by cbv)
  have hinner : Stands .readable (.symbol "*") [text "[", .child (.symbol "*"), text "]"]
      (some (text "]")) ['['] [']'] := @Stands.here _ _ [text "["] [text "]"] _ _ rfl rfl
  have hleft : Stands .readable (.symbol "*")
      [.child (.array [.symbol "*"]), text "*", .child (.integer 2)] (some (text "]")) ['[']
        "]*2".toList :=
    @Stands.inside _ _ [] [text "*", .child (.integer 2)] _ (.array [.symbol "*"]) _ _ _ _ _
      (by cbv) hinner rfl (by cbv)
  have hstands : Stands .readable (.symbol "*") [.child tree] (some (text "]")) ['[']
      "]*2".toList :=
    @Stands.inside _ _ [] [] _ tree _ _ _ _ _ (by cbv) hleft rfl rfl
  refine ⟨hcontent, hstands, ?_⟩
  refine (((isLongestOperator_iff_follower hcontent).2 "*" (by decide) _ _ _ hstands).2).2 ?_
  simp [takers, text]

/-- A key that is read as another operator with the arrow behind it. -/
theorem not_isLongestOperator_of_key :
    let tree : Node := .hash [.symbol "<"] [.integer 1]
    renderNode .readable tree = .ok "\x7b:<=>1\x7d" ∧
      Stands .readable (.symbol "<") [.child tree] (some (text "=>")) ['\x7b']
        "=>1\x7d".toList ∧
      IsLongestOperator "<=>" "<=>1\x7d".toList ∧ ¬IsLongestOperator "<" "<=>1\x7d".toList := by
  intro tree
  refine ⟨by cbv, ?_, ?_, ?_⟩
  · have hinner : Stands .readable (.symbol "<")
        [text "\x7b", .child (.symbol "<"), text "=>", .child (.integer 1), text "\x7d"]
          (some (text "=>")) ['\x7b'] "=>1\x7d".toList :=
      @Stands.here _ _ [text "\x7b"] [text "=>", .child (.integer 1), text "\x7d"] _ _ rfl (by cbv)
    exact @Stands.inside _ _ [] [] _ tree _ _ _ _ _ (by cbv) hinner rfl rfl
  · unfold IsLongestOperator
    decide
  · unfold IsLongestOperator
    decide

end RubyPress
