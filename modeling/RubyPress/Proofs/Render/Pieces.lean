import RubyPress.Proofs.Render.Writing
import RubyPress.Proofs.Text.Printable
import RubyPress.Proofs.Tree.Children

/-!
# What pieces are made of

A rule is free in how it arranges its pieces, but not in what they are: a text is printable unless
it repeats a name or a symbol of the node, and a child is a part of the node or, where a body or an
abbreviated assignment is opened on the spot, a part of one of its parts.

Quotes and braces come in pairs. A quote belongs to a string, to a symbol or to an interpolated
literal, and a brace to a block, a hash or embedded code; `Composed` has one constructor for each
way in which pieces belong together.
-/

namespace RubyPress

open Text (isPrintable)

/-- The characters that a node can give to its text as they are. -/
def Node.letters (node : Node) : List Char :=
  (node.names ++ node.plainSymbols).flatMap String.toList

/-- The nodes that the rule of a node can reach. -/
def Node.Near (node other : Node) : Prop :=
  other ∈ node.children ∨ ∃ child ∈ node.children, other ∈ child.children

theorem Node.Everywhere.of_near {p : Node → Prop} {node other : Node} (h : node.Everywhere p)
    (hnear : node.Near other) : other.Everywhere p := by
  have hchildren := (everywhere_iff.1 h).2
  rcases hnear with hmem | ⟨child, hchild, hmem⟩
  · exact hchildren other hmem
  · exact (everywhere_iff.1 (hchildren child hchild)).2 other hmem

/-- What a piece is allowed to be in the text of a node. -/
def Piece.Of (node : Node) : Piece → Prop
  | .text content => ∀ c ∈ content, isPrintable c ∨ c ∈ node.letters
  | .separator => True
  | .child other => node.Near other

namespace Render

def Pieces (node : Node) (pieces : List Piece) : Prop := ∀ piece ∈ pieces, piece.Of node

/-- Printable characters that neither quote nor group. -/
def isBare (c : Char) : Bool := isPrintable c && !(['"', '\x7b', '\x7d'].contains c)

/-- Pieces that the text of a node can be made up of. -/
inductive Composed (style : LiteralStyle) (node : Node) : List Piece → Prop where
  | nil : Composed style node []
  | text {content : List Char} (hcontent : ∀ c ∈ content, isBare c ∨ c ∈ node.letters) :
      Composed style node [.text content]
  | separator : Composed style node [.separator]
  | child {other : Node} (hother : node.Near other) : Composed style node [.child other]
  | quoted (value : String) : Composed style node [.text (DoubleQuoted.quote value)]
  | braced {header : List Char} (hheader : ∀ c ∈ header, isBare c) {pieces : List Piece}
      (hpieces : Composed style node pieces) :
      Composed style node (.text ('\x7b' :: header) :: pieces ++ [.text ['\x7d']])
  | interpolated {opening : List Char} (hopening : ∀ c ∈ opening, isBare c)
      (hparts : ∀ part ∈ node.parts, Composed style node (statements style part)) :
      Composed style node (.text (opening ++ ['"']) ::
        node.parts.flatMap (interpolatedPart style) ++ [.text ['"']])
  | append {pieces others : List Piece} (hpieces : Composed style node pieces)
      (hothers : Composed style node others) : Composed style node (pieces ++ others)

variable {style : LiteralStyle} {node child other : Node} {pieces others : List Piece}

theorem isPrintable_of_isBare {c : Char} (h : isBare c) : isPrintable c := by
  rw [isBare, Bool.and_eq_true] at h
  exact h.1

theorem isBare_of_isAlphanum {c : Char} (h : c.isAlphanum) : isBare c := by
  have hmarks : c ∉ ['"', '\x7b', '\x7d'] := by
    intro hmem
    have table : ∀ mark ∈ ['"', '\x7b', '\x7d'], ¬mark.isAlphanum := by decide
    exact table c hmem h
  simp only [isBare, Text.isPrintable_of_isAlphanum h, List.contains_eq_mem, hmarks, decide_false,
    Bool.not_false, Bool.and_true]

theorem isBare_of_mem_toString {value : Int} {c : Char} (h : c ∈ (toString value).toList) :
    isBare c := by
  have hdecimal {magnitude : Nat} (hmem : c ∈ Nat.toDigits 10 magnitude) : isBare c := by
    have hdigit := Text.isDigit_of_mem_decimal magnitude c hmem
    exact isBare_of_isAlphanum (by simp [Char.isAlphanum, hdigit])
  cases value with
  | ofNat magnitude =>
      rw [Int.ofNat_eq_natCast, Text.toList_toString_ofNat] at h
      exact hdecimal h
  | negSucc magnitude =>
      rw [Text.toList_toString_negSucc, List.mem_cons] at h
      rcases h with rfl | h
      · decide
      · exact hdecimal h

theorem forall_mem_intercalate {α : Type} {p : α → Prop} {joiner : List α} {lists : List (List α)}
    (hjoiner : ∀ item ∈ joiner, p item) (hlists : ∀ list ∈ lists, ∀ item ∈ list, p item) :
    ∀ item ∈ joiner.intercalate lists, p item := by
  induction lists with
  | nil => simp
  | cons list lists ih =>
      rw [List.forall_mem_cons] at hlists
      cases lists with
      | nil =>
          rw [List.intercalate_singleton]
          exact hlists.1
      | cons second lists =>
          rw [List.intercalate_cons_cons, List.forall_mem_append, List.forall_mem_append]
          exact ⟨⟨hlists.1, hjoiner⟩, ih hlists.2⟩

namespace Composed

theorem cons {piece : Piece} (hpiece : Composed style node [piece])
    (hpieces : Composed style node pieces) : Composed style node (piece :: pieces) :=
  hpiece.append hpieces

theorem fixed {content : String} (hcontent : content.toList.all isBare)
    (hpieces : Composed style node pieces) : Composed style node (Render.text content :: pieces) :=
  cons (text fun c hc => .inl (List.all_eq_true.1 hcontent c hc)) hpieces

theorem separated (hpieces : Composed style node pieces) :
    Composed style node (.separator :: pieces) := cons separator hpieces

theorem nested (hother : node.Near other) (hpieces : Composed style node pieces) :
    Composed style node (.child other :: pieces) := cons (child hother) hpieces

theorem enclosed {opening closing : String} (hopening : opening.toList.all isBare)
    (hclosing : closing.toList.all isBare) (hpieces : Composed style node pieces) :
    Composed style node (Render.text opening :: pieces ++ [Render.text closing]) :=
  (fixed hopening hpieces).append (fixed hclosing nil)

theorem name {name : String} (h : name ∈ node.names) : Composed style node [Render.text name] :=
  text fun _ hc => .inr (List.mem_flatMap.2 ⟨name, List.mem_append_left _ h, hc⟩)

theorem names {joiner : String} (hjoiner : joiner.toList.all isBare) {names : List String}
    (hnames : ∀ name ∈ names, name ∈ node.names) :
    Composed style node [Render.text (joiner.intercalate names)] := by
  refine text fun c hc => ?_
  rw [String.toList_intercalate] at hc
  refine forall_mem_intercalate (p := fun c => isBare c ∨ c ∈ node.letters)
    (fun d hd => .inl (List.all_eq_true.1 hjoiner d hd)) ?_ c hc
  intro content hcontent d hd
  obtain ⟨name, hname, rfl⟩ := List.mem_map.1 hcontent
  exact .inr (List.mem_flatMap.2 ⟨name, List.mem_append_left _ (hnames name hname), hd⟩)

theorem commas {lists : List (List Piece)}
    (hlists : ∀ pieces ∈ lists, Composed style node pieces) :
    Composed style node ([Render.text ","].intercalate lists) := by
  induction lists with
  | nil => exact nil
  | cons pieces lists ih =>
      rw [List.forall_mem_cons] at hlists
      cases lists with
      | nil =>
          rw [List.intercalate_singleton]
          exact hlists.1
      | cons second lists =>
          rw [List.intercalate_cons_cons]
          exact (hlists.1.append (fixed (by decide) nil)).append (ih hlists.2)

theorem flatten {lists : List (List Piece)}
    (hlists : ∀ pieces ∈ lists, Composed style node pieces) :
    Composed style node lists.flatten := by
  induction lists with
  | nil => exact nil
  | cons pieces lists ih =>
      rw [List.forall_mem_cons] at hlists
      exact hlists.1.append (ih hlists.2)

end Composed

/-! ### Parts of rules -/

theorem composed_operand (least : Precedence) (hchild : node.Near child) :
    Composed style node (operand style least child) := by
  unfold operand
  split
  · exact .fixed (by decide) (.nested hchild (.fixed (by decide) .nil))
  · exact .nested hchild .nil

theorem composed_statementList {nodes : List Node} (hnodes : ∀ other ∈ nodes, node.Near other) :
    Composed style node ((nodes.map Piece.child).intersperse .separator) := by
  induction nodes with
  | nil => exact .nil
  | cons first nodes ih =>
      rw [List.forall_mem_cons] at hnodes
      cases nodes with
      | nil => exact .nested hnodes.1 .nil
      | cons second nodes => exact .nested hnodes.1 (.separated (ih hnodes.2))

theorem composed_emptyBlock : Composed style node [text style.emptyBlock] := by
  cases style
  · exact .quoted ""
  · exact .fixed (by decide) .nil

theorem composed_statements (hchild : child ∈ node.children) :
    Composed style node (statements style child) := by
  have hstatements : ∀ statement ∈ child.statements, node.Near statement := by
    intro statement hmem
    rcases Node.mem_statements hmem with rfl | hmem
    · exact .inl hchild
    · exact .inr ⟨child, hchild, hmem⟩
  unfold statements
  split
  · exact composed_emptyBlock
  · exact composed_statementList hstatements

theorem composed_arguments {args : List Node} (hargs : ∀ arg ∈ args, arg ∈ node.children) :
    Composed style node (arguments style args) := by
  apply Composed.commas
  intro pieces hpieces
  obtain ⟨arg, harg, rfl⟩ := List.mem_map.1 hpieces
  exact composed_operand _ (.inl (hargs arg harg))

theorem composed_argumentList {args : List Node} (hargs : ∀ arg ∈ args, arg ∈ node.children) :
    Composed style node (argumentList style args) := by
  unfold argumentList
  split
  · exact .nil
  · exact .enclosed (by decide) (by decide) (composed_arguments hargs)

theorem composed_keywordBody (hchild : child ∈ node.children) :
    Composed style node (keywordBody style child) :=
  .append (.separated (composed_statements hchild)) (.separated (.fixed (by decide) .nil))

theorem composed_condition {negate : Bool} (least : Precedence) (hchild : child ∈ node.children) :
    Composed style node (condition style negate least child) := by
  unfold condition
  split
  · exact .fixed (by decide) (.nested (.inl hchild) (.fixed (by decide) .nil))
  · exact composed_operand _ (.inl hchild)

theorem composed_conditional {negate : Bool} {test thenBranch : Node} {elseBranch : Option Node}
    (htest : test ∈ node.children) (hthen : thenBranch ∈ node.children)
    (helse : ∀ branch ∈ elseBranch, branch ∈ node.children) :
    Composed style node (conditional style negate test thenBranch elseBranch) := by
  unfold conditional
  split
  · exact .append (composed_operand _ (.inl hthen))
      (.fixed (by decide) (composed_condition _ htest))
  · refine .append (.append (composed_condition _ htest)
      (.fixed (by decide) (composed_operand _ (.inl hthen)))) (.fixed (by decide) ?_)
    cases elseBranch with
    | none => cases style <;> exact .fixed (by decide) .nil
    | some branch => exact composed_operand _ (.inl (helse branch rfl))

/-- The value of an abbreviated assignment is a part of the assigned node. -/
theorem composed_assignment {target : Variable} {name : String} {rhs : Node}
    (hname : name ∈ node.names) (hrhs : rhs ∈ node.children) :
    Composed style node (assignment style target name rhs) := by
  unfold assignment
  split
  · next operator value habbreviation =>
      obtain ⟨hvalue, hoperator⟩ := abbreviation?_cases habbreviation
      have table : ∀ operator ∈ "&&" :: "||" :: Operator.compoundNames,
          operator.toList.all isBare := by decide
      exact .append (.cons (.name hname) (.fixed (table operator hoperator)
        (.fixed (by decide) .nil))) (composed_operand _ (.inr ⟨rhs, hrhs, hvalue⟩))
  · exact .append (.cons (.name hname) (.fixed (by decide) .nil)) (composed_operand _ (.inl hrhs))

theorem composed_callHead {receiver : Option Node}
    (hreceiver : ∀ child ∈ receiver, child ∈ node.children) {method : String}
    (hmethod : method ∈ node.names) : Composed style node (callHead style receiver method) := by
  cases receiver with
  | none => exact .cons (.name hmethod) .nil
  | some receiver =>
      exact .append (composed_operand _ (.inl (hreceiver receiver rfl)))
        (.fixed (by decide) (.cons (.name hmethod) .nil))

theorem composed_call {receiver : Option Node}
    (hreceiver : ∀ child ∈ receiver, child ∈ node.children) {method : String}
    (hmethod : method ∈ node.names) {args : List Node} (hargs : ∀ arg ∈ args, arg ∈ node.children)
    {params : List String} (hparams : ∀ param ∈ params, param ∈ node.names)
    {body forward : Option Node} (hbody : ∀ child ∈ body, child ∈ node.children)
    (hforward : ∀ child ∈ forward, child ∈ node.children)
    (hpieces : call style receiver method args params body forward = .ok pieces) :
    Composed style node pieces := by
  have hhead : Composed style node (callHead style receiver method) :=
    composed_callHead hreceiver hmethod
  have htarget {target : Node} (h : receiver = some target) (least : Precedence) :
      Composed style node (operand style least target) :=
    composed_operand _ (.inl (hreceiver target h))
  cases callForm hpieces with
  | operator lhs rhs =>
      have hrhs : rhs ∈ node.children := hargs rhs (List.mem_singleton_self _)
      exact .append (htarget rfl _) (.cons (.name hmethod) (composed_operand _ (.inl hrhs)))
  | block body =>
      have hinner :
          Composed style node (if body.isEmptyBody then [] else statements style body) := by
        split
        · exact .nil
        · exact composed_statements (hbody body rfl)
      have hheader : Composed style node [text (",".intercalate params), text "|"] :=
        .cons (.names (by decide) hparams) (.fixed (by decide) .nil)
      have hblock : Composed style node (text "\x7b|" ::
          ([text (",".intercalate params), text "|"] ++
            if body.isEmptyBody then [] else statements style body) ++ [text "\x7d"]) :=
        .braced (by decide : ∀ c ∈ ['|'], isBare c) (hheader.append hinner)
      have hcall := (hhead.append (composed_argumentList hargs)).append hblock
      simpa only [List.append_assoc, List.cons_append, List.nil_append] using hcall
  | forward block =>
      have hinner : Composed style node
          (if args.isEmpty then [] else arguments style args ++ [text ","]) := by
        split
        · exact .nil
        · exact .append (composed_arguments hargs) (.fixed (by decide) .nil)
      have hblock : Composed style node (operand style .assign block) :=
        composed_operand _ (.inl (hforward block rfl))
      exact .append (.append (.append hhead (.fixed (by decide) hinner))
        (.fixed (by decide) hblock)) (.fixed (by decide) .nil)
  | indexRead =>
      exact .append (.append (htarget rfl _) (.fixed (by decide) (composed_arguments hargs)))
        (.fixed (by decide) .nil)
  | indexWrite target value hvalue =>
      have hindices : Composed style node (arguments style args.dropLast) :=
        composed_arguments fun index h => hargs index (List.mem_of_mem_dropLast h)
      have hassigned : Composed style node (operand style .assign value) :=
        composed_operand _ (.inl (hargs value (List.mem_of_getLast? hvalue)))
      exact .append (.append (htarget rfl _) (.fixed (by decide) hindices))
        (.fixed (by decide) hassigned)
  | negation => exact .fixed (by decide) (htarget rfl _)
  | plain => exact .append hhead (composed_argumentList hargs)

theorem composed_interpolated {opening : List Char} (hopening : ∀ c ∈ opening, isBare c)
    (hparts : ∀ part ∈ node.parts, part ∈ node.children) :
    Composed style node (.text (opening ++ ['"']) ::
      node.parts.flatMap (interpolatedPart style) ++ [text "\""]) :=
  .interpolated hopening fun part hpart => composed_statements (hparts part hpart)

theorem composed_whenClause {clause test : Node} (hclause : clause ∈ node.children)
    (htest : test ∈ node.children) : Composed style node (whenClause style clause test) :=
  .append (.append (.fixed (by decide) (composed_operand _ (.inl htest)))
    (.separated (composed_statements hclause))) (.separated .nil)

theorem composed_caseWhen {pivot : Node} (hpivot : pivot ∈ node.children)
    {clauses whens : List Node} (hclauses : ∀ clause ∈ clauses, clause ∈ node.children)
    (hwhens : ∀ test ∈ whens, test ∈ node.children) {elseClause : Option Node}
    (helse : ∀ clause ∈ elseClause, clause ∈ node.children)
    (hpieces : caseWhen style pivot clauses whens elseClause = .ok pieces) :
    Composed style node pieces := by
  have hwhenPieces :
      Composed style node (List.zipWith (whenClause style) clauses whens).flatten := by
    apply Composed.flatten
    intro pieces hmem
    obtain ⟨clause, hclause, test, htest, rfl⟩ := exists_of_mem_zipWith hmem
    exact composed_whenClause (hclauses clause hclause) (hwhens test htest)
  unfold caseWhen at hpieces
  split_ifs at hpieces
  obtain rfl := Except.ok.inj hpieces
  refine .append (.append (.append (.fixed (by decide) ?_) (.separated hwhenPieces)) ?_)
    (.fixed (by decide) .nil)
  · split
    · exact .nil
    · exact .fixed (by decide) (composed_operand _ (.inl hpivot))
  · split
    · next clause =>
        exact .append (.append (.fixed (by decide) (.separated .nil))
          (composed_statements (helse clause rfl))) (.separated .nil)
    · exact .nil

theorem composed_hashPair {key value : Node} (hkey : key ∈ node.children)
    (hvalue : value ∈ node.children) : Composed style node (hashPair style key value) :=
  .append (composed_operand _ (.inl hkey)) (.fixed (by decide) (composed_operand _ (.inl hvalue)))

theorem composed_definition {method : String} (hmethod : method ∈ node.names)
    {params : List String} (hparams : ∀ param ∈ params, param ∈ node.names)
    (hbody : child ∈ node.children) :
    Composed style node ([text "def ", text method] ++
      (if params.isEmpty then [] else [text "(", text (",".intercalate params), text ")"]) ++
      keywordBody style child) := by
  have hlist : Composed style node
      (if params.isEmpty then [] else [text "(", text (",".intercalate params), text ")"]) := by
    split
    · exact .nil
    · exact .fixed (by decide) (.cons (.names (by decide) hparams) (.fixed (by decide) .nil))
  exact .append (.append (.fixed (by decide) (.cons (.name hmethod) .nil)) hlist)
    (composed_keywordBody hbody)

theorem composed_classDef {path : ConstPath}
    (hpath : ∀ segment ∈ path.segments, segment ∈ node.names) {superclass : Option ConstPath}
    (hsuperclass : ∀ parent ∈ superclass, ∀ segment ∈ parent.segments, segment ∈ node.names)
    (hbody : child ∈ node.children)
    (hpieces : rule style (.classDef path superclass child) = .ok pieces) :
    Composed style node pieces := by
  obtain rfl := Except.ok.inj hpieces
  refine .append (.append (.fixed (by decide) (.cons (.names (by decide) hpath) .nil)) ?_)
    (composed_keywordBody hbody)
  cases superclass with
  | none => exact .nil
  | some parent =>
      exact .fixed (by decide) (.cons (.names (by decide) (hsuperclass parent rfl)) .nil)

theorem composed_yielding {args : List Node} (hargs : ∀ arg ∈ args, arg ∈ node.children) :
    Composed style node
      (text "yield" :: if args.isEmpty then [] else text " " :: arguments style args) := by
  refine .fixed (by decide) ?_
  split
  · exact .nil
  · exact .fixed (by decide) (composed_arguments hargs)

theorem composed_symbol {value : String}
    (hvalue : SymbolName.isPlain value → value ∈ node.plainSymbols) :
    Composed style node [text ":", if SymbolName.isPlain value then text value
      else .text (DoubleQuoted.quote value)] := by
  refine .fixed (by decide) ?_
  split
  · next hplain =>
      have hname := List.mem_append_right node.names (hvalue hplain)
      exact .text fun c hc => .inr (List.mem_flatMap.2 ⟨value, hname, hc⟩)
  · exact .quoted value

theorem composed_hash {keys values : List Node} (hkeys : ∀ key ∈ keys, key ∈ node.children)
    (hvalues : ∀ value ∈ values, value ∈ node.children) :
    Composed style node (text "\x7b" ::
      [text ","].intercalate (List.zipWith (hashPair style) keys values) ++ [text "\x7d"]) := by
  refine .braced (List.forall_mem_nil _) (.commas fun pieces hmem => ?_)
  obtain ⟨key, hkey, value, hvalue, rfl⟩ := exists_of_mem_zipWith hmem
  exact composed_hashPair (hkeys key hkey) (hvalues value hvalue)

theorem composed_block {body : List Node} (hbody : ∀ statement ∈ body, statement ∈ node.children) :
    Composed style node (statements style (.block body)) := by
  cases body with
  | nil => exact composed_emptyBlock
  | cons first others => exact composed_statementList fun statement h => .inl (hbody statement h)

/-- **What rules are made of.** A rule writes nothing but printable text, names and plain symbols of
its node, separators and near nodes, with quotes and braces in pairs. -/
theorem composed_rule (hpieces : rule style node = .ok pieces) : Composed style node pieces := by
  have hoperand (least : Precedence) {child : Node} (h : child ∈ node.children) :
      Composed style node (operand style least child) := composed_operand least (.inl h)
  cases node with
  | call receiver method args params body forward =>
      exact composed_call (fun child h => Node.mem_children_call.2 (.inl h)) (.head _)
        (fun child h => Node.mem_children_call.2 (.inr (.inl h))) (fun param h => .tail _ h)
        (fun child h => Node.mem_children_call.2 (.inr (.inr (.inl h))))
        (fun child h => Node.mem_children_call.2 (.inr (.inr (.inr h)))) hpieces
  | definition method params body =>
      obtain rfl := Except.ok.inj hpieces
      exact composed_definition (.head _) (fun param h => .tail _ h) (.head _)
  | ifElse test thenBranch elseBranch =>
      obtain rfl := Except.ok.inj hpieces
      exact composed_conditional (.head _) (.tail _ (.head _)) fun branch h =>
        Node.mem_children_ifElse.2 (.inr (.inr h))
  | unlessElse test thenBranch elseBranch =>
      obtain rfl := Except.ok.inj hpieces
      exact composed_conditional (.head _) (.tail _ (.head _)) fun branch h =>
        Node.mem_children_unlessElse.2 (.inr (.inr h))
  | caseWhen pivot clauses whens elseClause =>
      exact composed_caseWhen (.head _)
        (fun child h => Node.mem_children_caseWhen.2 (.inr (.inl h)))
        (fun child h => Node.mem_children_caseWhen.2 (.inr (.inr (.inl h))))
        (fun child h => Node.mem_children_caseWhen.2 (.inr (.inr (.inr h)))) hpieces
  | ret argument =>
      by_cases hargument : argument = .nil
      · subst hargument
        obtain rfl := Except.ok.inj hpieces
        cases style <;> exact .fixed (by decide) .nil
      · obtain rfl := Except.ok.inj ((rule_ret hargument _).symm.trans hpieces)
        exact .nested (.inl (.head _)) .nil
  | yielding args =>
      obtain rfl := Except.ok.inj hpieces
      exact composed_yielding fun arg h => h
  | boolean value =>
      obtain rfl := Except.ok.inj hpieces
      cases style <;> cases value <;> exact .fixed (by decide) .nil
  | classDef path superclass body =>
      refine composed_classDef (fun segment h => List.mem_append_left _ h) ?_ (.head _) hpieces
      rintro parent rfl segment h
      exact List.mem_append_right _ (by simpa using h)
  | moduleDef path body =>
      obtain rfl := Except.ok.inj hpieces
      exact .append (.fixed (by decide) (.cons (.names (by decide) fun segment h => h) .nil))
        (composed_keywordBody (.head _))
  | selfRef =>
      obtain rfl := Except.ok.inj hpieces
      exact .fixed (by decide) .nil
  | logicalAnd lhs rhs | logicalOr lhs rhs =>
      obtain rfl := Except.ok.inj hpieces
      exact .append (hoperand _ (.head _)) (.fixed (by decide) (hoperand _ (.tail _ (.head _))))
  | localRead name | instanceRead name =>
      obtain rfl := Except.ok.inj hpieces
      exact .cons (.name (.head _)) .nil
  | localWrite name rhs | instanceWrite name rhs =>
      obtain rfl := Except.ok.inj hpieces
      exact composed_assignment (.head _) (.head _)
  | constRead base name =>
      obtain rfl := Except.ok.inj hpieces
      refine .append ?_ (.cons (.name (.head _)) .nil)
      split
      · exact .append (hoperand _ (.head _)) (.fixed (by decide) .nil)
      · exact .nil
  | constWrite path rhs =>
      obtain rfl := Except.ok.inj hpieces
      exact .append (.cons (.names (by decide) fun segment h => h) (.fixed (by decide) .nil))
        (hoperand _ (.head _))
  | string value =>
      obtain rfl := Except.ok.inj hpieces
      exact .quoted value
  | integer value =>
      obtain rfl := Except.ok.inj hpieces
      exact .text fun c hc => .inl (isBare_of_mem_toString hc)
  | array elements =>
      obtain rfl := Except.ok.inj hpieces
      exact .enclosed (by decide) (by decide) (composed_arguments fun element h => h)
  | symbol value =>
      obtain rfl := Except.ok.inj hpieces
      exact composed_symbol fun hplain => by simp [Node.plainSymbols, hplain]
  | hash keys values =>
      rw [rule] at hpieces
      split_ifs at hpieces
      obtain rfl := Except.ok.inj hpieces
      exact composed_hash (fun key h => List.mem_append_left _ h)
        fun value h => List.mem_append_right _ h
  | interpolatedString parts =>
      obtain rfl := Except.ok.inj hpieces
      exact composed_interpolated (List.forall_mem_nil _) fun part h => h
  | interpolatedSymbol parts =>
      obtain rfl := Except.ok.inj hpieces
      exact composed_interpolated (by decide : ∀ c ∈ [':'], isBare c) fun part h => h
  | including args =>
      cases args with
      | nil => cases hpieces
      | cons included rest =>
          obtain rfl := Except.ok.inj hpieces
          exact .fixed (by decide) (hoperand _ (.head _))
  | nil =>
      obtain rfl := Except.ok.inj hpieces
      exact .nil
  | block body =>
      obtain rfl := Except.ok.inj hpieces
      exact composed_block fun statement h => h
  | unmapped construct => cases hpieces

theorem of_printable {content : List Char} (h : ∀ c ∈ content, isPrintable c) :
    (Piece.text content).Of node := fun c hc => .inl (h c hc)

theorem pieces_of_composed (h : Composed style node pieces) : Pieces node pieces := by
  have hquote : ∀ c ∈ ['"'], isPrintable c := by decide
  have hclosing : ∀ c ∈ ['\x7d'], isPrintable c := by decide
  induction h with
  | nil => exact List.forall_mem_nil _
  | text hcontent =>
      exact List.forall_mem_singleton.2 fun c hc => (hcontent c hc).imp_left isPrintable_of_isBare
  | separator => exact List.forall_mem_singleton.2 trivial
  | child hother => exact List.forall_mem_singleton.2 hother
  | quoted value =>
      exact List.forall_mem_singleton.2 (of_printable fun c => Text.isPrintable_of_mem_quote)
  | braced hheader _ ih =>
      have hopening : (Piece.text ('\x7b' :: _)).Of node := of_printable
        (List.forall_mem_cons.2 ⟨by decide, fun c hc => isPrintable_of_isBare (hheader c hc)⟩)
      exact List.forall_mem_append.2 ⟨List.forall_mem_cons.2 ⟨hopening, ih⟩,
        List.forall_mem_singleton.2 (of_printable hclosing)⟩
  | interpolated hopening _ ih =>
      have hfirst : (Piece.text (_ ++ ['"'])).Of node := of_printable
        (List.forall_mem_append.2 ⟨fun c hc => isPrintable_of_isBare (hopening c hc), hquote⟩)
      refine List.forall_mem_append.2 ⟨List.forall_mem_cons.2 ⟨hfirst, ?_⟩,
        List.forall_mem_singleton.2 (of_printable hquote)⟩
      intro piece hpiece
      obtain ⟨part, hpart, hmem⟩ := List.mem_flatMap.1 hpiece
      unfold interpolatedPart at hmem
      split at hmem
      · rw [List.mem_singleton.1 hmem]
        exact of_printable fun c => Text.isPrintable_of_mem_escape
      · rw [List.mem_append, List.mem_cons, List.mem_singleton] at hmem
        rcases hmem with (rfl | hmem) | rfl
        · exact of_printable (by decide : ∀ c ∈ ['#', '\x7b'], isPrintable c)
        · exact ih part hpart piece hmem
        · exact of_printable hclosing
  | append _ _ hpieces hothers => exact List.forall_mem_append.2 ⟨hpieces, hothers⟩

theorem pieces_rule (hpieces : rule style node = .ok pieces) : Pieces node pieces :=
  pieces_of_composed (composed_rule hpieces)

theorem pieces_statements (hchild : child ∈ node.children) :
    Pieces node (statements style child) := pieces_of_composed (composed_statements hchild)

end Render

end RubyPress
