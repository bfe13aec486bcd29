import RubyPress.Proofs.Render.Separators
import RubyPress.Proofs.Render.Within
import RubyPress.Tree.Build

/-!
# Silent statements

The value of a list of statements is that of its last one. Ruby skips what is written as nothing, so
the last text that is not empty has to be the text of the last statement. It is so unless that
statement is silent: `nil`, or a block without statements where the style has no literal for it. As
an operand such a statement gets parentheses, which read as nil; at the end of a body it gets
nothing, and the value of the body becomes that of the statement before it.
-/

namespace RubyPress

open Render

namespace Node

/-- Whether nothing is written for a node that takes over no other text: for nil, for an empty block
that has no literal, and for a name without letters. -/
def isSilent (style : LiteralStyle) : Node → Bool
  | nil => true
  | block [] => style = .obfuscated
  | localRead name | instanceRead name | constRead none name | call none name [] _ none none =>
    name = ""
  | _ => false

/-- The lists of statements that a rule opens on the spot, or that a node is itself. -/
def bodies : Node → List Node
  | definition _ _ body | classDef _ _ body | moduleDef _ body => [body]
  | call _ method _ _ (some body) _ =>
    if Operator.isBinary method || body.isEmptyBody then [] else [body]
  | caseWhen _ clauses _ elseClause => clauses ++ elseClause.toList
  | interpolatedString parts | interpolatedSymbol parts => parts.filter fun part => !part.isFragment
  | block statements => [block statements]
  | _ => []

end Node

namespace Render

variable {style : LiteralStyle} {separator : Separator} {config : RenderConfig} {room : Nat}
  {emit : Node → Except Unsupported (List Char)} {node : Node} {pieces : List Piece}
  {content : List Char}

/-- Whether a piece is written as something whatever its children are. -/
def isMark : Piece → Bool
  | .text content => !content.isEmpty
  | .separator => true
  | .child _ => false

theorem ne_nil_of_isMark (hpieces : pieces.any isMark)
    (hcontent : writePieces separator emit pieces = .ok content) : content ≠ [] := by
  obtain ⟨piece, hpiece, hmark⟩ := List.any_eq_true.1 hpieces
  obtain ⟨before, after, rfl⟩ := List.append_of_mem hpiece
  obtain ⟨front, last, -, hlast, rfl⟩ := writePieces_append_eq_ok.1 hcontent
  obtain ⟨first, rest, hfirst, -, rfl⟩ := writePieces_cons_eq_ok.1 hlast
  have hne : first ≠ [] := by
    cases piece with
    | text content =>
        obtain rfl := Except.ok.inj hfirst
        simpa [isMark] using hmark
    | separator =>
        obtain rfl := Except.ok.inj hfirst
        cases separator <;> decide
    | child other => cases hmark
  simp [hne]

@[simp]
theorem isMark_text (content : String) : isMark (text content) = decide (content ≠ "") := by
  by_cases h : content = "" <;> simp [isMark, text, h]

theorem any_isMark_call {receiver : Option Node} {method : String} {args : List Node}
    {params : List String} {body forward : Option Node}
    (hsilent : (Node.call receiver method args params body forward).isSilent style = false)
    (hpieces : call style receiver method args params body forward = .ok pieces) :
    pieces.any isMark := by
  cases callForm hpieces with
  | operator lhs rhs hbinary =>
      have hmethod : method ≠ "" := by
        rintro rfl
        exact absurd hbinary (by decide)
      simp [hmethod]
  | plain =>
      cases receiver with
      | some receiver => simp [callHead]
      | none =>
          cases args with
          | nil => simpa [Node.isSilent, callHead, argumentList] using hsilent
          | cons arg args => simp [argumentList]
  | _ => simp

/-- A node that takes over no other text is silent, or something is written for it. -/
theorem any_isMark_rule (hret : ∀ argument, node = .ret argument → argument = .nil)
    (hblock : ∀ statement, node ≠ .block [statement]) (hsilent : node.isSilent style = false)
    (hpieces : rule style node = .ok pieces) : pieces.any isMark := by
  cases node with
  | call => exact any_isMark_call hsilent hpieces
  | ret argument =>
      obtain rfl := hret argument rfl
      obtain rfl := Except.ok.inj hpieces
      cases style <;> decide
  | ifElse test yes no | unlessElse test yes no =>
      obtain rfl := Except.ok.inj hpieces
      cases style <;> cases no <;> simp [conditional]
  | caseWhen =>
      rw [rule] at hpieces
      unfold caseWhen at hpieces
      split_ifs at hpieces
      obtain rfl := Except.ok.inj hpieces
      simp
  | localWrite name rhs | instanceWrite name rhs =>
      obtain rfl := Except.ok.inj hpieces
      unfold assignment
      split <;> simp
  | localRead name | instanceRead name =>
      obtain rfl := Except.ok.inj hpieces
      simpa [Node.isSilent] using hsilent
  | constRead base name =>
      obtain rfl := Except.ok.inj hpieces
      cases base with
      | none => simpa [Node.isSilent] using hsilent
      | some base => simp
  | string value =>
      obtain rfl := Except.ok.inj hpieces
      simp [isMark, DoubleQuoted.quote]
  | hash keys values =>
      rw [rule] at hpieces
      split_ifs at hpieces
      obtain rfl := Except.ok.inj hpieces
      simp
  | including args =>
      cases args with
      | nil => cases hpieces
      | cons =>
          obtain rfl := Except.ok.inj hpieces
          simp
  | integer value =>
      obtain rfl := Except.ok.inj hpieces
      simpa [isMark, text] using Text.toList_toString_ne_nil value.toInt
  | boolean value =>
      obtain rfl := Except.ok.inj hpieces
      cases style <;> cases value <;> decide
  | block statements =>
      obtain rfl := Except.ok.inj hpieces
      cases statements with
      | nil =>
          cases style with
          | verbose => decide
          | obfuscated => cases hsilent
      | cons first rest =>
          cases rest with
          | nil => exact absurd rfl (hblock first)
          | cons second rest => simp [Render.statements, Node.statements, isMark]
  | nil => cases hsilent
  | unmapped => cases hpieces
  | _ =>
      obtain rfl := Except.ok.inj hpieces
      simp

theorem eq_nil_of_isSilent (hsilent : node.isSilent style)
    (hpieces : rule style node = .ok pieces)
    (hcontent : writePieces separator emit pieces = .ok content) : content = [] := by
  unfold Node.isSilent at hsilent
  split at hsilent
  case h_1 =>
    obtain rfl := Except.ok.inj hpieces
    exact (Except.ok.inj hcontent).symm
  case h_7 => cases hsilent
  all_goals
    obtain rfl := of_decide_eq_true hsilent
    obtain rfl := Except.ok.inj hpieces
    exact (Except.ok.inj hcontent).symm

/-- **Silent statements** are those that are written as nothing. -/
theorem write_eq_nil_iff (hcontent : write config room node = .ok content) :
    content = [] ↔ node.rendered.isSilent config.style := by
  induction node using Node.rendered.induct generalizing room content with
  | case1 =>
      obtain ⟨less, pieces, -, hrule, hpieces⟩ := exists_of_write hcontent
      have hmark : [text config.style.noValue].any isMark := by cases config.style <;> decide
      rw [Except.ok.inj hrule] at hmark
      exact iff_of_false (ne_nil_of_isMark hmark hpieces) Bool.false_ne_true
  | case2 argument hargument ih =>
      have hne : argument ≠ .nil := hargument
      obtain ⟨less, pieces, -, hrule, hpieces⟩ := exists_of_write hcontent
      obtain rfl := Except.ok.inj ((rule_ret hne _).symm.trans hrule)
      rw [rendered_ret hne]
      exact ih (writePieces_child_eq_ok.1 hpieces)
  | case3 statement ih =>
      obtain ⟨less, pieces, -, hrule, hpieces⟩ := exists_of_write hcontent
      obtain rfl : [.child statement] = pieces := Except.ok.inj hrule
      exact ih (writePieces_child_eq_ok.1 hpieces)
  | case4 node hnil hret hblock =>
      rw [rendered_eq_self hret hblock]
      obtain ⟨less, pieces, -, hrule, hpieces⟩ := exists_of_write hcontent
      refine ⟨fun hempty => ?_, fun hsilent => eq_nil_of_isSilent hsilent hrule hpieces⟩
      by_contra hsilent
      have hmark := any_isMark_rule (fun argument h => absurd h (hret argument)) hblock
        (Bool.eq_false_iff.2 hsilent) hrule
      exact ne_nil_of_isMark hmark hpieces hempty

theorem getLast?_filter_eq_iff {texts : List String} (hne : texts ≠ []) :
    (texts.filter (· ≠ "")).getLast? = texts.getLast? ↔ texts.getLast? ≠ some "" := by
  obtain ⟨front, last, rfl⟩ := (List.eq_nil_or_concat' texts).resolve_left hne
  rw [List.getLast?_concat, List.filter_append]
  by_cases hlast : last = ""
  · refine iff_of_false (fun h => ?_) (by simp [hlast])
    have hmem := List.mem_of_getLast? h
    simp [hlast] at hmem
  · simp [hlast]

theorem exists_texts_of_renderStatements {body : Node} {text : String}
    (h : renderStatements config body = .ok text) :
    ∃ texts : List String, body.flatten.map (renderNode config) = texts.map .ok ∧
      text = config.separator.text.intercalate texts := by
  obtain ⟨letters, hletters, htext⟩ := joins_statements (by decide) (renderStatements_eq_ok.1 h)
  refine ⟨letters.map String.ofList, ?_, ?_⟩
  · rw [List.map_map]
    refine forall₂_iff_map_eq.1 (hletters.imp fun node content hcontent => ?_)
    rw [Function.comp_apply, renderNode_eq_ok, String.toList_ofList]
    exact hcontent
  · rw [← String.toList_inj, String.toList_intercalate, htext, Separator.toList_text]
    simp

theorem getLast?_texts_ne {body : Node} {texts : List String}
    (h : body.flatten.map (renderNode config) = texts.map .ok) :
    texts.getLast? ≠ some "" ↔
      ∀ last ∈ body.flatten.getLast?, last.rendered.isSilent config.style = false := by
  obtain ⟨front, last, hflatten⟩ :=
    (List.eq_nil_or_concat' body.flatten).resolve_left (flatten_ne_nil body)
  have hlast := congrArg List.getLast? h
  rw [hflatten, List.getLast?_map, List.getLast?_concat, List.getLast?_map] at hlast
  obtain ⟨text, htext, hrender⟩ := Option.map_eq_some_iff.1 hlast.symm
  have hsilent := write_eq_nil_iff (renderNode_eq_ok.1 hrender.symm)
  have hmem : (∀ statement ∈ some last, statement.rendered.isSilent config.style = false) ↔
      last.rendered.isSilent config.style = false := by simp
  rw [hflatten, List.getLast?_concat, htext, hmem, ← Bool.not_eq_true, ← hsilent,
    String.toList_eq_nil_iff, Ne, Option.some.injEq]

/-! ### Bodies -/

theorem infix_keywordBody (body : Node) : statements style body <:+: keywordBody style body :=
  List.infix_append [.separator] _ [.separator, text "end"]

theorem infix_whenClauses {clauses whens : List Node} (hlength : clauses.length = whens.length)
    {clause : Node} (h : clause ∈ clauses) :
    statements style clause <:+: (List.zipWith (whenClause style) clauses whens).flatten := by
  obtain ⟨test, hmem⟩ := exists_mem_zipWith_left (whenClause style) hlength h
  have hclause : statements style clause <:+: whenClause style clause test :=
    ⟨text "when " :: operand style .assign test ++ [.separator], [.separator],
      by simp [whenClause]⟩
  exact hclause.trans (List.infix_of_mem_flatten hmem)

theorem infix_caseWhen {pivot : Node} {clauses whens : List Node} {elseClause : Option Node}
    (hpieces : caseWhen style pivot clauses whens elseClause = .ok pieces) {body : Node}
    (hbody : body ∈ clauses ++ elseClause.toList) : statements style body <:+: pieces := by
  unfold caseWhen at hpieces
  split_ifs at hpieces with hlength
  obtain rfl := Except.ok.inj hpieces
  rcases List.mem_append.1 hbody with hclause | helse
  · refine List.IsInfix.trans ?_ (List.prefix_append _ _).isInfix
    refine List.IsInfix.trans ?_ (List.prefix_append _ _).isInfix
    refine List.IsInfix.trans ?_ (List.suffix_append _ _).isInfix
    exact (infix_whenClauses hlength hclause).trans (List.suffix_cons _ _).isInfix
  · obtain rfl := Option.mem_toList.1 helse
    refine List.IsInfix.trans ?_ (List.prefix_append _ _).isInfix
    refine List.IsInfix.trans ?_ (List.suffix_append _ _).isInfix
    exact List.infix_append [text "else", .separator] _ [.separator]

theorem infix_block {receiver : Option Node} {method : String} {args : List Node}
    {params : List String} {block : Node} {forward : Option Node}
    (hpieces : call style receiver method args params (some block) forward = .ok pieces)
    {body : Node}
    (hbody : body ∈ (Node.call receiver method args params (some block) forward).bodies) :
    statements style body <:+: pieces := by
  rw [Node.bodies] at hbody
  split_ifs at hbody with hopened
  · cases hbody
  · obtain rfl := List.mem_singleton.1 hbody
    simp only [Bool.or_eq_true, not_or] at hopened
    cases callForm hpieces with
    | operator _ _ hbinary => exact absurd hbinary hopened.1
    | block =>
        rw [if_neg hopened.2]
        exact List.infix_append _ _ _

theorem infix_interpolated {parts : List Node} {body : Node}
    (hbody : body ∈ parts.filter fun part => !part.isFragment) :
    statements style body <:+: parts.flatMap (interpolatedPart style) := by
  obtain ⟨hmem, hfragment⟩ := List.mem_filter.1 hbody
  refine List.IsInfix.trans ?_ (List.infix_of_mem_flatten (List.mem_map_of_mem hmem))
  rw [interpolatedPart_of_embedded style (by simpa using hfragment)]
  exact List.infix_append [_] _ [_]

/-- The statements of a body stand in the pieces of its node one after the other. -/
theorem infix_bodies {body : Node} (hbody : body ∈ node.bodies)
    (hpieces : rule style node = .ok pieces) : statements style body <:+: pieces := by
  cases node with
  | definition | classDef | moduleDef =>
      obtain rfl := List.mem_singleton.1 hbody
      obtain rfl := Except.ok.inj hpieces
      exact (infix_keywordBody _).trans (List.suffix_append _ _).isInfix
  | call receiver method args params block forward =>
      cases block with
      | none => cases hbody
      | some block => exact infix_block hpieces hbody
  | caseWhen => exact infix_caseWhen hpieces hbody
  | interpolatedString parts | interpolatedSymbol parts =>
      obtain rfl := Except.ok.inj hpieces
      exact (infix_interpolated hbody).trans (List.infix_append [_] _ [_])
  | block =>
      obtain rfl := List.mem_singleton.1 hbody
      obtain rfl := Except.ok.inj hpieces
      exact List.infix_rfl
  | _ => cases hbody

theorem exists_text_of_mem_bodies {body : Node} (hbody : body ∈ node.bodies) {whole : String}
    (hwhole : renderNode config node = .ok whole) :
    ∃ text, renderStatements config body = .ok text ∧ text.toList <:+: whole.toList := by
  obtain ⟨room, pieces, hroom, hrule, hpieces⟩ := exists_of_write (renderNode_eq_ok.1 hwhole)
  obtain ⟨part, hpart, hinfix⟩ := exists_infix_writePieces (infix_bodies hbody hrule) hpieces
  refine ⟨String.ofList part, ?_, by rwa [String.toList_ofList]⟩
  rw [renderStatements_eq_ok, String.toList_ofList, hroom]
  exact writePieces_mono (fun node content => write_mono (Nat.le_succ room)) hpart

end Render

/-- **The value of a body** is the value of its last statement exactly if that statement is not
silent: then the last text that is not empty is its text. This is so of all bodies in a tree, whose
texts are parts of the text of the tree. -/
theorem last_text_of_renderStatements (config : RenderConfig) :
    (∀ body text, renderStatements config body = .ok text →
      ∃ texts : List String, body.flatten.map (renderNode config) = texts.map .ok ∧
        text = config.separator.text.intercalate texts ∧
        ((texts.filter (· ≠ "")).getLast? = texts.getLast? ↔
          ∀ last ∈ body.flatten.getLast?, last.rendered.isSilent config.style = false)) ∧
    ∀ tree content, (renderNode config tree = .ok content ∨
        renderStatements config tree = .ok content ∨ renderProgram config tree = .ok content) →
      ∀ statement ∈ tree.statements, ∀ node, statement.Writes config.style node →
        ∀ body ∈ node.bodies, ∃ text, renderStatements config body = .ok text ∧
          text.toList <:+: content.toList := by
  refine ⟨fun body text hbody => ?_, fun tree content hcontent statement hstatement node hnode
    body hbody => ?_⟩
  · obtain ⟨texts, htexts, hjoined⟩ := exists_texts_of_renderStatements hbody
    have hne : texts ≠ [] := by
      rintro rfl
      exact flatten_ne_nil body (List.map_eq_nil_iff.1 htexts)
    exact ⟨texts, htexts, hjoined,
      (getLast?_filter_eq_iff hne).trans (getLast?_texts_ne htexts)⟩
  · obtain ⟨whole, hwhole, hinfix⟩ := exists_text_of_writes hcontent hstatement hnode
    obtain ⟨text, htext, hwithin⟩ := exists_text_of_mem_bodies hbody hwhole
    exact ⟨text, htext, hwithin.trans hinfix⟩

/-- The branch of a conditional that ends in a returned list, with silent statements in front. -/
theorem last_text_of_returned_list :
    let body : Node := .block [.nil, .send "g" [], .ret (.block [.nil, .selfRef])]
    let tree : Node := .definition "f" [] (.ifElse (.localRead "t") body none)
    renderProgram .compact tree = .ok "def f;t ? (;g;;self) : ();end" ∧
      (∃ texts : List String, body.flatten.map (renderNode .compact) = texts.map .ok ∧
        ";g;;self" = ";".intercalate texts ∧
        (texts.filter (· ≠ "")).getLast? = texts.getLast?) ∧
      ∃ text, renderStatements .compact body = .ok text ∧
        text.toList <:+: "def f;t ? (;g;;self) : ();end".toList := by
  intro body tree
  have hbody : renderStatements .compact body = .ok ";g;;self" := by decide
  have htree : renderProgram .compact tree = .ok "def f;t ? (;g;;self) : ();end" := by decide
  obtain ⟨texts, htexts, hjoined, hlast⟩ :=
    (last_text_of_renderStatements .compact).1 body ";g;;self" hbody
  refine ⟨htree, ⟨texts, htexts, hjoined, hlast.2 (by decide)⟩, ?_⟩
  have hbranch : tree.Writes .obfuscated body := .head (.head _) (.single (.tail _ (.head _)))
  exact (last_text_of_renderStatements .compact).2 tree _ (.inr (.inr htree)) tree (.head _) body
    hbranch body (.head _)

/-- The body returns what the call returns, and not nil. -/
theorem last_text_lost_before_nil :
    let body : Node := .block [.send "g" [], .nil]
    renderNode .readable (.definition "f" [] body) = .ok "def f\ng\n\nend" ∧
      renderStatements .readable body = .ok "g\n" ∧
      body.flatten.map (renderNode .readable) = [.ok "g", .ok ""] ∧
      (["g", ""].filter (· ≠ "")).getLast? ≠ ["g", ""].getLast? := by
  decide

end RubyPress
