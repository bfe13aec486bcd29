import Mathlib.Tactic
import RubyPress.Proofs.Tree.Children
import RubyPress.Render.Writer

/-!
# Writing pieces

The text of a list of pieces is made up of the texts of its parts. Everything that is proved about
the text of a node goes through the equations here and through the rule of its kind.
-/

namespace RubyPress.Render

variable {separator : Separator} {emit : Node → Except Unsupported (List Char)}
  {pieces others : List Piece} {content result : List Char}

theorem writePieces_nil : writePieces separator emit [] = .ok [] := rfl

theorem writePieces_cons_eq_ok {piece : Piece} :
    writePieces separator emit (piece :: pieces) = .ok result ↔
      ∃ first rest, writePiece separator emit piece = .ok first ∧
        writePieces separator emit pieces = .ok rest ∧ result = first ++ rest := by
  rw [writePieces]
  cases hfirst : writePiece separator emit piece with
  | error cause => simp
  | ok first =>
      cases hrest : writePieces separator emit pieces with
      | error cause => simp
      | ok rest => simp [eq_comm]

theorem writePieces_cons (piece : Piece) {first : List Char}
    (hfirst : writePiece separator emit piece = .ok first) :
    writePieces separator emit (piece :: pieces) =
      (writePieces separator emit pieces).map (first ++ ·) := by
  rw [writePieces, hfirst]
  cases writePieces separator emit pieces <;> rfl

theorem writePieces_append_eq_ok :
    writePieces separator emit (pieces ++ others) = .ok result ↔
      ∃ first rest, writePieces separator emit pieces = .ok first ∧
        writePieces separator emit others = .ok rest ∧ result = first ++ rest := by
  induction pieces generalizing result with
  | nil => simp [writePieces_nil, eq_comm]
  | cons piece pieces ih =>
      rw [List.cons_append, writePieces_cons_eq_ok]
      constructor
      · rintro ⟨first, rest, hfirst, hrest, rfl⟩
        obtain ⟨middle, last, hmiddle, hlast, rfl⟩ := ih.1 hrest
        exact ⟨first ++ middle, last, writePieces_cons_eq_ok.2 ⟨first, middle, hfirst, hmiddle, rfl⟩,
          hlast, (List.append_assoc ..).symm⟩
      · rintro ⟨front, last, hfront, hlast, rfl⟩
        obtain ⟨first, middle, hfirst, hmiddle, rfl⟩ := writePieces_cons_eq_ok.1 hfront
        exact ⟨first, middle ++ last, hfirst, ih.2 ⟨middle, last, hmiddle, hlast, rfl⟩,
          List.append_assoc ..⟩

theorem writePieces_text_cons (h : writePieces separator emit pieces = .ok result) :
    writePieces separator emit (.text content :: pieces) = .ok (content ++ result) :=
  writePieces_cons_eq_ok.2 ⟨content, result, rfl, h, rfl⟩

theorem writePieces_text_cons_eq_ok {fixed : List Char} :
    writePieces separator emit (.text fixed :: pieces) = .ok content ↔
      ∃ rest, writePieces separator emit pieces = .ok rest ∧ content = fixed ++ rest := by
  constructor
  · intro h
    obtain ⟨first, rest, hfirst, hrest, rfl⟩ := writePieces_cons_eq_ok.1 h
    obtain rfl := Except.ok.inj hfirst
    exact ⟨rest, hrest, rfl⟩
  · rintro ⟨rest, hrest, rfl⟩
    exact writePieces_text_cons hrest

theorem writePieces_append {first rest : List Char}
    (hfirst : writePieces separator emit pieces = .ok first)
    (hrest : writePieces separator emit others = .ok rest) :
    writePieces separator emit (pieces ++ others) = .ok (first ++ rest) :=
  writePieces_append_eq_ok.2 ⟨first, rest, hfirst, hrest, rfl⟩

theorem writePieces_child_eq_ok {node : Node} :
    writePieces separator emit [.child node] = .ok result ↔ emit node = .ok result := by
  refine ⟨fun h => ?_, fun h => ?_⟩
  · obtain ⟨first, rest, hfirst, hrest, rfl⟩ := writePieces_cons_eq_ok.1 h
    obtain rfl := (Except.ok.inj hrest).symm
    rwa [List.append_nil]
  · exact writePieces_cons_eq_ok.2 ⟨result, [], h, rfl, (List.append_nil _).symm⟩

theorem writePieces_text : writePieces separator emit [.text content] = .ok content :=
  writePieces_cons_eq_ok.2 ⟨content, [], rfl, rfl, (List.append_nil _).symm⟩

theorem writePieces_enclosed_eq_ok {opening closing : List Char} :
    writePieces separator emit (.text opening :: pieces ++ [.text closing]) = .ok result ↔
      ∃ inner, writePieces separator emit pieces = .ok inner ∧
        result = opening ++ inner ++ closing := by
  constructor
  · intro h
    obtain ⟨front, last, hfront, hlast, rfl⟩ := writePieces_append_eq_ok.1 h
    obtain ⟨first, inner, hfirst, hinner, rfl⟩ := writePieces_cons_eq_ok.1 hfront
    obtain rfl := Except.ok.inj hfirst
    obtain rfl := Except.ok.inj (writePieces_text.symm.trans hlast)
    exact ⟨inner, hinner, rfl⟩
  · rintro ⟨inner, hinner, rfl⟩
    exact writePieces_append (writePieces_text_cons hinner) writePieces_text

theorem write_succ {config : RenderConfig} {room : Nat} {node : Node}
    (hrule : rule config.style node = .ok pieces) :
    write config (room + 1) node = writePieces config.separator (write config room) pieces := by
  rw [write, hrule]

theorem write_succ_eq_ok {config : RenderConfig} {room : Nat} {node : Node} :
    write config (room + 1) node = .ok content ↔ ∃ pieces, rule config.style node = .ok pieces ∧
      writePieces config.separator (write config room) pieces = .ok content := by
  cases hrule : rule config.style node with
  | error cause => simp [write, hrule]
  | ok pieces => simp [write_succ hrule]

/-- What has a text is written by its rule, with room left for its parts. -/
theorem exists_of_write {config : RenderConfig} {room : Nat} {node : Node}
    (h : write config room node = .ok content) :
    ∃ less pieces, room = less + 1 ∧ rule config.style node = .ok pieces ∧
      writePieces config.separator (write config less) pieces = .ok content := by
  cases room with
  | zero => cases h
  | succ room =>
      obtain ⟨pieces, hrule, hpieces⟩ := write_succ_eq_ok.1 h
      exact ⟨room, pieces, rfl, hrule, hpieces⟩

/-- Pieces are written alike when their children are. -/
theorem writePieces_mono {emitMore : Node → Except Unsupported (List Char)}
    (hemit : ∀ node content, emit node = .ok content → emitMore node = .ok content)
    (hpieces : writePieces separator emit pieces = .ok result) :
    writePieces separator emitMore pieces = .ok result := by
  induction pieces generalizing result with
  | nil => exact hpieces
  | cons piece pieces ih =>
      obtain ⟨first, rest, hfirst, hrest, rfl⟩ := writePieces_cons_eq_ok.1 hpieces
      refine writePieces_cons_eq_ok.2 ⟨first, rest, ?_, ih hrest, rfl⟩
      cases piece with
      | text _ => exact hfirst
      | separator => exact hfirst
      | child node => exact hemit node first hfirst

/-- More room does not change a text. -/
theorem write_mono {config : RenderConfig} {room more : Nat} (hroom : room ≤ more) {node : Node}
    (h : write config room node = .ok content) : write config more node = .ok content := by
  induction room generalizing more node content with
  | zero => cases h
  | succ room ih =>
      obtain ⟨more, rfl⟩ := Nat.exists_eq_add_of_lt hroom
      obtain ⟨pieces, hrule, hpieces⟩ := write_succ_eq_ok.1 h
      rw [write_succ hrule]
      exact writePieces_mono (fun node content => ih (Nat.le_add_right _ _)) hpieces

theorem forall₂_iff_map_eq {α β γ : Type} {f : α → γ} {g : β → γ} {first : List α}
    {second : List β} :
    List.Forall₂ (fun a b => f a = g b) first second ↔ first.map f = second.map g := by
  rw [← List.forall₂_eq_eq_eq, List.forall₂_map_left_iff, List.forall₂_map_right_iff]

theorem renderNode_eq_ok {config : RenderConfig} {node : Node} {content : String} :
    renderNode config node = .ok content ↔ write config maxDepth node = .ok content.toList := by
  rw [renderNode]
  cases write config maxDepth node with
  | error cause => constructor <;> intro h <;> cases h
  | ok letters => simp [← String.toList_inj]

theorem renderStatements_eq_ok {config : RenderConfig} {tree : Node} {content : String} :
    renderStatements config tree = .ok content ↔
      writePieces config.separator (write config maxDepth) (statements config.style tree) =
        .ok content.toList := by
  rw [renderStatements]
  cases writePieces config.separator (write config maxDepth) (statements config.style tree) with
  | error cause => constructor <;> intro h <;> cases h
  | ok letters => simp [← String.toList_inj]

theorem writeEach_eq_ok {config : RenderConfig} {nodes : List Node} {texts : List (List Char)}
    (index : Nat) : writeEach config index nodes = .ok texts ↔
      List.Forall₂ (fun node text => write config maxDepth node = .ok text) nodes texts := by
  induction nodes generalizing index texts with
  | nil => simp [writeEach, eq_comm]
  | cons node nodes ih =>
      rw [writeEach, List.forall₂_cons_left_iff]
      cases hfirst : write config maxDepth node with
      | error cause => simp
      | ok first =>
          simp only [Except.ok.injEq, ← ih (index + 1)]
          cases writeEach config (index + 1) nodes with
          | error error => simp
          | ok rest => simp [eq_comm]

/-- A program is the texts of its statements that are not empty, with line breaks between them. -/
theorem renderProgram_eq_ok {config : RenderConfig} {program : Node} {content : String} :
    renderProgram config program = .ok content ↔
      ∃ texts : List String, program.statements.map (renderNode config) = texts.map .ok ∧
        content = "\n".intercalate (texts.filter (· ≠ "")) := by
  have hjoin (texts : List String) : String.ofList (['\n'].intercalate
      ((texts.map String.toList).filter fun content => !content.isEmpty)) =
        "\n".intercalate (texts.filter (· ≠ "")) := by
    have hempty (text : String) : (!text.toList.isEmpty) = decide (text ≠ "") := by
      by_cases htext : text = "" <;> simp [htext]
    rw [← String.toList_inj, String.toList_ofList, String.toList_intercalate, List.filter_map]
    simp only [Function.comp_def, hempty]
    rfl
  have hforall (texts : List String) :
      program.statements.map (renderNode config) = texts.map .ok ↔
        writeEach config 0 program.statements = .ok (texts.map String.toList) := by
    rw [writeEach_eq_ok, ← forall₂_iff_map_eq, List.forall₂_map_right_iff]
    simp only [renderNode_eq_ok]
  simp only [hforall]
  rw [renderProgram]
  cases writeEach config 0 program.statements with
  | error error => simp
  | ok letters =>
      have hletters : (letters.map String.ofList).map String.toList = letters := by simp
      constructor
      · intro hcontent
        obtain rfl := Except.ok.inj hcontent
        refine ⟨letters.map String.ofList, by rw [hletters], ?_⟩
        rw [← hjoin, hletters]
      · rintro ⟨texts, htexts, rfl⟩
        obtain rfl := Except.ok.inj htexts
        exact congrArg Except.ok (hjoin texts)

/-! ### Parts of rules -/

/-- The ways to write a call. -/
inductive CallForm (style : LiteralStyle) : Option Node → String → List Node → List String →
    Option Node → Option Node → List Piece → Prop where
  | operator (lhs rhs : Node) {method : String} {params : List String} {body forward : Option Node}
      (hbinary : Operator.isBinary method) :
      CallForm style (some lhs) method [rhs] params body forward
        (operand style (Operator.operandLevels method).1 lhs ++
          text method :: operand style (Operator.operandLevels method).2 rhs)
  | block (body : Node) {receiver : Option Node} {method : String} {args : List Node}
      {params : List String} {forward : Option Node} (hbinary : ¬Operator.isBinary method) :
      CallForm style receiver method args params (some body) forward
        (callHead style receiver method ++ argumentList style args ++
          [text "\x7b|", text (",".intercalate params), text "|"] ++
          (if body.isEmptyBody then [] else statements style body) ++ [text "\x7d"])
  | forward (block : Node) {receiver : Option Node} {method : String} {args : List Node}
      {params : List String} (hbinary : ¬Operator.isBinary method) :
      CallForm style receiver method args params none (some block)
        (callHead style receiver method ++ text "(" ::
          (if args.isEmpty then [] else arguments style args ++ [text ","]) ++
          text "&" :: operand style .assign block ++ [text ")"])
  | indexRead (target : Node) {args : List Node} {params : List String} :
      CallForm style (some target) "[]" args params none none
        (operand style .primary target ++ text "[" :: arguments style args ++ [text "]"])
  | indexWrite (target value : Node) {args : List Node} {params : List String}
      (hvalue : args.getLast? = some value) (hindex : ¬args.dropLast.isEmpty) :
      CallForm style (some target) "[]=" args params none none
        (operand style .primary target ++ text "[" :: arguments style args.dropLast ++
          text "]=" :: operand style .assign value)
  | negation (subject : Node) {args : List Node} {params : List String} :
      CallForm style (some subject) "!" args params none none
        (text "!" :: operand style .unary subject)
  | plain {receiver : Option Node} {method : String} {args : List Node} {params : List String}
      (hbinary : ¬Operator.isBinary method) (hread : ¬Operator.isIndexRead method)
      (hwrite : ¬Operator.isIndexWrite method) (hnot : ¬Operator.isNot method) :
      CallForm style receiver method args params none none
        (callHead style receiver method ++ argumentList style args)

theorem callForm {style : LiteralStyle} {receiver : Option Node} {method : String}
    {args : List Node} {params : List String} {body forward : Option Node}
    (h : call style receiver method args params body forward = .ok pieces) :
    CallForm style receiver method args params body forward pieces := by
  unfold call at h
  split at h
  · next hbinary =>
      split at h
      · obtain rfl := Except.ok.inj h
        exact .operator _ _ hbinary
      · cases h
  next hbinary =>
  split at h
  · obtain rfl := Except.ok.inj h
    exact .block _ hbinary
  · obtain rfl := Except.ok.inj h
    exact .forward _ hbinary
  unfold plainCall at h
  split at h
  · next hread =>
      obtain rfl : method = "[]" := by simpa [Operator.isIndexRead] using hread
      split at h
      · obtain rfl := Except.ok.inj h
        exact .indexRead _
      · cases h
  next hread =>
  split at h
  · next hwrite =>
      obtain rfl : method = "[]=" := by simpa [Operator.isIndexWrite] using hwrite
      split at h
      · next hvalue =>
          split_ifs at h with hindex
          obtain rfl := Except.ok.inj h
          exact .indexWrite _ _ hvalue hindex
      · cases h
  split at h
  · next hnot =>
      obtain rfl : method = "!" := by simpa [Operator.isNot] using hnot
      split at h
      · obtain rfl := Except.ok.inj h
        exact .negation _
      · cases h
  · next hwrite hnot =>
      obtain rfl := Except.ok.inj h
      exact .plain hbinary hread hwrite hnot

theorem interpolatedPart_of_embedded (style : LiteralStyle) {part : Node}
    (h : part.isFragment = false) : interpolatedPart style part =
      text "#\x7b" :: statements style part ++ [text "\x7d"] := by
  cases part <;> first | rfl | cases h

theorem rendered_eq_self {node : Node} (hret : ∀ argument, node ≠ .ret argument)
    (hblock : ∀ statement, node ≠ .block [statement]) : node.rendered = node := by
  rw [Node.rendered]
  · exact hret .nil
  · exact hret
  · exact hblock

section Return

variable {argument : Node} (hargument : argument ≠ .nil)

include hargument

theorem rendered_ret : (Node.ret argument).rendered = argument.rendered := by
  rw [Node.rendered]
  exact hargument

theorem rule_ret (style : LiteralStyle) : rule style (.ret argument) = .ok [.child argument] := by
  rw [rule]
  exact hargument

theorem precedence_ret (style : LiteralStyle) :
    precedence style (.ret argument) = precedence style argument := by
  rw [precedence, rendered_ret hargument, ← precedence]

end Return

theorem isBinary_of_mem_compoundNames {name : String} (h : name ∈ Operator.compoundNames) :
    Operator.isBinary name := by
  have table : ∀ name ∈ Operator.compoundNames, Operator.isBinary name := by decide
  exact table name h

/-- The values that are abbreviated when they are assigned, with the operator and the operand that
remain. -/
inductive AbbreviationForm (style : LiteralStyle) (target : Variable) :
    Node → String → Node → Prop where
  | conjunction {lhs value : Node} (hreads : lhs.reads target) :
      AbbreviationForm style target (.logicalAnd lhs value) "&&" value
  | disjunction {lhs value : Node} (hreads : lhs.reads target) :
      AbbreviationForm style target (.logicalOr lhs value) "||" value
  | arithmetic {lhs value : Node} {operator : String} {params : List String}
      (hstyle : style = .verbose) (hcompound : operator ∈ Operator.compoundNames)
      (hreads : lhs.reads target) :
      AbbreviationForm style target (.call (some lhs) operator [value] params none none) operator
        value

section Abbreviation

variable {style : LiteralStyle} {target : Variable} {rhs value : Node} {operator : String}

theorem abbreviationForm (h : rhs.abbreviation? style target = some (operator, value)) :
    AbbreviationForm style target rhs operator value := by
  unfold Node.abbreviation? at h
  split at h
  · rw [Option.ite_none_right_eq_some] at h
    obtain ⟨hreads, heq⟩ := h
    obtain ⟨rfl, rfl⟩ := Prod.mk.inj (Option.some.inj heq)
    exact .conjunction hreads
  · rw [Option.ite_none_right_eq_some] at h
    obtain ⟨hreads, heq⟩ := h
    obtain ⟨rfl, rfl⟩ := Prod.mk.inj (Option.some.inj heq)
    exact .disjunction hreads
  · rw [Option.ite_none_right_eq_some] at h
    obtain ⟨⟨hstyle, hcompound, hreads⟩, heq⟩ := h
    obtain ⟨rfl, rfl⟩ := Prod.mk.inj (Option.some.inj heq)
    exact .arithmetic hstyle (List.contains_iff_mem.1 hcompound) hreads
  · cases h

/-- What an abbreviated assignment leaves is a part of the value, and its operator is one of few. -/
theorem abbreviation?_cases (h : rhs.abbreviation? style target = some (operator, value)) :
    value ∈ rhs.children ∧ operator ∈ "&&" :: "||" :: Operator.compoundNames := by
  cases abbreviationForm h with
  | conjunction => simp [Node.children]
  | disjunction => simp [Node.children]
  | arithmetic _ hcompound => simp [Node.children, hcompound]

end Abbreviation

theorem exists_of_mem_zipWith {α β γ : Type} {f : α → β → γ} {left : List α} {right : List β}
    {item : γ} (h : item ∈ List.zipWith f left right) :
    ∃ first ∈ left, ∃ second ∈ right, item = f first second := by
  rw [← List.map_uncurry_zip_eq_zipWith, List.mem_map] at h
  obtain ⟨⟨first, second⟩, hmem, rfl⟩ := h
  obtain ⟨hfirst, hsecond⟩ := List.of_mem_zip hmem
  exact ⟨first, hfirst, second, hsecond, rfl⟩

theorem exists_mem_zipWith_left {α β γ : Type} (f : α → β → γ) {left : List α} {right : List β}
    (hlength : left.length = right.length) {first : α} (h : first ∈ left) :
    ∃ second, f first second ∈ List.zipWith f left right := by
  obtain ⟨index, hindex, rfl⟩ := List.getElem_of_mem h
  have hright : index < right.length := hlength ▸ hindex
  refine ⟨right[index], List.mem_iff_getElem.2 ⟨index, by simp [hindex, hright], ?_⟩⟩
  exact List.getElem_zipWith

theorem exists_mem_zipWith_right {α β γ : Type} (f : α → β → γ) {left : List α} {right : List β}
    (hlength : left.length = right.length) {second : β} (h : second ∈ right) :
    ∃ first, f first second ∈ List.zipWith f left right := by
  rw [List.zipWith_comm]
  exact exists_mem_zipWith_left _ hlength.symm h

end RubyPress.Render
