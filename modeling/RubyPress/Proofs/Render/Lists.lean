import RubyPress.Proofs.Render.Separators
import RubyPress.Proofs.Render.Success
import RubyPress.Proofs.Render.Within

/-!
# Lists

The arguments of a call and of a `yield`, the elements of an array and the pairs of a hash are all
written as items with commas between them. An item stands at the level of an assignment, so that
whatever has bare commas of its own stands in parentheses: cut at the commas of its outermost level,
a list falls into its items again.

A list is found in the text of any tree that its node is visited in, since the text of a node has
the texts of the nodes inside of it as parts.
-/

namespace RubyPress

namespace Render

/-- A list in the pieces of a node, with what stands in front of its first item and behind its last
one. -/
structure ListPlace where
  front : List Piece
  items : List (List Piece)
  back : List Piece

def ListPlace.pieces (place : ListPlace) : List Piece :=
  place.front ++ [text ","].intercalate place.items ++ place.back

/-- The lists in the texts of nodes. A call without arguments has none, unless a block is forwarded;
that block is the last item. The value of an assignment to an element stands behind the list. -/
inductive ListForm (style : LiteralStyle) : Node → ListPlace → Prop where
  | plain {receiver : Option Node} {method : String} {args : List Node} {params : List String}
      (hargs : args ≠ []) (hbinary : ¬Operator.isBinary method) (hnot : method ≠ "!")
      (hread : method ≠ "[]") (hwrite : method ≠ "[]=") :
      ListForm style (.call receiver method args params none none)
        ⟨callHead style receiver method ++ [text "("], args.map (operand style .assign),
          [text ")"]⟩
  | block (body : Node) {receiver : Option Node} {method : String} {args : List Node}
      {params : List String} {forward : Option Node} (hargs : args ≠ [])
      (hbinary : ¬Operator.isBinary method) :
      ListForm style (.call receiver method args params (some body) forward)
        ⟨callHead style receiver method ++ [text "("], args.map (operand style .assign),
          text ")" :: [text "\x7b|", text (",".intercalate params), text "|"] ++
            (if body.isEmptyBody then [] else statements style body) ++ [text "\x7d"]⟩
  | forward (block : Node) {receiver : Option Node} {method : String} {args : List Node}
      {params : List String} (hbinary : ¬Operator.isBinary method) :
      ListForm style (.call receiver method args params none (some block))
        ⟨callHead style receiver method ++ [text "("],
          args.map (operand style .assign) ++ [text "&" :: operand style .assign block],
          [text ")"]⟩
  | indexRead (target : Node) (args : List Node) {params : List String} :
      ListForm style (.call (some target) "[]" args params none none)
        ⟨operand style .primary target ++ [text "["], args.map (operand style .assign),
          [text "]"]⟩
  | indexWrite (target : Node) (index : List Node) (value : Node) {params : List String} :
      ListForm style (.call (some target) "[]=" (index ++ [value]) params none none)
        ⟨operand style .primary target ++ [text "["], index.map (operand style .assign),
          text "]=" :: operand style .assign value⟩
  | yielding {args : List Node} (hargs : args ≠ []) :
      ListForm style (.yielding args)
        ⟨[text "yield", text " "], args.map (operand style .assign), []⟩
  | array (elements : List Node) :
      ListForm style (.array elements)
        ⟨[text "["], elements.map (operand style .assign), [text "]"]⟩
  | hash (keys values : List Node) :
      ListForm style (.hash keys values)
        ⟨[text "\x7b"], List.zipWith (hashPair style) keys values, [text "\x7d"]⟩

variable {style : LiteralStyle} {node : Node} {place : ListPlace} {pieces inner : List Piece}
  {separator : Separator} {emit : Node → Except Unsupported (List Char)} {content : List Char}

theorem argumentList_of_ne_nil {args : List Node} (h : args ≠ []) :
    argumentList style args = text "(" :: arguments style args ++ [text ")"] :=
  if_neg (by simpa using h)

/-- The comma in front of a forwarded block is there only if there are arguments. -/
theorem intercalate_forward (args : List Node) (block : List Piece) :
    [text ","].intercalate (args.map (operand style .assign) ++ [block]) =
      (if args.isEmpty then [] else arguments style args ++ [text ","]) ++ block := by
  cases args with
  | nil => exact List.intercalate_singleton
  | cons arg args =>
      rw [intercalate_append (by simp) (by simp), List.intercalate_singleton]
      simp [arguments]

/-- The pieces of a node with a list are what stands around the list and the items with commas
between them. -/
theorem ListForm.pieces_eq (h : ListForm style node place)
    (hpieces : rule style node = .ok pieces) : pieces = place.pieces := by
  unfold rule at hpieces
  cases h with
  | plain hargs hbinary hnot hread hwrite =>
      have hplain : Operator.isIndexRead _ = false := beq_eq_false_iff_ne.2 hread
      have hindex : Operator.isIndexWrite _ = false := beq_eq_false_iff_ne.2 hwrite
      have hnegation : Operator.isNot _ = false := beq_eq_false_iff_ne.2 hnot
      simp only [call, hbinary, plainCall, hplain, hindex, hnegation, argumentList_of_ne_nil hargs,
        Bool.false_eq_true, if_false, Except.ok.injEq] at hpieces
      simp [← hpieces, ListPlace.pieces, arguments]
  | block body hargs hbinary =>
      simp only [call, hbinary, argumentList_of_ne_nil hargs, Bool.false_eq_true, if_false,
        Except.ok.injEq] at hpieces
      simp [← hpieces, ListPlace.pieces, arguments]
  | forward block hbinary =>
      simp only [call, hbinary, Bool.false_eq_true, if_false, Except.ok.injEq] at hpieces
      simp [← hpieces, ListPlace.pieces, intercalate_forward]
  | indexRead target args =>
      obtain rfl := Except.ok.inj hpieces
      simp [ListPlace.pieces, arguments]
  | indexWrite target index value =>
      have hbinary : Operator.isBinary "[]=" = false := by decide
      have hread : Operator.isIndexRead "[]=" = false := by decide
      have hwrite : Operator.isIndexWrite "[]=" = true := by decide
      simp only [call, hbinary, plainCall, hread, hwrite, List.getLast?_concat,
        List.dropLast_concat, Bool.false_eq_true, if_false, if_true] at hpieces
      split_ifs at hpieces
      obtain rfl := Except.ok.inj hpieces
      simp [ListPlace.pieces, arguments]
  | yielding hargs =>
      obtain rfl := Except.ok.inj hpieces
      simp [ListPlace.pieces, arguments, hargs]
  | array elements =>
      obtain rfl := Except.ok.inj hpieces
      rfl
  | hash keys values =>
      simp only at hpieces
      split_ifs at hpieces
      obtain rfl := Except.ok.inj hpieces
      rfl

theorem ListForm.infix_item (h : ListForm style node place) (hpieces : rule style node = .ok pieces)
    {item : List Piece} (hitem : item ∈ place.items) : item <:+: pieces := by
  rw [h.pieces_eq hpieces]
  exact (infix_intercalate hitem).trans (List.infix_append _ _ _)

theorem ListForm.not_isOpened (h : ListForm style node place) : ¬node.isOpened := by
  have hcall {receiver body forward : Option Node} {method : String} {args : List Node}
      {params : List String} (hbinary : ¬Operator.isBinary method) :
      ¬(Node.call receiver method args params body forward).isOpened := by
    intro hopened
    unfold Node.isOpened at hopened
    split at hopened <;> simp_all
  cases h with
  | plain hargs hbinary => exact hcall hbinary
  | block body hargs hbinary => exact hcall hbinary
  | forward block hbinary => exact hcall hbinary
  | indexRead | indexWrite => exact hcall (by decide)
  | yielding | array | hash => exact Bool.false_ne_true

/-- **Items close what they open**, and have no comma at their outermost level. -/
theorem ListForm.threads_item (h : ListForm style node place) (hemit : Emits ',' style emit)
    (hnode : Clean node) {item : List Piece} (hitem : item ∈ place.items) :
    Threads ',' separator emit [] false item [] false := by
  have hcut : ',' ∈ Ruby.cuts := by decide
  obtain ⟨-, hchildren⟩ := Node.everywhere_iff.1 hnode
  have hoperand {child : Node} (hchild : child ∈ node.children) :
      Threads ',' separator emit [] false (operand style .assign child) [] false :=
    threads_operand hcut hemit (Nat.le_refl _) (hchildren child hchild)
  have hmap {nodes : List Node} (hnodes : ∀ child ∈ nodes, child ∈ node.children)
      (hmem : item ∈ nodes.map (operand style .assign)) :
      Threads ',' separator emit [] false item [] false := by
    obtain ⟨child, hchild, rfl⟩ := List.mem_map.1 hmem
    exact hoperand (hnodes child hchild)
  have hargument {receiver body forward : Option Node} {method : String} {args : List Node}
      {params : List String} (hcall : node = .call receiver method args params body forward) :
      ∀ arg ∈ args, arg ∈ node.children := by
    rintro arg harg
    rw [hcall]
    exact Node.mem_children_call.2 (.inr (.inl harg))
  cases h with
  | plain | block | indexRead => exact hmap (hargument rfl) hitem
  | indexWrite target index value =>
      exact hmap (fun arg harg => hargument rfl arg (List.mem_append_left _ harg)) hitem
  | forward block =>
      rcases List.mem_append.1 hitem with hitem | hitem
      · exact hmap (hargument rfl) hitem
      · obtain rfl := List.mem_singleton.1 hitem
        have hand : Threads ',' separator emit [] true [text "&"] [] true :=
          .inert hcut (by decide)
        have hblock := hoperand (Node.mem_children_call.2 (.inr (.inr (.inr rfl))))
        exact (hand.cons hblock rfl).loosen
  | yielding | array => exact hmap (fun child hchild => hchild) hitem
  | hash keys values =>
      obtain ⟨key, hkey, value, hvalue, rfl⟩ := exists_of_mem_zipWith hitem
      exact threads_hashPair hcut hemit (hchildren key (List.mem_append_left _ hkey))
        (hchildren value (List.mem_append_right _ hvalue))

theorem exists_texts_of_commas {items : List (List Piece)}
    (h : writePieces separator emit ([text ","].intercalate items) = .ok content) :
    ∃ texts, List.Forall₂ (fun item text => writePieces separator emit item = .ok text) items
      texts ∧ content = [','].intercalate texts := by
  induction items generalizing content with
  | nil => exact ⟨[], .nil, (Except.ok.inj h).symm⟩
  | cons item items ih =>
      cases items with
      | nil =>
          rw [List.intercalate_singleton] at h
          exact ⟨[content], .cons h .nil, List.intercalate_singleton.symm⟩
      | cons second items =>
          rw [List.intercalate_cons_cons] at h
          obtain ⟨front, others, hfront, hothers, rfl⟩ := writePieces_append_eq_ok.1 h
          obtain ⟨first, comma, hfirst, hcomma, rfl⟩ := writePieces_append_eq_ok.1 hfront
          obtain rfl := Except.ok.inj (writePieces_text.symm.trans hcomma)
          obtain ⟨texts, htexts, rfl⟩ := ih hothers
          have hne : texts ≠ [] := fun hnil => by simpa [hnil] using htexts.length_eq
          refine ⟨first :: texts, .cons hfirst htexts, ?_⟩
          rw [List.intercalate_cons_of_ne_nil hne]
          rfl

/-- A node that is not opened on the spot has a text, and it is a part of the given one. -/
def HasText (config : RenderConfig) (content : List Char) (node : Node) : Prop :=
  node.isOpened ∨ ∃ part, write config maxDepth node = .ok part ∧ part <:+: content

variable {config : RenderConfig} {room : Nat}

theorem HasText.mono {more : List Char} (hmore : content <:+: more)
    (h : HasText config content node) : HasText config more node :=
  h.imp_right fun ⟨part, hpart, hinfix⟩ => ⟨part, hpart, hinfix.trans hmore⟩

/-- **Texts inside of texts.** The texts of all visited nodes are parts of the text of a tree. -/
theorem hasText_of_write (hroom : room ≤ maxDepth) (h : write config room node = .ok content) :
    node.Throughout (HasText config content) := by
  induction room generalizing node content with
  | zero => cases h
  | succ room ih =>
      obtain ⟨pieces, hrule, hpieces⟩ := write_succ_eq_ok.1 h
      have hwritten : ∀ other ∈ node.written config.style,
          other.Throughout (HasText config content) := by
        intro other hother
        rw [← nested_rule hrule] at hother
        obtain ⟨part, hpart, hinfix⟩ := exists_infix_of_mem_nested hother hpieces
        exact (ih (Nat.le_of_succ_le hroom) hpart).imp fun _ => HasText.mono hinfix
      refine Node.throughout_iff.2 ⟨.inr ⟨content, write_mono hroom h, List.infix_rfl⟩, ?_⟩
      exact (Node.forall_written_iff (fun _ => .inl) (rule_isOk.1 ⟨pieces, hrule⟩)).1 hwritten

theorem ListForm.exists_texts (h : ListForm config.style node place) (hnode : Clean node)
    (hwrite : write config maxDepth node = .ok content) :
    ∃ front texts back, content = front ++ [','].intercalate texts ++ back ∧
      writePieces config.separator (write config maxDepth) place.front = .ok front ∧
      List.Forall₂ (fun item text =>
        writePieces config.separator (write config maxDepth) item = .ok text) place.items texts ∧
      writePieces config.separator (write config maxDepth) place.back = .ok back ∧
      (texts ≠ [] → Ruby.split ',' (String.ofList ([','].intercalate texts)) = some texts) := by
  obtain ⟨less, pieces, hroom, hrule, hpieces⟩ := exists_of_write hwrite
  rw [h.pieces_eq hrule] at hpieces
  have hmore : writePieces config.separator (write config maxDepth) place.pieces = .ok content :=
    writePieces_mono (fun child content => write_mono (hroom ▸ Nat.le_succ less)) hpieces
  obtain ⟨_, back, hinner, hback, rfl⟩ := writePieces_append_eq_ok.1 hmore
  obtain ⟨front, list, hfront, hlist, rfl⟩ := writePieces_append_eq_ok.1 hinner
  obtain ⟨texts, htexts, rfl⟩ := exists_texts_of_commas hlist
  have hsegments : ∀ content ∈ texts, Ruby.Segment ',' [] false content [] false := by
    intro content hmem
    have hok : .ok content ∈ place.items.map
        (writePieces config.separator (write config maxDepth)) := by
      rw [forall₂_iff_map_eq.1 htexts]
      exact List.mem_map_of_mem hmem
    obtain ⟨item, hitem, hwritten⟩ := List.mem_map.1 hok
    exact h.threads_item (emits_write (by decide) config maxDepth) hnode hitem content hwritten
  refine ⟨front, texts, back, rfl, hfront, htexts, hback, fun hne => ?_⟩
  obtain ⟨first, rest, rfl⟩ := List.exists_cons_of_ne_nil hne
  rw [Ruby.split, String.toList_ofList]
  exact Ruby.Segment.scan_intercalate (by decide) hsegments

end Render

open Render

section EntryPoints

variable {config : RenderConfig} {tree : Node} {content : String}

theorem hasText_of_render (h : renderNode config tree = .ok content ∨
    renderStatements config tree = .ok content ∨ renderProgram config tree = .ok content) :
    tree.Throughout (HasText config content.toList) := by
  refine (Node.throughout_statements fun _ => .inl).1 fun statement hstatement => ?_
  obtain ⟨part, hpart, hinfix⟩ := exists_infix_of_mem_statements h statement hstatement
  exact (hasText_of_write (Nat.le_refl _) hpart).imp fun _ => HasText.mono hinfix

end EntryPoints

/-- **Items do not swallow each other.** Take any node with a list that is visited in a tree with a
text. The text of the node is a part of that text. It is what stands in front of the list, up to its
bracket, then the texts of the items with commas between them, then what stands behind the list,
from its bracket on. Cut at the commas of the outermost level, the middle falls into the texts of
the items, one by one. -/
theorem split_listItems {config : RenderConfig} {tree node : Node} (htree : Clean tree)
    {content : String} (hrender : renderNode config tree = .ok content ∨
      renderStatements config tree = .ok content ∨ renderProgram config tree = .ok content)
    (hnode : tree.Visits node) {place : ListPlace} (hplace : ListForm config.style node place) :
    ∃ (front : List Char) (texts : List (List Char)) (back : List Char),
      renderNode config node = .ok (String.ofList (front ++ [','].intercalate texts ++ back)) ∧
      front ++ [','].intercalate texts ++ back <:+: content.toList ∧
      writePieces config.separator (write config maxDepth) place.front = .ok front ∧
      List.Forall₂ (fun item text =>
        writePieces config.separator (write config maxDepth) item = .ok text) place.items texts ∧
      writePieces config.separator (write config maxDepth) place.back = .ok back ∧
      (texts ≠ [] → Ruby.split ',' (String.ofList ([','].intercalate texts)) = some texts) := by
  obtain ⟨part, hpart, hinfix⟩ :=
    (hasText_of_render hrender node hnode).resolve_left hplace.not_isOpened
  obtain ⟨front, texts, back, rfl, hall⟩ := hplace.exists_texts (htree.of_visits hnode) hpart
  refine ⟨front, texts, back, ?_, hinfix, hall⟩
  rwa [renderNode_eq_ok, String.toList_ofList]

/-- A `yield` in parentheses, a hash with a comma in a literal, and a forwarded block are three
items. -/
theorem split_listItems_of_forward :
    let tree : Node := .withBlockForward (.send "f" [
      .ret (.yielding [.localRead "a", .localRead "b"]),
      .hash [.symbol "k", .integer 1] [.string "x,y", .array []]]) (.localRead "g")
    let texts : List (List Char) :=
      ["(yield a,b)".toList, "\x7b:k=>\"x,y\",1=>[]\x7d".toList, "&g".toList]
    renderNode .compact tree =
        .ok (String.ofList ("f(".toList ++ [','].intercalate texts ++ ")".toList)) ∧
      Ruby.split ',' (String.ofList ([','].intercalate texts)) = some texts := by
  intro tree texts
  have hclean : Clean tree := by
    repeat' first
      | exact List.forall_mem_nil _
      | refine List.forall_mem_cons.2 ⟨?_, ?_⟩
      | refine .intro (by decide) ?_
  have hrender : renderNode .compact tree =
      .ok "f((yield a,b),\x7b:k=>\"x,y\",1=>[]\x7d,&g)" := by decide
  obtain ⟨front, found, back, hwhole, -, hfront, hitems, hback, hsplit⟩ :=
    split_listItems hclean (.inl hrender) .refl (.forward (.localRead "g") (by decide))
  have htexts : (found.map .ok : List (Except Unsupported (List Char))) = texts.map .ok :=
    (forall₂_iff_map_eq.1 hitems).symm.trans (by decide)
  obtain rfl : found = texts := List.map_injective_iff.2 (fun _ _ => Except.ok.inj) htexts
  obtain rfl : "f(".toList = front := Except.ok.inj (Eq.trans (by decide) hfront)
  obtain rfl : ")".toList = back := Except.ok.inj (Eq.trans (by decide) hback)
  exact ⟨hwhole, hsplit (List.cons_ne_nil _ _)⟩

end RubyPress
