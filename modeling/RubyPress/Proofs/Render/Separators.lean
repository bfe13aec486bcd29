import RubyPress.Proofs.Render.Nested

/-!
# Separators between statements

The text of a list of statements has separators at its outermost level only where two statements
meet. A list in a list is written without any sign of its own, and so is a list that is returned;
`Node.flatten` is the list of the statements that can be told apart. Its texts are joined by
separators, and none of them has a separator of its own, so that cutting the text gives them back.
-/

namespace RubyPress

namespace Separator

def char : Separator → Char
  | newline => '\n'
  | semicolon => ';'

theorem toList_text (separator : Separator) : separator.text.toList = [separator.char] := by
  cases separator <;> rfl

theorem char_mem_cuts (separator : Separator) : separator.char ∈ Ruby.cuts := by
  cases separator <;> decide

theorem char_ne_comma (separator : Separator) : separator.char ≠ ',' := by
  cases separator <;> decide

end Separator

namespace Node

/-- Whether a node is a list of statements or returns one. -/
def isList : Node → Bool
  | block _ => true
  | ret argument => argument.isList
  | _ => false
termination_by structural node => node

mutual

/-- The statements that a node stands for where a statement is expected. -/
def flatten : Node → List Node
  | block [] => [block []]
  | block (statement :: rest) => statement.flatten ++ flattenAll rest
  | ret argument => if argument.isList then argument.flatten else [ret argument]
  | node => [node]
termination_by structural node => node

def flattenAll : List Node → List Node
  | [] => []
  | node :: nodes => node.flatten ++ flattenAll nodes
termination_by structural nodes => nodes

end

theorem flattenAll_eq_flatMap (nodes : List Node) : flattenAll nodes = nodes.flatMap flatten := by
  induction nodes with
  | nil => rfl
  | cons node nodes ih => rw [flattenAll, ih, List.flatMap_cons]

theorem flatten_block {statements : List Node} (h : statements ≠ []) :
    (block statements).flatten = statements.flatMap flatten := by
  obtain ⟨statement, rest, rfl⟩ := List.exists_cons_of_ne_nil h
  rw [flatten, flattenAll_eq_flatMap, List.flatMap_cons]

end Node

namespace Render

open Ruby (Segment)

/-- A node that is no list of statements is a single statement, also when it is returned. -/
theorem isSingle_of_not_isList {node : Node} (h : node.isList = false) : isSingle node := by
  induction node using Node.induction_children with
  | step node ih =>
      cases node with
      | block statements => cases h
      | ret argument =>
          by_cases hargument : argument = .nil
          · subst hargument
            rfl
          · rw [isSingle, rendered_ret hargument]
            exact ih argument (List.mem_singleton_self _) h
      | _ => rfl

/-- A node stands for itself, or for the nodes it is written as with separators between them. -/
theorem flatten_cases (style : LiteralStyle) (node : Node) :
    (node.flatten = [node] ∧ isSingle node) ∨
      ∃ nodes, nodes ≠ [] ∧ (∀ child ∈ nodes, child ∈ node.children) ∧
        node.flatten = nodes.flatMap Node.flatten ∧
        rule style node = .ok ((nodes.map Piece.child).intersperse .separator) := by
  cases node with
  | block statements =>
      cases statements with
      | nil => exact .inl ⟨rfl, rfl⟩
      | cons statement rest =>
          exact .inr ⟨statement :: rest, List.cons_ne_nil _ _, fun child h => h,
            Node.flatten_block (List.cons_ne_nil _ _), rfl⟩
  | ret argument =>
      cases hlist : argument.isList with
      | false =>
          have hflatten : (Node.ret argument).flatten = [.ret argument] := by
            rw [Node.flatten, if_neg (by simp [hlist])]
          exact .inl ⟨hflatten, isSingle_of_not_isList hlist⟩
      | true =>
          have hflatten : (Node.ret argument).flatten = [argument].flatMap Node.flatten := by
            rw [Node.flatten, if_pos hlist, List.flatMap_singleton]
          have hargument : argument ≠ .nil := by
            rintro rfl
            cases hlist
          exact .inr ⟨[argument], List.cons_ne_nil _ _, fun child h => h, hflatten,
            rule_ret hargument style⟩
  | _ => exact .inl ⟨rfl, rfl⟩

theorem flatten_ne_nil (node : Node) : node.flatten ≠ [] := by
  induction node using Node.induction_children with
  | step node ih =>
      rcases flatten_cases .verbose node with ⟨hflatten, -⟩ | ⟨nodes, hne, hchildren, hflatten, -⟩
      · rw [hflatten]
        exact List.cons_ne_nil _ _
      · obtain ⟨first, rest, rfl⟩ := List.exists_cons_of_ne_nil hne
        rw [hflatten, List.flatMap_cons]
        exact List.append_ne_nil_of_left_ne_nil (ih first (hchildren first (.head _))) _

theorem clean_of_mem_flatten {node statement : Node} (hnode : Clean node)
    (h : statement ∈ node.flatten) : Clean statement ∧ isSingle statement := by
  induction node using Node.induction_children with
  | step node ih =>
      rcases flatten_cases .verbose node with
        ⟨hflatten, hsingle⟩ | ⟨nodes, -, hchildren, hflatten, -⟩
      · rw [hflatten, List.mem_singleton] at h
        subst h
        exact ⟨hnode, hsingle⟩
      · rw [hflatten, List.mem_flatMap] at h
        obtain ⟨child, hmem, h⟩ := h
        have hchild := hchildren child hmem
        exact ih child hchild ((Node.everywhere_iff.1 hnode).2 child hchild) h

/-! ### Joined texts -/

/-- The text is made up of the texts of the nodes, with separators between them. -/
def Joins (config : RenderConfig) (room : Nat) (nodes : List Node) (content : List Char) : Prop :=
  ∃ texts, List.Forall₂ (fun node text => write config room node = .ok text) nodes texts ∧
    content = [config.separator.char].intercalate texts

theorem intercalate_append {α : Type} {joiner : List α} {first second : List (List α)}
    (hfirst : first ≠ []) (hsecond : second ≠ []) :
    joiner.intercalate (first ++ second) =
      joiner.intercalate first ++ (joiner ++ joiner.intercalate second) := by
  induction first with
  | nil => exact absurd rfl hfirst
  | cons text first ih =>
      cases first with
      | nil =>
          rw [List.intercalate_singleton, List.singleton_append,
            List.intercalate_cons_of_ne_nil hsecond, List.append_assoc]
      | cons next first =>
          rw [List.cons_append, List.intercalate_cons_of_ne_nil (by simp),
            ih (List.cons_ne_nil _ _), List.intercalate_cons_cons]
          simp only [List.append_assoc]

section Joins

variable {config : RenderConfig} {room : Nat} {nodes others : List Node}
  {content rest : List Char}

theorem Joins.append (hnodes : nodes ≠ []) (hothers : others ≠ [])
    (hfirst : Joins config room nodes content) (hsecond : Joins config room others rest) :
    Joins config room (nodes ++ others) (content ++ config.separator.char :: rest) := by
  obtain ⟨texts, htexts, rfl⟩ := hfirst
  obtain ⟨more, hmore, rfl⟩ := hsecond
  have hne : texts ≠ [] := fun h => hnodes (by simpa [h] using htexts.length_eq)
  have hneMore : more ≠ [] := fun h => hothers (by simpa [h] using hmore.length_eq)
  exact ⟨texts ++ more, List.rel_append htexts hmore, (intercalate_append hne hneMore).symm⟩

theorem Joins.mono {more : Nat} (hroom : room ≤ more) (h : Joins config room nodes content) :
    Joins config more nodes content := by
  obtain ⟨texts, htexts, hcontent⟩ := h
  exact ⟨texts, htexts.imp fun node text => write_mono hroom, hcontent⟩

theorem joins_statementList (hne : nodes ≠ [])
    (hnodes : ∀ node ∈ nodes, ∀ content, write config room node = .ok content →
      Joins config room node.flatten content)
    (hcontent : writePieces config.separator (write config room)
      ((nodes.map Piece.child).intersperse .separator) = .ok content) :
    Joins config room (nodes.flatMap Node.flatten) content := by
  induction nodes generalizing content with
  | nil => exact absurd rfl hne
  | cons node nodes ih =>
      rw [List.forall_mem_cons] at hnodes
      rw [List.flatMap_cons]
      cases nodes with
      | nil =>
          rw [List.flatMap_nil, List.append_nil]
          exact hnodes.1 content (writePieces_child_eq_ok.1 hcontent)
      | cons second nodes =>
          obtain ⟨first, rest, hfirst, hrest, rfl⟩ := writePieces_cons_eq_ok.1 hcontent
          obtain ⟨separator, others, hseparator, hothers, rfl⟩ := writePieces_cons_eq_ok.1 hrest
          obtain rfl := (Except.ok.inj hseparator).symm
          have hsecond := ih (List.cons_ne_nil _ _) hnodes.2 hothers
          rw [Separator.toList_text, List.singleton_append]
          refine Joins.append (flatten_ne_nil node) ?_ (hnodes.1 first hfirst) hsecond
          rw [List.flatMap_cons]
          exact List.append_ne_nil_of_left_ne_nil (flatten_ne_nil second) _

theorem joins_write {node : Node} (hcontent : write config room node = .ok content) :
    Joins config room node.flatten content := by
  induction node using Node.induction_children generalizing room content with
  | step node ih =>
      rcases flatten_cases config.style node with
        ⟨hflatten, -⟩ | ⟨nodes, hne, hchildren, hflatten, hrule⟩
      · rw [hflatten]
        exact ⟨[content], .cons hcontent .nil, List.intercalate_singleton.symm⟩
      · obtain ⟨less, pieces, rfl, hpieces, hwrite⟩ := exists_of_write hcontent
        obtain rfl := Except.ok.inj (hrule.symm.trans hpieces)
        rw [hflatten]
        have hjoins := joins_statementList hne
          (fun child h content hchild => ih child (hchildren child h) hchild) hwrite
        exact hjoins.mono (Nat.le_succ less)

/-- The statements of a body, of which there can be none at all. -/
theorem joins_statements {body : Node} (hroom : 0 < room)
    (hcontent : writePieces config.separator (write config room) (statements config.style body) =
      .ok content) : Joins config room body.flatten content := by
  have hkinds : (∃ list, body = .block list) ∨ body.statements = [body] := by
    cases body <;> simp [Node.statements]
  rcases hkinds with ⟨list, rfl⟩ | hsingle
  · cases list with
    | nil =>
        -- An empty body is written by the rule of an empty block.
        have hpieces : rule config.style (.block []) = .ok [text config.style.emptyBlock] := rfl
        obtain rfl := Except.ok.inj (writePieces_text.symm.trans hcontent)
        obtain ⟨less, rfl⟩ := Nat.exists_eq_add_of_lt hroom
        have hwrite : write config (0 + less + 1) (.block []) =
            .ok config.style.emptyBlock.toList := (write_succ hpieces).trans writePieces_text
        exact joins_write hwrite
    | cons statement rest =>
        rw [Node.flatten_block (List.cons_ne_nil _ _)]
        exact joins_statementList (List.cons_ne_nil _ _) (fun _ _ _ => joins_write) hcontent
  · have hpieces : statements config.style body = [.child body] := by
      rw [statements, hsingle]
      rfl
    rw [hpieces] at hcontent
    exact joins_write (writePieces_child_eq_ok.1 hcontent)

end Joins

end Render

open Render

/-- **Separators do not leak.** The text of statements opens and closes evenly, and cut at the
separators of its outermost level it falls into the texts of the statements one by one. -/
theorem split_renderStatements (config : RenderConfig) {body : Node} (hbody : Clean body)
    {content : String} (hcontent : renderStatements config body = .ok content) :
    ∃ parts, Ruby.split config.separator.char content = some parts ∧
      body.flatten.map (renderNode config) = parts.map fun part => .ok (String.ofList part) := by
  unfold renderStatements at hcontent
  split at hcontent
  · cases hcontent
  · next letters hletters =>
      obtain rfl := Except.ok.inj hcontent
      obtain ⟨texts, htexts, rfl⟩ := joins_statements (by decide) hletters
      have hmap : body.flatten.map (write config maxDepth) = texts.map .ok :=
        forall₂_iff_map_eq.1 htexts
      have hsegments : ∀ text ∈ texts,
          Ruby.Segment config.separator.char [] false text [] false := by
        intro text hmem
        have hok : .ok text ∈ body.flatten.map (write config maxDepth) := by
          rw [hmap]
          exact List.mem_map_of_mem hmem
        obtain ⟨statement, hstatement, hwrite⟩ := List.mem_map.1 hok
        obtain ⟨hclean, hsingle⟩ := clean_of_mem_flatten hbody hstatement
        exact emits_write config.separator.char_mem_cuts config maxDepth statement text [] hclean
          (.inr (.inr ⟨config.separator.char_ne_comma, hsingle⟩)) hwrite
      refine ⟨texts, ?_, ?_⟩
      · have hne : texts ≠ [] := fun h => flatten_ne_nil body (by simpa [h] using hmap)
        obtain ⟨first, rest, rfl⟩ := List.exists_cons_of_ne_nil hne
        rw [Ruby.split, String.toList_ofList]
        exact Ruby.Segment.scan_intercalate config.separator.char_mem_cuts hsegments
      · refine forall₂_iff_map_eq.1 (htexts.imp fun statement text hwrite => ?_)
        rw [renderNode_eq_ok, String.toList_ofList]
        exact hwrite

/-- Semicolons inside of a definition, of literals and of a branch are no cuts, and a returned block
gives one statement for each of its own. -/
theorem split_renderStatements_of_returned_block :
    let body : Node := .block [
      .definition "f" ["x"] (.block [.string "a;\"", .localRead "x"]),
      .ret (.block [.ifElse (.localRead "t") (.block [.localRead "a", .nil]) none, .block []]),
      .interpolatedString [.string ";#", .block [.localRead "u", .selfRef]]]
    ∃ parts, Ruby.split ';' "def f(x);\"a;\\\"\";x;end;t ? (a;) : ();;\";##\x7bu;self\x7d\"" =
        some parts ∧
      body.flatten.map (renderNode .compact) = parts.map fun part => .ok (String.ofList part) := by
  intro body
  have hclean : Clean body := by
    repeat' first
      | exact List.forall_mem_nil _
      | refine List.forall_mem_cons.2 ⟨?_, ?_⟩
      | refine .intro (by decide) ?_
  exact split_renderStatements .compact hclean (by decide)

end RubyPress
