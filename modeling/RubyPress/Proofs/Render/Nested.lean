import RubyPress.Proofs.Render.Quoted
import RubyPress.Proofs.Tree.Children

/-!
# Written text is nested

The text of a node closes all that it opens, and what it cuts it cuts inside of brackets, literals
or regions. Two kinds of nodes are exceptions at the outermost level: a block of several statements has
separators there, and a `yield` has commas. Their levels are the lowest of all, so that parentheses
stand around them wherever they are operands; `Sheltered` says which nodes are no exceptions.

Each rule is followed piece by piece. `Threads` is the effect of a list of pieces on what is open,
for any way of writing children that keeps to `Emits`; the induction over the depth of a tree then
needs one case for each kind of node.
-/

namespace RubyPress

namespace Render

open Ruby (Frame Segment Inside isName cuts isBrace scanLiteral prepend map_prepend_map_prepend)
open Text (Stops)

theorem passesLetters_scanLiteral (cut : Char) (stack : List Frame) :
    PassesLetters isBrace (scanLiteral cut stack) fun text => Option.map (prepend text) where
  opens c hc := by
    obtain rfl : c = '\x7b' := by simpa [isBrace] using hc
    decide
  push_nil := Ruby.map_prepend_nil
  push_push := map_prepend_map_prepend
  escaped _ _ := Ruby.scanLiteral_escaped
  plain _ _ := Ruby.scanLiteral_plain

theorem inside_escape {cut : Char} {stack : List Frame} (value : List Char) :
    Inside cut stack (DoubleQuoted.escape value) :=
  fun _ hrest => (passesLetters_scanLiteral cut stack).escape fun _ => hrest

theorem segment_quote {cut : Char} {stack : List Frame} (hcut : cut ∈ cuts) (value : String) :
    Segment cut stack true (DoubleQuoted.quote value) stack true :=
  .literal hcut (inside_escape value.toList)

/-- Nodes whose names and plain symbols are names. Two fragments of a literal in a row could make up
the start of embedded code, so there are none. -/
structure IsClean (node : Node) : Prop where
  names : ∀ name ∈ node.names, isName name
  symbols : ∀ value ∈ node.plainSymbols, isName value
  parts : node.parts.IsChain fun first second => ¬(first.isFragment ∧ second.isFragment)

instance (node : Node) : Decidable (IsClean node) :=
  decidable_of_iff ((∀ name ∈ node.names, isName name) ∧
      (∀ value ∈ node.plainSymbols, isName value) ∧
      node.parts.IsChain fun first second => ¬(first.isFragment ∧ second.isFragment))
    ⟨fun ⟨hnames, hsymbols, hparts⟩ => ⟨hnames, hsymbols, hparts⟩,
      fun ⟨hnames, hsymbols, hparts⟩ => ⟨hnames, hsymbols, hparts⟩⟩

abbrev Clean (tree : Node) : Prop := tree.Everywhere IsClean

/-- Whether a node is written as one statement. -/
def isSingle (node : Node) : Bool :=
  match node.rendered with
  | .block (_ :: _ :: _) => false
  | _ => true

/-- The text of the node has no cut where the given frames are open. -/
def Sheltered (cut : Char) (style : LiteralStyle) (stack : List Frame) (node : Node) : Prop :=
  stack ≠ [] ∨ Precedence.assign ≤ precedence style node ∨ (cut ≠ ',' ∧ isSingle node)

/-- Children are written so that they leave open what was open. -/
def Emits (cut : Char) (style : LiteralStyle) (emit : Node → Except Unsupported (List Char)) :
    Prop :=
  ∀ node content stack, Clean node → Sheltered cut style stack node → emit node = .ok content →
    Segment cut stack false content stack false

/-- The effect of the text of pieces on what is open. -/
def Threads (cut : Char) (sep : Separator) (emit : Node → Except Unsupported (List Char))
    (before : List Frame) (fresh : Bool) (pieces : List Piece) (after : List Frame)
    (closed : Bool) : Prop :=
  ∀ content, writePieces sep emit pieces = .ok content →
    Segment cut before fresh content after closed

section Pieces

variable {cut : Char} {sep : Separator} {emit : Node → Except Unsupported (List Char)}
  {style : LiteralStyle} {before middle after stack : List Frame} {fresh closed : Bool}
  {pieces others : List Piece}

namespace Threads

theorem nil : Threads cut sep emit stack false [] stack true := by
  intro content hcontent
  obtain rfl := (Except.ok.inj hcontent).symm
  exact .nil

theorem nilFresh : Threads cut sep emit stack true [] stack false := by
  intro content hcontent
  obtain rfl := (Except.ok.inj hcontent).symm
  exact .nilFresh

theorem loosen (h : Threads cut sep emit before fresh pieces after closed) :
    Threads cut sep emit before false pieces after false :=
  fun content hcontent => (h content hcontent).loosen

theorem loosenEnd (h : Threads cut sep emit before fresh pieces after closed) :
    Threads cut sep emit before fresh pieces after false :=
  fun content hcontent => (h content hcontent).loosenEnd

theorem append {end₁ start₂ : Bool}
    (hpieces : Threads cut sep emit before fresh pieces middle end₁)
    (hothers : Threads cut sep emit middle start₂ others after closed)
    (h : (end₁ || start₂) = true) :
    Threads cut sep emit before fresh (pieces ++ others) after closed := by
  intro content hcontent
  obtain ⟨first, rest, hfirst, hrest, rfl⟩ := writePieces_append_eq_ok.1 hcontent
  exact (hpieces first hfirst).append (hothers rest hrest) h

theorem cons {end₁ start₂ : Bool} {piece : Piece}
    (hpiece : Threads cut sep emit before fresh [piece] middle end₁)
    (hothers : Threads cut sep emit middle start₂ others after closed)
    (h : (end₁ || start₂) = true) :
    Threads cut sep emit before fresh (piece :: others) after closed :=
  hpiece.append hothers h

theorem text {content : List Char} (h : Segment cut before fresh content after closed) :
    Threads cut sep emit before fresh [.text content] after closed := by
  intro other hother
  rw [writePieces_text] at hother
  exact Except.ok.inj hother ▸ h

theorem inert (hcut : cut ∈ cuts) {content : String} (h : content.toList.all Ruby.isInert) :
    Threads cut sep emit stack (Ruby.opensFresh content.toList) [Render.text content] stack
      true :=
  text (.inert hcut h)

theorem operator (hcut : cut ∈ cuts) {content : String} (h : content.toList.all Ruby.isInert)
    (hfresh : Ruby.opensFresh content.toList = true) :
    Threads cut sep emit stack true [Render.text content] stack true := by
  have hinert : Threads cut sep emit stack (Ruby.opensFresh content.toList) [Render.text content]
      stack true := inert hcut h
  rwa [hfresh] at hinert

theorem name (hcut : cut ∈ cuts) {content : String} (h : isName content) :
    Threads cut sep emit stack false [Render.text content] stack false :=
  text (.name hcut h)

theorem separator (hstack : stack ≠ []) :
    Threads cut sep emit stack true [.separator] stack true := by
  intro content hcontent
  obtain rfl : sep.text.toList = content := by
    simpa [writePieces, writePiece] using hcontent
  cases sep with
  | newline => exact Segment.symbol '\n' (by decide) (.inr hstack) rfl
  | semicolon => exact Segment.symbol ';' (by decide) (.inr hstack) rfl

theorem child (hemit : Emits cut style emit) {node : Node} (hnode : Clean node)
    (hsheltered : Sheltered cut style stack node) :
    Threads cut sep emit stack false [.child node] stack false := by
  intro content hcontent
  exact hemit node content stack hnode hsheltered (writePieces_child_eq_ok.1 hcontent)

theorem enclosed (hcut : cut ∈ cuts) {opening closing : Char} {frame : Frame} {start end₁ : Bool}
    (hopening : (opening, frame) ∈ [('(', Frame.paren), ('[', .bracket), ('\x7b', .brace)])
    (hclosing : (closing, frame) ∈ [(')', Frame.paren), (']', .bracket), ('\x7d', .brace)])
    (h : Threads cut sep emit (frame :: stack) start pieces (frame :: stack) end₁) :
    Threads cut sep emit stack true (.text [opening] :: pieces ++ [.text [closing]]) stack true := by
  have hfirst : Threads cut sep emit stack true (.text [opening] :: pieces) (frame :: stack) false :=
    cons (text (.opening hcut hopening)) h.loosen rfl
  exact hfirst.append (text (.closing hcut hclosing)) rfl

theorem parens (hcut : cut ∈ cuts) {start end₁ : Bool}
    (h : Threads cut sep emit (.paren :: stack) start pieces (.paren :: stack) end₁) :
    Threads cut sep emit stack true (Render.text "(" :: pieces ++ [Render.text ")"]) stack true :=
  enclosed hcut (by decide) (by decide) h

theorem brackets (hcut : cut ∈ cuts) {start end₁ : Bool}
    (h : Threads cut sep emit (.bracket :: stack) start pieces (.bracket :: stack) end₁) :
    Threads cut sep emit stack true (Render.text "[" :: pieces ++ [Render.text "]"]) stack true :=
  enclosed hcut (by decide) (by decide) h

theorem commas (hcomma : stack ≠ [] ∨ ',' ≠ cut) {lists : List (List Piece)}
    (h : ∀ pieces ∈ lists, Threads cut sep emit stack false pieces stack false) :
    Threads cut sep emit stack false ([Render.text ","].intercalate lists) stack false := by
  have hjoiner : Threads cut sep emit stack true [Render.text ","] stack true :=
    text (Segment.symbol ',' (by decide) hcomma.symm rfl)
  induction lists with
  | nil => exact nil.loosen
  | cons pieces lists ih =>
      rw [List.forall_mem_cons] at h
      cases lists with
      | nil =>
          rw [List.intercalate_singleton]
          exact h.1
      | cons second lists =>
          rw [List.intercalate_cons_cons]
          exact (h.1.append hjoiner rfl).append (ih h.2) rfl

theorem flatten {lists : List (List Piece)}
    (h : ∀ pieces ∈ lists, Threads cut sep emit stack false pieces stack true) :
    Threads cut sep emit stack false lists.flatten stack true := by
  induction lists with
  | nil => exact .nil
  | cons pieces lists ih =>
      rw [List.forall_mem_cons] at h
      exact h.1.append (ih h.2) rfl

end Threads

/-! ### Parts of rules -/

theorem threads_operand (hcut : cut ∈ cuts) (hemit : Emits cut style emit) {least : Precedence}
    (hleast : Precedence.assign ≤ least) {node : Node} (hnode : Clean node) :
    Threads cut sep emit stack false (operand style least node) stack false := by
  unfold operand
  split
  · exact (Threads.parens hcut (.child hemit hnode (.inl (List.cons_ne_nil _ _)))).loosen
  · next hlevel => exact .child hemit hnode (.inr (.inl (hleast.trans (Nat.not_lt.1 hlevel))))

theorem threads_infix (hcut : cut ∈ cuts) (hemit : Emits cut style emit) {operator : String}
    (hinert : operator.toList.all Ruby.isInert) (hfresh : Ruby.opensFresh operator.toList = true)
    {left right : Precedence} (hleft : Precedence.assign ≤ left)
    (hright : Precedence.assign ≤ right) {lhs rhs : Node} (hlhs : Clean lhs) (hrhs : Clean rhs) :
    Threads cut sep emit stack false
      (operand style left lhs ++ text operator :: operand style right rhs) stack false := by
  have hoperator : Threads cut sep emit stack true [text operator] stack true :=
    .operator hcut hinert hfresh
  exact (threads_operand hcut hemit hleft hlhs).append
    (hoperator.cons (threads_operand hcut hemit hright hrhs) rfl) rfl

theorem threads_arguments (hcut : cut ∈ cuts) (hemit : Emits cut style emit)
    (hcomma : stack ≠ [] ∨ ',' ≠ cut) {args : List Node} (hargs : ∀ arg ∈ args, Clean arg) :
    Threads cut sep emit stack false (arguments style args) stack false := by
  apply Threads.commas hcomma
  intro pieces hpieces
  obtain ⟨arg, harg, rfl⟩ := List.mem_map.1 hpieces
  exact threads_operand hcut hemit (Nat.le_refl _) (hargs arg harg)

theorem threads_argumentList (hcut : cut ∈ cuts) (hemit : Emits cut style emit)
    {args : List Node} (hargs : ∀ arg ∈ args, Clean arg) :
    Threads cut sep emit stack true (argumentList style args) stack false := by
  unfold argumentList
  split
  · exact .nilFresh
  · have harguments : Threads cut sep emit (.paren :: stack) false (arguments style args)
        (.paren :: stack) false := threads_arguments hcut hemit (.inl (List.cons_ne_nil _ _)) hargs
    exact (harguments.parens hcut).loosenEnd

theorem Threads.word {content : String} (hne : content.toList ≠ [])
    (hword : ∀ c ∈ content.toList, Ruby.isWordChar c)
    (hpass : Ruby.passWord content.toList before = some after) :
    Threads cut sep emit before false [Render.text content] after false :=
  .text (.word hne hword hpass)

theorem Threads.header (hcut : cut ∈ cuts) {letters : List Char} (hne : letters ≠ [])
    (hword : ∀ c ∈ letters, Ruby.isWordChar c) (hpass : Ruby.passWord letters before = some after) :
    Threads cut sep emit before false [.text (letters ++ [' '])] after true := by
  have hblank : Segment cut after true [' '] after true := .inert hcut (by decide : [' '].all _)
  exact .text ((Segment.word hne hword hpass).append hblank rfl)

theorem threads_emptyBlock (hcut : cut ∈ cuts) :
    Threads cut sep emit stack false [text style.emptyBlock] stack false := by
  cases style with
  | verbose => exact (Threads.text (segment_quote hcut "")).loosen
  | obfuscated => exact (Threads.text .nil).loosen

theorem threads_statementList (hemit : Emits cut style emit) (hstack : stack ≠ [])
    {nodes : List Node} (hnodes : ∀ node ∈ nodes, Clean node) :
    Threads cut sep emit stack false ((nodes.map Piece.child).intersperse .separator) stack
      false := by
  induction nodes with
  | nil => exact Threads.nil.loosen
  | cons node nodes ih =>
      rw [List.forall_mem_cons] at hnodes
      have hnode : Threads cut sep emit stack false [.child node] stack false :=
        .child hemit hnodes.1 (.inl hstack)
      cases nodes with
      | nil => exact hnode
      | cons second nodes =>
          exact hnode.cons ((Threads.separator hstack).cons (ih hnodes.2) rfl) rfl

theorem threads_statements (hcut : cut ∈ cuts) (hemit : Emits cut style emit)
    (hstack : stack ≠ []) {body : Node} (hbody : Clean body) :
    Threads cut sep emit stack false (statements style body) stack false := by
  have hclean : ∀ statement ∈ body.statements, Clean statement :=
    fun statement hmem => hbody.of_mem_statements hmem
  unfold statements
  split
  · exact threads_emptyBlock hcut
  · exact threads_statementList hemit hstack hclean

theorem threads_end : Threads cut sep emit (.region :: stack) false [text "end"] stack false :=
  .word (by decide) (by decide) rfl

theorem threads_keywordBody (hcut : cut ∈ cuts) (hemit : Emits cut style emit) {body : Node}
    (hbody : Clean body) :
    Threads cut sep emit (.region :: stack) true (keywordBody style body) stack false := by
  have hne : Frame.region :: stack ≠ [] := List.cons_ne_nil _ _
  have hstatements : Threads cut sep emit (.region :: stack) false (statements style body)
      (.region :: stack) false := threads_statements hcut hemit hne hbody
  exact ((Threads.separator hne).cons hstatements rfl).append
    ((Threads.separator hne).cons threads_end rfl) rfl

theorem threads_callHead (hcut : cut ∈ cuts) (hemit : Emits cut style emit)
    {receiver : Option Node} (hreceiver : ∀ node ∈ receiver, Clean node) {method : String}
    (hmethod : isName method) :
    Threads cut sep emit stack false (callHead style receiver method) stack false := by
  have hname : Threads cut sep emit stack false [text method] stack false := .name hcut hmethod
  cases receiver with
  | none => exact hname
  | some node =>
      have hnode : Threads cut sep emit stack false (operand style .primary node) stack false :=
        threads_operand hcut hemit (by decide) (hreceiver node rfl)
      have hdot : Threads cut sep emit stack true [text "."] stack true := .inert hcut (by decide)
      exact hnode.append (hdot.cons hname rfl) rfl

theorem threads_parameters (hcut : cut ∈ cuts) (hstack : stack ≠ []) {params : List String}
    (hparams : ∀ param ∈ params, isName param) :
    Threads cut sep emit stack false [text (",".intercalate params)] stack false := by
  apply Threads.text
  rw [String.toList_intercalate]
  apply Segment.join (Segment.symbol ',' (by decide) (.inr hstack) rfl)
  intro content hcontent
  obtain ⟨param, hparam, rfl⟩ := List.mem_map.1 hcontent
  exact .name hcut (hparams param hparam)

theorem threads_path (hcut : cut ∈ cuts) {segments : List String}
    (hsegments : ∀ segment ∈ segments, isName segment) :
    Threads cut sep emit stack false [text ("::".intercalate segments)] stack false := by
  apply Threads.text
  rw [String.toList_intercalate]
  apply Segment.join (Segment.inert hcut (by decide : "::".toList.all Ruby.isInert))
  intro content hcontent
  obtain ⟨segment, hsegment, rfl⟩ := List.mem_map.1 hcontent
  exact .name hcut (hsegments segment hsegment)

theorem threads_condition (hcut : cut ∈ cuts) (hemit : Emits cut style emit) {negate : Bool}
    {least : Precedence} (hleast : Precedence.assign ≤ least) {test : Node} (htest : Clean test) :
    Threads cut sep emit stack false (condition style negate least test) stack false := by
  unfold condition
  split
  · have hopening : Segment cut stack false "!(".toList (.paren :: stack) true :=
      (Segment.inert hcut (by decide : ['!'].all Ruby.isInert)).append
        (.opening hcut (by decide : ('(', Frame.paren) ∈ _)) rfl
    have hchild : Threads cut sep emit (.paren :: stack) false [.child test] (.paren :: stack)
        false := .child hemit htest (.inl (List.cons_ne_nil _ _))
    have hclosing : Threads cut sep emit (.paren :: stack) true [text ")"] stack true :=
      .text (.closing hcut (by decide))
    exact ((Threads.text hopening).cons (hchild.cons hclosing rfl) rfl).loosen
  · exact threads_operand hcut hemit hleast htest

theorem threads_noValue (hcut : cut ∈ cuts) :
    Threads cut sep emit stack false [text style.noValue] stack false := by
  cases style with
  | verbose => exact .word (by decide) (by decide) rfl
  | obfuscated =>
      have hopening : Segment cut stack true ['('] (.paren :: stack) true :=
        .opening hcut (by decide)
      exact (Threads.text (hopening.append (.closing hcut (by decide)) rfl)).loosen

theorem threads_conditional (hcut : cut ∈ cuts) (hemit : Emits cut style emit) {negate : Bool}
    {test thenBranch : Node} {elseBranch : Option Node} (htest : Clean test)
    (hthen : Clean thenBranch) (helse : ∀ branch ∈ elseBranch, Clean branch) :
    Threads cut sep emit stack false (conditional style negate test thenBranch elseBranch) stack
      false := by
  have hif : Threads cut sep emit stack true [text " if "] stack true := by
    have hblank : Segment cut stack true [' '] stack true := .inert hcut (by decide : [' '].all _)
    have hword : Segment cut stack false ['i', 'f'] stack false := .word (by decide) (by decide) rfl
    exact .text ((hblank.append hword rfl).append hblank rfl)
  have hquestion : Threads cut sep emit stack true [text " ? "] stack true := .inert hcut (by decide)
  have hcolon : Threads cut sep emit stack true [text " : "] stack true := .inert hcut (by decide)
  have hnoValue : Threads cut sep emit stack false [text style.noValue] stack false :=
    threads_noValue hcut
  unfold conditional
  split
  · exact (threads_operand hcut hemit (Nat.le_refl _) hthen).append
      (hif.cons (threads_condition hcut hemit (Nat.le_refl _) htest) rfl) rfl
  · have hfront : Threads cut sep emit stack false (condition style negate (Precedence.ternary + 1)
        test ++ text " ? " :: operand style .ternary thenBranch) stack false :=
      (threads_condition hcut hemit (by decide) htest).append
        (hquestion.cons (threads_operand hcut hemit (by decide) hthen) rfl) rfl
    cases elseBranch with
    | none => exact hfront.append (hcolon.cons hnoValue rfl) rfl
    | some branch =>
        exact hfront.append
          (hcolon.cons (threads_operand hcut hemit (by decide) (helse branch rfl)) rfl) rfl

theorem threads_assignment (hcut : cut ∈ cuts) (hemit : Emits cut style emit) {target : Variable}
    {name : String} (hname : isName name) {rhs : Node} (hrhs : Clean rhs) :
    Threads cut sep emit stack false (assignment style target name rhs) stack false := by
  have hstart : Threads cut sep emit stack false [text name] stack false := .name hcut hname
  have hequals : Threads cut sep emit stack true [text "="] stack true := .inert hcut (by decide)
  unfold assignment
  split
  · next operator value habbreviation =>
      obtain ⟨hmem, hoperator⟩ := abbreviation?_cases habbreviation
      have hvalue := (Node.everywhere_iff.1 hrhs).2 value hmem
      have table : ∀ operator ∈ "&&" :: "||" :: Operator.compoundNames,
          operator.toList.all Ruby.isInert ∧ Ruby.opensFresh operator.toList = true := by
        decide
      obtain ⟨hinert, hfresh⟩ := table operator hoperator
      have hmiddle : Threads cut sep emit stack true [text operator] stack true :=
        .operator hcut hinert hfresh
      exact (hstart.cons (hmiddle.cons hequals rfl) rfl).append
        (threads_operand hcut hemit (Nat.le_refl _) hvalue) rfl
  · exact (hstart.cons hequals rfl).append (threads_operand hcut hemit (Nat.le_refl _) hrhs) rfl

theorem threads_whenClause (hcut : cut ∈ cuts) (hemit : Emits cut style emit)
    (hstack : stack ≠ []) {clause test : Node} (hclause : Clean clause) (htest : Clean test) :
    Threads cut sep emit stack false (whenClause style clause test) stack true := by
  have hwhen : Threads cut sep emit stack false [.text ("when".toList ++ [' '])] stack true :=
    .header hcut (by decide) (by decide) rfl
  have hseparator : Threads cut sep emit stack true [.separator] stack true := .separator hstack
  have htestPieces : Threads cut sep emit stack false (operand style .assign test) stack false :=
    threads_operand hcut hemit (Nat.le_refl _) htest
  have hbody : Threads cut sep emit stack false (statements style clause) stack false :=
    threads_statements hcut hemit hstack hclause
  exact ((hwhen.cons htestPieces rfl).append (hseparator.cons hbody rfl) rfl).append hseparator rfl

theorem threads_hashPair (hcut : cut ∈ cuts) (hemit : Emits cut style emit) {key value : Node}
    (hkey : Clean key) (hvalue : Clean value) :
    Threads cut sep emit stack false (hashPair style key value) stack false :=
  threads_infix hcut hemit (by decide) (by decide) (Nat.le_refl _) (Nat.le_refl _) hkey hvalue

theorem threads_caseWhen (hcut : cut ∈ cuts) (hemit : Emits cut style emit) {pivot : Node}
    {clauses whens : List Node} {elseClause : Option Node} (hpivot : Clean pivot)
    (hclauses : ∀ clause ∈ clauses, Clean clause) (hwhens : ∀ test ∈ whens, Clean test)
    (helse : ∀ clause ∈ elseClause, Clean clause)
    (hpieces : caseWhen style pivot clauses whens elseClause = .ok pieces) :
    Threads cut sep emit stack false pieces stack false := by
  have hne : Frame.region :: stack ≠ [] := List.cons_ne_nil _ _
  have hcase : Threads cut sep emit stack false [text "case"] (.region :: stack) false :=
    .word (by decide) (by decide) rfl
  have hseparator : Threads cut sep emit (.region :: stack) true [.separator] (.region :: stack)
      true := .separator hne
  have hwhenPieces : Threads cut sep emit (.region :: stack) false
      (List.zipWith (whenClause style) clauses whens).flatten (.region :: stack) true := by
    apply Threads.flatten
    intro pieces hmem
    obtain ⟨clause, hclause, test, htest, rfl⟩ := exists_of_mem_zipWith hmem
    exact threads_whenClause hcut hemit hne (hclauses clause hclause) (hwhens test htest)
  have hassemble {first last : List Piece}
      (hfirst : Threads cut sep emit (.region :: stack) true first (.region :: stack) false)
      (hlast : Threads cut sep emit (.region :: stack) false last (.region :: stack) true) :
      Threads cut sep emit stack false (text "case" :: first ++
        .separator :: (List.zipWith (whenClause style) clauses whens).flatten ++ last ++
          [text "end"]) stack false :=
    (((hcase.cons hfirst rfl).append (hseparator.cons hwhenPieces rfl) rfl).append hlast
      rfl).append threads_end rfl
  unfold caseWhen at hpieces
  split_ifs at hpieces
  obtain rfl := Except.ok.inj hpieces
  refine hassemble ?_ ?_
  · have hblank : Threads cut sep emit (.region :: stack) true [text " "] (.region :: stack) true :=
      .inert hcut (by decide)
    split
    · exact .nilFresh
    · exact hblank.cons (threads_operand hcut hemit (Nat.le_refl _) hpivot) rfl
  · cases elseClause with
    | none => exact .nil
    | some clause =>
        have hword : Threads cut sep emit (.region :: stack) false [text "else"] (.region :: stack)
            false := .word (by decide) (by decide) rfl
        exact ((hword.cons hseparator rfl).append
          (threads_statements hcut hemit hne (helse clause rfl)) rfl).append hseparator rfl

/-- A part of a literal that is no fragment is code in its braces. -/
theorem exists_of_interpolatedPart (stack : List Frame) (hcut : cut ∈ cuts)
    (hemit : Emits cut style emit) {part : Node} (hpart : Clean part)
    (hcode : part.isFragment = false) {content : List Char}
    (hcontent : writePieces sep emit (interpolatedPart style part) = .ok content) :
    ∃ body, Segment cut (.embedding :: stack) false body (.embedding :: stack) false ∧
      content = ['#', '\x7b'] ++ (body ++ ['\x7d']) := by
  have hbody : Threads cut sep emit (.embedding :: stack) false (statements style part)
      (.embedding :: stack) false := threads_statements hcut hemit (List.cons_ne_nil _ _) hpart
  rw [interpolatedPart_of_embedded style hcode] at hcontent
  obtain ⟨body, hbodyText, rfl⟩ := writePieces_enclosed_eq_ok.1 hcontent
  exact ⟨body, hbody body hbodyText, rfl⟩

/-- No part but a fragment starts with a brace. -/
theorem inside_parts (hcut : cut ∈ cuts) (hemit : Emits cut style emit) {parts : List Node}
    (hclean : ∀ part ∈ parts, Clean part)
    (hchain : parts.IsChain fun first second => ¬(first.isFragment ∧ second.isFragment))
    {content : List Char}
    (hcontent : writePieces sep emit (parts.flatMap (interpolatedPart style)) = .ok content) :
    Inside cut stack content ∧
      ((∀ part ∈ parts.head?, part.isFragment = false) →
        ∀ rest, Stops isBrace rest → Stops isBrace (content ++ rest)) := by
  induction parts generalizing content with
  | nil =>
      obtain rfl := (Except.ok.inj hcontent).symm
      exact ⟨fun rest _ => by simp, fun _ rest hrest => hrest⟩
  | cons part parts ih =>
      rw [List.forall_mem_cons] at hclean
      rw [List.flatMap_cons] at hcontent
      obtain ⟨first, others, hfirst, hothers, rfl⟩ := writePieces_append_eq_ok.1 hcontent
      obtain ⟨hinside, hbrace⟩ := ih hclean.2 hchain.tail hothers
      cases hfragment : part.isFragment with
      | true =>
          cases part with
          | string value =>
              obtain rfl := Except.ok.inj (writePieces_text.symm.trans hfirst)
              refine ⟨fun rest hrest => ?_, fun hcode => absurd (hcode _ rfl) (by simp [hfragment])⟩
              have hnext : ∀ part ∈ parts.head?, part.isFragment = false := by
                intro next hnext
                have hrelation := List.isChain_cons.1 hchain |>.1 next hnext
                simpa [hfragment] using hrelation
              rw [List.append_assoc, inside_escape _ _ (hbrace hnext rest hrest),
                hinside rest hrest, map_prepend_map_prepend]
          | _ => cases hfragment
      | false =>
          obtain ⟨body, hbody, rfl⟩ :=
            exists_of_interpolatedPart stack hcut hemit hclean.1 hfragment hfirst
          refine ⟨fun rest hrest => ?_, fun _ rest _ => Text.stops_cons.2 (by decide)⟩
          rw [List.append_assoc, Ruby.scanLiteral_embedded hbody, hinside rest hrest,
            map_prepend_map_prepend]

theorem threads_interpolated (hcut : cut ∈ cuts) (hemit : Emits cut style emit)
    {opening : List Char} (hopening : opening.all Ruby.isInert) {parts : List Node}
    (hclean : ∀ part ∈ parts, Clean part)
    (hchain : parts.IsChain fun first second => ¬(first.isFragment ∧ second.isFragment)) :
    Threads cut sep emit stack false (.text (opening ++ ['"']) ::
      parts.flatMap (interpolatedPart style) ++ [text "\""]) stack false := by
  intro content hcontent
  obtain ⟨inner, hinner, rfl⟩ := writePieces_enclosed_eq_ok.1 hcontent
  have hliteral : Segment cut stack true ('"' :: inner ++ ['"']) stack true :=
    .literal hcut (inside_parts hcut hemit hclean hchain hinner).1
  have hwhole := ((Segment.inert hcut hopening).append hliteral rfl).loosen
  rwa [List.cons_append, ← List.singleton_append, ← List.append_assoc, ← List.append_assoc]
    at hwhole

/-! ### Calls -/

theorem threads_binary (hcut : cut ∈ cuts) (hemit : Emits cut style emit) {method : String}
    (hmethod : Operator.isBinary method) {lhs rhs : Node} (hlhs : Clean lhs) (hrhs : Clean rhs) :
    Threads cut sep emit stack false (operand style (Operator.operandLevels method).1 lhs ++
      text method :: operand style (Operator.operandLevels method).2 rhs) stack false := by
  have table : ∀ name ∈ Operator.binaryNames, name.toList.all Ruby.isInert ∧
      Ruby.opensFresh name.toList = true ∧
      Precedence.assign ≤ (Operator.operandLevels name).1 ∧
      Precedence.assign ≤ (Operator.operandLevels name).2 := by decide
  have hmem : method ∈ Operator.binaryNames := by simpa [Operator.isBinary] using hmethod
  obtain ⟨hinert, hfresh, hleft, hright⟩ := table method hmem
  exact threads_infix hcut hemit hinert hfresh hleft hright hlhs hrhs

theorem threads_call (hcut : cut ∈ cuts) (hemit : Emits cut style emit)
    {receiver : Option Node} (hreceiver : ∀ node ∈ receiver, Clean node) {method : String}
    (hmethod : isName method) {args : List Node} (hargs : ∀ arg ∈ args, Clean arg)
    {params : List String} (hparams : ∀ param ∈ params, isName param) {body forward : Option Node}
    (hbody : ∀ node ∈ body, Clean node) (hforward : ∀ node ∈ forward, Clean node)
    (hpieces : call style receiver method args params body forward = .ok pieces) :
    Threads cut sep emit stack false pieces stack false := by
  have hhead : Threads cut sep emit stack false (callHead style receiver method) stack false :=
    threads_callHead hcut hemit hreceiver hmethod
  have htarget {target : Node} (h : receiver = some target) {least : Precedence}
      (hleast : Precedence.assign ≤ least) :
      Threads cut sep emit stack false (operand style least target) stack false :=
    threads_operand hcut hemit hleast (hreceiver target h)
  have hindex {indices : List Node} (hindices : ∀ index ∈ indices, Clean index) :
      Threads cut sep emit stack true (text "[" :: arguments style indices) (.bracket :: stack)
        false :=
    .cons (.text (.opening hcut (by decide)))
      (threads_arguments hcut hemit (.inl (List.cons_ne_nil _ _)) hindices) rfl
  cases callForm hpieces with
  | operator lhs rhs hbinary =>
      exact threads_binary hcut hemit hbinary (hreceiver lhs rfl) (hargs rhs (by simp))
  | block body =>
      have hne : Frame.brace :: stack ≠ [] := List.cons_ne_nil _ _
      have hbar : Segment cut (.brace :: stack) true ['|'] (.brace :: stack) true :=
        .inert hcut (by decide : ['|'].all Ruby.isInert)
      have hopening : Segment cut stack true "\x7b|".toList (.brace :: stack) true :=
        (Segment.opening hcut (by decide : ('\x7b', Frame.brace) ∈ _)).append hbar rfl
      have hclosing : Threads cut sep emit (.brace :: stack) true [text "\x7d"] stack true :=
        .text (.closing hcut (by decide))
      have hheader : Threads cut sep emit stack true
          [text "\x7b|", text (",".intercalate params), text "|"] (.brace :: stack) true :=
        (Threads.text hopening).cons
          ((threads_parameters hcut hne hparams).cons (Threads.text hbar) rfl) rfl
      have hinner : Threads cut sep emit (.brace :: stack) false
          (if body.isEmptyBody then [] else statements style body) (.brace :: stack) false := by
        split
        · exact Threads.nil.loosen
        · exact threads_statements hcut hemit hne (hbody body rfl)
      have hcall : Threads cut sep emit stack false
          (callHead style receiver method ++ argumentList style args) stack false :=
        hhead.append (threads_argumentList hcut hemit hargs) rfl
      exact (((hcall.append hheader rfl).append hinner rfl).append hclosing rfl).loosen
  | forward block =>
      have hne : Frame.paren :: stack ≠ [] := List.cons_ne_nil _ _
      have hopening : Threads cut sep emit stack true [text "("] (.paren :: stack) true :=
        .text (.opening hcut (by decide))
      have hclosing : Threads cut sep emit (.paren :: stack) true [text ")"] stack true :=
        .text (.closing hcut (by decide))
      have hcomma : Threads cut sep emit (.paren :: stack) true [text ","] (.paren :: stack) true :=
        .text (Segment.symbol ',' (by decide) (.inr hne) rfl)
      have hand : Threads cut sep emit (.paren :: stack) true [text "&"] (.paren :: stack) true :=
        .inert hcut (by decide)
      have hinner : Threads cut sep emit (.paren :: stack) false
          (if args.isEmpty then [] else arguments style args ++ [text ","]) (.paren :: stack)
          true := by
        split
        · exact .nil
        · exact (threads_arguments hcut hemit (.inl hne) hargs).append hcomma rfl
      have hblock : Threads cut sep emit (.paren :: stack) false (operand style .assign block)
          (.paren :: stack) false := threads_operand hcut hemit (Nat.le_refl _) (hforward block rfl)
      exact (((hhead.append (hopening.cons hinner rfl) rfl).append (hand.cons hblock rfl)
        rfl).append hclosing rfl).loosen
  | indexRead =>
      have hclosing : Threads cut sep emit (.bracket :: stack) true [text "]"] stack true :=
        .text (.closing hcut (by decide))
      exact (((htarget rfl (by decide)).append (hindex hargs) rfl).append hclosing rfl).loosen
  | indexWrite target value hvalue =>
      have hclosing : Segment cut (.bracket :: stack) true "]=".toList stack true :=
        (Segment.closing hcut (by decide : (']', Frame.bracket) ∈ _)).append
          (.inert hcut (by decide : ['='].all Ruby.isInert)) rfl
      have hmem : value ∈ args := List.mem_of_getLast? hvalue
      have hassigned : Threads cut sep emit stack false (operand style .assign value) stack
          false := threads_operand hcut hemit (Nat.le_refl _) (hargs value hmem)
      exact ((htarget rfl (by decide)).append
        (hindex fun index h => hargs index (List.mem_of_mem_dropLast h)) rfl).append
          (Threads.cons (.text hclosing) hassigned rfl) rfl
  | negation =>
      have hbang : Threads cut sep emit stack false [text "!"] stack true :=
        .inert hcut (by decide)
      exact hbang.cons (htarget rfl (by decide)) rfl
  | plain => exact hhead.append (threads_argumentList hcut hemit hargs) rfl

/-! ### Definitions, lists and names -/

theorem threads_definition (hcut : cut ∈ cuts) (hemit : Emits cut style emit) {method : String}
    (hmethod : isName method) {params : List String} (hparams : ∀ param ∈ params, isName param)
    {body : Node} (hbody : Clean body) :
    Threads cut sep emit stack false ([text "def ", text method] ++
      (if params.isEmpty then [] else [text "(", text (",".intercalate params), text ")"]) ++
      keywordBody style body) stack false := by
  have hdef : Threads cut sep emit stack false [.text ("def".toList ++ [' '])]
      (.region :: stack) true := .header hcut (by decide) (by decide) rfl
  have hlist : Threads cut sep emit (.region :: stack) true
      (if params.isEmpty then [] else [text "(", text (",".intercalate params), text ")"])
      (.region :: stack) false := by
    split
    · exact .nilFresh
    · exact ((threads_parameters hcut (List.cons_ne_nil _ _) hparams).parens hcut).loosenEnd
  exact ((hdef.cons (.name hcut hmethod) rfl).append hlist rfl).append
    (threads_keywordBody hcut hemit hbody) rfl

theorem threads_classDef (hcut : cut ∈ cuts) (hemit : Emits cut style emit) {path : ConstPath}
    (hpath : ∀ segment ∈ path.segments, isName segment) {superclass : Option ConstPath}
    (hsuperclass : ∀ parent ∈ superclass, ∀ segment ∈ parent.segments, isName segment)
    {body : Node} (hbody : Clean body)
    (hpieces : rule style (.classDef path superclass body) = .ok pieces) :
    Threads cut sep emit stack false pieces stack false := by
  have hclass : Threads cut sep emit stack false [.text ("class".toList ++ [' '])]
      (.region :: stack) true := .header hcut (by decide) (by decide) rfl
  have hassemble {parent : List Piece}
      (hparent : Threads cut sep emit (.region :: stack) true parent (.region :: stack) false) :
      Threads cut sep emit stack false
        ([text "class ", text path.joined] ++ parent ++ keywordBody style body) stack false :=
    ((hclass.cons (threads_path hcut hpath) rfl).append hparent rfl).append
      (threads_keywordBody hcut hemit hbody) rfl
  obtain rfl := Except.ok.inj hpieces
  apply hassemble
  cases superclass with
  | none => exact .nilFresh
  | some superclass =>
      have hless : Threads cut sep emit (.region :: stack) true [text "<"] (.region :: stack)
          true := .inert hcut (by decide)
      exact hless.cons (threads_path hcut (hsuperclass superclass rfl)) rfl

theorem threads_moduleDef (hcut : cut ∈ cuts) (hemit : Emits cut style emit) {path : ConstPath}
    (hpath : ∀ segment ∈ path.segments, isName segment) {body : Node} (hbody : Clean body) :
    Threads cut sep emit stack false ([text "module ", text path.joined] ++ keywordBody style body)
      stack false := by
  have hmodule : Threads cut sep emit stack false [.text ("module".toList ++ [' '])]
      (.region :: stack) true := .header hcut (by decide) (by decide) rfl
  exact (hmodule.cons (threads_path hcut hpath) rfl).append
    (threads_keywordBody hcut hemit hbody) rfl

/-- The commas of a `yield` stand without brackets. -/
theorem threads_yielding (hcut : cut ∈ cuts) (hemit : Emits cut style emit) {args : List Node}
    (hargs : ∀ arg ∈ args, Clean arg) (hcomma : args ≠ [] → stack ≠ [] ∨ ',' ≠ cut) :
    Threads cut sep emit stack false
      (text "yield" :: if args.isEmpty then [] else text " " :: arguments style args) stack
      false := by
  have hyield : Threads cut sep emit stack false [text "yield"] stack false :=
    .word (by decide) (by decide) rfl
  split
  · exact hyield
  · next hne =>
      have hblank : Threads cut sep emit stack true [text " "] stack true :=
        .inert hcut (by decide)
      have hlist := hcomma (by simpa using hne)
      exact hyield.cons (hblank.cons (threads_arguments hcut hemit hlist hargs) rfl) rfl

theorem threads_hash (hcut : cut ∈ cuts) (hemit : Emits cut style emit) {keys values : List Node}
    (hkeys : ∀ key ∈ keys, Clean key) (hvalues : ∀ value ∈ values, Clean value) :
    Threads cut sep emit stack true (text "\x7b" ::
      [text ","].intercalate (List.zipWith (hashPair style) keys values) ++ [text "\x7d"]) stack
      true := by
  have hpairs : Threads cut sep emit (.brace :: stack) false
      ([text ","].intercalate (List.zipWith (hashPair style) keys values)) (.brace :: stack)
      false := by
    apply Threads.commas (.inl (List.cons_ne_nil _ _))
    intro pieces hmem
    obtain ⟨key, hkey, value, hvalue, rfl⟩ := exists_of_mem_zipWith hmem
    exact threads_hashPair hcut hemit (hkeys key hkey) (hvalues value hvalue)
  exact hpairs.enclosed hcut (by decide) (by decide)

theorem threads_constRead (hcut : cut ∈ cuts) (hemit : Emits cut style emit) {base : Option Node}
    (hbase : ∀ node ∈ base, Clean node) {name : String} (hname : isName name)
    (hpieces : rule style (.constRead base name) = .ok pieces) :
    Threads cut sep emit stack false pieces stack false := by
  have hlast : Threads cut sep emit stack false [text name] stack false := .name hcut hname
  obtain rfl := Except.ok.inj hpieces
  cases base with
  | none => exact hlast
  | some base =>
      have hfirst : Threads cut sep emit stack false (operand style .primary base) stack false :=
        threads_operand hcut hemit (by decide) (hbase base rfl)
      have hcolons : Threads cut sep emit stack true [text "::"] stack true :=
        .inert hcut (by decide)
      exact (hfirst.append hcolons rfl).append hlast rfl

theorem threads_symbol (hcut : cut ∈ cuts) {value : String}
    (hvalue : SymbolName.isPlain value → isName value) :
    Threads cut sep emit stack false
      [text ":", if SymbolName.isPlain value then text value
        else .text (DoubleQuoted.quote value)] stack false := by
  have hcolon : Threads cut sep emit stack true [text ":"] stack true := .inert hcut (by decide)
  split
  · next hplain => exact (hcolon.cons (.name hcut (hvalue hplain)) rfl).loosen
  · exact (hcolon.cons (.text (segment_quote hcut value)) rfl).loosen

theorem segment_integer (hcut : cut ∈ cuts) (value : Int) :
    Segment cut stack false (toString value).toList stack false := by
  have hdigits (magnitude : Nat) :
      Segment cut stack false (Nat.toDigits 10 magnitude) stack false := by
    have hdigit := Text.isDigit_of_mem_decimal magnitude
    have hne : Nat.toDigits 10 magnitude ≠ [] := Nat.toDigits_ne_nil
    refine .word hne (fun c hc => ?_) (Ruby.passWord_of_not_keyword ?_ stack)
    · exact Ruby.isWordChar_of_isIdentifierChar (Ruby.isIdentifierChar_of_isDigit (hdigit c hc))
    · exact Ruby.isKeyword_of_isDigit hdigit
  cases value with
  | ofNat magnitude =>
      rw [Int.ofNat_eq_natCast, Text.toList_toString_ofNat]
      exact hdigits magnitude
  | negSucc magnitude =>
      rw [Text.toList_toString_negSucc]
      exact ((Segment.inert hcut (by decide : ['-'].all Ruby.isInert)).append
        (hdigits (magnitude + 1)) rfl).loosen

theorem threads_boolean (hcut : cut ∈ cuts) (value : Bool) :
    Threads cut sep emit stack false [text (style.boolean value)] stack false := by
  have hone : Segment cut stack false ['1'] stack false := .word (by decide) (by decide) rfl
  have hbang : Segment cut stack false ['!'] stack true :=
    .inert hcut (by decide : ['!'].all Ruby.isInert)
  cases style with
  | verbose => cases value <;> exact .word (by decide) (by decide) rfl
  | obfuscated =>
      cases value with
      | false => exact .text (hbang.append hone rfl)
      | true => exact .text (hbang.append (hbang.append hone rfl) rfl)

/-- What holds where a node stands holds of the node it is written as. -/
theorem Sheltered.of_rendered {node other : Node} (hrendered : node.rendered = other.rendered)
    (h : Sheltered cut style stack node) : Sheltered cut style stack other := by
  unfold Sheltered isSingle precedence at h ⊢
  rwa [hrendered] at h

theorem threads_block (hcut : cut ∈ cuts) (hemit : Emits cut style emit) {body : List Node}
    (hnode : Clean (.block body)) (hsheltered : Sheltered cut style stack (.block body)) :
    Threads cut sep emit stack false (statements style (.block body)) stack false := by
  cases body with
  | nil => exact threads_emptyBlock hcut
  | cons statement others =>
      cases others with
      | nil =>
          obtain ⟨-, hchildren⟩ := Node.everywhere_iff.1 hnode
          exact .child hemit (hchildren statement (List.mem_singleton_self _))
            (hsheltered.of_rendered rfl)
      | cons second others =>
          -- Several statements are sheltered by nothing but an open frame.
          rcases hsheltered with hstack | hlevel | hother
          · exact threads_statements hcut hemit hstack hnode
          · exact absurd hlevel (by decide : ¬Precedence.assign ≤ Precedence.modifier)
          · cases hother.2

theorem threads_rule (hcut : cut ∈ cuts) (hemit : Emits cut style emit) {node : Node}
    (hnode : Clean node) (hsheltered : Sheltered cut style stack node)
    (hpieces : rule style node = .ok pieces) :
    Threads cut sep emit stack false pieces stack false := by
  obtain ⟨⟨hnames, hsymbols, hparts⟩, hchildren⟩ := Node.everywhere_iff.1 hnode
  have hoperand {least : Precedence} (hleast : Precedence.assign ≤ least) {child : Node}
      (hchild : child ∈ node.children) :
      Threads cut sep emit stack false (operand style least child) stack false :=
    threads_operand hcut hemit hleast (hchildren child hchild)
  cases node with
  | call receiver method args params body forward =>
      simp only [Node.mem_children_call] at hchildren
      obtain ⟨hmethod, hparams⟩ := List.forall_mem_cons.1 hnames
      exact threads_call hcut hemit (fun child h => hchildren child (.inl h)) hmethod
        (fun child h => hchildren child (.inr (.inl h))) hparams
        (fun child h => hchildren child (.inr (.inr (.inl h))))
        (fun child h => hchildren child (.inr (.inr (.inr h)))) hpieces
  | definition method params body =>
      obtain rfl := Except.ok.inj hpieces
      obtain ⟨hmethod, hparams⟩ := List.forall_mem_cons.1 hnames
      exact threads_definition hcut hemit hmethod hparams
        (hchildren body (List.mem_singleton_self _))
  | ifElse test thenBranch elseBranch =>
      obtain rfl := Except.ok.inj hpieces
      simp only [Node.mem_children_ifElse] at hchildren
      exact threads_conditional hcut hemit (hchildren test (.inl rfl))
        (hchildren thenBranch (.inr (.inl rfl))) fun branch h => hchildren branch (.inr (.inr h))
  | unlessElse test thenBranch elseBranch =>
      obtain rfl := Except.ok.inj hpieces
      simp only [Node.mem_children_unlessElse] at hchildren
      exact threads_conditional hcut hemit (hchildren test (.inl rfl))
        (hchildren thenBranch (.inr (.inl rfl))) fun branch h => hchildren branch (.inr (.inr h))
  | caseWhen pivot clauses whens elseClause =>
      simp only [Node.mem_children_caseWhen] at hchildren
      exact threads_caseWhen hcut hemit (hchildren pivot (.inl rfl))
        (fun child h => hchildren child (.inr (.inl h)))
        (fun child h => hchildren child (.inr (.inr (.inl h))))
        (fun child h => hchildren child (.inr (.inr (.inr h)))) hpieces
  | ret argument =>
      by_cases hargument : argument = .nil
      · subst hargument
        obtain rfl := Except.ok.inj hpieces
        exact threads_noValue hcut
      · obtain rfl := Except.ok.inj ((rule_ret hargument _).symm.trans hpieces)
        exact .child hemit (hchildren argument (List.mem_singleton_self _))
          (hsheltered.of_rendered (rendered_ret hargument))
  | yielding args =>
      obtain rfl := Except.ok.inj hpieces
      refine threads_yielding hcut hemit hchildren fun hargs => ?_
      -- The level of a `yield` is too low to shelter its commas.
      rcases hsheltered with hstack | hlevel | hother
      · exact .inl hstack
      · have hlow : precedence style (.yielding args) = .command :=
          if_neg (by simpa using hargs)
        rw [hlow] at hlevel
        exact absurd hlevel (by decide)
      · exact .inr hother.1.symm
  | boolean value =>
      obtain rfl := Except.ok.inj hpieces
      exact threads_boolean hcut value
  | classDef path superclass body =>
      obtain ⟨hpath, hsuperclass⟩ := List.forall_mem_append.1 hnames
      refine threads_classDef hcut hemit hpath ?_ (hchildren body (List.mem_singleton_self _))
        hpieces
      rintro parent rfl
      simpa using hsuperclass
  | moduleDef path body =>
      obtain rfl := Except.ok.inj hpieces
      exact threads_moduleDef hcut hemit hnames (hchildren body (List.mem_singleton_self _))
  | selfRef =>
      obtain rfl := Except.ok.inj hpieces
      exact .word (by decide) (by decide) rfl
  | logicalAnd lhs rhs | logicalOr lhs rhs =>
      obtain rfl := Except.ok.inj hpieces
      exact threads_infix hcut hemit (by decide) (by decide) (by decide) (by decide)
        (hchildren lhs (.head _)) (hchildren rhs (.tail _ (.head _)))
  | localRead name | instanceRead name =>
      obtain rfl := Except.ok.inj hpieces
      exact .name hcut (hnames name (List.mem_singleton_self _))
  | localWrite name rhs | instanceWrite name rhs =>
      obtain rfl := Except.ok.inj hpieces
      exact threads_assignment hcut hemit (hnames name (List.mem_singleton_self _))
        (hchildren rhs (List.mem_singleton_self _))
  | constRead base name =>
      exact threads_constRead hcut hemit
        (fun node hnode => hchildren node (Option.mem_toList.2 hnode))
        (hnames name (List.mem_singleton_self _)) hpieces
  | constWrite path rhs =>
      obtain rfl := Except.ok.inj hpieces
      have hequals : Threads cut sep emit stack true [text "="] stack true :=
        .inert hcut (by decide)
      exact ((threads_path hcut hnames).cons hequals rfl).append
        (hoperand (Nat.le_refl _) (.head _)) rfl
  | string value =>
      obtain rfl := Except.ok.inj hpieces
      exact (Threads.text (segment_quote hcut value)).loosen
  | integer value =>
      obtain rfl := Except.ok.inj hpieces
      exact .text (segment_integer hcut value.toInt)
  | array elements =>
      obtain rfl := Except.ok.inj hpieces
      exact ((threads_arguments hcut hemit (.inl (List.cons_ne_nil _ _)) hchildren).brackets
        hcut).loosen
  | symbol value =>
      obtain rfl := Except.ok.inj hpieces
      exact threads_symbol hcut fun hplain => hsymbols value (by simp [Node.plainSymbols, hplain])
  | hash keys values =>
      rw [rule] at hpieces
      split_ifs at hpieces
      obtain rfl := Except.ok.inj hpieces
      obtain ⟨hkeys, hvalues⟩ := List.forall_mem_append.1 hchildren
      exact (threads_hash hcut hemit hkeys hvalues).loosen
  | interpolatedString parts =>
      obtain rfl := Except.ok.inj hpieces
      exact threads_interpolated hcut hemit (by decide : [].all Ruby.isInert) hchildren hparts
  | interpolatedSymbol parts =>
      obtain rfl := Except.ok.inj hpieces
      exact threads_interpolated hcut hemit (by decide : [':'].all Ruby.isInert) hchildren hparts
  | including args =>
      cases args with
      | nil => cases hpieces
      | cons included rest =>
          obtain rfl := Except.ok.inj hpieces
          have hinclude : Threads cut sep emit stack false [.text ("include".toList ++ [' '])] stack
              true := .header hcut (by decide) (by decide) rfl
          exact hinclude.cons (hoperand (Nat.le_refl _) (.head _)) rfl
  | nil =>
      obtain rfl := Except.ok.inj hpieces
      exact Threads.nil.loosen
  | block body =>
      obtain rfl := Except.ok.inj hpieces
      exact threads_block hcut hemit hnode hsheltered
  | unmapped construct => cases hpieces

end Pieces

/-- **Nested text.** The text of a node leaves open what was open, and it has no cut at its
outermost level unless the node is a list of statements or, for a comma, a `yield`. -/
theorem emits_write {cut : Char} (hcut : cut ∈ cuts) (config : RenderConfig) (room : Nat) :
    Emits cut config.style (write config room) := by
  induction room with
  | zero =>
      intro node content stack _ _ hcontent
      cases hcontent
  | succ room ih =>
      intro node content stack hnode hsheltered hcontent
      obtain ⟨pieces, hrule, hpieces⟩ := write_succ_eq_ok.1 hcontent
      exact threads_rule hcut ih hnode hsheltered hrule content hpieces

end Render

end RubyPress
