import RubyPress.Proofs.Render.Followers

/-!
# The first letter of a text

A text starts with that of the node in front of it, unless this needs parentheses, and so on down to
a node that starts with a letter of its own. That leftmost node decides whether the text starts with
a brace. The arguments of a `yield` have no brackets around them, so that there a brace in front is
taken for the start of a block.
-/

namespace RubyPress

open Render

namespace Node

/-- A node that is written in front, unless it is put in parentheses there. -/
def bare? (style : LiteralStyle) (least : Precedence) (node : Node) : Option Node :=
  if precedence style node < least then none else some node

/-- The node whose text the text of a node starts with. -/
def leader? (style : LiteralStyle) : Node → Option Node
  | call (some receiver) method _ _ body forward =>
    if Operator.isBinary method then receiver.bare? style (Operator.operandLevels method).1
    else if Operator.isNot method && body.isNone && forward.isNone then none
    else receiver.bare? style .primary
  | ifElse test thenBranch otherwise =>
    if style = .verbose ∧ otherwise.isNone then thenBranch.bare? style .assign
    else test.bare? style (Precedence.ternary + 1)
  | unlessElse _ thenBranch otherwise =>
    if style = .verbose ∧ otherwise.isNone then thenBranch.bare? style .assign else none
  | logicalAnd lhs _ => lhs.bare? style .and
  | logicalOr lhs _ => lhs.bare? style .or
  | constRead (some base) _ => base.bare? style .primary
  | ret nil => none
  | ret argument => some argument
  | block (first :: _) => some first
  | _ => none

theorem eq_of_bare? {style : LiteralStyle} {least : Precedence} {node child : Node}
    (h : node.bare? style least = some child) :
    node = child ∧ operand style least node = [.child child] := by
  unfold bare? at h
  split_ifs at h with hlevel
  obtain rfl := Option.some.inj h
  exact ⟨rfl, if_neg hlevel⟩

theorem mem_children_of_leader? {style : LiteralStyle} {node child : Node}
    (h : node.leader? style = some child) : child ∈ node.children := by
  unfold leader? at h
  split at h
  case h_1 =>
    split_ifs at h <;> obtain ⟨rfl, -⟩ := eq_of_bare? h <;> simp [children]
  case h_2 | h_3 =>
    split_ifs at h <;> obtain ⟨rfl, -⟩ := eq_of_bare? h <;> simp [children]
  case h_4 | h_5 | h_6 =>
    obtain ⟨rfl, -⟩ := eq_of_bare? h
    simp [children]
  case h_8 | h_9 =>
    obtain rfl := Option.some.inj h
    simp [children]
  all_goals cases h

/-- The node that the text of a node starts with and that starts with a letter of its own. -/
def leftmost (style : LiteralStyle) (node : Node) : Node :=
  match _h : node.leader? style with
  | some child => child.leftmost style
  | none => node
termination_by node.height
decreasing_by exact height_lt_of_mem_children (mem_children_of_leader? _h)

theorem leftmost_of_leader? {style : LiteralStyle} {node child : Node}
    (h : node.leader? style = some child) : node.leftmost style = child.leftmost style := by
  rw [leftmost]
  split
  · next other hother => rw [Option.some.inj (hother.symm.trans h)]
  · next hnone => cases hnone.symm.trans h

theorem leftmost_of_leader?_eq_none {style : LiteralStyle} {node : Node}
    (h : node.leader? style = none) : node.leftmost style = node := by
  rw [leftmost]
  split
  · next other hother => cases hother.symm.trans h
  · rfl

def opens (name : String) : Bool := name.toList.head? = some '\x7b'

/-- Whether a node that starts with a letter of its own starts with a brace: a hash, a call that is
nothing but its block, and whatever starts with a name that does. -/
def opensWithBrace : Node → Bool
  | hash _ _ => true
  | localRead name | instanceRead name | localWrite name _ | instanceWrite name _ => opens name
  | constRead none name => opens name
  | constWrite path _ => opens ("::".intercalate path)
  | call none method args _ body _ =>
    opens method || (method = "" && args.isEmpty && body.isSome)
  | _ => false

end Node

namespace Render

variable {config : RenderConfig} {style : LiteralStyle} {node child : Node} {pieces : List Piece}
  {room : Nat} {content : List Char}

theorem exists_of_bare? {least : Precedence} {others : List Piece}
    (h : node.bare? style least = some child) :
    ∃ back, operand style least node ++ others = .child child :: back := by
  rw [(Node.eq_of_bare? h).2]
  exact ⟨others, rfl⟩

/-- A call with a receiver starts with it, which is then the one to lead, unless it is negated. -/
theorem leader?_call {receiver : Node} {body forward : Option Node} {method : String}
    {args : List Node} {params : List String}
    (hpieces : call style (some receiver) method args params body forward = .ok pieces) :
    (∃ least others, pieces = operand style least receiver ++ others ∧
      (Node.call (some receiver) method args params body forward).leader? style =
        receiver.bare? style least) ∨
    ∃ others, pieces = text "!" :: others ∧
      (Node.call (some receiver) method args params body forward).leader? style = none := by
  cases callForm hpieces with
  | operator _ rhs hbinary => exact .inl ⟨_, _, rfl, if_pos hbinary⟩
  | block body hbinary =>
      refine .inl ⟨.primary, _, by simp only [callHead, List.append_assoc]; rfl, ?_⟩
      simp [Node.leader?, hbinary]
  | forward block hbinary =>
      refine .inl ⟨.primary, _, by simp only [callHead, List.append_assoc]; rfl, ?_⟩
      simp [Node.leader?, hbinary]
  | indexRead | indexWrite => exact .inl ⟨.primary, _, List.append_assoc .., rfl⟩
  | negation => exact .inr ⟨_, rfl, rfl⟩
  | plain hbinary _ _ hnot =>
      refine .inl ⟨.primary, _, List.append_assoc .., ?_⟩
      simp [Node.leader?, hbinary, hnot]

theorem exists_of_leader? (h : node.leader? style = some child)
    (hpieces : rule style node = .ok pieces) : ∃ back, pieces = .child child :: back := by
  cases node with
  | call receiver =>
      cases receiver with
      | none => cases h
      | some receiver =>
          obtain ⟨least, others, rfl, hleader⟩ | ⟨others, -, hleader⟩ := leader?_call hpieces
          · exact exists_of_bare? (hleader.symm.trans h)
          · cases hleader.symm.trans h
  | ifElse test thenBranch otherwise =>
      obtain rfl := Except.ok.inj hpieces
      rw [Node.leader?] at h
      cases style <;> cases otherwise <;> simp only [conditional, List.append_assoc] <;>
        exact exists_of_bare? h
  | unlessElse test thenBranch otherwise =>
      obtain rfl := Except.ok.inj hpieces
      rw [Node.leader?] at h
      cases style <;> cases otherwise <;> first | cases h | exact exists_of_bare? h
  | logicalAnd lhs rhs | logicalOr lhs rhs =>
      obtain rfl := Except.ok.inj hpieces
      exact exists_of_bare? h
  | constRead base name =>
      obtain rfl := Except.ok.inj hpieces
      cases base with
      | none => cases h
      | some base =>
          rw [List.append_assoc]
          exact exists_of_bare? h
  | ret argument =>
      cases argument with
      | nil => cases h
      | _ =>
          obtain rfl := Except.ok.inj hpieces
          obtain rfl := Option.some.inj h
          exact ⟨[], rfl⟩
  | block body =>
      cases body with
      | nil => cases h
      | cons first others =>
          obtain rfl := Except.ok.inj hpieces
          obtain rfl := Option.some.inj h
          cases others <;> exact ⟨_, rfl⟩
  | _ => cases h

/-! ### The first letter -/

theorem head?_ne_brace_of_follows {emit : Node → Except Unsupported (List Char)}
    {separator : Separator} {next : Piece} {mark rest : List Char} (hnext : next.Follows)
    (hmark : writePiece separator emit next = .ok mark) :
    (mark ++ rest).head? ≠ some '\x7b' := by
  cases next with
  | child => cases hnext
  | separator =>
      obtain rfl := Except.ok.inj hmark
      cases separator <;> simp [Separator.text]
  | text content =>
      have table : ∀ mark ∈ followers, mark.toList ≠ [] ∧ mark.toList.head? ≠ some '\x7b' := by
        decide
      obtain ⟨follower, hfollower, rfl⟩ := hnext
      obtain rfl := Except.ok.inj hmark
      obtain ⟨hne, hhead⟩ := table follower hfollower
      rwa [List.head?_append_of_ne_nil _ hne]

theorem head?_append_eq_some_iff {α : Type} {letter : α} {front back : List α}
    (h : back.head? ≠ some letter) :
    (front ++ back).head? = some letter ↔ front.head? = some letter := by
  cases front with
  | nil => exact iff_of_false h nofun
  | cons first front => rfl

/-- A text that starts with a child has a brace in front exactly if the child has. -/
theorem head?_child_cons_iff {emit : Node → Except Unsupported (List Char)} {separator : Separator}
    {back : List Piece} (hfollowed : Followed (.child child :: back))
    (hcontent : writePieces separator emit (.child child :: back) = .ok content) :
    ∃ inner, emit child = .ok inner ∧
      (content.head? = some '\x7b' ↔ inner.head? = some '\x7b') := by
  obtain ⟨inner, right, hinner, hright, rfl⟩ := writePieces_cons_eq_ok.1 hcontent
  refine ⟨inner, hinner, head?_append_eq_some_iff ?_⟩
  have hback : Followed ([] ++ .child child :: back) := hfollowed
  cases back with
  | nil =>
      obtain rfl := Except.ok.inj hright
      nofun
  | cons next back =>
      obtain ⟨mark, rest, hmark, -, rfl⟩ := writePieces_cons_eq_ok.1 hright
      exact head?_ne_brace_of_follows (hback.follows next rfl) hmark

/-- Whatever the children are written as, the text of the pieces starts with a brace exactly if the
condition holds. -/
def Starts (pieces : List Piece) (brace : Prop) : Prop :=
  ∀ (separator : Separator) (emit : Node → Except Unsupported (List Char)) (content : List Char),
    writePieces separator emit pieces = .ok content → (content.head? = some '\x7b' ↔ brace)

namespace Starts

variable {brace : Prop} {others : List Piece}

theorem of_iff {other : Prop} (h : Starts pieces brace) (hiff : brace ↔ other) :
    Starts pieces other :=
  propext hiff ▸ h

theorem nil : Starts [] False := by
  intro separator emit content hcontent
  obtain rfl := Except.ok.inj hcontent
  simp

theorem letters {letters : List Char} (h : letters ≠ []) :
    Starts (.text letters :: pieces) (letters.head? = some '\x7b') := by
  intro separator emit content hcontent
  obtain ⟨rest, -, rfl⟩ := writePieces_text_cons_eq_ok.1 hcontent
  rw [List.head?_append_of_ne_nil _ h]

theorem fixed (content : String) (hne : content.toList ≠ [])
    (hbrace : content.toList.head? ≠ some '\x7b') : Starts (text content :: pieces) False :=
  (letters hne).of_iff (iff_of_false hbrace not_false)

/-- A name may be empty, and then what comes behind it is in front. -/
theorem name (name : String) (h : Starts pieces brace) :
    Starts (text name :: pieces) (Node.opens name ∨ name = "" ∧ brace) := by
  by_cases hname : name = ""
  · subst hname
    intro separator emit content hcontent
    obtain ⟨rest, hrest, heq⟩ := writePieces_text_cons_eq_ok.1 hcontent
    obtain rfl : content = rest := heq
    have hopens : ¬Node.opens "" := by decide
    simpa [hopens] using h separator emit content hrest
  · refine (letters ?_).of_iff (by simp [Node.opens, hname])
    simpa using hname

theorem named (name : String) (h : Starts pieces False) :
    Starts (text name :: pieces) (Node.opens name) :=
  (Starts.name name h).of_iff (by simp)

end Starts

theorem starts_parenthesized {least : Precedence} {others : List Piece}
    (h : node.bare? style least = none) : Starts (operand style least node ++ others) False := by
  unfold Node.bare? at h
  rw [operand, if_pos]
  · exact .fixed "(" (by decide) (by decide)
  · by_contra hlevel
    rw [if_neg hlevel] at h
    cases h

theorem starts_argumentList (args : List Node) {brace : Prop} {others : List Piece}
    (h : Starts others brace) : Starts (argumentList style args ++ others) (args = [] ∧ brace) := by
  cases args with
  | nil => exact h.of_iff (by simp)
  | cons first rest => exact (Starts.fixed "(" (by decide) (by decide)).of_iff (by simp)

theorem starts_call {receiver body forward : Option Node} {method : String} {args : List Node}
    {params : List String}
    (h : (Node.call receiver method args params body forward).leader? style = none)
    (hpieces : call style receiver method args params body forward = .ok pieces) :
    Starts pieces (Node.call receiver method args params body forward).opensWithBrace := by
  cases receiver with
  | none =>
      cases callForm hpieces with
      | block body hbinary =>
          simp only [callHead, List.append_assoc, List.cons_append, List.nil_append]
          have hblock (others : List Piece) : Starts (text "\x7b|" :: others) True :=
            (Starts.letters (by decide)).of_iff (by decide)
          refine (Starts.name method (starts_argumentList args (hblock _))).of_iff ?_
          simp [Node.opensWithBrace]
      | forward block hbinary =>
          refine (Starts.named method (.fixed "(" (by decide) (by decide))).of_iff ?_
          simp [Node.opensWithBrace]
      | plain =>
          have hargs : Starts (argumentList style args ++ []) (args = [] ∧ False) :=
            starts_argumentList args .nil
          rw [List.append_nil] at hargs
          refine (Starts.named method (hargs.of_iff (by simp))).of_iff ?_
          simp [Node.opensWithBrace]
  | some receiver =>
      refine (show Starts pieces False from ?_).of_iff (by simp [Node.opensWithBrace])
      obtain ⟨least, others, rfl, hleader⟩ | ⟨others, rfl, -⟩ := leader?_call hpieces
      · exact starts_parenthesized (hleader.symm.trans h)
      · exact .fixed "!" (by decide) (by decide)

theorem starts_conditional {negate : Bool} {test thenBranch : Node} {elseBranch : Option Node}
    (hthen : style = .verbose ∧ elseBranch.isNone → thenBranch.bare? style .assign = none)
    (htest : ¬(style = .verbose ∧ elseBranch.isNone) → negate ∨
      test.bare? style (Precedence.ternary + 1) = none) :
    Starts (conditional style negate test thenBranch elseBranch) False := by
  have hternary (hstyle : ¬(style = .verbose ∧ elseBranch.isNone)) (others : List Piece) :
      Starts (condition style negate (Precedence.ternary + 1) test ++ others) False := by
    cases negate with
    | true => exact .fixed "!(" (by decide) (by decide)
    | false => exact starts_parenthesized ((htest hstyle).resolve_left (by decide))
  unfold conditional
  split
  · exact starts_parenthesized (hthen ⟨rfl, rfl⟩)
  · next hstyle =>
      rw [List.append_assoc]
      refine hternary ?_ _
      rintro ⟨rfl, hnone⟩
      exact hstyle rfl (Option.isNone_iff_eq_none.1 hnone)

theorem starts_integer (value : Int) : Starts [text (toString value)] False := by
  refine (Starts.letters (Text.toList_toString_ne_nil value)).of_iff (iff_of_false ?_ not_false)
  intro hbrace
  obtain ⟨rest, hrest⟩ := List.head?_eq_some_iff.1 hbrace
  have hmem : '\x7b' ∈ (toString value).toList := hrest ▸ List.mem_cons_self ..
  exact absurd (isBare_of_mem_toString hmem) (by decide)

theorem starts_assignment (target : Variable) (name : String) (rhs : Node) :
    Starts (assignment style target name rhs) (Node.opens name) := by
  unfold assignment
  split
  · next operator value habbreviation =>
      have table : ∀ operator ∈ "&&" :: "||" :: Operator.compoundNames,
          operator.toList ≠ [] ∧ operator.toList.head? ≠ some '\x7b' := by decide
      obtain ⟨hne, hbrace⟩ := table operator (abbreviation?_cases habbreviation).2
      exact .named name (.fixed operator hne hbrace)
  · exact .named name (.fixed "=" (by decide) (by decide))

theorem starts_of_leader?_eq_none (h : node.leader? style = none)
    (hpieces : rule style node = .ok pieces) : Starts pieces node.opensWithBrace := by
  have hclosed (hnode : node.opensWithBrace = false) (hstarts : Starts pieces False) :
      Starts pieces node.opensWithBrace := hstarts.of_iff (by simp [hnode])
  cases node with
  | call => exact starts_call h hpieces
  | hash keys values =>
      rw [rule] at hpieces
      split_ifs at hpieces
      obtain rfl := Except.ok.inj hpieces
      exact (Starts.letters (by decide)).of_iff (iff_of_true (by decide) rfl)
  | localRead name | instanceRead name =>
      obtain rfl := Except.ok.inj hpieces
      exact .named name .nil
  | localWrite name rhs | instanceWrite name rhs =>
      obtain rfl := Except.ok.inj hpieces
      exact starts_assignment _ name rhs
  | constRead base name =>
      obtain rfl := Except.ok.inj hpieces
      cases base with
      | none => exact .named name .nil
      | some base =>
          refine hclosed rfl ?_
          rw [List.append_assoc]
          exact starts_parenthesized h
  | constWrite path rhs =>
      obtain rfl := Except.ok.inj hpieces
      exact .named _ (.fixed "=" (by decide) (by decide))
  | ifElse test thenBranch otherwise =>
      obtain rfl := Except.ok.inj hpieces
      rw [Node.leader?] at h
      refine hclosed rfl (starts_conditional (fun hstyle => ?_) fun hstyle => .inr ?_)
      · rwa [if_pos hstyle] at h
      · rwa [if_neg hstyle] at h
  | unlessElse test thenBranch otherwise =>
      obtain rfl := Except.ok.inj hpieces
      rw [Node.leader?] at h
      refine hclosed rfl (starts_conditional (fun hstyle => ?_) fun _ => .inl rfl)
      rwa [if_pos hstyle] at h
  | logicalAnd lhs rhs | logicalOr lhs rhs =>
      obtain rfl := Except.ok.inj hpieces
      exact hclosed rfl (starts_parenthesized h)
  | ret argument =>
      cases argument <;> cases h
      obtain rfl := Except.ok.inj hpieces
      refine hclosed rfl ?_
      cases style <;> exact .fixed _ (by decide) (by decide)
  | block body =>
      cases body <;> cases h
      obtain rfl := Except.ok.inj hpieces
      refine hclosed rfl ?_
      cases style with
      | verbose => exact .fixed "\"\"" (by decide) (by decide)
      | obfuscated => exact (Starts.named "" .nil).of_iff (by decide)
  | including args =>
      cases args with
      | nil => cases hpieces
      | cons included rest =>
          obtain rfl := Except.ok.inj hpieces
          exact hclosed rfl (.fixed _ (by decide) (by decide))
  | caseWhen =>
      refine hclosed rfl ?_
      rw [rule] at hpieces
      unfold caseWhen at hpieces
      split_ifs at hpieces
      obtain rfl := Except.ok.inj hpieces
      exact .fixed "case" (by decide) (by decide)
  | nil =>
      obtain rfl := Except.ok.inj hpieces
      exact hclosed rfl .nil
  | boolean value =>
      obtain rfl := Except.ok.inj hpieces
      refine hclosed rfl ?_
      cases style <;> cases value <;> exact .fixed _ (by decide) (by decide)
  | integer value =>
      obtain rfl := Except.ok.inj hpieces
      exact hclosed rfl (starts_integer _)
  | string value =>
      obtain rfl := Except.ok.inj hpieces
      refine hclosed rfl ((Starts.letters ?_).of_iff (iff_of_false ?_ not_false)) <;>
        simp [DoubleQuoted.quote]
  | unmapped => cases hpieces
  | _ =>
      obtain rfl := Except.ok.inj hpieces
      exact hclosed rfl (.fixed _ (by decide) (by decide))

/-- **The leftmost node decides how a text starts.** -/
theorem head?_write_iff (hcontent : write config room node = .ok content) :
    content.head? = some '\x7b' ↔ (node.leftmost config.style).opensWithBrace := by
  induction node using Node.leftmost.induct config.style generalizing room content with
  | case1 node child hleader ih =>
      obtain ⟨less, pieces, rfl, hrule, hpieces⟩ := exists_of_write hcontent
      obtain ⟨back, rfl⟩ := exists_of_leader? hleader hrule
      obtain ⟨inner, hinner, hhead⟩ := head?_child_cons_iff (followed_rule hrule) hpieces
      rw [hhead, ih hinner, Node.leftmost_of_leader? hleader]
  | case2 node hleader =>
      obtain ⟨less, pieces, rfl, hrule, hpieces⟩ := exists_of_write hcontent
      rw [Node.leftmost_of_leader?_eq_none hleader]
      exact starts_of_leader?_eq_none hleader hrule _ _ _ hpieces

theorem exists_arguments_cons (first : Node) (rest : List Node) :
    ∃ back, arguments style (first :: rest) = operand style .assign first ++ back := by
  unfold arguments
  cases rest with
  | nil => exact ⟨[], by simp⟩
  | cons second rest =>
      rw [List.map_cons, List.map_cons, List.intercalate_cons_cons, List.append_assoc]
      exact ⟨_, rfl⟩

/-- A list of arguments starts with a brace exactly if its first argument has no parentheses and
does. -/
theorem head?_arguments_iff {first : Node} {rest : List Node}
    (hcontent : writePieces config.separator (write config room)
      (arguments config.style (first :: rest)) = .ok content) :
    content.head? = some '\x7b' ↔ Precedence.assign ≤ precedence config.style first ∧
      (first.leftmost config.style).opensWithBrace := by
  obtain ⟨back, hback⟩ : ∃ back, arguments config.style (first :: rest) = _ ++ back :=
    exists_arguments_cons first rest
  have hfollowed : Followed (arguments config.style (first :: rest)) := followed_arguments _
  rw [hback] at hcontent hfollowed
  by_cases hloose : precedence config.style first < Precedence.assign
  · have hstarts : Starts (operand config.style .assign first ++ back) False :=
      starts_parenthesized (if_pos hloose)
    rw [hstarts _ _ _ hcontent]
    exact iff_of_false not_false fun h => (not_le.2 hloose) h.1
  · rw [operand, if_neg hloose] at hcontent hfollowed
    obtain ⟨inner, hinner, hhead⟩ := head?_child_cons_iff hfollowed hcontent
    rw [hhead, head?_write_iff hinner, and_iff_right (not_lt.1 hloose)]

theorem Stands.head?_after_ne_brace {follower : Option Piece} {before after : List Char}
    (h : Stands config node pieces follower before after) (hpieces : Followed pieces) :
    after.head? ≠ some '\x7b' := by
  cases follower with
  | none =>
      obtain rfl := h.exists_after.1 rfl
      nofun
  | some next =>
      obtain ⟨mark, rest, hmark, rfl⟩ := h.exists_after.2 next rfl
      exact head?_ne_brace_of_follows (h.follows hpieces next rfl) hmark

end Render

/-- **Which arguments of a `yield` start with a brace.** Wherever a `yield` with arguments stands,
at any entry point, a brace comes behind it exactly if the first argument has no parentheses around
it and the node in front of its text starts with one. -/
theorem yield_brace_iff {config : RenderConfig} {tree : Node} {pieces : List Piece}
    {content : String} (hcontent : Rendering config tree pieces content) :
    (∀ statement ∈ tree.statements, ∀ first rest,
      statement.Writes config.style (.yielding (first :: rest)) →
        ∃ follower before after,
          Stands config (.yielding (first :: rest)) pieces follower before after) ∧
    ∀ first rest follower before after,
      Stands config (.yielding (first :: rest)) pieces follower before after →
        ∃ args, renderNode config (.yielding (first :: rest)) =
            .ok (String.ofList ("yield ".toList ++ args)) ∧
          content.toList = before ++ ("yield ".toList ++ (args ++ after)) ∧
          ((args ++ after).head? = some '\x7b' ↔
            Precedence.assign ≤ precedence config.style first ∧
              (first.leftmost config.style).opensWithBrace) := by
  have hyield {room : Nat} {first : Node} {rest : List Node} {whole : List Char}
      (h : write config room (.yielding (first :: rest)) = .ok whole) :
      ∃ less args, whole = "yield ".toList ++ args ∧
        writePieces config.separator (write config less)
          (arguments config.style (first :: rest)) = .ok args := by
    obtain ⟨less, pieces, -, hrule, hpieces⟩ := exists_of_write h
    obtain rfl := Except.ok.inj hrule
    obtain ⟨behind, hbehind, rfl⟩ := writePieces_text_cons_eq_ok.1 hpieces
    obtain ⟨args, hargs, rfl⟩ := writePieces_text_cons_eq_ok.1 hbehind
    exact ⟨less, args, rfl, hargs⟩
  refine ⟨fun statement hstatement first rest hwrites => ?_,
    fun first rest follower before after h => ?_⟩
  · refine hcontent.exists_stands hstatement hwrites fun whole hwhole => ?_
    obtain ⟨less, args, rfl, -⟩ := hyield hwhole
    simp
  · obtain ⟨whole, hwhole, heq⟩ := h.exists_text hcontent.writePieces_eq
    obtain ⟨less, args, rfl, hargs⟩ := hyield hwhole
    refine ⟨args, ?_, by rw [heq, List.append_assoc], ?_⟩
    · rw [renderNode_eq_ok, String.toList_ofList, hwhole]
    · rw [head?_append_eq_some_iff (h.head?_after_ne_brace hcontent.followed)]
      exact head?_arguments_iff hargs

/-- A hash in front of a modifier, which needs parentheses. -/
theorem yield_brace_iff_of_modifier :
    let tree : Node := .yielding [.ifElse (.localRead "x") (.hash [] []) none]
    Rendering .readable tree [.child tree] "yield (\x7b\x7d if x)" ∧
      Stands .readable tree [.child tree] none [] [] ∧
      ∃ args, "yield (\x7b\x7d if x)".toList = "yield ".toList ++ args ∧
        args.head? ≠ some '\x7b' := by
  intro tree
  have hcontent : Rendering .readable tree [.child tree] "yield (\x7b\x7d if x)" := .node (by cbv)
  have hstands : Stands .readable tree [.child tree] none [] [] :=
    @Stands.here _ _ [] [] _ _ rfl rfl
  obtain ⟨args, -, hargs, hiff⟩ := (yield_brace_iff hcontent).2 _ _ _ _ _ hstands
  rw [List.append_nil] at hargs hiff
  refine ⟨hcontent, hstands, args, hargs, fun hbrace => ?_⟩
  have hloose : ¬Precedence.assign ≤
      precedence .verbose (.ifElse (.localRead "x") (.hash [] []) none) := by decide
  exact hloose (hiff.1 hbrace).1

/-- A hash, and an element of one that is compared. -/
theorem yield_starts_with_brace :
    renderNode .readable (.yielding [.hash [.symbol "a"] [.integer 1]]) =
        .ok "yield \x7b:a=>1\x7d" ∧
      renderNode .readable
          (.yielding [.binary (.invoke (.hash [] []) "[]" [.integer 1]) "==" (.integer 2)]) =
        .ok "yield \x7b\x7d[1]==2" := by
  refine ⟨?_, ?_⟩ <;> cbv

end RubyPress
