import RubyPress.Proofs.Render.Writing
import RubyPress.Proofs.Ruby.Phrase
import RubyPress.Proofs.Tree.Children

/-!
# Operators are grouped as in the tree

Operator trees are variables, numbers, Booleans, assignments, operators and conditionals, nested in
any way. The text of such a tree leaves out all parentheses but those that the writer's own levels
ask for, and it abbreviates assignments. It is nevertheless a phrase of the grammar, at just the
level the writer takes it to have (`OperatorTree.spells`), and so the reader finds the tree again,
up to what the style writes in another way (`canonical`).
-/

namespace RubyPress.Render

open Ruby (Token Phrase spell target? combine strength?)
open SymbolName (isIdentifier)

def IsLocalName (name : String) : Prop :=
  isIdentifier name.toList ∧ Ruby.isKeyword name = false

def IsFieldName (name : String) : Prop :=
  ∃ letters, name.toList = '@' :: letters ∧ isIdentifier letters

/-- Trees that are written with operators only. -/
inductive OperatorTree : Node → Prop where
  | localRead {name : String} (hname : IsLocalName name) : OperatorTree (.localRead name)
  | instanceRead {name : String} (hname : IsFieldName name) : OperatorTree (.instanceRead name)
  | integer (value : Int64) : OperatorTree (.integer value)
  | boolean (value : Bool) : OperatorTree (.boolean value)
  | localWrite {name : String} {rhs : Node} (hname : IsLocalName name) (hrhs : OperatorTree rhs) :
      OperatorTree (.localWrite name rhs)
  | instanceWrite {name : String} {rhs : Node} (hname : IsFieldName name)
      (hrhs : OperatorTree rhs) : OperatorTree (.instanceWrite name rhs)
  | binary {lhs rhs : Node} {name : String} {params : List String}
      (hname : name ∈
        ["+", "-", "*", "/", "**", "%", "^", ">", "<", "<=", ">=", "<=>", "==", "==="])
      (hlhs : OperatorTree lhs) (hrhs : OperatorTree rhs) :
      OperatorTree (.call (some lhs) name [rhs] params none none)
  | negation {subject : Node} {params : List String} (hsubject : OperatorTree subject) :
      OperatorTree (.call (some subject) "!" [] params none none)
  | logicalAnd {lhs rhs : Node} (hlhs : OperatorTree lhs) (hrhs : OperatorTree rhs) :
      OperatorTree (.logicalAnd lhs rhs)
  | logicalOr {lhs rhs : Node} (hlhs : OperatorTree lhs) (hrhs : OperatorTree rhs) :
      OperatorTree (.logicalOr lhs rhs)
  | ifElse {test yes : Node} {no : Option Node} (htest : OperatorTree test)
      (hyes : OperatorTree yes) (hno : ∀ node ∈ no, OperatorTree node) :
      OperatorTree (.ifElse test yes no)
  | unlessElse {test yes : Node} {no : Option Node} (htest : OperatorTree test)
      (hyes : OperatorTree yes) (hno : ∀ node ∈ no, OperatorTree node) :
      OperatorTree (.unlessElse test yes no)
  | ret {argument : Node} (hargument : OperatorTree argument) : OperatorTree (.ret argument)
  | block {statement : Node} (hstatement : OperatorTree statement) :
      OperatorTree (.block [statement])

/-- A Boolean as the style writes it: `true` and `false`, or `!!1` and `!1`. -/
def canonicalBoolean : LiteralStyle → Bool → Node
  | .verbose, value => .boolean value
  | .obfuscated, true => (Node.integer 1).negation.negation
  | .obfuscated, false => (Node.integer 1).negation

/-- The missing branch of a conditional, which only a ternary has to write. -/
def canonicalMissing : LiteralStyle → Option Node
  | .verbose => none
  | .obfuscated => some .nil

/-- The tree that the text of an operator tree stands for: without wrappers and without the
parameters of a block that is not there, with a negated `if` for `unless`, and with what the style
writes for Booleans and missing branches. -/
def canonical (style : LiteralStyle) : Node → Node
  | .boolean value => canonicalBoolean style value
  | .localWrite name rhs => .localWrite name (canonical style rhs)
  | .instanceWrite name rhs => .instanceWrite name (canonical style rhs)
  | .call (some lhs) name [rhs] _ none none => (canonical style lhs).binary name (canonical style rhs)
  | .call (some subject) name [] _ none none => (canonical style subject).invoke name []
  | .logicalAnd lhs rhs => .logicalAnd (canonical style lhs) (canonical style rhs)
  | .logicalOr lhs rhs => .logicalOr (canonical style lhs) (canonical style rhs)
  | .ifElse test yes none =>
    .ifElse (canonical style test) (canonical style yes) (canonicalMissing style)
  | .ifElse test yes (some no) =>
    .ifElse (canonical style test) (canonical style yes) (some (canonical style no))
  | .unlessElse test yes none =>
    .ifElse (canonical style test).negation (canonical style yes) (canonicalMissing style)
  | .unlessElse test yes (some no) =>
    .ifElse (canonical style test).negation (canonical style yes) (some (canonical style no))
  | .ret argument => canonical style argument
  | .block [statement] => canonical style statement
  | node => node
termination_by structural node => node

/-- The writer's levels are those of the grammar. -/
theorem strength?_of_isBinary {name : String} (hname : Operator.isBinary name) :
    ∃ grouping, strength? name = some (Operator.precedence name, grouping) ∧
      Operator.operandLevels name = (grouping.leftLeast (Operator.precedence name),
        grouping.rightLeast (Operator.precedence name)) := by
  have table : ∀ name ∈ Operator.binaryNames, (strength? name).map (fun (level, grouping) =>
      (level, grouping.leftLeast level, grouping.rightLeast level)) =
        some (Operator.precedence name, Operator.operandLevels name) := by decide
  have hrow := table name (by simpa [Operator.isBinary] using hname)
  obtain ⟨⟨level, grouping⟩, hstrength, hlevels⟩ := Option.map_eq_some_iff.1 hrow
  obtain ⟨rfl, hoperands⟩ := Prod.mk.inj hlevels
  exact ⟨grouping, hstrength, hoperands.symm⟩

theorem operandLevels_le {name : String} (hname : Operator.isBinary name) :
    (Operator.operandLevels name).1 ≤ Precedence.primary ∧
      (Operator.operandLevels name).2 ≤ Precedence.primary := by
  have table : ∀ name ∈ Operator.binaryNames,
      (Operator.operandLevels name).1 ≤ Precedence.primary ∧
        (Operator.operandLevels name).2 ≤ Precedence.primary := by decide
  exact table name (by simpa [Operator.isBinary] using hname)

theorem combine_of_isBinary {name : String} (hname : Operator.isBinary name) (lhs rhs : Node) :
    combine name lhs rhs = lhs.binary name rhs := by
  have table : ∀ name ∈ Operator.binaryNames, name ≠ "&&" ∧ name ≠ "||" := by decide
  obtain ⟨hand, hor⟩ := table name (by simpa [Operator.isBinary] using hname)
  rw [combine, if_neg hand, if_neg hor]

theorem becomes_valid {name : String} (hname : name ∈ "&&" :: "||" :: Operator.compoundNames) :
    (Token.becomes name).Valid ∧ name ≠ "" := by
  have table : ∀ name ∈ "&&" :: "||" :: Operator.compoundNames,
      (name ++ "=", Token.becomes name) ∈ Ruby.symbols ∧ name ≠ "" := by decide
  exact table name hname

/-! ### Phrases of pieces -/

/-- The text of the pieces is a phrase of the given level for the given tree. -/
def Spells (config : RenderConfig) (room level : Nat) (pieces : List Piece) (tree : Node) : Prop :=
  ∃ tokens, Phrase level tokens tree ∧
    writePieces config.separator (write config room) pieces = .ok (spell tokens)

section Spelling

variable {config : RenderConfig} {room : Nat}

theorem Spells.child {level : Nat} {node tree : Node} {pieces : List Piece}
    (hrule : rule config.style node = .ok pieces) (h : Spells config room level pieces tree) :
    Spells config (room + 1) level [.child node] tree := by
  obtain ⟨tokens, phrase, hwrite⟩ := h
  refine ⟨tokens, phrase, writePieces_child_eq_ok.2 ?_⟩
  rw [write_succ hrule, hwrite]

theorem Spells.token {level : Nat} (token : Token) {content : String} {tree : Node}
    (phrase : Phrase level [token] tree) (htoken : token.spelling = content.toList) :
    Spells config room level [text content] tree := by
  refine ⟨[token], phrase, ?_⟩
  rw [Ruby.spell_cons, Ruby.spell_nil, List.append_nil, htoken]
  exact writePieces_text

theorem Spells.group {level : Nat} {node tree : Node}
    (h : Spells config room level [.child node] tree) :
    Spells config room Precedence.primary [text "(", .child node, text ")"] tree := by
  obtain ⟨tokens, phrase, hwrite⟩ := h
  refine ⟨_, phrase.group, ?_⟩
  rw [Ruby.spell_append, Ruby.spell_cons, Ruby.spell_cons, List.append_assoc]
  exact writePieces_text_cons (writePieces_append hwrite writePieces_text)

/-- In parentheses or not, an operand has the level its place needs. -/
theorem Spells.operand {least : Nat} {node tree : Node}
    (h : Spells config room (precedence config.style node) [.child node] tree)
    (hleast : least ≤ Precedence.primary) :
    ∃ level, least ≤ level ∧ Spells config room level (operand config.style least node) tree := by
  unfold Render.operand
  split
  · exact ⟨_, hleast, h.group⟩
  · next hlevel => exact ⟨_, Nat.not_lt.1 hlevel, h⟩

theorem Spells.negation {level : Nat} {pieces : List Piece} {tree : Node}
    (h : Spells config room level pieces tree) (hlevel : Precedence.unary ≤ level) :
    Spells config room Precedence.unary (text "!" :: pieces) tree.negation := by
  obtain ⟨tokens, phrase, hwrite⟩ := h
  refine ⟨_, phrase.negation hlevel, ?_⟩
  rw [Ruby.spell_cons]
  exact writePieces_text_cons hwrite

theorem Spells.binary {level : Nat} {grouping : Ruby.Grouping} {name : String}
    {lhs rhs left right : Node} (hname : strength? name = some (level, grouping))
    (hlhs : Spells config room (precedence config.style lhs) [.child lhs] left)
    (hleft : grouping.leftLeast level ≤ Precedence.primary)
    (hrhs : Spells config room (precedence config.style rhs) [.child rhs] right)
    (hright : grouping.rightLeast level ≤ Precedence.primary) :
    Spells config room level
      (Render.operand config.style (grouping.leftLeast level) lhs ++
        text name :: Render.operand config.style (grouping.rightLeast level) rhs)
      (combine name left right) := by
  obtain ⟨leftLevel, hleftLevel, leftTokens, leftPhrase, hfirst⟩ := hlhs.operand hleft
  obtain ⟨rightLevel, hrightLevel, rightTokens, rightPhrase, hsecond⟩ := hrhs.operand hright
  refine ⟨_, leftPhrase.binary hname hleftLevel rightPhrase hrightLevel, ?_⟩
  rw [Ruby.spell_append, Ruby.spell_cons]
  exact writePieces_append hfirst (writePieces_text_cons hsecond)

theorem Spells.ternary {testLevel yesLevel noLevel : Nat} {testPieces yesPieces noPieces : List Piece}
    {test yes no : Node} (htest : Spells config room testLevel testPieces test)
    (htestLevel : Precedence.ternary + 1 ≤ testLevel)
    (hyes : Spells config room yesLevel yesPieces yes) (hyesLevel : Precedence.ternary ≤ yesLevel)
    (hno : Spells config room noLevel noPieces no) (hnoLevel : Precedence.ternary ≤ noLevel) :
    Spells config room Precedence.ternary
      (testPieces ++ text " ? " :: yesPieces ++ text " : " :: noPieces)
      (.ifElse test yes (some no)) := by
  obtain ⟨testTokens, testPhrase, hwriteTest⟩ := htest
  obtain ⟨yesTokens, yesPhrase, hwriteYes⟩ := hyes
  obtain ⟨noTokens, noPhrase, hwriteNo⟩ := hno
  refine ⟨_, testPhrase.ternary htestLevel yesPhrase ((by decide : 2 ≤ 3).trans hyesLevel) noPhrase
    hnoLevel, ?_⟩
  rw [Ruby.spell_append, Ruby.spell_cons, Ruby.spell_append, Ruby.spell_cons, List.append_assoc]
  exact writePieces_append hwriteTest (writePieces_text_cons
    (writePieces_append hwriteYes (writePieces_text_cons hwriteNo)))

theorem Spells.modifier {yesLevel testLevel : Nat} {yesPieces testPieces : List Piece}
    {yes test : Node} (hyes : Spells config room yesLevel yesPieces yes)
    (htest : Spells config room testLevel testPieces test)
    (htestLevel : Precedence.assign ≤ testLevel) :
    Spells config room Precedence.modifier (yesPieces ++ text " if " :: testPieces)
      (.ifElse test yes none) := by
  obtain ⟨yesTokens, yesPhrase, hwriteYes⟩ := hyes
  obtain ⟨testTokens, testPhrase, hwriteTest⟩ := htest
  refine ⟨_, yesPhrase.modifier testPhrase (Nat.lt_of_lt_of_le (by decide) htestLevel), ?_⟩
  rw [Ruby.spell_append, Ruby.spell_cons]
  exact writePieces_append hwriteYes (writePieces_text_cons hwriteTest)

theorem Spells.assignment {token : Token} {read : Node} {write : Node → Node}
    {operator : String} {level : Nat} {head pieces : List Piece} {value : Node}
    (hvalid : token.Valid) (htoken : target? token = some (read, write))
    (hoperator : (Token.becomes operator).Valid)
    (hhead : writePieces config.separator (Render.write config room) head =
      .ok (spell [token, .becomes operator]))
    (hvalue : Spells config room level pieces value) (hlevel : Precedence.assign ≤ level) :
    Spells config room Precedence.assign (head ++ pieces)
      (write (Ruby.assigned operator read value)) := by
  obtain ⟨tokens, phrase, hwrite⟩ := hvalue
  refine ⟨_, phrase.assignment hvalid htoken hoperator hlevel, ?_⟩
  have hspell : spell (token :: .becomes operator :: tokens) =
      spell [token, .becomes operator] ++ spell tokens := Ruby.spell_append [_, _] tokens
  rw [hspell]
  exact writePieces_append hhead hwrite

theorem literal?_toInt (value : Int64) : Ruby.literal? value.toInt = some (.integer value) := by
  rw [Ruby.literal?, if_pos ⟨Int64.minValue_le_toInt value, Int64.toInt_le value⟩, Int64.ofInt_toInt]

theorem spells_integer (value : Int64) :
    Spells config room (precedence config.style (.integer value)) [text (toString value.toInt)]
      (.integer value) := by
  have hliteral := literal?_toInt value
  have hlevel : precedence config.style (.integer value) =
      if value.toInt < 0 then Precedence.negative else Precedence.primary := by
    simp only [precedence, Node.rendered, Int64.lt_iff_toInt_lt]
    rfl
  rw [hlevel]
  cases hvalue : value.toInt with
  | ofNat magnitude =>
      rw [hvalue] at hliteral
      rw [if_neg (by simp)]
      exact Spells.token (.number magnitude) (.number hliteral)
        (Text.toList_toString_ofNat magnitude).symm
  | negSucc magnitude =>
      rw [hvalue] at hliteral
      rw [if_pos (Int.negSucc_lt_zero magnitude)]
      have phrase : Phrase Precedence.negative [.operator "-", .number (magnitude + 1)]
          (.integer value) := .negative hliteral
      refine ⟨_, phrase, ?_⟩
      rw [Ruby.spell_cons, Ruby.spell_cons, Ruby.spell_nil, List.append_nil]
      have htext := Text.toList_toString_negSucc magnitude
      rw [text, htext]
      exact writePieces_text

theorem spells_boolean (value : Bool) :
    Spells config room (precedence config.style (.boolean value))
      [text (config.style.boolean value)] (canonicalBoolean config.style value) := by
  have hone : Phrase Precedence.primary [.number 1] (.integer 1) := .number rfl
  cases hstyle : config.style with
  | verbose =>
      cases value with
      | true => exact Spells.token (.word "true") (.constant rfl) rfl
      | false => exact Spells.token (.word "false") (.constant rfl) rfl
  | obfuscated =>
      have hnot : Phrase Precedence.unary [.bang, .number 1] (Node.integer 1).negation :=
        hone.negation (by decide)
      cases value with
      | true => exact ⟨_, hnot.negation (Nat.le_refl _), writePieces_text⟩
      | false => exact ⟨_, hnot, writePieces_text⟩

def canonicalTest (negate : Bool) (test : Node) : Node :=
  if negate then test.negation else test

theorem spells_condition (negate : Bool) {least : Nat} {test tree : Node}
    (htest : Spells config room (precedence config.style test) [.child test] tree)
    (hleast : least ≤ Precedence.unary) :
    ∃ level, least ≤ level ∧ Spells config room level (condition config.style negate least test)
      (canonicalTest negate tree) := by
  cases negate with
  | false => exact htest.operand (hleast.trans (by decide))
  | true =>
      refine ⟨Precedence.unary, hleast, ?_⟩
      obtain ⟨tokens, phrase, hwrite⟩ := htest
      refine ⟨_, phrase.group.negation (by decide), ?_⟩
      rw [Ruby.spell_cons, Ruby.spell_append, Ruby.spell_cons, List.append_assoc,
        ← List.append_assoc]
      exact writePieces_text_cons (writePieces_append hwrite writePieces_text)

def canonicalElse (style : LiteralStyle) : Option Node → Option Node
  | none => canonicalMissing style
  | some branch => some (canonical style branch)

theorem spells_conditional (negate : Bool) {test yes testTree yesTree : Node} {no : Option Node}
    (htest : Spells config room (precedence config.style test) [.child test] testTree)
    (hyes : Spells config room (precedence config.style yes) [.child yes] yesTree)
    (hno : ∀ branch ∈ no, Spells config room (precedence config.style branch) [.child branch]
      (canonical config.style branch)) :
    Spells config room
      (if config.style = .verbose ∧ no.isNone then Precedence.modifier else Precedence.ternary)
      (conditional config.style negate test yes no)
      (.ifElse (canonicalTest negate testTree) yesTree (canonicalElse config.style no)) := by
  -- only the verbose style leaves a missing branch away
  by_cases hmodifier : config.style = .verbose ∧ no.isNone
  · obtain ⟨hstyle, hnone⟩ := hmodifier
    obtain rfl := Option.isNone_iff_eq_none.1 hnone
    obtain ⟨testLevel, htestLevel, htestSpells⟩ :=
      spells_condition negate htest (by decide : Precedence.assign ≤ _)
    obtain ⟨yesLevel, -, hyesSpells⟩ := hyes.operand (by decide : Precedence.assign ≤ _)
    rw [if_pos ⟨hstyle, rfl⟩]
    have hspells := hyesSpells.modifier htestSpells htestLevel
    rw [hstyle] at hspells ⊢
    exact hspells
  · obtain ⟨testLevel, htestLevel, htestSpells⟩ :=
      spells_condition negate htest (by decide : Precedence.ternary + 1 ≤ _)
    obtain ⟨yesLevel, hyesLevel, hyesSpells⟩ := hyes.operand (by decide : Precedence.ternary ≤ _)
    rw [if_neg hmodifier]
    cases no with
    | none =>
        have hstyle : config.style = .obfuscated := by
          cases hcases : config.style with
          | verbose => exact absurd ⟨hcases, rfl⟩ hmodifier
          | obfuscated => rfl
        have hnothing : Spells config room Precedence.primary [text "()"] .nil :=
          ⟨_, .nothing, writePieces_text⟩
        have hspells :=
          htestSpells.ternary htestLevel hyesSpells hyesLevel hnothing (by decide)
        rw [hstyle] at hspells ⊢
        exact hspells
    | some branch =>
        obtain ⟨noLevel, hnoLevel, hnoSpells⟩ :=
          (hno branch rfl).operand (by decide : Precedence.ternary ≤ _)
        have hspells :=
          htestSpells.ternary htestLevel hyesSpells hyesLevel hnoSpells hnoLevel
        have hpieces : conditional config.style negate test yes (some branch) =
            condition config.style negate (Precedence.ternary + 1) test ++ text " ? " ::
              operand config.style .ternary yes ++ text " : " ::
                operand config.style .ternary branch := by
          cases config.style <;> rfl
        rw [hpieces]
        exact hspells

/-- What an abbreviated assignment leaves of its value, and how the value is made up again. -/
theorem OperatorTree.abbreviation {style : LiteralStyle} {target : Variable} {rhs value : Node}
    {operator : String} (hrhs : OperatorTree rhs)
    (habbreviation : rhs.abbreviation? style target = some (operator, value)) :
    OperatorTree value ∧ value ∈ rhs.children ∧ (Token.becomes operator).Valid ∧ operator ≠ "" ∧
      ∃ lhs, lhs.reads target ∧ canonical style rhs =
        combine operator (canonical style lhs) (canonical style value) := by
  obtain ⟨hmem, hoperator⟩ := abbreviation?_cases habbreviation
  obtain ⟨hvalid, hne⟩ := becomes_valid hoperator
  cases abbreviationForm habbreviation with
  | conjunction hreads =>
      cases hrhs with
      | logicalAnd _ hvalue => exact ⟨hvalue, hmem, hvalid, hne, _, hreads, rfl⟩
  | disjunction hreads =>
      cases hrhs with
      | logicalOr _ hvalue => exact ⟨hvalue, hmem, hvalid, hne, _, hreads, rfl⟩
  | arithmetic _ _ hreads =>
      cases hrhs with
      | binary hname _ hvalue =>
          refine ⟨hvalue, hmem, hvalid, hne, _, hreads, ?_⟩
          rw [combine_of_isBinary (List.contains_iff_mem.2 hname), canonical]

theorem spells_assignment {target : Variable} {token : Token} {read rhs : Node}
    {write : Node → Node} {name : String} (hvalid : token.Valid)
    (htoken : target? token = some (read, write)) (hspelling : token.spelling = name.toList)
    (hreads : ∀ node, node.reads target → canonical config.style node = read)
    (hrhs : OperatorTree rhs) (hroom : rhs.height ≤ room)
    (ih : ∀ node, OperatorTree node → node.height ≤ room →
      Spells config room (precedence config.style node) [.child node]
        (canonical config.style node)) :
    Spells config room Precedence.assign (assignment config.style target name rhs)
      (write (canonical config.style rhs)) := by
  have hhead (operator : String) : spell [token, .becomes operator] =
      name.toList ++ (operator.toList ++ ['=']) := by
    rw [Ruby.spell_cons, hspelling]
    exact congrArg (name.toList ++ ·) (List.append_nil _)
  unfold Render.assignment
  split
  · next operator value habbreviation =>
      obtain ⟨hvalue, hmem, hbecomes, hne, lhs, hlhs, heq⟩ := hrhs.abbreviation habbreviation
      have hheight := (Node.height_lt_of_mem_children hmem).le.trans hroom
      obtain ⟨level, hlevel, hspells⟩ :=
        (ih value hvalue hheight).operand (by decide : Precedence.assign ≤ _)
      have htree : canonical config.style rhs =
          Ruby.assigned operator read (canonical config.style value) := by
        rw [Ruby.assigned, if_neg hne, heq, hreads lhs hlhs]
      rw [htree]
      refine Spells.assignment hvalid htoken hbecomes ?_ hspells hlevel
      rw [hhead]
      exact writePieces_text_cons (writePieces_text_cons writePieces_text)
  · have hbecomes : (Token.becomes "").Valid :=
      (by decide : ("=", Token.becomes "") ∈ Ruby.symbols)
    obtain ⟨level, hlevel, hspells⟩ :=
      (ih rhs hrhs hroom).operand (by decide : Precedence.assign ≤ _)
    refine Spells.assignment hvalid htoken hbecomes ?_ hspells hlevel
    rw [hhead]
    exact writePieces_text_cons writePieces_text

/-! ### All operator trees -/

theorem IsLocalName.spelling {name : String} (hname : IsLocalName name) :
    (Token.word name).spelling = name.toList := by
  have hif : (name == "if") = false := by
    rw [beq_eq_false_iff_ne]
    rintro rfl
    exact absurd hname.2 (by decide)
  simp [Token.spelling, Token.isSpaced, hif, Token.text]

theorem IsLocalName.valid {name : String} (hname : IsLocalName name) : (Token.word name).Valid :=
  hname.1

theorem IsFieldName.valid {name : String} (hname : IsFieldName name) : (Token.field name).Valid :=
  hname

theorem IsLocalName.target {name : String} (hname : IsLocalName name) :
    target? (.word name) = some (.localRead name, .localWrite name) := by
  simp [target?, hname.2]

theorem OperatorTree.ne_nil {node : Node} (h : OperatorTree node) : node ≠ .nil := by
  rintro rfl
  cases h

theorem OperatorTree.spells {node : Node} (hnode : OperatorTree node) (hroom : node.height ≤ room) :
    Spells config room (precedence config.style node) [.child node]
      (canonical config.style node) := by
  induction room generalizing node with
  | zero =>
      rw [Node.height_eq] at hroom
      omega
  | succ room ih =>
      have hchild : ∀ child ∈ node.children, child.height ≤ room := by
        intro child hmem
        have := Node.height_lt_of_mem_children hmem
        omega
      have hchildSpells : ∀ child ∈ node.children, OperatorTree child →
          Spells config room (precedence config.style child) [.child child]
            (canonical config.style child) := by
        intro child hmem htree
        exact ih htree (hchild child hmem)
      cases hnode with
      | localRead hname =>
          exact Spells.child rfl (Spells.token _ (.reading hname.valid hname.target) hname.spelling)
      | instanceRead hname =>
          exact Spells.child rfl (Spells.token (.field _) (.reading hname.valid rfl) rfl)
      | integer value => exact Spells.child rfl (spells_integer value)
      | boolean value => exact Spells.child rfl (spells_boolean value)
      | @localWrite name rhs hname hrhs =>
          refine Spells.child rfl (spells_assignment hname.valid hname.target hname.spelling ?_ hrhs
            (hchild rhs (by simp [Node.children])) fun node => ih)
          intro node hreads
          cases node <;> simp_all [Node.reads, canonical]
      | @instanceWrite name rhs hname hrhs =>
          refine Spells.child rfl (spells_assignment hname.valid rfl rfl ?_ hrhs
            (hchild rhs (by simp [Node.children])) fun node => ih)
          intro node hreads
          cases node <;> simp_all [Node.reads, canonical]
      | @binary lhs rhs name params hname hlhs hrhs =>
          have hbinary : Operator.isBinary name := List.contains_iff_mem.2 hname
          obtain ⟨grouping, hstrength, hlevels⟩ := strength?_of_isBinary hbinary
          obtain ⟨hleft, hright⟩ := operandLevels_le hbinary
          rw [hlevels] at hleft hright
          have hspells := (hchildSpells lhs (by simp [Node.children]) hlhs).binary hstrength hleft
            (hchildSpells rhs (by simp [Node.children]) hrhs) hright
          rw [combine_of_isBinary hbinary] at hspells
          have hlevel : precedence config.style (.call (some lhs) name [rhs] params none none) =
              Operator.precedence name := by
            simp only [precedence, Node.rendered, hbinary, if_true]
          rw [hlevel]
          refine Spells.child ?_ hspells
          simp only [rule, call, hbinary, if_true, hlevels]
      | @negation subject params hsubject =>
          obtain ⟨level, hlevel, hspells⟩ :=
            (hchildSpells subject (by simp [Node.children]) hsubject).operand
              (by decide : Precedence.unary ≤ _)
          exact Spells.child rfl (hspells.negation hlevel)
      | @logicalAnd lhs rhs hlhs hrhs =>
          have hstrength : strength? "&&" = some (Precedence.and, .left) := by decide
          exact Spells.child rfl ((hchildSpells lhs (by simp [Node.children]) hlhs).binary hstrength
            (by decide) (hchildSpells rhs (by simp [Node.children]) hrhs) (by decide))
      | @logicalOr lhs rhs hlhs hrhs =>
          have hstrength : strength? "||" = some (Precedence.or, .left) := by decide
          exact Spells.child rfl ((hchildSpells lhs (by simp [Node.children]) hlhs).binary hstrength
            (by decide) (hchildSpells rhs (by simp [Node.children]) hrhs) (by decide))
      | @ifElse test yes no htest hyes hno =>
          have hbranch : ∀ branch ∈ no, Spells config room (precedence config.style branch)
              [.child branch] (canonical config.style branch) := by
            intro branch hmem
            exact hchildSpells branch (by simp [Node.children, Option.mem_def.1 hmem]) (hno branch hmem)
          have hspells := spells_conditional false (hchildSpells test (by simp [Node.children]) htest)
            (hchildSpells yes (by simp [Node.children]) hyes) hbranch
          cases no <;> exact Spells.child rfl hspells
      | @unlessElse test yes no htest hyes hno =>
          have hbranch : ∀ branch ∈ no, Spells config room (precedence config.style branch)
              [.child branch] (canonical config.style branch) := by
            intro branch hmem
            exact hchildSpells branch (by simp [Node.children, Option.mem_def.1 hmem]) (hno branch hmem)
          have hspells := spells_conditional true (hchildSpells test (by simp [Node.children]) htest)
            (hchildSpells yes (by simp [Node.children]) hyes) hbranch
          cases no <;> exact Spells.child rfl hspells
      | @ret argument hargument =>
          have hspells := hchildSpells argument (by simp [Node.children]) hargument
          rw [precedence_ret hargument.ne_nil]
          exact Spells.child (rule_ret hargument.ne_nil _) hspells
      | @block statement hstatement =>
          exact Spells.child rfl (hchildSpells statement (by simp [Node.children]) hstatement)

end Spelling

/-- **Operators are grouped as in the tree.** Every operator tree within the depth limit is written,
and by Ruby's table of operators its text stands for that tree and no other. -/
theorem read_renderNode_of_operatorTree (config : RenderConfig) {tree : Node}
    (htree : OperatorTree tree) (hheight : tree.height ≤ maxDepth) :
    ∃ content, renderNode config tree = .ok content ∧
      Ruby.read content = some (canonical config.style tree) := by
  have hspells : Spells config maxDepth (precedence config.style tree) [.child tree]
      (canonical config.style tree) := htree.spells hheight
  obtain ⟨tokens, phrase, hpieces⟩ := hspells
  refine ⟨_, ?_, phrase.read_spell⟩
  rw [renderNode, writePieces_child_eq_ok.1 hpieces]

/-- `x = x && (… unless (-2) ** y)` is abbreviated and keeps the parentheses that matter. -/
theorem read_renderNode_of_nested_unless :
    ∃ content, renderNode .readable (.ret (.block [.localWrite "x" (.logicalAnd (.localRead "x")
        (.unlessElse (.call (some (.integer (-2))) "**" [.localRead "y"] [] none none)
          (.instanceWrite "@n" (.boolean true)) none))])) = .ok content ∧
      Ruby.read content = some (.localWrite "x" (.logicalAnd (.localRead "x")
        (.ifElse ((Node.integer (-2)).binary "**" (.localRead "y")).negation
          (.instanceWrite "@n" (.boolean true)) none))) := by
  have hx : IsLocalName "x" := ⟨by decide, by decide⟩
  have hy : IsLocalName "y" := ⟨by decide, by decide⟩
  have hfield : IsFieldName "@n" := ⟨['n'], by decide, by decide⟩
  refine read_renderNode_of_operatorTree .readable (.ret (.block (.localWrite hx (.logicalAnd
    (.localRead hx) (.unlessElse (.binary (by decide) (.integer (-2)) (.localRead hy))
      (.instanceWrite hfield (.boolean true)) (by simp)))))) ?_
  simp [Node.height_eq, Node.children, maxDepth]

end RubyPress.Render
