import RubyPress.Proofs.Ruby.Expression

/-!
# The grammar of operator expressions

In the grammar every expression has a level, and every operator says which levels its operands need.
The reader follows the same table in a different way, by looking at one operator at a time. The main
statement, `Phrase.read_spell`, is that it reads whatever the grammar derives, and as exactly the
tree of the derivation; so no text stands for two trees.

The induction needs more than that: an expression is read in front of whatever follows it, and what
follows must neither carry on its last token (`Phrase.lex_spell`) nor belong to its last operand
(`Phrase.climbs`).
-/

namespace RubyPress.Ruby

open SymbolName (isIdentifierChar isIdentifier)
open Text (Stops)

/-- The tokens of an expression, with its level and its tree. -/
inductive Phrase : Nat → List Token → Node → Prop where
  | number {value : Nat} {node : Node} (hvalue : literal? value = some node) :
      Phrase Level.primary [.number value] node
  | negative {value : Nat} {node : Node} (hvalue : literal? (-value) = some node) :
      Phrase Level.minus [.operator "-", .number value] node
  | constant {token : Token} {node : Node} (htoken : constant? token = some node) :
      Phrase Level.primary [token] node
  | reading {token : Token} {read : Node} {write : Node → Node} (hvalid : token.Valid)
      (htoken : target? token = some (read, write)) : Phrase Level.primary [token] read
  | nothing : Phrase Level.primary [.opening, .closing] .nil
  | group {level : Nat} {tokens : List Token} {node : Node} (inner : Phrase level tokens node) :
      Phrase Level.primary (.opening :: tokens ++ [.closing]) node
  | negation {level : Nat} {tokens : List Token} {node : Node} (inner : Phrase level tokens node)
      (hlevel : Level.negation ≤ level) :
      Phrase Level.negation (.bang :: tokens) node.negation
  | binary {level left right : Nat} {grouping : Grouping} {name : String}
      {leftTokens rightTokens : List Token} {lhs rhs : Node}
      (hname : strength? name = some (level, grouping))
      (first : Phrase left leftTokens lhs) (hleft : grouping.leftLeast level ≤ left)
      (second : Phrase right rightTokens rhs) (hright : grouping.rightLeast level ≤ right) :
      Phrase level (leftTokens ++ .operator name :: rightTokens) (combine name lhs rhs)
  | ternary {testLevel yesLevel noLevel : Nat} {testTokens yesTokens noTokens : List Token}
      {test yes no : Node} (condition : Phrase testLevel testTokens test)
      (htest : Level.ternary < testLevel) (thenBranch : Phrase yesLevel yesTokens yes)
      (hyes : Level.assignment ≤ yesLevel) (elseBranch : Phrase noLevel noTokens no)
      (hno : Level.ternary ≤ noLevel) :
      Phrase Level.ternary (testTokens ++ .question :: (yesTokens ++ .colon :: noTokens))
        (.ifElse test yes (some no))
  | modifier {yesLevel testLevel : Nat} {yesTokens testTokens : List Token} {yes test : Node}
      (thenBranch : Phrase yesLevel yesTokens yes) (condition : Phrase testLevel testTokens test)
      (htest : Level.modifier < testLevel) :
      Phrase Level.modifier (yesTokens ++ .word "if" :: testTokens) (.ifElse test yes none)
  | assignment {token : Token} {read : Node} {write : Node → Node} {operator : String}
      {level : Nat} {tokens : List Token} {value : Node} (hvalid : token.Valid)
      (htoken : target? token = some (read, write)) (hoperator : (Token.becomes operator).Valid)
      (rhs : Phrase level tokens value) (hlevel : Level.assignment ≤ level) :
      Phrase Level.assignment (token :: .becomes operator :: tokens)
        (write (assigned operator read value))

theorem reach_le (level : Nat) : reach level ≤ level := by
  unfold reach
  split <;> omega

theorem le_reach_add_one (level : Nat) : level ≤ reach level + 1 := by
  unfold reach
  split <;> omega

theorem reach_mono {lower upper : Nat} (h : lower ≤ upper) : reach lower ≤ reach upper := by
  obtain rfl | hlt := Nat.eq_or_lt_of_le h
  · exact Nat.le_refl _
  · have := reach_le lower
    have := le_reach_add_one upper
    omega

theorem strength?_cases {name : String} {level : Nat} {grouping : Grouping}
    (h : strength? name = some (level, grouping)) :
    (level, grouping) ∈ [(Level.power, Grouping.right), (10, .left), (9, .left), (8, .left),
      (7, .left), (6, .apart), (5, .left), (4, .left)] := by
  obtain ⟨⟨found, group, names⟩, hrow, heq⟩ := Option.map_eq_some_iff.1 h
  obtain ⟨rfl, rfl⟩ := Prod.mk.inj heq
  have table : ∀ row ∈ binaryRows, (row.1, row.2.1) ∈
      [(Level.power, Grouping.right), (10, .left), (9, .left), (8, .left),
        (7, .left), (6, .apart), (5, .left), (4, .left)] := by decide
  exact table _ (List.mem_of_find?_eq_some hrow)

theorem Grouping.le_leftLeast (grouping : Grouping) (level : Nat) :
    level ≤ grouping.leftLeast level := by
  unfold leftLeast
  split <;> omega

theorem Grouping.le_rightLeast (grouping : Grouping) (level : Nat) :
    level ≤ grouping.rightLeast level := by
  unfold rightLeast
  split <;> omega

/-- The three ways in which a row of the table keeps an operator and its operands apart. -/
theorem reach_of_strength? {name : String} {level : Nat} {grouping : Grouping}
    (h : strength? name = some (level, grouping)) :
    reach level < grouping.rightLeast level ∧
      (∀ left, grouping.leftLeast level ≤ left → level ≤ reach left) ∧
      ∀ right, grouping.rightLeast level ≤ right → reach level ≤ reach right := by
  have hrow : (grouping = .left ∧ reach level = level) ∨
      (grouping ≠ .left ∧ reach level + 1 = level) := by
    have hcases := strength?_cases h
    simp only [List.mem_cons, Prod.mk.injEq, List.not_mem_nil, or_false] at hcases
    rcases hcases with ⟨rfl, rfl⟩ | ⟨rfl, rfl⟩ | ⟨rfl, rfl⟩ | ⟨rfl, rfl⟩ | ⟨rfl, rfl⟩ |
      ⟨rfl, rfl⟩ | ⟨rfl, rfl⟩ | ⟨rfl, rfl⟩ <;> decide
  refine ⟨?_, ?_, ?_⟩
  · unfold Grouping.rightLeast
    split <;> grind
  · intro left hleft
    unfold Grouping.leftLeast at hleft
    have := le_reach_add_one left
    split at hleft
    · rcases Nat.lt_or_eq_of_le hleft with hlt | rfl
      · omega
      · grind
    · omega
  · exact fun right hright => reach_mono ((grouping.le_rightLeast level).trans hright)

/-- What follows an expression leaves it alone when the strongest operator after it may be
`strongest`. -/
def Follows (strongest : Nat) : List Token → Prop
  | .operator name :: _ => ∀ strength ∈ strength? name, strength.1 ≤ strongest
  | .question :: _ => Level.ternary ≤ strongest
  | .becomes _ :: _ => False
  | _ => True

theorem Follows.mono {weaker stronger : Nat} (h : weaker ≤ stronger) {rest : List Token}
    (hrest : Follows weaker rest) : Follows stronger rest := by
  unfold Follows at *
  split at hrest
  · exact fun strength hmem => (hrest strength hmem).trans h
  · exact hrest.trans h
  · exact hrest
  · trivial

theorem Follows.power {strongest : Nat} {rest : List Token} (hrest : Follows strongest rest) :
    Follows Level.power rest := by
  unfold Follows at *
  split at hrest
  · rintro ⟨level, grouping⟩ hstrength
    have hcases := strength?_cases hstrength
    simp only [List.mem_cons, Prod.mk.injEq, List.not_mem_nil, or_false] at hcases
    dsimp only [Level.power] at hcases ⊢
    omega
  · decide
  · exact hrest
  · trivial

/-- Nothing is carried on where only stronger operators than those that follow are read. -/
theorem climb_of_follows {rounds least strongest weaker : Nat} {node : Node} {rest : List Token}
    (hrest : Follows weaker rest) (hleast : weaker < least) :
    climb (rounds + 1) least strongest node rest = some (node, rest) := by
  cases rest with
  | nil => simp only [climb]
  | cons token rest =>
      cases token with
      | operator name =>
          rw [climb]
          split
          · rfl
          · next level grouping hname =>
              have hle : level ≤ weaker := hrest (level, grouping) hname
              rw [if_neg (by omega)]
      | question =>
          have hle : Level.ternary ≤ weaker := hrest
          rw [climb, if_neg (by omega)]
      | word text => rw [climb, if_neg (by simp only [Level.modifier]; omega)]
      | becomes op => exact hrest.elim
      | _ => simp only [climb]

theorem climb_closing {rounds least strongest : Nat} {node : Node} {rest : List Token} :
    climb (rounds + 1) least strongest node (.closing :: rest) = some (node, .closing :: rest) := by
  simp only [climb]

theorem climb_colon {rounds least strongest : Nat} {node : Node} {rest : List Token} :
    climb (rounds + 1) least strongest node (.colon :: rest) = some (node, .colon :: rest) := by
  simp only [climb]

theorem climb_binary {rounds least strongest level : Nat} {grouping : Grouping} {name : String}
    {lhs rhs : Node} {tokens rest : List Token} (hname : strength? name = some (level, grouping))
    (hleast : least ≤ level) (hstrongest : level ≤ strongest)
    (hrhs : expression rounds (grouping.rightLeast level) tokens = some (rhs, rest)) :
    climb (rounds + 1) least strongest lhs (.operator name :: tokens) =
      climb rounds least (reach level) (combine name lhs rhs) rest := by
  rw [climb, hname]
  simp only [hleast, hstrongest, and_self, if_true, hrhs]

theorem climb_ternary {rounds least strongest : Nat} {test yes no : Node}
    {tokens middle rest : List Token} (hleast : least ≤ Level.ternary)
    (hstrongest : Level.ternary ≤ strongest)
    (hyes : expression rounds Level.assignment tokens = some (yes, .colon :: middle))
    (hno : expression rounds Level.ternary middle = some (no, rest)) :
    climb (rounds + 1) least strongest test (.question :: tokens) =
      climb rounds least (reach Level.ternary) (.ifElse test yes (some no)) rest := by
  rw [climb, if_pos ⟨hleast, hstrongest⟩, hyes]
  simp only [hno]

theorem climb_modifier {rounds strongest : Nat} {yes test : Node} {tokens rest : List Token}
    (htest : expression rounds (Level.modifier + 1) tokens = some (test, rest)) :
    climb (rounds + 1) Level.modifier strongest yes (.word "if" :: tokens) =
      climb rounds Level.modifier (reach Level.modifier) (.ifElse test yes none) rest := by
  rw [climb, if_pos ⟨rfl, Nat.le_refl _⟩, htest]

theorem startsPower_of_follows {rest : List Token} (hrest : Follows Level.minus rest) :
    startsPower rest = false := by
  unfold startsPower
  split
  · next name rest =>
      rw [beq_eq_false_iff_ne]
      rintro rfl
      have hle : Level.power ≤ Level.minus := hrest (Level.power, .right) (by decide)
      exact absurd hle (by decide)
  · rfl

theorem operand_negative {rounds least value : Nat} {node : Node} {rest : List Token}
    (hvalue : literal? (-value) = some node) (hleast : least ≤ Level.minus)
    (hrest : Follows Level.minus rest) :
    operand (rounds + 1) least (.operator "-" :: .number value :: rest) =
      some (node, Level.minus, rest) := by
  rw [operand, if_neg (by simp; omega), startsPower_of_follows hrest, hvalue]
  rfl

theorem operand_constant {rounds least : Nat} {token : Token} {node : Node} {rest : List Token}
    (htoken : constant? token = some node) :
    operand (rounds + 1) least (token :: rest) = some (node, Level.primary, rest) := by
  cases token with
  | word text => simp only [operand, htoken]
  | _ => cases htoken

theorem constant?_of_target? {token : Token} {read : Node} {write : Node → Node}
    (htoken : target? token = some (read, write)) : constant? token = none := by
  cases token with
  | word text =>
      simp only [target?, Option.ite_none_left_eq_some] at htoken
      have hkeyword : ∀ word ∈ ["true", "false", "nil"], isKeyword word := by decide
      have hne : ∀ word ∈ ["true", "false", "nil"], text ≠ word := by
        rintro word hword rfl
        exact htoken.1 (hkeyword text hword)
      simp only [constant?, hne "true" (by simp), hne "false" (by simp), hne "nil" (by simp), if_false]
  | _ => rfl

theorem operand_reading {rounds least : Nat} {token : Token} {read : Node} {write : Node → Node}
    {strongest : Nat} {rest : List Token} (htoken : target? token = some (read, write))
    (hrest : Follows strongest rest) :
    operand (rounds + 1) least (token :: rest) = some (read, Level.primary, rest) := by
  have hnone := constant?_of_target? htoken
  have hbecomes : ∀ operator after, rest ≠ .becomes operator :: after := by
    rintro operator after rfl
    exact hrest
  cases token with
  | word text | field text =>
      simp only [operand, hnone, htoken]
  | _ => cases htoken

theorem operand_assignment {rounds least : Nat} {token : Token} {read value : Node}
    {write : Node → Node} {operator : String} {tokens rest : List Token}
    (htoken : target? token = some (read, write)) (hleast : least ≤ Level.assignment)
    (hvalue : expression rounds Level.assignment tokens = some (value, rest)) :
    operand (rounds + 1) least (token :: .becomes operator :: tokens) =
      some (write (assigned operator read value), reach Level.assignment, rest) := by
  have hnone := constant?_of_target? htoken
  cases token with
  | word text | field text =>
      simp only [operand, hnone, htoken, Nat.not_lt.2 hleast, if_false, hvalue, Option.map_some]
  | _ => cases htoken

theorem operand_negation {rounds least : Nat} {node : Node} {tokens rest : List Token}
    (hnode : expression rounds Level.negation tokens = some (node, rest)) :
    operand (rounds + 1) least (.bang :: tokens) = some (node.negation, Level.negation, rest) := by
  simp only [operand, hnode, Option.map_some]

theorem operand_group {rounds least : Nat} {node : Node} {tokens rest : List Token}
    (htokens : ∀ after, tokens ≠ .closing :: after)
    (hnode : expression rounds Level.modifier tokens = some (node, .closing :: rest)) :
    operand (rounds + 1) least (.opening :: tokens) = some (node, Level.primary, rest) := by
  simp only [operand, hnode]

/-- What an expression can start with. -/
def Token.opens : Token → Bool
  | .number _ | .word _ | .field _ | .opening | .bang => true
  | .operator name => name == "-"
  | _ => false

theorem opens_of_constant? {token : Token} {node : Node} (h : constant? token = some node) :
    token.opens ∧ token.Valid := by
  cases token with
  | word text =>
      refine ⟨rfl, ?_⟩
      simp only [constant?] at h
      split_ifs at h with htrue hfalse hnil
      · rw [htrue]
        exact (by decide : isIdentifier "true".toList)
      · rw [hfalse]
        exact (by decide : isIdentifier "false".toList)
      · rw [hnil]
        exact (by decide : isIdentifier "nil".toList)
  | _ => cases h

theorem opens_of_target? {token : Token} {read : Node} {write : Node → Node}
    (h : target? token = some (read, write)) : token.opens := by
  cases token with
  | word text | field text => rfl
  | _ => cases h

theorem valid_minus : (Token.operator "-").Valid :=
  (by decide : ("-", Token.operator "-") ∈ symbols)

theorem Phrase.exists_cons {level : Nat} {tokens : List Token} {node : Node}
    (phrase : Phrase level tokens node) :
    ∃ token more, tokens = token :: more ∧ token.opens ∧ token.Valid := by
  induction phrase with
  | number hvalue => exact ⟨_, _, rfl, rfl, trivial⟩
  | negative hvalue => exact ⟨_, _, rfl, rfl, valid_minus⟩
  | constant htoken => exact ⟨_, _, rfl, opens_of_constant? htoken⟩
  | reading hvalid htoken => exact ⟨_, _, rfl, opens_of_target? htoken, hvalid⟩
  | nothing => exact ⟨_, _, rfl, rfl, trivial⟩
  | group inner ih => exact ⟨_, _, rfl, rfl, trivial⟩
  | negation inner hlevel ih => exact ⟨_, _, rfl, rfl, trivial⟩
  | binary hname first hleft second hright ihFirst ihSecond =>
      obtain ⟨token, more, rfl, hopens⟩ := ihFirst
      exact ⟨token, _, rfl, hopens⟩
  | ternary condition htest thenBranch hyes elseBranch hno ihTest ihYes ihNo =>
      obtain ⟨token, more, rfl, hopens⟩ := ihTest
      exact ⟨token, _, rfl, hopens⟩
  | modifier thenBranch condition htest ihYes ihTest =>
      obtain ⟨token, more, rfl, hopens⟩ := ihYes
      exact ⟨token, _, rfl, hopens⟩
  | assignment hvalid htoken hoperator rhs hlevel ih =>
      exact ⟨_, _, rfl, opens_of_target? htoken, hvalid⟩

/-! ### Reading a phrase -/

theorem expression_of_operand {rounds least strongest : Nat} {node : Node}
    {tokens rest : List Token} {result : Node × List Token}
    (hoperand : operand rounds least tokens = some (node, strongest, rest))
    (hclimb : climb rounds least strongest node rest = some result) :
    expression (rounds + 1) least tokens = some result := by
  simp only [expression, hoperand, hclimb]

/-- In front of tokens that leave an expression of the level alone, these tokens are read as the
node, and reading carries on from there. Two rounds for every token are enough; those left over go
to the climb. -/
structure Climbs (level : Nat) (tokens : List Token) (node : Node) : Prop where
  expression_of_climb {least rounds more : Nat} {rest : List Token} {result : Node × List Token}
    (hleast : least ≤ level) (hrest : Follows (reach level) rest)
    (hclimb : ∀ n, rounds < n → climb n least (reach level) node rest = some result)
    (hmore : rounds + 2 * tokens.length < more) :
    expression more least (tokens ++ rest) = some result

section Climbs

variable {level : Nat} {tokens : List Token} {node : Node}

theorem climbs_of_operand (hne : tokens ≠ [])
    (hoperand : ∀ {rounds least : Nat} {rest : List Token}, least ≤ level →
      Follows (reach level) rest → 2 * tokens.length < rounds + 2 →
      operand (rounds + 1) least (tokens ++ rest) = some (node, reach level, rest)) :
    Climbs level tokens node := by
  refine ⟨fun {_ rounds more rest _} hleast hrest hclimb hmore => ?_⟩
  have hlength := List.length_pos_of_ne_nil hne
  obtain ⟨more, rfl⟩ : ∃ n, more = n + 2 := ⟨more - 2, by omega⟩
  exact expression_of_operand (hoperand hleast hrest (by omega)) (hclimb (more + 1) (by omega))

/-- Where the climb stops at once, exactly the tokens of the expression are read. -/
theorem Climbs.expression (h : Climbs level tokens node) {least more : Nat} {rest : List Token}
    (hleast : least ≤ level) (hrest : Follows (reach level) rest)
    (hstop : ∀ n, climb (n + 1) least (reach level) node rest = some (node, rest))
    (hmore : 2 * tokens.length < more) :
    expression more least (tokens ++ rest) = some (node, rest) := by
  have hclimb (n : Nat) (hn : 0 < n) : climb n least (reach level) node rest = some (node, rest) := by
    obtain ⟨n, rfl⟩ := Nat.exists_eq_add_of_lt hn
    exact hstop _
  exact h.expression_of_climb hleast hrest hclimb (by omega)

theorem climbs_number {value : Nat} (hvalue : literal? value = some node) :
    Climbs Level.primary [.number value] node := by
  refine climbs_of_operand (List.cons_ne_nil _ _) fun _ _ _ => ?_
  simp only [operand, List.singleton_append, hvalue, Option.map_some]
  rfl

theorem climbs_negative {value : Nat} (hvalue : literal? (-value) = some node) :
    Climbs Level.minus [.operator "-", .number value] node :=
  climbs_of_operand (List.cons_ne_nil _ _) fun hleast hrest _ => operand_negative hvalue hleast hrest

theorem climbs_constant {token : Token} (htoken : constant? token = some node) :
    Climbs Level.primary [token] node :=
  climbs_of_operand (List.cons_ne_nil _ _) fun _ _ _ => operand_constant htoken

theorem climbs_reading {token : Token} {read : Node} {write : Node → Node}
    (htoken : target? token = some (read, write)) : Climbs Level.primary [token] read :=
  climbs_of_operand (List.cons_ne_nil _ _) fun _ hrest _ => operand_reading htoken hrest

theorem climbs_nothing : Climbs Level.primary [.opening, .closing] .nil := by
  refine climbs_of_operand (List.cons_ne_nil _ _) fun _ _ _ => ?_
  simp only [operand, List.cons_append, List.nil_append]
  rfl

theorem Climbs.group (h : Climbs level tokens node) (inner : Phrase level tokens node) :
    Climbs Level.primary (.opening :: tokens ++ [.closing]) node := by
  refine climbs_of_operand (List.cons_ne_nil _ _) fun _ _ hrounds => ?_
  simp only [List.length_append, List.length_cons, List.length_nil] at hrounds
  rw [List.cons_append, List.cons_append, List.append_assoc, List.singleton_append]
  refine operand_group ?_ (h.expression (Nat.zero_le _) trivial (fun _ => climb_closing) (by omega))
  obtain ⟨token, others, rfl, hopens, -⟩ := inner.exists_cons
  intro after heq
  obtain ⟨rfl, -⟩ := List.cons.inj heq
  cases hopens

theorem Climbs.negation (h : Climbs level tokens node) (hlevel : Level.negation ≤ level) :
    Climbs Level.negation (.bang :: tokens) node.negation := by
  refine climbs_of_operand (List.cons_ne_nil _ _) fun _ hrest hrounds => ?_
  rw [List.length_cons] at hrounds
  have hpower := hrest.power
  have hreach : Level.power ≤ reach level := by
    have hle : Level.power + 1 ≤ level := hlevel
    have := le_reach_add_one level
    omega
  exact operand_negation (h.expression hlevel (hpower.mono hreach)
    (fun _ => climb_of_follows hpower (by decide)) (by omega))

theorem Climbs.assignment {token : Token} {read : Node} {write : Node → Node} {operator : String}
    (htoken : target? token = some (read, write)) (h : Climbs level tokens node)
    (hlevel : Level.assignment ≤ level) :
    Climbs Level.assignment (token :: .becomes operator :: tokens)
      (write (assigned operator read node)) := by
  refine climbs_of_operand (List.cons_ne_nil _ _) fun hleast hrest hrounds => ?_
  simp only [List.length_cons] at hrounds
  exact operand_assignment htoken hleast (h.expression hlevel (hrest.mono (reach_mono hlevel))
    (fun _ => climb_of_follows hrest (by decide)) (by omega))

theorem Climbs.binary {left right : Nat} {grouping : Grouping} {name : String}
    {leftTokens rightTokens : List Token} {lhs rhs : Node}
    (hname : strength? name = some (level, grouping))
    (hlhs : Climbs left leftTokens lhs) (hleft : grouping.leftLeast level ≤ left)
    (hrhs : Climbs right rightTokens rhs) (hright : grouping.rightLeast level ≤ right) :
    Climbs level (leftTokens ++ .operator name :: rightTokens) (combine name lhs rhs) := by
  refine ⟨fun {least rounds more rest _} hleast hrest hclimb hmore => ?_⟩
  obtain ⟨hstops, hcarries, hreach⟩ := reach_of_strength? hname
  simp only [List.length_append, List.length_cons] at hmore
  rw [List.append_assoc, List.cons_append]
  have hfuel : rounds + 2 * rightTokens.length + 1 + 2 * leftTokens.length < more := by omega
  have hleastLeft : least ≤ left := hleast.trans ((grouping.le_leftLeast level).trans hleft)
  refine hlhs.expression_of_climb hleastLeft ?_ ?_ hfuel
  · intro strength hstrength
    rw [hname] at hstrength
    obtain rfl := Option.some.inj hstrength
    exact hcarries left hleft
  · intro n hn
    obtain ⟨n, rfl⟩ : ∃ m, n = m + 1 := ⟨n - 1, by omega⟩
    have hread : Ruby.expression n (grouping.rightLeast level) (rightTokens ++ rest) =
        some (rhs, rest) :=
      hrhs.expression hright (hrest.mono (hreach right hright))
        (fun _ => climb_of_follows hrest hstops) (by omega)
    rw [climb_binary hname hleast (hcarries left hleft) hread]
    exact hclimb n (by omega)

theorem Climbs.ternary {testLevel yesLevel noLevel : Nat}
    {testTokens yesTokens noTokens : List Token} {test yes no : Node}
    (htest : Climbs testLevel testTokens test) (htestLevel : Level.ternary < testLevel)
    (hyes : Climbs yesLevel yesTokens yes) (hyesLevel : Level.assignment ≤ yesLevel)
    (hno : Climbs noLevel noTokens no) (hnoLevel : Level.ternary ≤ noLevel) :
    Climbs Level.ternary (testTokens ++ .question :: (yesTokens ++ .colon :: noTokens))
      (.ifElse test yes (some no)) := by
  refine ⟨fun {_ rounds more rest _} hleast hrest hclimb hmore => ?_⟩
  simp only [List.length_append, List.length_cons] at hmore
  rw [List.append_assoc, List.cons_append, List.append_assoc, List.cons_append]
  have hcarries : Level.ternary ≤ reach testLevel := by
    have := le_reach_add_one testLevel
    omega
  have hfuel : rounds + 2 * yesTokens.length + 2 * noTokens.length + 1 + 2 * testTokens.length <
      more := by omega
  refine htest.expression_of_climb (by omega) hcarries ?_ hfuel
  intro n hn
  obtain ⟨n, rfl⟩ : ∃ m, n = m + 1 := ⟨n - 1, by omega⟩
  have hyesRead : Ruby.expression n Level.assignment (yesTokens ++ .colon :: (noTokens ++ rest)) =
      some (yes, .colon :: (noTokens ++ rest)) :=
    hyes.expression hyesLevel trivial (fun _ => climb_colon) (by omega)
  have hnoRead : Ruby.expression n Level.ternary (noTokens ++ rest) = some (no, rest) :=
    hno.expression hnoLevel (hrest.mono (reach_mono hnoLevel))
      (fun _ => climb_of_follows hrest (by decide)) (by omega)
  rw [climb_ternary hleast hcarries hyesRead hnoRead]
  exact hclimb n (by omega)

theorem Climbs.modifier {yesLevel testLevel : Nat} {yesTokens testTokens : List Token}
    {yes test : Node} (hyes : Climbs yesLevel yesTokens yes) (htest : Climbs testLevel testTokens test)
    (htestLevel : Level.modifier < testLevel) :
    Climbs Level.modifier (yesTokens ++ .word "if" :: testTokens) (.ifElse test yes none) := by
  refine ⟨fun {_ rounds more rest _} hleast hrest hclimb hmore => ?_⟩
  obtain rfl := Nat.le_zero.1 hleast
  simp only [List.length_append, List.length_cons] at hmore
  rw [List.append_assoc, List.cons_append]
  have hfuel : rounds + 2 * testTokens.length + 1 + 2 * yesTokens.length < more := by omega
  refine hyes.expression_of_climb (Nat.zero_le _) trivial ?_ hfuel
  intro n hn
  obtain ⟨n, rfl⟩ : ∃ m, n = m + 1 := ⟨n - 1, by omega⟩
  have htestRead : Ruby.expression n (Level.modifier + 1) (testTokens ++ rest) = some (test, rest) :=
    htest.expression htestLevel (hrest.mono (Nat.zero_le _))
      (fun _ => climb_of_follows hrest (by decide)) (by omega)
  rw [climb_modifier htestRead]
  exact hclimb n (by omega)

end Climbs

theorem Phrase.climbs {level : Nat} {tokens : List Token} {node : Node}
    (phrase : Phrase level tokens node) : Climbs level tokens node := by
  induction phrase with
  | number hvalue => exact climbs_number hvalue
  | negative hvalue => exact climbs_negative hvalue
  | constant htoken => exact climbs_constant htoken
  | reading hvalid htoken => exact climbs_reading htoken
  | nothing => exact climbs_nothing
  | group inner ih => exact ih.group inner
  | negation inner hlevel ih => exact ih.negation hlevel
  | binary hname first hleft second hright ihFirst ihSecond =>
      exact .binary hname ihFirst hleft ihSecond hright
  | ternary condition htest thenBranch hyes elseBranch hno ihTest ihYes ihNo =>
      exact .ternary ihTest htest ihYes hyes ihNo hno
  | modifier thenBranch condition htest ihYes ihTest => exact .modifier ihYes ihTest htest
  | assignment hvalid htoken hoperator rhs hlevel ih => exact .assignment htoken ih hlevel

theorem Phrase.readTokens {level : Nat} {tokens : List Token} {node : Node}
    (phrase : Phrase level tokens node) : readTokens tokens = some node := by
  have hstop (n : Nat) : climb (n + 1) Level.modifier (reach level) node [] = some (node, []) := by
    simp only [climb]
  have hrest : Follows (reach level) [] := trivial
  have hread := phrase.climbs.expression (Nat.zero_le _) hrest hstop (Nat.lt_succ_self _)
  rw [List.append_nil] at hread
  rw [Ruby.readTokens, hread]

/-! ### The tokens of a phrase -/

theorem continuesSymbol_of_isIdentifierChar {c : Char} (h : isIdentifierChar c) :
    continuesSymbol c = false := by
  have table : ∀ d ∈ ['*', '&', '|', '<', '>', '=', '~', '.', ':'],
      isIdentifierChar d = false := by decide
  rw [continuesSymbol, List.contains_eq_mem, decide_eq_false_iff_not]
  intro hmem
  rw [table c hmem] at h
  cases h

theorem Token.stops_spelling (token : Token) (hopens : token.opens) (hvalid : token.Valid)
    (rest : List Char) : Stops continuesSymbol (token.spelling ++ rest) := by
  unfold Token.spelling
  split
  · exact Text.stops_cons.2 (by decide)
  · cases token with
    | number value =>
        obtain ⟨c, chars, hchars, hc⟩ := Text.exists_decimal_cons value
        rw [Token.text, hchars, List.cons_append, Text.stops_cons]
        exact continuesSymbol_of_isIdentifierChar (isIdentifierChar_of_isDigit hc)
    | word text =>
        obtain ⟨c, chars, hchars, -, hall⟩ := exists_cons_of_isIdentifier hvalid
        rw [Token.text, hchars, List.cons_append, Text.stops_cons]
        exact continuesSymbol_of_isIdentifierChar (hall c (by simp [hchars]))
    | field text =>
        obtain ⟨name, htext, -⟩ := hvalid
        rw [Token.text, htext, List.cons_append, Text.stops_cons]
        decide
    | operator name =>
        obtain rfl : name = "-" := by simpa [Token.opens] using hopens
        exact Text.stops_cons.2 (by decide)
    | opening | bang => exact Text.stops_cons.2 (by decide)
    | _ => cases hopens

theorem Phrase.stops_spell {level : Nat} {tokens : List Token} {node : Node}
    (phrase : Phrase level tokens node) (rest : List Char) :
    Stops continuesSymbol (spell tokens ++ rest) := by
  obtain ⟨token, more, rfl, hopens, hvalid⟩ := phrase.exists_cons
  rw [spell_cons, List.append_assoc]
  exact token.stops_spelling hopens hvalid _

theorem valid_of_strength? {name : String} {level : Nat} {grouping : Grouping}
    (h : strength? name = some (level, grouping)) : (Token.operator name).Valid := by
  obtain ⟨⟨found, group, names⟩, hrow, -⟩ := Option.map_eq_some_iff.1 h
  have hmem : name ∈ names := by simpa using List.find?_some hrow
  have table : ∀ row ∈ binaryRows, ∀ name ∈ row.2.2, (name, Token.operator name) ∈ symbols := by
    decide
  exact table _ (List.mem_of_find?_eq_some hrow) name hmem

theorem stops_operator {name : String} (hvalid : (Token.operator name).Valid) (rest : List Char) :
    Stops isIdentifierChar ((Token.operator name).spelling ++ rest) := by
  obtain ⟨c, chars, hchars⟩ := List.exists_cons_of_ne_nil (symbols_ne_nil _ hvalid)
  have hc := (symbols_chars _ hvalid c (by simp [hchars])).2.2
  have hspelling : (Token.operator name).spelling = c :: chars := hchars
  rw [hspelling, List.cons_append, Text.stops_cons, hc]

theorem stops_becomes {operator : String} (hvalid : (Token.becomes operator).Valid)
    (rest : List Char) : Stops isIdentifierChar ((Token.becomes operator).spelling ++ rest) := by
  obtain ⟨c, chars, hchars⟩ := List.exists_cons_of_ne_nil (symbols_ne_nil _ hvalid)
  have hc := (symbols_chars _ hvalid c (by simp [hchars])).2.2
  have hspelling : (Token.becomes operator).spelling = c :: chars := by
    rw [← hchars, String.toList_append]
    rfl
  rw [hspelling, List.cons_append, Text.stops_cons, hc]

/-- A number or a name ends where no character of a name follows. -/
theorem Token.endsBefore_of_target? {token : Token} {read : Node} {write : Node → Node}
    {rest : List Char} (h : target? token = some (read, write))
    (hrest : Stops isIdentifierChar rest) : token.EndsBefore rest := by
  cases token with
  | word text | field text => exact hrest
  | _ => cases h

theorem Token.endsBefore_of_constant? {token : Token} {node : Node} {rest : List Char}
    (h : constant? token = some node) (hrest : Stops isIdentifierChar rest) :
    token.EndsBefore rest := by
  cases token with
  | word text => exact hrest
  | _ => cases h

theorem stops_isDigit {rest : List Char} (hrest : Stops isIdentifierChar rest) :
    Stops Char.isDigit rest := by
  intro c hc
  rw [← Bool.not_eq_true]
  intro hdigit
  have := hrest c hc
  rw [isIdentifierChar_of_isDigit hdigit] at this
  cases this

/-- Reading the text of a phrase gives its tokens, whatever follows that does not carry on a name
or a number. -/
theorem Phrase.lex_spell {level : Nat} {tokens : List Token} {node : Node}
    (phrase : Phrase level tokens node) {rest : List Char} (hrest : Stops isIdentifierChar rest) :
    lex (spell tokens ++ rest) = (lex rest).map (tokens ++ ·) := by
  -- No part is lengthened by the next one: what starts a phrase carries on no symbol, and what
  -- stands between two phrases carries on no name and no number.
  induction phrase generalizing rest with
  | number hvalue =>
      rw [spell_cons, spell_nil, List.append_nil]
      exact lex_spelling (.number _) trivial (.inr (stops_isDigit hrest))
  | @negative value node hvalue =>
      have hdigits := Token.stops_spelling (.number value) rfl trivial rest
      rw [spell_cons, spell_cons, spell_nil, List.append_nil, List.append_assoc,
        lex_spelling _ valid_minus (.inr hdigits),
        lex_spelling (.number value) trivial (.inr (stops_isDigit hrest)), Option.map_map]
      rfl
  | constant htoken =>
      rw [spell_cons, spell_nil, List.append_nil]
      have hvalid := (opens_of_constant? htoken).2
      exact lex_spelling _ hvalid (.inr (Token.endsBefore_of_constant? htoken hrest))
  | reading hvalid htoken =>
      rw [spell_cons, spell_nil, List.append_nil]
      exact lex_spelling _ hvalid (.inr (Token.endsBefore_of_target? htoken hrest))
  | nothing =>
      have hclosing : Stops continuesSymbol (Token.closing.spelling ++ rest) :=
        Text.stops_cons.2 (by decide)
      rw [spell_cons, spell_cons, spell_nil, List.append_nil, List.append_assoc,
        lex_spelling .opening trivial (.inr hclosing), lex_spelling .closing trivial (.inr trivial),
        Option.map_map]
      rfl
  | group inner ih =>
      have hclosing : Stops isIdentifierChar (Token.closing.spelling ++ rest) :=
        Text.stops_cons.2 (by decide)
      rw [spell_append, spell_cons, spell_cons, spell_nil, List.append_nil, List.append_assoc,
        List.append_assoc, lex_spelling .opening trivial (.inr (inner.stops_spell _)),
        ih hclosing, lex_spelling .closing trivial (.inr trivial), Option.map_map, Option.map_map]
      congr 1
      funext others
      simp
  | negation inner hlevel ih =>
      rw [spell_cons, List.append_assoc, lex_spelling .bang trivial (.inr (inner.stops_spell _)),
        ih hrest, Option.map_map]
      rfl
  | binary hname first hleft second hright ihFirst ihSecond =>
      have hvalid := valid_of_strength? hname
      rw [spell_append, spell_cons, List.append_assoc, List.append_assoc,
        ihFirst (stops_operator hvalid _), lex_spelling _ hvalid (.inr (second.stops_spell _)),
        ihSecond hrest, Option.map_map, Option.map_map]
      congr 1
      funext others
      simp
  | ternary condition htest thenBranch hyes elseBranch hno ihTest ihYes ihNo =>
      have hquestion (after : List Char) :
          Stops isIdentifierChar (Token.question.spelling ++ after) := Text.stops_cons.2 (by decide)
      have hcolon (after : List Char) :
          Stops isIdentifierChar (Token.colon.spelling ++ after) := Text.stops_cons.2 (by decide)
      rw [spell_append, spell_cons, spell_append, spell_cons]
      simp only [List.append_assoc]
      rw [ihTest (hquestion _), lex_spelling .question trivial (.inl rfl), ihYes (hcolon _),
        lex_spelling .colon trivial (.inl rfl), ihNo hrest]
      simp only [Option.map_map]
      congr 1
      funext others
      simp
  | modifier thenBranch condition htest ihYes ihTest =>
      have hif (after : List Char) :
          Stops isIdentifierChar ((Token.word "if").spelling ++ after) :=
        Text.stops_cons.2 (by decide)
      have hvalid : isIdentifier "if".toList := by decide
      rw [spell_append, spell_cons, List.append_assoc, List.append_assoc, ihYes (hif _),
        lex_spelling (.word "if") hvalid (.inl rfl), ihTest hrest, Option.map_map, Option.map_map]
      congr 1
      funext others
      simp
  | assignment hvalid htoken hoperator rhs hlevel ih =>
      rw [spell_cons, spell_cons, List.append_assoc, List.append_assoc,
        lex_spelling _ hvalid (.inr (Token.endsBefore_of_target? htoken (stops_becomes hoperator _))),
        lex_spelling _ hoperator (.inr (rhs.stops_spell _)), ih hrest, Option.map_map, Option.map_map]
      rfl

/-- **The reader finds the tree of every derivation.** -/
theorem Phrase.read_spell {level : Nat} {tokens : List Token} {node : Node}
    (phrase : Phrase level tokens node) : read (String.ofList (spell tokens)) = some node := by
  have hlex : lex (spell tokens ++ []) = (lex []).map (tokens ++ ·) := phrase.lex_spell Text.stops_nil
  rw [List.append_nil, lex, Option.map_some, List.append_nil] at hlex
  rw [read, String.toList_ofList, hlex]
  exact phrase.readTokens

end RubyPress.Ruby
