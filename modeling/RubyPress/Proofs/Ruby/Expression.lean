import RubyPress.Proofs.Ruby.Token
import RubyPress.Tree.Build

/-!
# Reading operator expressions

Ruby's table of operators and a reader that groups tokens by it. The reader climbs: it reads an
operand and then carries on with every operator that is strong enough for the place it reads in,
and weak enough not to have been taken by the operand before it.
-/

namespace RubyPress.Ruby

namespace Level

abbrev modifier : Nat := 0

/-- Assignments; the level between is that of `not`, `and` and `or`. -/
abbrev assignment : Nat := 2

abbrev ternary : Nat := 3

abbrev minus : Nat := 11

abbrev power : Nat := 12

abbrev negation : Nat := 13

abbrev primary : Nat := 14

end Level

/-- Which way equally strong operators group. -/
inductive Grouping where
  | left
  | right
  | apart
  deriving DecidableEq

/-- Ruby's binary operators, the strongest first. -/
def binaryRows : List (Nat × Grouping × List String) :=
  [(Level.power, .right, ["**"]), (10, .left, ["*", "/", "%"]), (9, .left, ["+", "-"]),
    (8, .left, ["^"]), (7, .left, ["<", "<=", ">", ">="]), (6, .apart, ["<=>", "==", "==="]),
    (5, .left, ["&&"]), (4, .left, ["||"])]

def strength? (name : String) : Option (Nat × Grouping) :=
  (binaryRows.find? fun (_, _, names) => names.contains name).map fun (level, grouping, _) =>
    (level, grouping)

namespace Grouping

def leftLeast (grouping : Grouping) (level : Nat) : Nat :=
  if grouping = left then level else level + 1

def rightLeast (grouping : Grouping) (level : Nat) : Nat :=
  if grouping = right then level else level + 1

end Grouping

/-- The strongest operator that can follow an expression of a level: one of the same level if that
groups to the left. -/
def reach (level : Nat) : Nat :=
  if level = Level.assignment ∨ level = Level.ternary ∨ level = 6 ∨ level = Level.power then
    level - 1
  else level

def combine (name : String) (lhs rhs : Node) : Node :=
  if name = "&&" then .logicalAnd lhs rhs
  else if name = "||" then .logicalOr lhs rhs
  else lhs.binary name rhs

/-- The value that `read OP= value` assigns. -/
def assigned (operator : String) (read value : Node) : Node :=
  if operator = "" then value else combine operator read value

/-- How to read and to assign the variable a token names. -/
def target? : Token → Option (Node × (Node → Node))
  | .word text => if isKeyword text then none else some (.localRead text, .localWrite text)
  | .field text => some (.instanceRead text, .instanceWrite text)
  | _ => none

def constant? : Token → Option Node
  | .word text => if text = "true" then some (.boolean true)
    else if text = "false" then some (.boolean false)
    else if text = "nil" then some .nil
    else none
  | _ => none

def literal? (value : Int) : Option Node :=
  if Int64.minValue.toInt ≤ value ∧ value ≤ Int64.maxValue.toInt then
    some (.integer (Int64.ofInt value))
  else none

def startsPower : List Token → Bool
  | .operator name :: _ => name == "**"
  | _ => false

mutual

/-- An expression whose operators outside parentheses have at least the given level. There is a
round for each step down. -/
def expression : Nat → Nat → List Token → Option (Node × List Token)
  | 0, _, _ => none
  | rounds + 1, least, tokens =>
    match operand rounds least tokens with
    | none => none
    | some (first, strongest, rest) => climb rounds least strongest first rest

/-- What stands before the first binary operator, and the strongest operator that can follow. -/
def operand : Nat → Nat → List Token → Option (Node × Nat × List Token)
  | 0, _, _ => none
  | rounds + 1, least, tokens =>
    match tokens with
    | .number value :: rest => (literal? value).map fun node => (node, Level.primary, rest)
    | .operator name :: .number value :: rest =>
      if name ≠ "-" ∨ Level.minus < least then none
      else if startsPower rest then
        (expression rounds Level.power (.number value :: rest)).map fun (node, rest) =>
          (node.invoke "-@" [], Level.minus, rest)
      else (literal? (-value)).map fun node => (node, Level.minus, rest)
    | .bang :: rest =>
      (expression rounds Level.negation rest).map fun (node, rest) =>
        (node.negation, Level.negation, rest)
    | .opening :: .closing :: rest => some (.nil, Level.primary, rest)
    | .opening :: rest =>
      match expression rounds Level.modifier rest with
      | some (node, .closing :: rest) => some (node, Level.primary, rest)
      | _ => none
    | token :: rest =>
      match constant? token, target? token with
      | some node, _ => some (node, Level.primary, rest)
      | none, none => none
      | none, some (read, write) =>
        match rest with
        | .becomes operator :: rest =>
          if Level.assignment < least then none
          else
            (expression rounds Level.assignment rest).map fun (value, rest) =>
              (write (assigned operator read value), reach Level.assignment, rest)
        | _ => some (read, Level.primary, rest)
    | [] => none

/-- Carries on an expression with the operators that follow, as long as their levels lie between
`least` and `strongest`. -/
def climb : Nat → Nat → Nat → Node → List Token → Option (Node × List Token)
  | 0, _, _, _, _ => none
  | rounds + 1, least, strongest, left, tokens =>
    match tokens with
    | .operator name :: rest =>
      match strength? name with
      | none => some (left, tokens)
      | some (level, grouping) =>
        if least ≤ level ∧ level ≤ strongest then
          match expression rounds (grouping.rightLeast level) rest with
          | none => none
          | some (right, rest) => climb rounds least (reach level) (combine name left right) rest
        else some (left, tokens)
    | .question :: rest =>
      if least ≤ Level.ternary ∧ Level.ternary ≤ strongest then
        match expression rounds Level.assignment rest with
        | some (yes, .colon :: rest) =>
          match expression rounds Level.ternary rest with
          | none => none
          | some (no, rest) => climb rounds least (reach Level.ternary) (.ifElse left yes (some no)) rest
        | _ => none
      else some (left, tokens)
    | .word text :: rest =>
      if text = "if" ∧ least ≤ Level.modifier then
        match expression rounds (Level.modifier + 1) rest with
        | none => none
        | some (test, rest) => climb rounds least (reach Level.modifier) (.ifElse test left none) rest
      else some (left, tokens)
    | _ => some (left, tokens)

end

def readTokens (tokens : List Token) : Option Node :=
  match expression (2 * tokens.length + 1) Level.modifier tokens with
  | some (node, []) => some node
  | _ => none

/-- The tree that a text stands for. -/
def read (text : String) : Option Node :=
  lex text.toList >>= readTokens

end RubyPress.Ruby
