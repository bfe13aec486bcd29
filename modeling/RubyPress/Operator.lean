import RubyPress.Config
import RubyPress.Tree.Node

/-!
Which method names are operators, how tightly each operator binds, and which assignments can be
written with an assignment operator.
-/

namespace RubyPress

/-- Binding strength: a higher level binds tighter. -/
abbrev Precedence := Nat

namespace Precedence

abbrev modifier : Precedence := 0

/-- Argument lists without parentheses: they swallow a following comma, so they cannot stand
inside another list. -/
abbrev command : Precedence := 1

abbrev assign : Precedence := 2

abbrev ternary : Precedence := 3

abbrev or : Precedence := 4

abbrev and : Precedence := 5

abbrev equality : Precedence := 6

abbrev comparison : Precedence := 7

abbrev bitOr : Precedence := 8

abbrev additive : Precedence := 9

abbrev multiplicative : Precedence := 10

/-- The minus sign of a negative literal. -/
abbrev negative : Precedence := 11

abbrev power : Precedence := 12

abbrev unary : Precedence := 13

abbrev primary : Precedence := 14

def all : List Precedence :=
  [modifier, command, assign, ternary, or, and, equality, comparison, bitOr, additive,
    multiplicative, negative, power, unary, primary]

end Precedence

namespace Operator

/-- The operators written between their two operands. -/
def binaryNames : List String :=
  ["+", "-", "*", "/", "**", "%", "^", ">", "<", "<=", ">=", "<=>", "==", "==="]

/-- The binary operators that have an assignment form. -/
def compoundNames : List String :=
  ["+", "-", "*", "/", "**", "%", "^"]

def isBinary (name : String) : Bool := binaryNames.contains name

def isCompound (name : String) : Bool := compoundNames.contains name

def isNot (name : String) : Bool := name == "!"

def isIndexRead (name : String) : Bool := name == "[]"

def isIndexWrite (name : String) : Bool := name == "[]="

def precedence? (name : String) : Option Precedence :=
  if name == "**" then some .power
  else if ["*", "/", "%"].contains name then some .multiplicative
  else if ["+", "-"].contains name then some .additive
  else if name == "^" then some .bitOr
  else if [">", "<", "<=", ">="].contains name then some .comparison
  else if ["<=>", "==", "==="].contains name then some .equality
  else none

def precedence (name : String) : Precedence :=
  (precedence? name).getD .equality

/-- Whether `a OP b OP c` groups to the left without parentheses. -/
def isLeftAssociative (name : String) : Bool :=
  !(["**", "<=>", "==", "==="].contains name)

/-- The least levels at which the left and the right operand stand without parentheses. -/
def operandLevels (name : String) : Precedence × Precedence :=
  let level := precedence name
  if name == "**" then (level + 1, level)
  else if isLeftAssociative name then (level, level + 1)
  else (level + 1, level + 1)

end Operator

inductive Variable where
  | localVar (name : String)
  | instanceVar (name : String)
  deriving DecidableEq

namespace Node

def assignment? : Node → Option (Variable × Node)
  | localWrite name rhs => some (.localVar name, rhs)
  | instanceWrite name rhs => some (.instanceVar name, rhs)
  | _ => none

/-- Whether the node reads exactly this variable. -/
def reads (target : Variable) : Node → Bool
  | localRead name => target = .localVar name
  | instanceRead name => target = .instanceVar name
  | _ => false

/-- The operator and the remaining operand when the value assigned to `target` has the form
`target OP operand`. Arithmetic is abbreviated in verbose style only. -/
def abbreviation? (style : LiteralStyle) (target : Variable) : Node → Option (String × Node)
  | logicalAnd lhs rhs => if lhs.reads target then some ("&&", rhs) else none
  | logicalOr lhs rhs => if lhs.reads target then some ("||", rhs) else none
  | call (some receiver) method [operand] _ none none =>
    if style = .verbose ∧ Operator.isCompound method ∧ receiver.reads target then
      some (method, operand)
    else none
  | _ => none

/-- Whether the node is an assignment that can be written with an assignment operator. -/
def isSelfAssignment (style : LiteralStyle) (node : Node) : Bool :=
  match node.assignment? with
  | some (target, rhs) => (rhs.abbreviation? style target).isSome
  | none => false

end Node

end RubyPress
