import RubyPress.Tree.Kind

/-!
The resolved Ruby syntax tree. Locals, instance variables and constants are distinct kinds of
node, and `nil` is the explicit "no value", which differs from an absent optional part.
-/

namespace RubyPress

/-- A constant path such as `Foo::Bar`. -/
structure ConstPath where
  segments : List String
  deriving DecidableEq

namespace ConstPath

def simple (name : String) : ConstPath := ⟨[name]⟩

def joined (path : ConstPath) : String :=
  "::".intercalate path.segments

end ConstPath

inductive Node where
  /-- Method call, operator application, indexing, or call with a block. -/
  | call (receiver : Option Node) (method : String) (args : List Node)
      (blockParams : List String) (blockBody : Option Node) (blockForward : Option Node)
  | definition (method : String) (params : List String) (body : Node)
  | ifElse (condition thenBranch : Node) (elseBranch : Option Node)
  | unlessElse (condition thenBranch : Node) (elseBranch : Option Node)
  /-- The clause at a position is the body run when the `when` at that position matches. -/
  | caseWhen (pivot : Node) (clauses whens : List Node) (elseClause : Option Node)
  | ret (argument : Node)
  | yielding (args : List Node)
  | boolean (value : Bool)
  | classDef (path : ConstPath) (superclass : Option ConstPath) (body : Node)
  | moduleDef (path : ConstPath) (body : Node)
  | selfRef
  | logicalAnd (lhs rhs : Node)
  | logicalOr (lhs rhs : Node)
  | localRead (name : String)
  | localWrite (name : String) (rhs : Node)
  /-- The name of an instance variable carries its sigil. -/
  | instanceRead (name : String)
  | instanceWrite (name : String) (rhs : Node)
  | constRead (base : Option Node) (name : String)
  | constWrite (path : List String) (rhs : Node)
  | string (value : String)
  | integer (value : Int64)
  | array (elements : List Node)
  | symbol (value : String)
  | hash (keys values : List Node)
  /-- String parts are literal fragments, any other part is embedded code. -/
  | interpolatedString (parts : List Node)
  | interpolatedSymbol (parts : List Node)
  | including (args : List Node)
  | nil
  | block (statements : List Node)
  /-- A construct the front end could not map onto this tree. -/
  | unmapped (construct : String)

namespace Node

def kind : Node → Kind
  | call .. => .call
  | definition .. => .definition
  | ifElse .. => .ifElse
  | unlessElse .. => .unlessElse
  | caseWhen .. => .caseWhen
  | ret .. => .ret
  | yielding .. => .yielding
  | boolean .. => .boolean
  | classDef .. => .classDef
  | moduleDef .. => .moduleDef
  | selfRef => .selfRef
  | logicalAnd .. => .logicalAnd
  | logicalOr .. => .logicalOr
  | localRead .. => .localRead
  | localWrite .. => .localWrite
  | instanceRead .. => .instanceRead
  | instanceWrite .. => .instanceWrite
  | constRead .. => .constRead
  | constWrite .. => .constWrite
  | string .. => .string
  | integer .. => .integer
  | array .. => .array
  | symbol .. => .symbol
  | hash .. => .hash
  | interpolatedString .. => .interpolatedString
  | interpolatedSymbol .. => .interpolatedSymbol
  | including .. => .including
  | nil => .nil
  | block .. => .block
  | unmapped .. => .unmapped

/-- The statements of a block; any other node is a block of one. -/
def statements : Node → List Node
  | block statements => statements
  | node => [node]

/-- Whether a call carries a block body or a forwarded block. -/
def hasTrailingBlock : Node → Bool
  | call _ _ _ _ body forward => body.isSome || forward.isSome
  | _ => false

/-- Whether a node used as a body holds no statement at all. -/
def isEmptyBody : Node → Bool
  | nil => true
  | block [] => true
  | _ => false

/-- The node whose text a non-nil `return` or a block of one statement takes over. -/
def rendered : Node → Node
  | ret nil => ret nil
  | ret argument => argument.rendered
  | block [statement] => statement.rendered
  | node => node
termination_by structural node => node

end Node

end RubyPress
