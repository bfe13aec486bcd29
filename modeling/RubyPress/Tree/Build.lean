import RubyPress.Tree.Node

/-!
Short constructors for trees assembled in code.
-/

namespace RubyPress.Node

/-- Call with an explicit receiver. -/
def invoke (receiver : Node) (method : String) (args : List Node) : Node :=
  call (some receiver) method args [] none none

/-- Call without receiver, such as `puts(x)`. -/
def send (method : String) (args : List Node) : Node :=
  call none method args [] none none

def binary (lhs : Node) (operator : String) (rhs : Node) : Node :=
  invoke lhs operator [rhs]

def negation (operand : Node) : Node :=
  invoke operand "!" []

/-- Gives a call the block `{ |params| body }`; any other node stays as it is. -/
def withBlock (node : Node) (params : List String) (body : Node) : Node :=
  match node with
  | call receiver method args _ _ forward => call receiver method args params (some body) forward
  | node => node

/-- Gives a call the forwarded block argument `&block`; any other node stays as it is. -/
def withBlockForward (node : Node) (block : Node) : Node :=
  match node with
  | call receiver method args params body _ => call receiver method args params body (some block)
  | node => node

def constant (name : String) : Node :=
  constRead none name

def hashOfPairs (pairs : List (Node × Node)) : Node :=
  hash (pairs.map Prod.fst) (pairs.map Prod.snd)

end RubyPress.Node
