import RubyPress.Tree.Node

/-!
The layout of stored nodes: which fields each kind has, in which order, what each holds, and
which may be left out.
-/

namespace RubyPress.Layout

inductive FieldType where
  | node
  | optionalNode
  | nodes
  | text
  | texts
  | path
  | optionalPath
  | flag
  | integer
  deriving DecidableEq

@[reducible]
def FieldType.Content : FieldType → Type
  | node => Node
  | optionalNode => Option Node
  | nodes => List Node
  | text => String
  | texts => List String
  | path => ConstPath
  | optionalPath => Option ConstPath
  | flag => Bool
  | integer => Int64

def FieldType.empty? : (type : FieldType) → Option type.Content
  | optionalNode => some none
  | nodes => some []
  | texts => some []
  | optionalPath => some none
  | node | text | path | flag | integer => none

structure Field where
  name : String
  type : FieldType
  /-- Whether a stored node may leave the field out. -/
  mayMiss : Bool

@[reducible]
def required (name : String) (type : FieldType) : Field := ⟨name, type, false⟩

@[reducible]
def optional (name : String) (type : FieldType) : Field := ⟨name, type, true⟩

/-- What stands in a field that is left out, if it may be. -/
def Field.missing? (field : Field) : Option field.type.Content :=
  if field.mayMiss then field.type.empty? else none

@[reducible]
def fields : Kind → List Field
  | .call => [optional "receiver" .optionalNode, required "method_name" .text,
      optional "positional_args" .nodes, optional "block_params" .texts,
      optional "block_body" .optionalNode, optional "block_forward" .optionalNode]
  | .definition => [required "method_name" .text, optional "required_params" .texts,
      required "body" .node]
  | .ifElse => [required "condition" .node, required "then_branch" .node,
      optional "else_branch" .optionalNode]
  | .unlessElse => [required "condition" .node, required "then_branch" .node,
      optional "else_branch" .optionalNode]
  | .caseWhen => [required "pivot" .node, required "clauses" .nodes, required "whens" .nodes,
      optional "else_clause" .optionalNode]
  | .ret => [required "argument" .node]
  | .yielding => [optional "positional_args" .nodes]
  | .boolean => [required "value" .flag]
  | .classDef => [required "name_path" .path, optional "superclass_path" .optionalPath,
      required "body" .node]
  | .moduleDef => [required "name_path" .path, required "body" .node]
  | .selfRef => []
  | .logicalAnd => [required "lhs" .node, required "rhs" .node]
  | .logicalOr => [required "lhs" .node, required "rhs" .node]
  | .localRead => [required "name" .text]
  | .localWrite => [required "name" .text, required "rhs" .node]
  | .instanceRead => [required "name" .text]
  | .instanceWrite => [required "name" .text, required "rhs" .node]
  | .constRead => [optional "base" .optionalNode, required "name" .text]
  | .constWrite => [required "path" .texts, required "rhs" .node]
  | .string => [required "value" .text]
  | .integer => [required "value" .integer]
  | .array => [optional "elements" .nodes]
  | .symbol => [required "value" .text]
  | .hash => [optional "keys" .nodes, optional "values" .nodes]
  | .interpolatedString => [required "parts" .nodes]
  | .interpolatedSymbol => [required "parts" .nodes]
  | .including => [required "args" .nodes]
  | .nil => []
  | .block => [optional "statements" .nodes]
  | .unmapped => [required "kind" .text]

@[reducible]
def Record : List Field → Type
  | [] => Unit
  | field :: rest => field.type.Content × Record rest

/-- The node of a kind with given contents of its fields. -/
def assemble : (kind : Kind) → Record (fields kind) → Node
  | .call, (receiver, method, args, params, body, forward, ()) =>
    .call receiver method args params body forward
  | .definition, (method, params, body, ()) => .definition method params body
  | .ifElse, (test, thenBranch, elseBranch, ()) => .ifElse test thenBranch elseBranch
  | .unlessElse, (test, thenBranch, elseBranch, ()) => .unlessElse test thenBranch elseBranch
  | .caseWhen, (pivot, clauses, whens, elseClause, ()) => .caseWhen pivot clauses whens elseClause
  | .ret, (argument, ()) => .ret argument
  | .yielding, (args, ()) => .yielding args
  | .boolean, (value, ()) => .boolean value
  | .classDef, (path, superclass, body, ()) => .classDef path superclass body
  | .moduleDef, (path, body, ()) => .moduleDef path body
  | .selfRef, () => .selfRef
  | .logicalAnd, (lhs, rhs, ()) => .logicalAnd lhs rhs
  | .logicalOr, (lhs, rhs, ()) => .logicalOr lhs rhs
  | .localRead, (name, ()) => .localRead name
  | .localWrite, (name, rhs, ()) => .localWrite name rhs
  | .instanceRead, (name, ()) => .instanceRead name
  | .instanceWrite, (name, rhs, ()) => .instanceWrite name rhs
  | .constRead, (base, name, ()) => .constRead base name
  | .constWrite, (path, rhs, ()) => .constWrite path rhs
  | .string, (value, ()) => .string value
  | .integer, (value, ()) => .integer value
  | .array, (elements, ()) => .array elements
  | .symbol, (value, ()) => .symbol value
  | .hash, (keys, values, ()) => .hash keys values
  | .interpolatedString, (parts, ()) => .interpolatedString parts
  | .interpolatedSymbol, (parts, ()) => .interpolatedSymbol parts
  | .including, (args, ()) => .including args
  | .nil, () => .nil
  | .block, (statements, ()) => .block statements
  | .unmapped, (construct, ()) => .unmapped construct

end RubyPress.Layout
