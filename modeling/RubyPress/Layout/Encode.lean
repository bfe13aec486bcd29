import RubyPress.Json.Printer
import RubyPress.Tree.Node

/-!
From nodes to JSON values: the kind first, then the fields in their order. Absent parts and most
empty lists are left out.
-/

namespace RubyPress.Layout

open Json (Value)

def whenPresent (name : String) : Option Value → List (String × Value)
  | some value => [(name, value)]
  | none => []

def whenFilled (name : String) (values : List Value) : List (String × Value) :=
  if values.isEmpty then [] else [(name, .arr values)]

def strings (names : List String) : List Value := names.map Value.str

def encodePath (path : ConstPath) : Value := .obj [("segments", .arr (strings path.segments))]

def stored (kind : Kind) (members : List (String × Value)) : Value :=
  .obj (("type", .str kind.name) :: members)

mutual

def encode : Node → Value
  | .call receiver method args params body forward =>
    stored .call (whenPresent "receiver" (encodeOption receiver) ++ [("method_name", .str method)] ++
      whenFilled "positional_args" (encodeAll args) ++ whenFilled "block_params" (strings params) ++
      whenPresent "block_body" (encodeOption body) ++
      whenPresent "block_forward" (encodeOption forward))
  | .definition method params body =>
    stored .definition ([("method_name", .str method)] ++
      whenFilled "required_params" (strings params) ++ [("body", encode body)])
  | .ifElse test thenBranch elseBranch =>
    stored .ifElse ([("condition", encode test), ("then_branch", encode thenBranch)] ++
      whenPresent "else_branch" (encodeOption elseBranch))
  | .unlessElse test thenBranch elseBranch =>
    stored .unlessElse ([("condition", encode test), ("then_branch", encode thenBranch)] ++
      whenPresent "else_branch" (encodeOption elseBranch))
  | .caseWhen pivot clauses whens elseClause =>
    stored .caseWhen ([("pivot", encode pivot), ("clauses", .arr (encodeAll clauses)),
      ("whens", .arr (encodeAll whens))] ++ whenPresent "else_clause" (encodeOption elseClause))
  | .ret argument => stored .ret [("argument", encode argument)]
  | .yielding args => stored .yielding (whenFilled "positional_args" (encodeAll args))
  | .boolean value => stored .boolean [("value", .bool value)]
  | .classDef path superclass body =>
    stored .classDef ([("name_path", encodePath path)] ++
      whenPresent "superclass_path" (superclass.map encodePath) ++ [("body", encode body)])
  | .moduleDef path body => stored .moduleDef [("name_path", encodePath path), ("body", encode body)]
  | .selfRef => stored .selfRef []
  | .logicalAnd lhs rhs => stored .logicalAnd [("lhs", encode lhs), ("rhs", encode rhs)]
  | .logicalOr lhs rhs => stored .logicalOr [("lhs", encode lhs), ("rhs", encode rhs)]
  | .localRead name => stored .localRead [("name", .str name)]
  | .localWrite name rhs => stored .localWrite [("name", .str name), ("rhs", encode rhs)]
  | .instanceRead name => stored .instanceRead [("name", .str name)]
  | .instanceWrite name rhs => stored .instanceWrite [("name", .str name), ("rhs", encode rhs)]
  | .constRead base name =>
    stored .constRead (whenPresent "base" (encodeOption base) ++ [("name", .str name)])
  | .constWrite path rhs =>
    stored .constWrite [("path", .arr (strings path)), ("rhs", encode rhs)]
  | .string value => stored .string [("value", .str value)]
  | .integer value => stored .integer [("value", .int value.toInt)]
  | .array elements => stored .array [("elements", .arr (encodeAll elements))]
  | .symbol value => stored .symbol [("value", .str value)]
  | .hash keys values =>
    stored .hash [("keys", .arr (encodeAll keys)), ("values", .arr (encodeAll values))]
  | .interpolatedString parts => stored .interpolatedString [("parts", .arr (encodeAll parts))]
  | .interpolatedSymbol parts => stored .interpolatedSymbol [("parts", .arr (encodeAll parts))]
  | .including args => stored .including [("args", .arr (encodeAll args))]
  | .nil => stored .nil []
  | .block statements => stored .block [("statements", .arr (encodeAll statements))]
  | .unmapped construct => stored .unmapped [("kind", .str construct)]
termination_by structural node => node

def encodeAll : List Node → List Value
  | [] => []
  | node :: rest => encode node :: encodeAll rest
termination_by structural nodes => nodes

def encodeOption : Option Node → Option Value
  | none => none
  | some node => some (encode node)
termination_by structural node => node

end

/-- The compact stored form of a tree. -/
def store (node : Node) : String := (encode node).compact

end RubyPress.Layout
