/-!
The thirty kinds of node a Ruby syntax tree is made of, with the name each kind carries in a
stored tree.
-/

namespace RubyPress

/-- The kinds of node, in the order in which a stored tree may number them. -/
inductive Kind where
  | call
  | definition
  | ifElse
  | unlessElse
  | caseWhen
  | ret
  | yielding
  | boolean
  | classDef
  | moduleDef
  | selfRef
  | logicalAnd
  | logicalOr
  | localRead
  | localWrite
  | instanceRead
  | instanceWrite
  | constRead
  | constWrite
  | string
  | integer
  | array
  | symbol
  | hash
  | interpolatedString
  | interpolatedSymbol
  | including
  | nil
  | block
  | unmapped
  deriving DecidableEq

namespace Kind

/-- The tag that marks a node of this kind in a stored tree. -/
def name : Kind → String
  | call => "call"
  | definition => "definition"
  | ifElse => "if"
  | unlessElse => "unless"
  | caseWhen => "case"
  | ret => "return"
  | yielding => "yield"
  | boolean => "boolean_literal"
  | classDef => "class_def"
  | moduleDef => "module_def"
  | selfRef => "self_ref"
  | logicalAnd => "logical_and"
  | logicalOr => "logical_or"
  | localRead => "local_var_read"
  | localWrite => "local_var_write"
  | instanceRead => "instance_var_read"
  | instanceWrite => "instance_var_write"
  | constRead => "constant_read"
  | constWrite => "constant_write"
  | string => "string_lit"
  | integer => "integer_lit"
  | array => "array_lit"
  | symbol => "symbol_lit"
  | hash => "hash_lit"
  | interpolatedString => "interpolated_string"
  | interpolatedSymbol => "interpolated_symbol"
  | including => "include_directive"
  | nil => "nil"
  | block => "statement_block"
  | unmapped => "opaque"

/-- The title of the kind in messages about its fields. -/
def title : Kind → String
  | call => "Call"
  | definition => "Definition"
  | ifElse => "If"
  | unlessElse => "Unless"
  | caseWhen => "Case"
  | ret => "Return"
  | yielding => "Yield"
  | boolean => "BooleanLiteral"
  | classDef => "ClassDef"
  | moduleDef => "ModuleDef"
  | selfRef => "SelfRef"
  | logicalAnd => "LogicalAnd"
  | logicalOr => "LogicalOr"
  | localRead => "LocalVarRead"
  | localWrite => "LocalVarWrite"
  | instanceRead => "InstanceVarRead"
  | instanceWrite => "InstanceVarWrite"
  | constRead => "ConstantRead"
  | constWrite => "ConstantWrite"
  | string => "StringLit"
  | integer => "IntegerLit"
  | array => "ArrayLit"
  | symbol => "SymbolLit"
  | hash => "HashLit"
  | interpolatedString => "InterpolatedString"
  | interpolatedSymbol => "InterpolatedSymbol"
  | including => "IncludeDirective"
  | nil => "Nil"
  | block => "StatementBlock"
  | unmapped => "Opaque"

def all : List Kind :=
  [call, definition, ifElse, unlessElse, caseWhen, ret, yielding, boolean, classDef, moduleDef,
    selfRef, logicalAnd, logicalOr, localRead, localWrite, instanceRead, instanceWrite, constRead,
    constWrite, string, integer, array, symbol, hash, interpolatedString, interpolatedSymbol,
    including, nil, block, unmapped]

def ofName? (name : String) : Option Kind :=
  all.find? fun kind => kind.name == name

def ofIndex? (index : Nat) : Option Kind :=
  all[index]?

theorem ofName?_name (kind : Kind) : ofName? kind.name = some kind := by
  cases kind <;> decide

end Kind

end RubyPress
