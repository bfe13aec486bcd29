import RubyPress.Decimal.Shortest
import RubyPress.Json.Value
import RubyPress.Layout.Field
import RubyPress.Text.Quoted

/-!
The ways in which a JSON value fails to be a stored node.
-/

namespace RubyPress.Layout

/-- What a place in a stored tree calls for. -/
inductive Expected where
  | node
  | tag
  | path
  | text
  | flag
  | integer
  | sequence
  deriving DecidableEq

def Expected.description : Expected → String
  | node => "internally tagged enum SyntaxNode"
  | tag => "variant identifier"
  | path => "struct ConstPath"
  | text => "a string"
  | flag => "a boolean"
  | integer => "i64"
  | sequence => "a sequence"

/-- What a value is, as a message names it. -/
def describe : Json.Value → String
  | .null => "null"
  | .bool value => s!"boolean `{value}`"
  | .int value => s!"integer `{value}`"
  | .real value => s!"floating point `{Decimal.text value}`"
  | .str value => s!"string {Text.quoted value}"
  | .arr _ => "sequence"
  | .obj _ => "map"

inductive DataError where
  | unknownKind (name : String)
  | kindIndex (index : Int)
  | mismatch (found : Json.Value) (expected : Expected)
  | integerRange (value : Int)
  | duplicateField (name : String)
  | missingField (name : String)
  /-- The elements of a node stored as a list run out at the field with this index. -/
  | nodeTooShort (kind : Kind) (index : Nat)
  | pathTooShort
  /-- A node or path stored as a list has elements beyond its fields. -/
  | tooLong (found expected : Nat)

/-- A number of elements in words. -/
def elementCount (count : Nat) : String :=
  if count = 1 then "1 element" else s!"{count} elements"

def DataError.message : DataError → String
  | unknownKind name =>
    let names := Kind.all.map fun kind => s!"`{kind.name}`"
    s!"unknown variant `{name}`, expected one of " ++ ", ".intercalate names
  | kindIndex index =>
    s!"invalid value: integer `{index}`, expected variant index 0 <= i < {Kind.all.length}"
  | mismatch found expected =>
    s!"invalid type: {describe found}, expected {expected.description}"
  | integerRange value => s!"invalid value: integer `{value}`, expected i64"
  | duplicateField name => s!"duplicate field `{name}`"
  | missingField name => s!"missing field `{name}`"
  | nodeTooShort kind index =>
    s!"invalid length {index}, expected struct variant SyntaxNode::{kind.title} with " ++
      elementCount (fields kind).length
  | pathTooShort => "invalid length 0, expected struct ConstPath with 1 element"
  | tooLong found expected =>
    s!"invalid length {found}, expected {elementCount expected} in sequence"

end RubyPress.Layout
