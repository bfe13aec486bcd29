import RubyPress.Decimal.Shortest
import RubyPress.Json.Value
import RubyPress.Text.Hex

/-!
Compact JSON text: no blanks, and only quotes, backslashes and control characters escaped.
-/

namespace RubyPress.Json

def escapeChar (c : Char) : List Char :=
  if c = '"' then ['\\', '"']
  else if c = '\\' then ['\\', '\\']
  else if c = '\x08' then ['\\', 'b']
  else if c = '\t' then ['\\', 't']
  else if c = '\n' then ['\\', 'n']
  else if c = '\x0c' then ['\\', 'f']
  else if c = '\r' then ['\\', 'r']
  else if c.toNat < 0x20 then '\\' :: 'u' :: Hex.fixed .small 4 c.toNat
  else [c]

def printString (value : String) : List Char :=
  '"' :: value.toList.flatMap escapeChar ++ ['"']

mutual

def print : Value → List Char
  | .null => "null".toList
  | .bool value => (if value then "true" else "false").toList
  | .int value => (toString value).toList
  | .real value => (Decimal.text value).toList
  | .str value => printString value
  | .arr elements => '[' :: [','].intercalate (printAll elements) ++ [']']
  | .obj members => '\x7b' :: [','].intercalate (printMembers members) ++ ['\x7d']

def printAll : List Value → List (List Char)
  | [] => []
  | value :: rest => print value :: printAll rest

def printMembers : List (String × Value) → List (List Char)
  | [] => []
  | (key, value) :: rest => (printString key ++ ':' :: print value) :: printMembers rest

end

def Value.compact (value : Value) : String := String.ofList (print value)

end RubyPress.Json
