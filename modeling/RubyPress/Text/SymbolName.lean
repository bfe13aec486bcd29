/-!
Which symbols can be written without quotes.
-/

namespace RubyPress.SymbolName

/-- The operators that are symbols without quotes. -/
def operators : List String :=
  ["+", "-", "*", "/", "%", "**", "==", "===", "!=", "<=>", "<", "<=", ">", ">=", "!", "[]",
    "[]=", "<<", ">>", "&", "|", "^", "~", "+@", "-@", "=~", "!~"]

def isIdentifierChar (c : Char) : Bool :=
  c == '_' || c.isAlphanum || 0x80 ≤ c.toNat

def isIdentifier : List Char → Bool
  | [] => false
  | c :: rest => isIdentifierChar c && !c.isDigit && rest.all isIdentifierChar

/-- The part of a name that has to be an identifier: what follows the sigil of a variable, or
all but one closing `?`, `!` or `=`. -/
def body : List Char → List Char
  | '@' :: '@' :: rest => rest
  | '@' :: rest => rest
  | '$' :: rest => rest
  | name =>
    match name.getLast? with
    | some last => if last = '?' ∨ last = '!' ∨ last = '=' then name.dropLast else name
    | none => name

def isPlain (value : String) : Bool :=
  operators.contains value || isIdentifier (body value.toList)

end RubyPress.SymbolName
