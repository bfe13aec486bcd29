import RubyPress.Text.Hex

/-!
The inside of a double-quoted Ruby literal, written in printable ASCII only.
-/

namespace RubyPress.DoubleQuoted

def escapeLetter? (c : Char) : Option Char :=
  match c.toNat with
  | 0x22 => some '"'
  | 0x5c => some '\\'
  | 0x0a => some 'n'
  | 0x0d => some 'r'
  | 0x09 => some 't'
  | 0x0c => some 'f'
  | 0x0b => some 'v'
  | 0x08 => some 'b'
  | 0x07 => some 'a'
  | 0x1b => some 'e'
  | _ => none

/-- Whether a number sign directly before this text would start an interpolation. -/
def opensInterpolation : List Char → Bool
  | '\x7b' :: _ => true
  | '$' :: _ => true
  | '@' :: _ => true
  | _ => false

/-- A character by its code point, in the shortest of the numeric escapes. -/
def numericEscape (code : Nat) : List Char :=
  if code < 0x80 then '\\' :: 'x' :: Hex.fixed .capital 2 code
  else if code ≤ 0xFFFF then '\\' :: 'u' :: Hex.fixed .capital 4 code
  else '\\' :: 'u' :: '\x7b' :: Hex.fixed .capital (if code < 0x100000 then 5 else 6) code ++ ['\x7d']

/-- One character of a literal, given the text of the value that follows it. -/
def escapeChar (c : Char) (following : List Char) : List Char :=
  match escapeLetter? c with
  | some letter => ['\\', letter]
  | none =>
    if c = '#' then
      if opensInterpolation following then ['\\', '#'] else ['#']
    else if 0x20 ≤ c.toNat ∧ c.toNat < 0x7f then [c]
    else numericEscape c.toNat

def escape : List Char → List Char
  | [] => []
  | c :: rest => escapeChar c rest ++ escape rest

def quote (value : String) : List Char :=
  '"' :: escape value.toList ++ ['"']

end RubyPress.DoubleQuoted
