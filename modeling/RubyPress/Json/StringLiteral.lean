import RubyPress.Json.Fault
import RubyPress.Text.Hex

/-!
String literals in JSON text, from the character after the opening quote on.
-/

namespace RubyPress.Json

variable {δ : Type}

namespace StringLiteral

def unescape? (letter : Char) : Option Char :=
  match letter with
  | '"' => some '"'
  | '\\' => some '\\'
  | '/' => some '/'
  | 'b' => some '\x08'
  | 'f' => some '\x0c'
  | 'n' => some '\n'
  | 'r' => some '\r'
  | 't' => some '\t'
  | _ => none

/-- The fault of a numeric escape without four hexadecimal digits. It takes four bytes, which
may end inside a character. -/
def hexFault (text : List Char) : Fault δ :=
  if byteLength text < 4 then ⟨.malformed .endInString, 0⟩
  else ⟨.malformed .invalidEscape, byteLength text - 4⟩

def hex4? (a b c d : Char) : Option Nat := Hex.value? 0 [a, b, c, d]

def pair (high low : Nat) : Char :=
  Char.ofNat (0x10000 + (high - 0xD800) * 0x400 + (low - 0xDC00))

/-- Adds a character in front of what is read after it. -/
def push (c : Char) (read : Except (Fault δ) (List Char × List Char)) :
    Except (Fault δ) (List Char × List Char) :=
  read.map fun (content, rest) => (c :: content, rest)

/-- The content of the literal and the text after its closing quote. -/
def body : List Char → Except (Fault δ) (List Char × List Char)
  | [] => .error (.before [] .endInString)
  | '"' :: rest => .ok ([], rest)
  | ['\\'] => .error (.before [] .endInString)
  | '\\' :: 'u' :: a :: b :: c :: d :: rest =>
    match hex4? a b c d with
    | none => .error (hexFault (a :: b :: c :: d :: rest))
    | some unit =>
      if 0xDC00 ≤ unit ∧ unit ≤ 0xDFFF then .error (.before rest .loneSurrogate)
      else if 0xD800 ≤ unit ∧ unit ≤ 0xDBFF then
        match rest with
        | '\\' :: 'u' :: a' :: b' :: c' :: d' :: rest' =>
          match hex4? a' b' c' d' with
          | none => .error (hexFault (a' :: b' :: c' :: d' :: rest'))
          | some low =>
            if 0xDC00 ≤ low ∧ low ≤ 0xDFFF then push (pair unit low) (body rest')
            else .error (.before rest' .loneSurrogate)
        | '\\' :: 'u' :: short => .error (hexFault short)
        | [] => .error (.before [] .endInString)
        | ['\\'] => .error (.before [] .endInString)
        | '\\' :: other => .error (.within other .unfinishedSurrogate)
        | _ => .error (.within rest .unfinishedSurrogate)
      else push (Char.ofNat unit) (body rest)
  | '\\' :: 'u' :: short => .error (hexFault short)
  | '\\' :: letter :: rest =>
    match unescape? letter with
    | some c => push c (body rest)
    | none => .error (.within (letter :: rest) .invalidEscape)
  | c :: rest =>
    if c.toNat < 0x20 then .error (.within (c :: rest) .controlCharacter)
    else push c (body rest)

end StringLiteral

/-- The value of a string literal after its opening quote. -/
def stringLiteral (text : List Char) : Except (Fault δ) (String × List Char) :=
  (StringLiteral.body text).map fun (content, rest) => (String.ofList content, rest)

end RubyPress.Json
