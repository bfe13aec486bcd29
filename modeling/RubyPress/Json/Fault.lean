/-!
Where and why reading a JSON text stops. A fault is placed by the number of bytes that follow
it, so that scanning needs to know only the text still ahead.
-/

namespace RubyPress.Json

inductive Malformed where
  | endInValue
  | endInList
  | endInObject
  | endInString
  | expectedValue
  | expectedIdent
  | nestingLimit
  | expectedCommaOrBracket
  | expectedCommaOrBrace
  | expectedColon
  | trailingComma
  | keyNotString
  | invalidNumber
  | numberRange
  | controlCharacter
  | invalidEscape
  | loneSurrogate
  | unfinishedSurrogate
  | trailingCharacters
  deriving DecidableEq

def Malformed.message : Malformed → String
  | endInValue => "EOF while parsing a value"
  | endInList => "EOF while parsing a list"
  | endInObject => "EOF while parsing an object"
  | endInString => "EOF while parsing a string"
  | expectedValue => "expected value"
  | expectedIdent => "expected ident"
  | nestingLimit => "recursion limit exceeded"
  | expectedCommaOrBracket => "expected `,` or `]`"
  | expectedCommaOrBrace => "expected `,` or `\x7d`"
  | expectedColon => "expected `:`"
  | trailingComma => "trailing comma"
  | keyNotString => "key must be a string"
  | invalidNumber => "invalid number"
  | numberRange => "number out of range"
  | controlCharacter => "control character (\\u0000-\\u001F) found while parsing a string"
  | invalidEscape => "invalid escape"
  | loneSurrogate => "lone leading surrogate in hex escape"
  | unfinishedSurrogate => "unexpected end of hex escape"
  | trailingCharacters => "trailing characters"

/-- Why reading stops: the text is malformed, or its reader refuses what it says. -/
inductive Cause (δ : Type) where
  | malformed (cause : Malformed)
  | refused (reason : δ)

structure Fault (δ : Type) where
  cause : Cause δ
  /-- The number of bytes after the place of the fault. -/
  left : Nat

/-- The number of bytes of a text. -/
def byteLength : List Char → Nat
  | [] => 0
  | c :: rest => c.utf8Size + byteLength rest

namespace Fault

variable {δ : Type}

def before (text : List Char) (cause : Malformed) : Fault δ :=
  ⟨.malformed cause, byteLength text⟩

/-- A fault one byte into the given text, or at its end if it is empty. -/
def within (text : List Char) (cause : Malformed) : Fault δ :=
  ⟨.malformed cause, byteLength text - 1⟩

def refusal (text : List Char) (reason : δ) : Fault δ :=
  ⟨.refused reason, byteLength text⟩

end Fault

/-- Lines count from one, and the column is the number of bytes since the line began. -/
structure Position where
  line : Nat
  column : Nat
  deriving DecidableEq

namespace Position

/-- The position a number of bytes further into the text. -/
def advance (position : Position) : List Char → Nat → Position
  | [], _ => position
  | c :: rest, bytes =>
    if bytes < c.utf8Size then ⟨position.line, position.column + bytes⟩
    else
      advance
        (if c = '\n' then ⟨position.line + 1, 0⟩
          else ⟨position.line, position.column + c.utf8Size⟩)
        rest (bytes - c.utf8Size)

/-- The position in a text that `left` bytes follow. -/
def ofLeft (text : List Char) (left : Nat) : Position :=
  advance ⟨1, 0⟩ text (byteLength text - left)

def suffix (position : Position) : String :=
  s!" at line {position.line} column {position.column}"

end Position

end RubyPress.Json
