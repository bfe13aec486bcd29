import RubyPress.Text.Hex

/-!
The four kinds of TOML string literals, each from the character after its opening quotes on.
Reading gives the content and the text after the closing quotes.
-/

namespace RubyPress.Toml.StringLiteral

/-- Characters that may stand for themselves in comments and literals. -/
def isTextChar (c : Char) : Bool :=
  c == '\t' || (0x20 ≤ c.toNat && c.toNat != 0x7f)

def charOf? (code : Nat) : Option Char :=
  if code < 0xD800 ∨ (0xE000 ≤ code ∧ code ≤ 0x10FFFF) then some (Char.ofNat code) else none

def unescape? (letter : Char) : Option Char :=
  match letter with
  | 'b' => some '\x08'
  | 't' => some '\t'
  | 'n' => some '\n'
  | 'f' => some '\x0c'
  | 'r' => some '\r'
  | '"' => some '"'
  | '\\' => some '\\'
  | _ => none

/-- The character of an escape and the number of characters the escape has after its
backslash. -/
def escape? (text : List Char) : Option (Char × Nat) :=
  match text with
  | 'u' :: rest => do
    if rest.length < 4 then none else return (← charOf? (← Hex.value? 0 (rest.take 4)), 5)
  | 'U' :: rest => do
    if rest.length < 8 then none else return (← charOf? (← Hex.value? 0 (rest.take 8)), 9)
  | letter :: _ => do return (← unescape? letter, 1)
  | [] => none

abbrev Read := Option (List Char × List Char)

def push (c : Char) (read : Read) : Read :=
  read.map fun (content, rest) => (c :: content, rest)

/-- A basic string in one line. The first argument counts the characters of an escape that are
still to be passed over. -/
def basic : Nat → List Char → Read
  | _, [] => none
  | pending + 1, _ :: rest => basic pending rest
  | 0, c :: rest =>
    if c = '"' then some ([], rest)
    else if c = '\\' then
      match escape? rest with
      | some (escaped, length) => push escaped (basic length rest)
      | none => none
    else if isTextChar c then push c (basic 0 rest)
    else none

def literal : List Char → Read
  | [] => none
  | c :: rest =>
    if c = '\x27' then some ([], rest)
    else if isTextChar c then push c (literal rest)
    else none

/-- The end of a literal of several lines: three quotes, after up to two that belong to the
content. -/
def closing? (quote : Char) (text : List Char) : Read :=
  let count := min 5 (text.takeWhile (· == quote)).length
  if count < 3 then none else some (List.replicate (count - 3) quote, text.drop count)

def isLineBreak (text : List Char) : Bool :=
  match text with
  | '\n' :: _ => true
  | '\r' :: '\n' :: _ => true
  | _ => false

def isSpace (c : Char) : Bool := c == ' ' || c == '\t'

/-- How many characters after a backslash belong to a line that goes on in the next one. -/
def continuation (text : List Char) : Nat :=
  if isLineBreak (text.dropWhile isSpace) then
    (text.takeWhile fun c => isSpace c || c == '\n' || c == '\r').length
  else 0

/-- Whether the blanks of a line continuation hold a carriage return without a line feed. -/
def hasLoneReturn : List Char → Bool
  | [] => false
  | c :: rest => (c == '\r' && rest.head? != some '\n') || hasLoneReturn rest

def multiBasic : Nat → List Char → Read
  | _, [] => none
  | pending + 1, _ :: rest => multiBasic pending rest
  | 0, c :: rest =>
    if c = '"' then
      match closing? '"' (c :: rest) with
      | some ended => some ended
      | none => push c (multiBasic 0 rest)
    else if c = '\\' then
      if continuation rest = 0 then
        match escape? rest with
        | some (escaped, length) => push escaped (multiBasic length rest)
        | none => none
      else if hasLoneReturn (rest.take (continuation rest)) then none
      else multiBasic (continuation rest) rest
    else if c = '\r' ∧ rest.head? = some '\n' then multiBasic 0 rest
    else if c = '\n' ∨ isTextChar c then push c (multiBasic 0 rest)
    else none

def multiLiteral : List Char → Read
  | [] => none
  | c :: rest =>
    if c = '\x27' then
      match closing? '\x27' (c :: rest) with
      | some ended => some ended
      | none => push c (multiLiteral rest)
    else if c = '\r' ∧ rest.head? = some '\n' then multiLiteral rest
    else if c = '\n' ∨ isTextChar c then push c (multiLiteral rest)
    else none

/-- The text after a line break directly behind opening quotes. -/
def dropLineBreak : List Char → List Char
  | '\n' :: rest => rest
  | '\r' :: '\n' :: rest => rest
  | text => text

def asString (read : Read) : Option (String × List Char) :=
  read.map fun (content, rest) => (String.ofList content, rest)

def singleLine? : List Char → Option (String × List Char)
  | '"' :: rest => asString (basic 0 rest)
  | '\x27' :: rest => asString (literal rest)
  | _ => none

def any? : List Char → Option (String × List Char)
  | '"' :: '"' :: '"' :: rest => asString (multiBasic 0 (dropLineBreak rest))
  | '\x27' :: '\x27' :: '\x27' :: rest => asString (multiLiteral (dropLineBreak rest))
  | text => singleLine? text

end RubyPress.Toml.StringLiteral
