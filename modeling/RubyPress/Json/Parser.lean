import RubyPress.Json.Number
import RubyPress.Json.StringLiteral

/-!
JSON texts as values. Lists and objects are read by loops that take the reader of their items as
an argument; a value is read with a number of levels that may still be opened. Every round of a
loop takes at least one character, so a loop runs along the text ahead of it at its start, and
that text is used up only when nothing is left to read.
-/

namespace RubyPress.Json

variable {δ α : Type}

/-- How many brackets may be open at once. -/
def maxNesting : Nat := 127

def isBlank (c : Char) : Bool :=
  c == ' ' || c == '\t' || c == '\n' || c == '\r'

def skipBlanks (text : List Char) : List Char :=
  text.dropWhile isBlank

/-- The remaining letters of a keyword. -/
def keyword (value : α) : List Char → List Char → Except (Fault δ) (α × List Char)
  | [], text => .ok (value, text)
  | _ :: _, [] => .error (.before [] .endInValue)
  | letter :: letters, c :: rest =>
    if c = letter then keyword value letters rest
    else .error (.within (c :: rest) .expectedIdent)

/-- A value that is neither a list nor an object, with no blanks before it. -/
def scalar (text : List Char) : Except (Fault δ) (Value × List Char) :=
  match text with
  | [] => .error (.within text .endInValue)
  | c :: rest =>
    if c = 'n' then keyword .null ['u', 'l', 'l'] rest
    else if c = 't' then keyword (.bool true) ['r', 'u', 'e'] rest
    else if c = 'f' then keyword (.bool false) ['a', 'l', 's', 'e'] rest
    else if c = '-' ∨ c.isDigit then number text
    else if c = '"' then (stringLiteral rest).map fun (value, rest) => (.str value, rest)
    else .error (.within text .expectedValue)

/-- What follows an element of a list, up to the closing bracket. There is a round for each
character of the first argument. -/
def listTail (item : List Char → Except (Fault δ) (α × List Char)) :
    List Char → List Char → Except (Fault δ) (List α × List Char)
  | [], text => .error (.within text .endInList)
  | _ :: rounds, text =>
    match skipBlanks text with
    | [] => .error (.within [] .endInList)
    | ']' :: rest => .ok ([], rest)
    | ',' :: rest =>
      match skipBlanks rest with
      | [] => .error (.within [] .endInValue)
      | ']' :: rest => .error (.within (']' :: rest) .trailingComma)
      | next => do
        let (first, rest) ← item next
        let (others, rest) ← listTail item rounds rest
        .ok (first :: others, rest)
    | other => .error (.within other .expectedCommaOrBracket)

def list (item : List Char → Except (Fault δ) (α × List Char)) (text : List Char) :
    Except (Fault δ) (List α × List Char) :=
  match skipBlanks text with
  | [] => .error (.within [] .endInList)
  | ']' :: rest => .ok ([], rest)
  | next => do
    let (first, rest) ← item next
    let (others, rest) ← listTail item rest rest
    .ok (first :: others, rest)

def colon (text : List Char) : Except (Fault δ) (List Char) :=
  match skipBlanks text with
  | [] => .error (.within [] .endInObject)
  | ':' :: rest => .ok rest
  | other => .error (.within other .expectedColon)

/-- A member of an object. The reader of its value gets the keys before it, its key, and the
text after the key. -/
def member (item : List String → String → List Char → Except (Fault δ) (α × List Char))
    (seen : List String) : List Char → Except (Fault δ) ((String × α) × List Char)
  | '"' :: text => do
    let (key, rest) ← stringLiteral text
    let (value, rest) ← item seen key rest
    .ok ((key, value), rest)
  | text => .error (.within text .keyNotString)

/-- What follows a member of an object, up to the closing brace. There is a round for each
character of the first argument. -/
def objectTail (item : List String → String → List Char → Except (Fault δ) (α × List Char)) :
    List Char → List String → List Char → Except (Fault δ) (List (String × α) × List Char)
  | [], _, text => .error (.within text .endInObject)
  | _ :: rounds, seen, text =>
    match skipBlanks text with
    | [] => .error (.within [] .endInObject)
    | '\x7d' :: rest => .ok ([], rest)
    | ',' :: rest =>
      match skipBlanks rest with
      | [] => .error (.within [] .endInValue)
      | '\x7d' :: rest => .error (.within ('\x7d' :: rest) .trailingComma)
      | next => do
        let (first, rest) ← member item seen next
        let (others, rest) ← objectTail item rounds (first.1 :: seen) rest
        .ok (first :: others, rest)
    | other => .error (.within other .expectedCommaOrBrace)

def object (item : List String → String → List Char → Except (Fault δ) (α × List Char))
    (text : List Char) : Except (Fault δ) (List (String × α) × List Char) :=
  match skipBlanks text with
  | [] => .error (.within [] .endInObject)
  | '\x7d' :: rest => .ok ([], rest)
  | next => do
    let (first, rest) ← member item [] next
    let (others, rest) ← objectTail item rest [first.1] rest
    .ok (first :: others, rest)

/-- A value; lists and objects only if there is a reader for what they hold. -/
def valueWith (nested : Option (List Char → Except (Fault δ) (Value × List Char)))
    (text : List Char) : Except (Fault δ) (Value × List Char) :=
  match skipBlanks text, nested with
  | '[' :: rest, some item => (list item rest).map fun (values, rest) => (.arr values, rest)
  | '\x7b' :: rest, some item =>
    (object (fun _ _ rest => colon rest >>= item) rest).map fun (values, rest) =>
      (.obj values, rest)
  | '[' :: rest, none => .error (.within ('[' :: rest) .nestingLimit)
  | '\x7b' :: rest, none => .error (.within ('\x7b' :: rest) .nestingLimit)
  | first, _ => scalar first

/-- A value in which at most `room` brackets are open at once. -/
def value : Nat → List Char → Except (Fault δ) (Value × List Char)
  | 0 => valueWith none
  | room + 1 => valueWith (some (value room))

/-- Nothing but blanks may follow the value of a text. -/
def finish (text : List Char) : Except (Fault δ) Unit :=
  match skipBlanks text with
  | [] => .ok ()
  | other => .error (.within other .trailingCharacters)

def parse (text : List Char) : Except (Fault δ) Value := do
  let (read, rest) ← value maxNesting text
  finish rest
  return read

end RubyPress.Json
