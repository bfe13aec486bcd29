import RubyPress.Toml.Scalar
import RubyPress.Toml.StringLiteral

/-!
TOML texts as tables. Nothing is said about what is wrong with a malformed text.
-/

namespace RubyPress.Toml

open StringLiteral (isTextChar isSpace)

/-- How many arrays and inline tables may be open at once. -/
def maxNesting : Nat := 79

/-- How many parts a key may have. -/
def maxKeyParts : Nat := 79

def skipSpaces (text : List Char) : List Char := text.dropWhile isSpace

/-- Passes over blanks, line breaks and comments; the flag tells whether a comment is open. An
unprintable character in a comment ends it, and nothing can go on from there. -/
def skipFiller : Bool → List Char → List Char
  | _, [] => []
  | inComment, c :: rest =>
    if c = '\n' then skipFiller false rest
    else if c = '\r' ∧ rest.head? = some '\n' then skipFiller inComment rest
    else if inComment then
      if isTextChar c then skipFiller true rest else c :: rest
    else if isSpace c then skipFiller false rest
    else if c = '#' then skipFiller true rest
    else c :: rest

/-- The text after the end of a line that holds nothing more but a comment. -/
def lineEnd (text : List Char) : Option (List Char) :=
  let rest :=
    match skipSpaces text with
    | '#' :: rest => rest.dropWhile isTextChar
    | rest => rest
  match rest with
  | [] => some []
  | '\n' :: rest => some rest
  | '\r' :: '\n' :: rest => some rest
  | _ => none

def isBareKeyChar (c : Char) : Bool := c.isAlphanum || c == '_' || c == '-'

def keyPart (text : List Char) : Option (String × List Char) :=
  match text.takeWhile isBareKeyChar with
  | [] => StringLiteral.singleLine? text
  | bare => some (String.ofList bare, text.dropWhile isBareKeyChar)

/-- The parts of a dotted key; at most `parts` of them are read. -/
def key : Nat → List Char → Option (List String × List Char)
  | 0, _ => none
  | parts + 1, text => do
    let (first, rest) ← keyPart (skipSpaces text)
    match skipSpaces rest with
    | '.' :: rest => do
      let (others, rest) ← key parts rest
      return (first :: others, rest)
    | rest => return ([first], rest)

/-- The way to the last part of a key, and that part. -/
def splitKey (parts : List String) : Option (List String × String) :=
  parts.getLast?.map fun last => (parts.dropLast, last)

def isWordChar (c : Char) : Bool :=
  c.isAlphanum || c == '_' || c == '+' || c == '-' || c == '.' || c == ':'

/-- A value that is one word, or a date and a time with a blank between them. -/
def word (text : List Char) : Option (Value × List Char) := do
  let first := text.takeWhile isWordChar
  let rest := text.dropWhile isWordChar
  let (whole, rest) :=
    match rest with
    | ' ' :: a :: b :: ':' :: more =>
      if Scalar.isDate first && a.isDigit && b.isDigit then
        let time := a :: b :: ':' :: more
        (first ++ ' ' :: time.takeWhile isWordChar, time.dropWhile isWordChar)
      else (first, rest)
    | _ => (first, rest)
  return (← Scalar.ofWord? whole, rest)

/-- The elements of an array and its closing bracket, from a place where an element may stand.
There is a round for each character of the first argument. -/
def elements (item : List Char → Option (Value × List Char)) :
    List Char → List Char → Option (List Value × List Char)
  | [], _ => none
  | _ :: rounds, text =>
    match skipFiller false text with
    | ']' :: rest => some ([], rest)
    | first => do
      let (value, rest) ← item first
      match skipFiller false rest with
      | ']' :: rest => return ([value], rest)
      | ',' :: rest => do
        let (others, rest) ← elements item rounds rest
        return (value :: others, rest)
      | _ => none

def keyValue (item : List Char → Option (Value × List Char)) (text : List Char) :
    Option ((List String × Value) × List Char) := do
  let (parts, rest) ← key maxKeyParts text
  match rest with
  | '=' :: rest => do
    let (value, rest) ← item (skipSpaces rest)
    return ((parts, value), rest)
  | _ => none

/-- The pairs of an inline table and its closing brace, from a place where a pair has to stand.
There is a round for each character of the first argument. -/
def pairs (item : List Char → Option (Value × List Char)) :
    List Char → Entries → List Char → Option (Entries × List Char)
  | [], _, _ => none
  | _ :: rounds, entries, text => do
    let ((parts, value), rest) ← keyValue item text
    let (path, last) ← splitKey parts
    let entries ← entries.insert last (.value value) path
    match skipSpaces rest with
    | '\x7d' :: rest => return (entries, rest)
    | ',' :: rest => pairs item rounds entries rest
    | _ => none

def inlineTable (item : List Char → Option (Value × List Char)) (text : List Char) :
    Option (Value × List Char) := do
  let (entries, rest) ←
    match skipSpaces text with
    | '\x7d' :: rest => some ([], rest)
    | first => pairs item first [] first
  return (.table (entryValues entries), rest)

/-- A value; arrays and inline tables only if there is a reader for what they hold. -/
def valueWith (nested : Option (List Char → Option (Value × List Char))) (text : List Char) :
    Option (Value × List Char) :=
  match text, nested with
  | '[' :: rest, some item => do
    let (values, rest) ← elements item rest rest
    return (.array values, rest)
  | '\x7b' :: rest, some item => inlineTable item rest
  | '[' :: _, none | '\x7b' :: _, none => none
  | c :: _, _ =>
    if c = '"' ∨ c = '\x27' then do
      let (value, rest) ← StringLiteral.any? text
      return (.string value, rest)
    else word text
  | [], _ => none

def value : Nat → List Char → Option (Value × List Char)
  | 0 => valueWith none
  | room + 1 => valueWith (some (value room))

/-- A document under construction: its entries, and the table that new keys go to. -/
structure Document where
  entries : Entries := []
  current : List String := []

namespace Document

def expression (document : Document) (text : List Char) : Option (Document × List Char) :=
  match text with
  | '[' :: '[' :: rest => do
    let (parts, rest) ← key maxKeyParts rest
    let (path, last) ← splitKey parts
    match rest with
    | ']' :: ']' :: rest => do
      let entries ← document.entries.change (·.openElement last) path
      return (⟨entries, parts⟩, rest)
    | _ => none
  | '[' :: rest => do
    let (parts, rest) ← key maxKeyParts rest
    let (path, last) ← splitKey parts
    match rest with
    | ']' :: rest => do
      let entries ← document.entries.change (·.openTable last) path
      return (⟨entries, parts⟩, rest)
    | _ => none
  | _ => do
    let ((parts, value), rest) ← keyValue (value maxNesting) text
    let (path, last) ← splitKey parts
    let entries ← document.entries.change (·.insert last (.value value) path) document.current
    return ({ document with entries := entries }, rest)

/-- The expressions of a text, one to a line. There is a round for each character of the first
argument. -/
def expressions : List Char → Document → List Char → Option Document
  | [], document, _ => some document
  | _ :: rounds, document, text =>
    match skipFiller false text with
    | [] => some document
    | first => do
      let (document, rest) ← document.expression first
      expressions rounds document (← lineEnd rest)

end Document

/-- The entries of a TOML text, which may start with a byte order mark. -/
def parse? (source : String) : Option (List (String × Value)) := do
  let text :=
    match source.toList with
    | '\uFEFF' :: rest => rest
    | text => text
  let document ← Document.expressions text {} text
  return entryValues document.entries

end RubyPress.Toml
