import RubyPress.Json.Parser

/-!
Passing over a value without reading it. Brackets may be nested to any depth, numbers may be of
any size, and escapes need only be complete; the open brackets are kept in a list.
-/

namespace RubyPress.Json

variable {δ : Type}

namespace Skip

inductive Frame where
  | list
  | object
  deriving DecidableEq

def Frame.closing : Frame → Char
  | list => ']'
  | object => '\x7d'

def Frame.ending : Frame → Malformed
  | list => .endInList
  | object => .endInObject

def Frame.expected : Frame → Malformed
  | list => .expectedCommaOrBracket
  | object => .expectedCommaOrBrace

def stringBody : List Char → Except (Fault δ) (List Char)
  | [] => .error (.before [] .endInString)
  | '"' :: rest => .ok rest
  | ['\\'] => .error (.before [] .endInString)
  | '\\' :: 'u' :: a :: b :: c :: d :: rest =>
    if (StringLiteral.hex4? a b c d).isSome then stringBody rest
    else .error (StringLiteral.hexFault (a :: b :: c :: d :: rest))
  | '\\' :: 'u' :: short => .error (StringLiteral.hexFault short)
  | '\\' :: letter :: rest =>
    if (StringLiteral.unescape? letter).isSome then stringBody rest
    else .error (.within (letter :: rest) .invalidEscape)
  | c :: rest =>
    if c.toNat < 0x20 then .error (.before (c :: rest) .controlCharacter) else stringBody rest

def digits (text : List Char) : Except (Fault δ) (List Char) :=
  if (text.takeWhile Char.isDigit).isEmpty then .error (.within text .invalidNumber)
  else .ok (text.dropWhile Char.isDigit)

def exponent : List Char → Except (Fault δ) (List Char)
  | 'e' :: '+' :: rest | 'e' :: '-' :: rest | 'E' :: '+' :: rest | 'E' :: '-' :: rest => digits rest
  | 'e' :: rest | 'E' :: rest => digits rest
  | text => .ok text

def number (text : List Char) : Except (Fault δ) (List Char) := do
  let unsigned :=
    match text with
    | '-' :: rest => rest
    | _ => text
  let rest ←
    match unsigned with
    | '0' :: rest =>
      if (rest.takeWhile Char.isDigit).isEmpty then .ok rest
      else .error (.within rest .invalidNumber)
    | _ => digits unsigned
  match rest with
  | '.' :: decimals => digits decimals >>= exponent
  | _ => exponent rest

def scalar (text : List Char) : Except (Fault δ) (List Char) :=
  match text with
  | [] => .error (.within text .endInValue)
  | c :: rest =>
    if c = '"' then stringBody rest
    else if c = '-' ∨ c.isDigit then number text
    else (Json.scalar text).map Prod.snd

/-- Goes from the place where an item is due to its value: past the key, if the frame has
keys. -/
def toValue (frame : Frame) (text : List Char) : Except (Fault δ) (List Char) :=
  match frame with
  | .list => .ok text
  | .object =>
    match skipBlanks text with
    | [] => .error (.within [] .endInObject)
    | '"' :: rest => stringBody rest >>= colon
    | other => .error (.within other .keyNotString)

/-- What follows a value: closes brackets up to the next value that is due. No open bracket is
left when the outermost value is over. -/
def afterValue : List Frame → List Char → Except (Fault δ) (List Frame × List Char)
  | [], text => .ok ([], text)
  | frame :: outer, text =>
    match skipBlanks text with
    | [] => .error (.within [] frame.ending)
    | c :: rest =>
      if c = ',' then (toValue frame rest).map fun rest => (frame :: outer, rest)
      else if c = frame.closing then afterValue outer rest
      else .error (.within (c :: rest) frame.expected)

def afterOpening (frame : Frame) (outer : List Frame) (text : List Char) :
    Except (Fault δ) (List Frame × List Char) :=
  match skipBlanks text with
  | [] => .error (.within [] frame.ending)
  | c :: rest =>
    if c = frame.closing then afterValue outer rest
    else (toValue frame (c :: rest)).map fun rest => (frame :: outer, rest)

/-- The text after the outermost value, from a place where a value is due. There is a round for
each character of the first argument. -/
def fromValue : List Char → List Frame → List Char → Except (Fault δ) (List Char)
  | [], _, text => .error (.within text .endInValue)
  | _ :: rounds, frames, text => do
    let (frames, rest) ←
      match skipBlanks text with
      | '[' :: rest => afterOpening .list frames rest
      | '\x7b' :: rest => afterOpening .object frames rest
      | first => scalar first >>= afterValue frames
    if frames.isEmpty then .ok rest else fromValue rounds frames rest

end Skip

def skipValue (text : List Char) : Except (Fault δ) (List Char) :=
  Skip.fromValue text [] text

end RubyPress.Json
