import RubyPress.Json.Parser
import RubyPress.Layout.Decode

/-!
Reading a stored tree. The kind of the outermost node is checked as soon as it is met, so that
its faults are placed in the text; everything inside is decoded after the outermost bracket has
been closed, and its faults have no place.
-/

namespace RubyPress

open Json (Value Fault Position)

/-- The format of stored trees, and the file extensions that mark them. -/
def treeFormat : String := "json"

def treeExtensions : List String := ["json"]

inductive ReadError where
  | malformed (cause : Json.Malformed) (position : Position)
  | invalid (error : Layout.DataError) (position : Option Position)

namespace ReadError

def message : ReadError → String
  | malformed cause position => "parse error: " ++ cause.message ++ position.suffix
  | invalid error position =>
    "invalid tree: " ++ error.message ++ (position.map Position.suffix).getD ""

def ofFault (text : List Char) (fault : Fault Layout.DataError) : ReadError :=
  let position := Position.ofLeft text fault.left
  match fault.cause with
  | .malformed cause => malformed cause position
  | .refused error => invalid error position

end ReadError

namespace Layout

/-- The kind of the outermost node, which has to be a name. -/
def outerTag (text : List Char) : Except (Fault DataError) (Value × List Char) :=
  match Json.skipBlanks text with
  | '[' :: rest => .error (.refusal ('[' :: rest) (.mismatch (.arr []) .tag))
  | '\x7b' :: rest => .error (.refusal ('\x7b' :: rest) (.mismatch (.obj []) .tag))
  | first => do
    let (tag, rest) ← Json.scalar first
    match tag with
    | .str name =>
      match Kind.ofName? name with
      | some _ => .ok (tag, rest)
      | none => .error (.refusal rest (.unknownKind name))
    | other => .error (.refusal rest (.mismatch other .tag))

/-- The text from which a refused member is placed: after blanks, and after the closing brace if
that is next. -/
def afterClosing (text : List Char) : List Char :=
  match Json.skipBlanks text with
  | '\x7d' :: rest => rest
  | other => other

def outerMember (seen : List String) (key : String) (text : List Char) :
    Except (Fault DataError) (Value × List Char) := do
  if key = tagName then
    if seen.contains tagName then .error (.refusal (afterClosing text) (.duplicateField tagName))
    else outerTag (← Json.colon text)
  else Json.value (Json.maxNesting - 1) (← Json.colon text)

def outerList (text : List Char) : Except (Fault DataError) (Value × List Char) :=
  match Json.skipBlanks text with
  | [] => .error (.within [] .endInList)
  | ']' :: rest => .error (.refusal rest (.missingField tagName))
  | first => do
    let (tag, rest) ← outerTag first
    let (others, rest) ← Json.listTail (Json.value (Json.maxNesting - 1)) rest rest
    .ok (.arr (tag :: others), rest)

/-- The value that stores the outermost node. -/
def outerValue (text : List Char) : Except (Fault DataError) (Value × List Char) :=
  match Json.skipBlanks text with
  | '[' :: rest => outerList rest
  | '\x7b' :: rest => do
    let (members, rest) ← Json.object outerMember rest
    if members.any fun (key, _) => key = tagName then .ok (.obj members, rest)
    else .error (.refusal rest (.missingField tagName))
  | first => do
    let (other, rest) ← Json.scalar first
    .error (.refusal rest (.mismatch other .node))

end Layout

def readTree (source : String) : Except ReadError Node :=
  let text := source.toList
  match Layout.outerValue text with
  | .error fault => .error (.ofFault text fault)
  | .ok (value, rest) =>
    match Layout.node value with
    | .error error => .error (.invalid error none)
    | .ok node =>
      match Json.finish rest with
      | .error fault => .error (.ofFault text fault)
      | .ok () => .ok node

end RubyPress
