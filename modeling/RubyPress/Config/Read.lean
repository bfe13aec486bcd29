import RubyPress.Config.Layer
import RubyPress.Json.Printer
import RubyPress.Json.Skip
import RubyPress.Layout.Error

/-!
Render configurations in JSON: an object with the members `separator` and `literal_style`, or a
list of the two in this order. What is missing has its default, and other members are passed
over.
-/

namespace RubyPress

open Json (Value Fault Position skipBlanks)

/-- Why a JSON text is no configuration. -/
inductive ConfigError where
  | mismatch (found : Value) (expected : String)
  | unknownName (name : String) (choices : List String)
  | duplicateField (name : String)

def ConfigError.message : ConfigError → String
  | mismatch found expected => s!"invalid type: {Layout.describe found}, expected {expected}"
  | unknownName name choices =>
    s!"unknown variant `{name}`, expected " ++
      " or ".intercalate (choices.map fun choice => s!"`{choice}`")
  | duplicateField name => s!"duplicate field `{name}`"

namespace RenderConfig

/-- Refuses what stands in the place of something expected. -/
def refuse {α : Type} (expected : String) (text : List Char) : Except (Fault ConfigError) α :=
  match text with
  | '[' :: _ => .error (.refusal text (.mismatch (.arr []) expected))
  | '\x7b' :: _ => .error (.refusal text (.mismatch (.obj []) expected))
  | _ => do
    let (found, rest) ← Json.scalar text
    .error (.refusal rest (.mismatch found expected))

/-- A choice by its name, after the opening quote. -/
def choiceName {α : Type} (choices : List α) (name : α → String) (text : List Char) :
    Except (Fault ConfigError) (α × List Char) := do
  let (found, rest) ← Json.stringLiteral text
  match choices.find? fun choice => name choice == found with
  | some choice => .ok (choice, rest)
  | none => .error (.refusal rest (.unknownName found (choices.map name)))

/-- One of several choices: its name, or an object whose only member has the name as key and
null as value. -/
def choice {α : Type} (choices : List α) (name : α → String) (text : List Char) :
    Except (Fault ConfigError) (α × List Char) :=
  match skipBlanks text with
  | [] => .error (.within [] .endInValue)
  | '"' :: rest => choiceName choices name rest
  | '\x7b' :: rest => do
    let (found, rest) ←
      match skipBlanks rest with
      | [] => .error (.within [] .endInObject)
      | '"' :: rest => choiceName choices name rest
      | '\x7d' :: rest => .error (.within ('\x7d' :: rest) .expectedValue)
      | other => .error (.within other .keyNotString)
    let rest ← Json.colon rest
    let rest ←
      match skipBlanks rest with
      | [] => .error (.within [] .endInValue)
      | 'n' :: rest => (Json.keyword () ['u', 'l', 'l'] rest).map Prod.snd
      | other => refuse "unit" other
    match skipBlanks rest with
    | [] => .error (.before [] .endInObject)
    | '\x7d' :: rest => .ok (found, rest)
    | other => .error (.before other .expectedValue)
  | other => .error (.within other .expectedValue)

def separatorChoice (text : List Char) : Except (Fault ConfigError) (Separator × List Char) :=
  choice Separator.all Separator.name text

def styleChoice (text : List Char) : Except (Fault ConfigError) (LiteralStyle × List Char) :=
  choice LiteralStyle.all LiteralStyle.name text

def once (seen : List String) (key : String) (text : List Char) :
    Except (Fault ConfigError) (List Char) :=
  if seen.contains key then
    .error (.refusal (match skipBlanks text with
      | '\x7d' :: rest => rest
      | other => other) (.duplicateField key))
  else Json.colon text

def ofMember (seen : List String) (key : String) (text : List Char) :
    Except (Fault ConfigError) (RenderLayer × List Char) := do
  if key = "separator" then
    let (found, rest) ← separatorChoice (← once seen key text)
    .ok ({ separator := some found }, rest)
  else if key = "literal_style" then
    let (found, rest) ← styleChoice (← once seen key text)
    .ok ({ style := some found }, rest)
  else .ok ({}, ← Json.skipValue (← Json.colon text))

/-- The end of the list form after its second element. -/
def listEnd (text : List Char) : Except (Fault ConfigError) (List Char) :=
  match skipBlanks text with
  | [] => .error (.within [] .endInList)
  | ']' :: rest => .ok rest
  | ',' :: rest =>
    match skipBlanks rest with
    | ']' :: rest => .error (.within (']' :: rest) .trailingComma)
    | other => .error (.within other .trailingCharacters)
  | other => .error (.within other .trailingCharacters)

def ofList (text : List Char) : Except (Fault ConfigError) (RenderLayer × List Char) :=
  match skipBlanks text with
  | [] => .error (.within [] .endInList)
  | ']' :: rest => .ok ({}, rest)
  | first => do
    let (separator, rest) ← separatorChoice first
    match skipBlanks rest with
    | [] => .error (.within [] .endInList)
    | ']' :: rest => .ok ({ separator := some separator }, rest)
    | ',' :: rest =>
      match skipBlanks rest with
      | [] => .error (.within [] .endInValue)
      | ']' :: rest => .error (.within (']' :: rest) .trailingComma)
      | next => do
        let (style, rest) ← styleChoice next
        .ok (⟨some separator, some style⟩, ← listEnd rest)
    | other => .error (.within other .expectedCommaOrBracket)

def layer (text : List Char) : Except (Fault ConfigError) (RenderLayer × List Char) :=
  match skipBlanks text with
  | [] => .error (.within [] .endInValue)
  | '[' :: rest => ofList rest
  | '\x7b' :: rest => do
    let (layers, rest) ← Json.object ofMember rest
    .ok (layers.foldr (fun member lower => member.2.covering lower) {}, rest)
  | other => refuse "struct RenderConfig" other

def read (text : List Char) : Except (Fault ConfigError) RenderConfig := do
  let (layer, rest) ← layer text
  Json.finish rest
  .ok layer.config

/-- The configuration that a JSON text holds, or the message of what is wrong with it. -/
def ofJson (source : String) : Except String RenderConfig :=
  match read source.toList with
  | .ok config => .ok config
  | .error fault =>
    let cause :=
      match fault.cause with
      | .malformed cause => cause.message
      | .refused error => error.message
    .error (cause ++ (Position.ofLeft source.toList fault.left).suffix)

def toJson (config : RenderConfig) : String :=
  (Value.obj [("separator", .str config.separator.name),
    ("literal_style", .str config.style.name)]).compact

end RenderConfig

end RubyPress
