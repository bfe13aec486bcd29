import RubyPress.Config.Layer
import RubyPress.Toml.Parser

/-!
Settings files: a TOML table `render` with `separator` and `literal_style`, and a table `output`
with `suffix`. Every setting may be left open, unknown keys are allowed, and one bad setting
spoils the whole file.
-/

namespace RubyPress

structure Settings where
  render : RenderLayer := {}
  /-- What follows the base name of an output file, without the leading dot. -/
  suffix : Option String := none
  deriving DecidableEq

namespace Settings

open Toml (Value)

/-- The settings of `upper` where it has any, those of `lower` elsewhere. -/
def covering (upper lower : Settings) : Settings :=
  ⟨upper.render.covering lower.render, upper.suffix.or lower.suffix⟩

/-- Whether a value can stand for nothing: an empty array or table. -/
def isVoid : Value → Bool
  | .array elements => elements.isEmpty
  | .table entries => entries.isEmpty
  | _ => false

/-- One of several choices: its name, or a table that has the name as its only key, and nothing as
the value. -/
def choice? {α : Type} (ofName? : String → Option α) : Value → Option α
  | .string name => ofName? name
  | .table [(name, value)] => if isVoid value then ofName? name else none
  | _ => none

def string? : Value → Option String
  | .string value => some value
  | _ => none

/-- A setting that may be left open: fails if it is set to something it cannot be. -/
def setting? {α : Type} (read? : Value → Option α) : Option Value → Option (Option α)
  | none => some none
  | some value => (read? value).map some

/-- The values of a section for its keys: by name in a table, by place in an array. A date has
none of them. -/
def section? (keys : List String) : Value → Option (List (Option Value))
  | .table entries => some (keys.map fun key => entries.lookup key)
  | .array elements => some (keys.mapIdx fun index _ => elements[index]?)
  | .moment _ => some (keys.map fun _ => none)
  | _ => none

def render? (value : Value) : Option RenderLayer := do
  match ← section? ["separator", "literal_style"] value with
  | [separator, style] =>
    return ⟨← setting? (choice? Separator.ofName?) separator,
      ← setting? (choice? LiteralStyle.ofName?) style⟩
  | _ => none

def output? (value : Value) : Option (Option String) := do
  match ← section? ["suffix"] value with
  | [suffix] => setting? string? suffix
  | _ => none

def ofEntries? (entries : List (String × Value)) : Option Settings := do
  let render ← setting? render? (entries.lookup "render")
  let suffix ← setting? output? (entries.lookup "output")
  return ⟨render.getD {}, suffix.join⟩

def parse? (source : String) : Option Settings :=
  Toml.parse? source >>= ofEntries?

end Settings

end RubyPress
