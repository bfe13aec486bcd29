import RubyPress.Config
import RubyPress.Tree.Kind

/-!
What a run reports on its way: events with a level, the part of the program they come from, and
a message with named fields.
-/

namespace RubyPress

inductive Level where
  | error
  | warn
  | info
  | debug
  | trace
  deriving DecidableEq

namespace Level

def rank : Level → Nat
  | error => 1
  | warn => 2
  | info => 3
  | debug => 4
  | trace => 5

def label : Level → String
  | error => "ERROR"
  | warn => "WARN"
  | info => "INFO"
  | debug => "DEBUG"
  | trace => "TRACE"

end Level

inductive Event where
  | loadedConfig (path : String)
  | ignoredConfig (path : String)
  | unusualInput (input format : String)
  | minifying (input : String) (config : RenderConfig)
  | rendering (statements : Nat) (config : RenderConfig)
  | droppedStatement (index : Nat) (kind : Kind)
  | wrote (output : String) (bytesIn bytesOut : Nat)
  deriving DecidableEq

namespace Event

def level : Event → Level
  | loadedConfig _ => .debug
  | ignoredConfig _ => .warn
  | unusualInput .. => .warn
  | minifying .. => .info
  | rendering .. => .debug
  | droppedStatement .. => .trace
  | wrote .. => .info

/-- The part of the program that an event comes from, as filters name it. -/
def target : Event → String
  | loadedConfig _ | ignoredConfig _ => "minify::config"
  | unusualInput .. | minifying .. | wrote .. => "minify::commands::minify"
  | rendering .. | droppedStatement .. => "minify_syntax::output::ruby"

/-- The names of the fields of an event. The message is one of them. -/
def fields : Event → List String
  | loadedConfig _ => ["message", "path"]
  | ignoredConfig _ => ["message", "path", "error"]
  | unusualInput .. => ["message", "input"]
  | minifying .. => ["message", "input", "separator", "style"]
  | rendering .. => ["message", "statements", "separator", "style"]
  | droppedStatement .. => ["message", "index", "kind"]
  | wrote .. => ["message", "output", "bytes_in", "bytes_out"]

def settings (config : RenderConfig) : String :=
  s!"separator={config.separator.name} style={config.style.name}"

def message : Event → String
  | loadedConfig path => s!"loaded config path={path}"
  | ignoredConfig path => s!"ignoring invalid config path={path}"
  | unusualInput input format => s!"input does not look like a {format} tree input={input}"
  | minifying input config => s!"minifying input={input} {settings config}"
  | rendering statements config => s!"rendering program statements={statements} {settings config}"
  | droppedStatement index kind => s!"dropped empty statement index={index} kind=\"{kind.name}\""
  | wrote output bytesIn bytesOut =>
    s!"wrote minified source output={output} bytes_in={bytesIn} bytes_out={bytesOut}"

def line (event : Event) : String := event.level.label ++ " " ++ event.message

end Event

end RubyPress
