/-!
How a tree is written: the separator between the statements of a body and the style of literals.
-/

namespace RubyPress

/-- A name that denotes none of the values of a setting. -/
structure UnknownName where
  setting : String
  name : String
  deriving DecidableEq

def UnknownName.message (unknown : UnknownName) : String :=
  s!"unknown {unknown.setting}: {unknown.name}"

/-- What joins the statements inside a body. -/
inductive Separator where
  | newline
  | semicolon
  deriving DecidableEq

namespace Separator

def text : Separator → String
  | newline => "\n"
  | semicolon => ";"

def name : Separator → String
  | newline => "newline"
  | semicolon => "semicolon"

def all : List Separator := [newline, semicolon]

def ofName? (name : String) : Option Separator :=
  all.find? fun separator => separator.name == name

def parse (name : String) : Except UnknownName Separator :=
  match ofName? name with
  | some separator => .ok separator
  | none => .error ⟨"separator", name⟩

end Separator

/-- Keyword literals, or their cryptic forms. -/
inductive LiteralStyle where
  | verbose
  | obfuscated
  deriving DecidableEq

namespace LiteralStyle

def name : LiteralStyle → String
  | verbose => "verbose"
  | obfuscated => "obfuscated"

def all : List LiteralStyle := [verbose, obfuscated]

def ofName? (name : String) : Option LiteralStyle :=
  all.find? fun style => style.name == name

def parse (name : String) : Except UnknownName LiteralStyle :=
  match ofName? name with
  | some style => .ok style
  | none => .error ⟨"literal style", name⟩

/-- The literal for "no value": a bare `return`, or a missing branch of a ternary. -/
def noValue : LiteralStyle → String
  | verbose => "nil"
  | obfuscated => "()"

/-- What a body without statements is written as. -/
def emptyBlock : LiteralStyle → String
  | verbose => "\"\""
  | obfuscated => ""

def boolean : LiteralStyle → Bool → String
  | verbose, true => "true"
  | verbose, false => "false"
  | obfuscated, true => "!!1"
  | obfuscated, false => "!1"

end LiteralStyle

structure RenderConfig where
  separator : Separator := .newline
  style : LiteralStyle := .verbose
  deriving DecidableEq

namespace RenderConfig

/-- One statement per line, keyword literals. -/
def readable : RenderConfig := ⟨.newline, .verbose⟩

/-- Statements joined by semicolons, cryptic literals. -/
def compact : RenderConfig := ⟨.semicolon, .obfuscated⟩

end RenderConfig

end RubyPress
