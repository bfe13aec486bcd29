import RubyPress.Log
import RubyPress.Text.Alphanumeric
import RubyPress.Text.Blank

/-!
Which events of a log are shown. A filter is a list of directives, each of which shows the events
of some part of the program up to a level; the most specific directive about an event decides.
-/

namespace RubyPress

/-- Which events of its target a directive is about. -/
inductive Condition where
  | always
  /-- Those that have a field of this name. -/
  | hasField (name : String)
  /-- Those in a span of the program, of which there is none. -/
  | inSpan
  deriving DecidableEq

namespace Condition

def holds (event : Event) : Condition → Bool
  | always => true
  | hasField name => event.fields.contains name
  | inSpan => false

/-- Whether a condition is more specific than another: a field is more than none, and of two
fields the one with the greater name. -/
def exceeds : Condition → Condition → Bool
  | hasField first, hasField second => decide (second < first)
  | hasField _, _ => true
  | _, _ => false

end Condition

/-- Shows events up to a rank. -/
structure Directive where
  /-- The beginning of the targets that the directive is about. -/
  target : String
  condition : Condition
  rank : Nat
  deriving DecidableEq

namespace Directive

def concerns (directive : Directive) (event : Event) : Bool :=
  directive.target.toList.isPrefixOf event.target.toList && directive.condition.holds event

/-- Whether a directive is more specific than another: first the longer target counts, then the
condition. -/
def exceeds (first second : Directive) : Bool :=
  second.target.length < first.target.length ||
    (second.target.length == first.target.length && first.condition.exceeds second.condition)

def levelNames : List (String × Nat) :=
  [("off", 0), ("error", 1), ("warn", 2), ("info", 3), ("debug", 4), ("trace", 5)]

/-- A number in decimal digits, which may have a plus sign. -/
def number? (text : String) : Option Nat :=
  let digits :=
    match text.toList with
    | '+' :: rest => rest
    | all => all
  if digits.isEmpty ∨ !digits.all Char.isDigit then none
  else some (digits.foldl (fun soFar c => 10 * soFar + (c.toNat - 48)) 0)

/-- The rank that a level's name in any case, or its number, stands for. -/
def rank? (text : String) : Option Nat :=
  match number? text with
  | some rank => if rank ≤ 5 then some rank else none
  | none => levelNames.lookup text.toLower

/-- The rank after an equals sign. Without any, everything is shown. -/
def rankOrAll? (text : List Char) : Option Nat :=
  if text.isEmpty then some Level.trace.rank else rank? (String.ofList text)

/-- Whether the target or level of a directive can start with this character. -/
def opens (c : Char) : Bool :=
  Text.isAlphanumeric c || c == '-' || c == ':' || c == '_'

def between (text : List Char) (start stop : Nat) : List Char :=
  (text.take stop).drop start

/-- The condition of a directive after its opening bracket, which stands before the place `start`:
a span, or a field in braces, or both. Also gives the place after the closing bracket, and what
follows there. -/
def condition? (whole : List Char) (start : Nat) (marks : List Char) :
    Option (Condition × Nat × List Char) :=
  let span := marks.takeWhile fun c => c != ']' && c != '\x7b'
  let stop := start + span.length
  match marks.drop span.length with
  | ']' :: rest => some (.inSpan, stop + 1, rest)
  | '\x7b' :: inner =>
    let field := inner.takeWhile (· != '\x7d')
    match field.isEmpty, inner.drop field.length with
    | false, '\x7d' :: ']' :: rest =>
      let name := between whole (stop + 1) (stop + 1 + field.length)
      let plain := span.isEmpty && !name.contains '='
      let condition := if plain then .hasField (String.ofList name) else .inSpan
      some (condition, stop + 1 + field.length + 2, rest)
    | _, _ => none
  | _ => none

/-- A level for everything, a target at full detail, or a target and its level. A condition in
brackets may stand after the target, or in its place. The marks that divide a directive are looked
for in the text without its surrounding blanks, and what they divide is taken from the same places
of the whole text. -/
def parse? (text : String) : Option Directive := do
  let whole := text.toList
  let marks := Text.trimmed whole
  let first ← marks.head?
  if first != '[' && !opens first then none
  let name := marks.takeWhile fun c => c != '=' && c != '['
  let target := String.ofList (whole.take name.length)
  match marks.drop name.length with
  | '=' :: _ =>
    return ⟨target, .always, ← rankOrAll? (whole.drop (name.length + 1))⟩
  | '[' :: inner =>
    match ← condition? whole (name.length + 1) inner with
    | (condition, _, []) => return ⟨target, condition, Level.trace.rank⟩
    | (condition, stop, '=' :: _) =>
      return ⟨target, condition, ← rankOrAll? (whole.drop (stop + 1))⟩
    | _ => none
  | _ =>
    match rank? text with
    | some rank => return ⟨"", .always, rank⟩
    | none => return ⟨text, .always, Level.trace.rank⟩

end Directive

structure Filter where
  directives : List Directive

namespace Filter

def environmentName : String := "MINIFY_LOG"

def upTo (level : Level) : Filter := ⟨[⟨"", .always, level.rank⟩]⟩

/-- A comma-separated list of directives. Without any, errors are shown. -/
def parse? (text : String) : Option Filter := do
  let parts := (text.splitOn ",").filter fun part => !part.isEmpty
  if parts.isEmpty then return upTo .error
  return ⟨← parts.mapM Directive.parse?⟩

/-- The filter of a run: everything up to debug if asked for, else what the environment sets, else
warnings. -/
def choose (verbose : Bool) (setting : Option String) : Filter :=
  if verbose then upTo .debug
  else (setting.bind parse?).getD (upTo .warn)

/-- The rank up to which an event is shown: that of the most specific directive about it, the last
of equal ones. -/
def rankFor (filter : Filter) (event : Event) : Nat :=
  let decisive := (filter.directives.filter (·.concerns event)).foldl (fun best directive =>
    match best with
    | some found => if found.exceeds directive then some found else some directive
    | none => some directive) (none : Option Directive)
  match decisive with
  | some directive => directive.rank
  | none => 0

def shows (filter : Filter) (event : Event) : Bool :=
  event.level.rank ≤ filter.rankFor event

def lines (filter : Filter) (events : List Event) : List String :=
  (events.filter filter.shows).map Event.line

end Filter

end RubyPress
