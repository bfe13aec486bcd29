import RubyPress.Tree.Kind

/-!
The reasons why a tree cannot be written.
-/

namespace RubyPress

/-- The deepest nesting of nodes that is written. -/
def maxDepth : Nat := 128

/-- A construct that no rule writes. -/
inductive Unsupported where
  /-- A construct the front end could not map onto the tree. -/
  | unmapped (construct : String)
  | tooDeep (kind : Kind)
  | caseMismatch (clauses whens : Nat)
  | hashMismatch (keys values : Nat)
  | operatorOperands (name : String)
  | indexReadReceiver
  | indexWriteOperands
  | indexWriteIndex
  | notReceiver
  | emptyInclude
  deriving DecidableEq

def Unsupported.construct : Unsupported → String
  | unmapped construct => construct
  | tooDeep kind => s!"{kind.name} nested deeper than {maxDepth} levels"
  | caseMismatch clauses whens => s!"case ({clauses} clauses, {whens} whens)"
  | hashMismatch keys values => s!"hash_lit ({keys} keys, {values} values)"
  | operatorOperands name => "call `" ++ name ++ "` without two operands"
  | indexReadReceiver => "call `[]` without receiver"
  | indexWriteOperands => "call `[]=` without receiver or value"
  | indexWriteIndex => "call `[]=` without index"
  | notReceiver => "call `!` without receiver"
  | emptyInclude => "include_directive without arguments"

/-- The failure of a rendering, with the index of the top-level statement it came from. -/
structure RenderError where
  cause : Unsupported
  statement : Option Nat := none
  deriving DecidableEq

namespace RenderError

def construct (error : RenderError) : String := error.cause.construct

def message (error : RenderError) : String :=
  "unsupported construct: " ++ error.construct ++
    match error.statement with
    | some index => s!" (top-level statement {index})"
    | none => ""

end RenderError

end RubyPress
