import RubyPress.Operator
import RubyPress.Render.Error
import RubyPress.Text.DoubleQuoted
import RubyPress.Text.SymbolName

/-!
One rule for each kind of node. A rule gives the pieces a node is written from, in order: fixed
text, statement separators, and children, each child with or without parentheses around it. A
rule depends on the literal style but not on the separator, and it refuses a malformed node
before it names any piece.
-/

namespace RubyPress

inductive Piece where
  | text (content : List Char)
  | separator
  | child (node : Node)

namespace Render

def text (content : String) : Piece := .text content.toList

/-- How tightly the text of a node binds. A node that is written as nothing is loosest of all:
in parentheses it becomes `()`, which is nil. -/
def precedence (style : LiteralStyle) (node : Node) : Precedence :=
  match node.rendered with
  | .call receiver method args params body forward =>
    let trailing := (Node.call receiver method args params body forward).hasTrailingBlock
    if Operator.isBinary method then Operator.precedence method
    else if Operator.isNot method && !trailing then .unary
    else if Operator.isIndexWrite method && !trailing then .assign
    else .primary
  | .ifElse _ _ otherwise | .unlessElse _ _ otherwise =>
    if style = .verbose ∧ otherwise.isNone then .modifier else .ternary
  | .localWrite .. | .instanceWrite .. | .constWrite .. => .assign
  | .including _ => .command
  | .yielding args => if args.isEmpty then .primary else .command
  | .logicalAnd .. => .and
  | .logicalOr .. => .or
  | .boolean _ => if style = .obfuscated then .unary else .primary
  | .integer value => if value < 0 then .negative else .primary
  | .nil => .modifier
  | .block [] => if style = .obfuscated then .modifier else .primary
  | .block _ => .modifier
  | _ => .primary

/-- A node in a place that needs at least the given binding strength. -/
def operand (style : LiteralStyle) (least : Precedence) (node : Node) : List Piece :=
  if precedence style node < least then [text "(", .child node, text ")"] else [.child node]

def statements (style : LiteralStyle) (body : Node) : List Piece :=
  match body.statements with
  | [] => [text style.emptyBlock]
  | statements => (statements.map Piece.child).intersperse .separator

def arguments (style : LiteralStyle) (args : List Node) : List Piece :=
  [text ","].intercalate (args.map (operand style .assign))

/-- Arguments in parentheses, or nothing when there are none. -/
def argumentList (style : LiteralStyle) (args : List Node) : List Piece :=
  if args.isEmpty then [] else text "(" :: arguments style args ++ [text ")"]

/-- The body and the `end` after the header of a definition. -/
def keywordBody (style : LiteralStyle) (body : Node) : List Piece :=
  .separator :: statements style body ++ [.separator, text "end"]

def callHead (style : LiteralStyle) (receiver : Option Node) (method : String) : List Piece :=
  match receiver with
  | some receiver => operand style .primary receiver ++ [text ".", text method]
  | none => [text method]

/-- A call that is no operator application and carries no block. -/
def plainCall (style : LiteralStyle) (receiver : Option Node) (method : String)
    (args : List Node) : Except Unsupported (List Piece) :=
  if Operator.isIndexRead method then
    match receiver with
    | some target =>
      .ok (operand style .primary target ++ text "[" :: arguments style args ++ [text "]"])
    | none => .error .indexReadReceiver
  else if Operator.isIndexWrite method then
    match receiver, args.getLast? with
    | some target, some value =>
      if args.dropLast.isEmpty then .error .indexWriteIndex
      else .ok (operand style .primary target ++ text "[" :: arguments style args.dropLast ++
        text "]=" :: operand style .assign value)
    | _, _ => .error .indexWriteOperands
  else if Operator.isNot method then
    match receiver with
    | some subject => .ok (text "!" :: operand style .unary subject)
    | none => .error .notReceiver
  else .ok (callHead style receiver method ++ argumentList style args)

def call (style : LiteralStyle) (receiver : Option Node) (method : String) (args : List Node)
    (params : List String) (body forward : Option Node) : Except Unsupported (List Piece) :=
  if Operator.isBinary method then
    match receiver, args with
    | some lhs, [rhs] =>
      let (left, right) := Operator.operandLevels method
      .ok (operand style left lhs ++ text method :: operand style right rhs)
    | _, _ => .error (.operatorOperands method)
  else
    match body, forward with
    | some body, _ =>
      .ok (callHead style receiver method ++ argumentList style args ++
        [text "\x7b|", text (",".intercalate params), text "|"] ++
        (if body.isEmptyBody then [] else statements style body) ++ [text "\x7d"])
    | none, some block =>
      .ok (callHead style receiver method ++ text "(" ::
        (if args.isEmpty then [] else arguments style args ++ [text ","]) ++
        text "&" :: operand style .assign block ++ [text ")"])
    | none, none => plainCall style receiver method args

/-- The condition of an `if` or, negated, of an `unless`. -/
def condition (style : LiteralStyle) (negate : Bool) (least : Precedence) (condition : Node) :
    List Piece :=
  if negate then [text "!(", .child condition, text ")"] else operand style least condition

/-- A modifier `if` when the style has one and there is no other branch, a ternary otherwise. -/
def conditional (style : LiteralStyle) (negate : Bool) (test thenBranch : Node)
    (elseBranch : Option Node) : List Piece :=
  match style, elseBranch with
  | .verbose, none =>
    operand style .assign thenBranch ++ text " if " :: condition style negate .assign test
  | _, _ =>
    condition style negate (Precedence.ternary + 1) test ++ text " ? " ::
      operand style .ternary thenBranch ++ text " : " ::
      match elseBranch with
      | some elseBranch => operand style .ternary elseBranch
      | none => [text style.noValue]

def assignment (style : LiteralStyle) (target : Variable) (name : String) (rhs : Node) :
    List Piece :=
  match rhs.abbreviation? style target with
  | some (operator, value) =>
    [text name, text operator, text "="] ++ operand style .assign value
  | none => [text name, text "="] ++ operand style .assign rhs

/-- A literal fragment, or embedded code in its braces. -/
def interpolatedPart (style : LiteralStyle) : Node → List Piece
  | .string value => [.text (DoubleQuoted.escape value.toList)]
  | embedded => text "#\x7b" :: statements style embedded ++ [text "\x7d"]

def whenClause (style : LiteralStyle) (clause test : Node) : List Piece :=
  text "when " :: operand style .assign test ++ .separator :: statements style clause ++
    [.separator]

def caseWhen (style : LiteralStyle) (pivot : Node) (clauses whens : List Node)
    (elseClause : Option Node) : Except Unsupported (List Piece) :=
  if clauses.length = whens.length then
    .ok (text "case" ::
      (match pivot with
        | .nil => []
        | pivot => text " " :: operand style .assign pivot) ++
      .separator :: (List.zipWith (whenClause style) clauses whens).flatten ++
      (match elseClause with
        | some elseClause => [text "else", .separator] ++ statements style elseClause ++ [.separator]
        | none => []) ++ [text "end"])
  else .error (.caseMismatch clauses.length whens.length)

def hashPair (style : LiteralStyle) (key value : Node) : List Piece :=
  operand style .assign key ++ text "=>" :: operand style .assign value

/-- The pieces a node is written from. -/
def rule (style : LiteralStyle) : Node → Except Unsupported (List Piece)
  | .call receiver method args params body forward =>
    call style receiver method args params body forward
  | .definition method params body =>
    .ok ([text "def ", text method] ++
      (if params.isEmpty then [] else [text "(", text (",".intercalate params), text ")"]) ++
      keywordBody style body)
  | .ifElse test thenBranch elseBranch => .ok (conditional style false test thenBranch elseBranch)
  | .unlessElse test thenBranch elseBranch =>
    .ok (conditional style true test thenBranch elseBranch)
  | .caseWhen pivot clauses whens elseClause => caseWhen style pivot clauses whens elseClause
  | .ret .nil => .ok [text style.noValue]
  | .ret argument => .ok [.child argument]
  | .yielding args =>
    .ok (text "yield" :: if args.isEmpty then [] else text " " :: arguments style args)
  | .boolean value => .ok [text (style.boolean value)]
  | .classDef path superclass body =>
    .ok ([text "class ", text path.joined] ++
      (match superclass with
        | some superclass => [text "<", text superclass.joined]
        | none => []) ++
      keywordBody style body)
  | .moduleDef path body => .ok ([text "module ", text path.joined] ++ keywordBody style body)
  | .selfRef => .ok [text "self"]
  | .logicalAnd lhs rhs =>
    .ok (operand style .and lhs ++ text "&&" :: operand style (Precedence.and + 1) rhs)
  | .logicalOr lhs rhs =>
    .ok (operand style .or lhs ++ text "||" :: operand style (Precedence.or + 1) rhs)
  | .localRead name => .ok [text name]
  | .instanceRead name => .ok [text name]
  | .localWrite name rhs => .ok (assignment style (.localVar name) name rhs)
  | .instanceWrite name rhs => .ok (assignment style (.instanceVar name) name rhs)
  | .constRead base name =>
    .ok ((match base with
        | some base => operand style .primary base ++ [text "::"]
        | none => []) ++ [text name])
  | .constWrite path rhs =>
    .ok ([text ("::".intercalate path), text "="] ++ operand style .assign rhs)
  | .string value => .ok [.text (DoubleQuoted.quote value)]
  | .integer value => .ok [text (toString value.toInt)]
  | .array elements => .ok (text "[" :: arguments style elements ++ [text "]"])
  | .symbol value =>
    .ok [text ":", if SymbolName.isPlain value then text value
      else .text (DoubleQuoted.quote value)]
  | .hash keys values =>
    if keys.length = values.length then
      .ok (text "\x7b" :: [text ","].intercalate (List.zipWith (hashPair style) keys values) ++
        [text "\x7d"])
    else .error (.hashMismatch keys.length values.length)
  | .interpolatedString parts =>
    .ok (text "\"" :: parts.flatMap (interpolatedPart style) ++ [text "\""])
  | .interpolatedSymbol parts =>
    .ok (text ":\"" :: parts.flatMap (interpolatedPart style) ++ [text "\""])
  | .including [] => .error .emptyInclude
  | .including (included :: _) => .ok (text "include " :: operand style .assign included)
  | .nil => .ok []
  | .block body => .ok (statements style (.block body))
  | .unmapped construct => .error (.unmapped construct)

end Render

end RubyPress
