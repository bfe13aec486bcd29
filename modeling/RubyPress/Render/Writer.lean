import RubyPress.Alias
import RubyPress.Render.Rule

/-!
From trees to text. `write` follows the rules down to a fixed number of levels; a program is
its top-level statements, one per line, without those that are written as nothing.
-/

namespace RubyPress

namespace Render

def writePiece (separator : Separator) (emit : Node → Except Unsupported (List Char)) :
    Piece → Except Unsupported (List Char)
  | .text content => .ok content
  | .separator => .ok separator.text.toList
  | .child node => emit node

/-- The texts of the pieces one after the other; the first failure counts. -/
def writePieces (separator : Separator) (emit : Node → Except Unsupported (List Char)) :
    List Piece → Except Unsupported (List Char)
  | [] => .ok []
  | piece :: rest =>
    match writePiece separator emit piece with
    | .error cause => .error cause
    | .ok first =>
      match writePieces separator emit rest with
      | .error cause => .error cause
      | .ok others => .ok (first ++ others)

/-- The text of a node when `room` levels of nodes may still be opened. -/
def write (config : RenderConfig) : Nat → Node → Except Unsupported (List Char)
  | 0, node => .error (.tooDeep node.kind)
  | room + 1, node =>
    match rule config.style node with
    | .error cause => .error cause
    | .ok pieces => writePieces config.separator (write config room) pieces

/-- The texts of the top-level statements, or the first failure with its statement. -/
def writeEach (config : RenderConfig) :
    Nat → List Node → Except RenderError (List (List Char))
  | _, [] => .ok []
  | index, statement :: rest =>
    match write config maxDepth statement with
    | .error cause => .error ⟨cause, some index⟩
    | .ok first =>
      match writeEach config (index + 1) rest with
      | .error error => .error error
      | .ok others => .ok (first :: others)

/-- The statements that are written as nothing, with their indices. -/
def dropped (config : RenderConfig) (program : Node) : List (Nat × Node) :=
  (program.statements.zipIdx.takeWhile fun (statement, _) =>
    (write config maxDepth statement).isOk).filterMap fun (statement, index) =>
      match write config maxDepth statement with
      | .ok [] => some (index, statement)
      | _ => none

end Render

open Render

def renderNode (config : RenderConfig) (node : Node) : Except RenderError String :=
  match write config maxDepth node with
  | .error cause => .error ⟨cause, none⟩
  | .ok content => .ok (String.ofList content)

def renderStatements (config : RenderConfig) (block : Node) : Except RenderError String :=
  match writePieces config.separator (write config maxDepth) (statements config.style block) with
  | .error cause => .error ⟨cause, none⟩
  | .ok content => .ok (String.ofList content)

/-- A whole program: the non-empty texts of its top-level statements, one per line. -/
def renderProgram (config : RenderConfig) (program : Node) : Except RenderError String :=
  match writeEach config 0 program.statements with
  | .error error => .error error
  | .ok texts =>
    .ok (String.ofList (['\n'].intercalate (texts.filter fun content => !content.isEmpty)))

/-- The settings of a writer and its table of replacement names, which no rule consults yet. -/
structure Writer where
  config : RenderConfig := {}
  aliases : AliasTable := .initial

namespace Writer

def language : String := "ruby"

def extension : String := "min.rb"

def setAlias (writer : Writer) (key : AliasKey) (value : String) : Writer :=
  { writer with aliases := writer.aliases.set key value }

def write (writer : Writer) (program : Node) : Except RenderError String :=
  renderProgram writer.config program

end Writer

end RubyPress
