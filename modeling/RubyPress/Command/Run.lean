import RubyPress.Command.Options
import RubyPress.FileTree
import RubyPress.Layout.Read
import RubyPress.Log.Filter
import RubyPress.Render.Writer
import RubyPress.Settings

/-!
One run: read a stored tree, render it, and write the result. Everything but the reading and
writing of files is decided by `prepare`; nothing is written unless all of it succeeds.
-/

namespace RubyPress

inductive Failure where
  | unreadable (input : String) (cause : FileError)
  | notATree (input : String) (cause : ReadError)
  | notRendered (input : String) (cause : RenderError)
  | stdinWithoutOutput
  | overwritesInput (path : RawText)
  | unwritable (path : RawText) (cause : FileError)

def Failure.message : Failure → String
  | unreadable input cause => s!"failed to read {input}: {cause.message}"
  | notATree input cause => s!"failed to load syntax tree from {input}: {cause.message}"
  | notRendered input cause => s!"failed to minify {input}: {cause.message}"
  | stdinWithoutOutput => "--output or --stdout is required when reading from stdin"
  | overwritesInput path => s!"derived output path {path.text} would overwrite the input"
  | unwritable path cause => s!"failed to write {path.text}: {cause.message}"

structure Outcome where
  code : String
  config : RenderConfig
  /-- Where the code is written, if it is not printed. -/
  path : Option RawText
  deriving DecidableEq

/-- A result with the events on the way to it. -/
structure Report (α : Type) where
  events : List Event
  result : Except Failure α

namespace Options

def inputName (options : Options) : String :=
  if options.readsStdin then "<stdin>" else options.input.text

/-- Flags come before settings, and settings before the readable defaults. -/
def renderConfig (options : Options) (settings : Settings) : RenderConfig :=
  if options.compact then .compact
  else (RenderLayer.covering ⟨options.separator, options.style⟩ settings.render).config

/-- Whether the name of the input promises a stored tree. -/
def hasTreeExtension (options : Options) : Bool :=
  match Path.extension? options.input.bytes with
  | some extension => treeExtensions.any fun known => RawText.ofText known == ⟨extension⟩
  | none => false

/-- Where the code goes: the path asked for, or one next to the input. -/
def destination (options : Options) (settings : Settings) : Except Failure (Option RawText) :=
  if options.stdout then .ok none
  else
    match options.output with
    | some path => .ok (some path)
    | none =>
      if options.readsStdin then .error .stdinWithoutOutput
      else
        let path := outputPath options.input (settings.suffix.getD Writer.extension)
        if samePath path options.input then .error (.overwritesInput path) else .ok (some path)

end Options

def renderEvents (config : RenderConfig) (program : Node) : List Event :=
  .rendering program.statements.length config ::
    (Render.dropped config program).map fun (index, statement) =>
      .droppedStatement index statement.kind

/-- The part of a run between reading the input and writing the output. -/
def prepare (options : Options) (settings : Settings) (content : Except FileError String) :
    Report Outcome :=
  match content with
  | .error cause => ⟨[], .error (.unreadable options.inputName cause)⟩
  | .ok content =>
    let doubts : List Event :=
      if options.readsStdin || options.hasTreeExtension then []
      else [.unusualInput options.inputName treeFormat]
    match readTree content with
    | .error cause => ⟨doubts, .error (.notATree options.inputName cause)⟩
    | .ok tree =>
      let config := options.renderConfig settings
      let events := doubts ++ .minifying options.inputName config :: renderEvents config tree
      match renderProgram config tree with
      | .error cause => ⟨events, .error (.notRendered options.inputName cause)⟩
      | .ok code =>
        match options.destination settings with
        | .error failure => ⟨events, .error failure⟩
        | .ok path => ⟨events, .ok ⟨code, config, path⟩⟩

def wroteEvent (path : RawText) (content code : String) : Event :=
  .wrote path.text content.utf8ByteSize code.utf8ByteSize

structure Workspace where
  tree : FileTree
  directory : Location
  stdin : Content := .text ""

namespace Workspace

def input (workspace : Workspace) (options : Options) : Except FileError String :=
  if options.readsStdin then workspace.stdin.asText
  else workspace.tree.readText workspace.directory options.input

/-- A run, with the tree it leaves behind. -/
def run (workspace : Workspace) (options : Options) (settings : Settings) :
    Report Outcome × FileTree :=
  let content := workspace.input options
  let report := prepare options settings content
  match report.result with
  | .error _ => (report, workspace.tree)
  | .ok outcome =>
    match outcome.path with
    | none => (report, workspace.tree)
    | some path =>
      match workspace.tree.writeText workspace.directory path outcome.code with
      | .error cause => (⟨report.events, .error (.unwritable path cause)⟩, workspace.tree)
      | .ok tree =>
        let done := wroteEvent path (content.toOption.getD "") outcome.code
        (⟨report.events ++ [done], .ok outcome⟩, tree)

end Workspace

end RubyPress
