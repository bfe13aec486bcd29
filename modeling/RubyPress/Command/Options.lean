import RubyPress.Config
import RubyPress.Text.Raw

/-!
The command line: which arguments are understood, and what they ask for. Arguments count from
left to right, and the first bad argument or request for information decides.
-/

namespace RubyPress

structure Options where
  input : RawText
  output : Option RawText := none
  stdout : Bool := false
  separator : Option Separator := none
  style : Option LiteralStyle := none
  compact : Bool := false
  deriving DecidableEq

namespace Options

/-- The input that stands for standard input. -/
def stdinName : String := "-"

def readsStdin (options : Options) : Bool := options.input == RawText.ofText stdinName

end Options

inductive Request where
  | run (options : Options) (verbose : Bool)
  | version
  | help
  deriving DecidableEq

namespace CommandLine

inductive OptionName where
  | output
  | stdout
  | separator
  | style
  | compact
  | verbose
  | help
  | version
  deriving DecidableEq

namespace OptionName

def ofLong? : String → Option OptionName
  | "output" => some output
  | "stdout" => some stdout
  | "separator" => some separator
  | "style" => some style
  | "compact" => some compact
  | "verbose" => some verbose
  | "help" => some help
  | "version" => some version
  | _ => none

def ofShort? : Char → Option OptionName
  | 'o' => some output
  | 'v' => some verbose
  | 'h' => some help
  | 'V' => some version
  | _ => none

def takesValue : OptionName → Bool
  | output | separator | style => true
  | stdout | compact | verbose | help | version => false

end OptionName

structure Progress where
  input : Option String := none
  output : Option String := none
  stdout : Bool := false
  separator : Option Separator := none
  style : Option LiteralStyle := none
  compact : Bool := false
  verbose : Bool := false

/-- Why the arguments after some point are not looked at. -/
inductive Stop where
  | misuse
  | version
  | help
  deriving DecidableEq

/-- Sets something that may be set once. -/
def once {α : Type} (old : Option α) (new : Option α) : Except Stop (Option α) :=
  match old, new with
  | none, some value => .ok (some value)
  | _, _ => .error .misuse

def filled? (text : String) : Option String := if text.isEmpty then none else some text

def setFlag (progress : Progress) : OptionName → Except Stop Progress
  | .stdout => if progress.stdout then .error .misuse else .ok { progress with stdout := true }
  | .compact => if progress.compact then .error .misuse else .ok { progress with compact := true }
  | .verbose => if progress.verbose then .error .misuse else .ok { progress with verbose := true }
  | .help => .error .help
  | .version => .error .version
  | .output | .separator | .style => .error .misuse

def setValue (progress : Progress) (name : OptionName) (value : String) :
    Except Stop Progress :=
  match name with
  | .output => do return { progress with output := ← once progress.output (filled? value) }
  | .separator => do
    return { progress with separator := ← once progress.separator (Separator.ofName? value) }
  | .style => do
    return { progress with style := ← once progress.style (LiteralStyle.ofName? value) }
  | _ => .error .misuse

def setInput (progress : Progress) (value : String) : Except Stop Progress := do
  return { progress with input := ← once progress.input (filled? value) }

/-- A cluster of short options: what is set by it, and the option that still waits for its
value. -/
def cluster (progress : Progress) : List Char → Except Stop (Progress × Option OptionName)
  | [] => .ok (progress, none)
  | c :: rest =>
    match OptionName.ofShort? c with
    | none => .error .misuse
    | some name =>
      if name.takesValue then
        match rest with
        | [] => .ok (progress, some name)
        | '=' :: value => do return (← setValue progress name (String.ofList value), none)
        | value => do return (← setValue progress name (String.ofList value), none)
      else do cluster (← setFlag progress name) rest

/-- A long option without its dashes. -/
def long (progress : Progress) (text : List Char) :
    Except Stop (Progress × Option OptionName) :=
  match OptionName.ofLong? (String.ofList (text.takeWhile (· != '='))),
    text.dropWhile (· != '=') with
  | none, _ => .error .misuse
  | some name, [] =>
    if name.takesValue then .ok (progress, some name)
    else do return (← setFlag progress name, none)
  | some name, _ :: value =>
    if name.takesValue then do return (← setValue progress name (String.ofList value), none)
    else .error .misuse

/-- One argument before the end of options. -/
def argument (progress : Progress) (text : String) :
    Except Stop (Progress × Option OptionName) :=
  match text.toList with
  | '-' :: '-' :: rest => long progress rest
  | '-' :: c :: rest => cluster progress (c :: rest)
  | _ => do return (← setInput progress text, none)

def isValue (text : String) : Bool :=
  text == "-" || text.toList.head? != some '-'

/-- All arguments. `waiting` is the option whose value comes next. -/
def arguments (progress : Progress) (waiting : Option OptionName) :
    List String → Except Stop Progress
  | [] => if waiting.isSome then .error .misuse else .ok progress
  | text :: rest =>
    match waiting with
    | some name =>
      if isValue text then do arguments (← setValue progress name text) none rest
      else .error .misuse
    | none =>
      if text = "--" then rest.foldlM setInput progress
      else do
        let (progress, waiting) ← argument progress text
        arguments progress waiting rest

/-- Whether two options were given that exclude each other. -/
def conflicts (progress : Progress) : Bool :=
  (progress.stdout && progress.output.isSome) ||
    (progress.compact && (progress.separator.isSome || progress.style.isSome))

def parse (args : List String) : Except Stop Request :=
  match arguments {} none args with
  | .error .version => .ok .version
  | .error .help => .ok .help
  | .error .misuse => .error .misuse
  | .ok progress =>
    match progress.input with
    | some input =>
      if conflicts progress then .error .misuse
      else
        .ok (.run ⟨.ofText input, progress.output.map .ofText, progress.stdout, progress.separator,
          progress.style, progress.compact⟩ progress.verbose)
    | none => .error .misuse

end CommandLine

end RubyPress
