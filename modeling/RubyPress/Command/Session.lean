import RubyPress.Command.Run

/-!
The whole command: settings files, command line, run, and what is shown of it.
-/

namespace RubyPress

structure Environment where
  configHome : Option String := none
  home : Option RawText := none
  logFilter : Option String := none

namespace Environment

def configHomeName : String := "XDG_CONFIG_HOME"

def homeName : String := "HOME"

def settingsPath? (environment : Environment) : Option RawText :=
  let home := environment.home.filter fun home => !home.bytes.isEmpty
  let configHome := (environment.configHome.map RawText.ofText).or
    (home.map fun home => joinPath home ".config")
  configHome.map fun home => joinPath (joinPath home "minify") "config.toml"

end Environment

namespace Settings

def projectPath (directory : RawText) : RawText :=
  joinPath (joinPath directory ".minify") "config.toml"

/-- The settings files that count, the one that is laid over the other last. -/
def paths (environment : Environment) (directory : RawText) : List RawText :=
  environment.settingsPath?.toList ++ [projectPath directory]

/-- Lays the settings of a file over others. A file that cannot be read is passed over in
silence, a malformed one with an event. -/
def addFile (found : List Event × Settings) (path : RawText)
    (content : Except FileError String) : List Event × Settings :=
  match content with
  | .error _ => found
  | .ok source =>
    match parse? source with
    | some settings => (found.1 ++ [.loadedConfig path.text], settings.covering found.2)
    | none => (found.1 ++ [.ignoredConfig path.text], found.2)

/-- The settings of several files, each laid over those before it. -/
def ofFiles (files : List (RawText × Except FileError String)) : List Event × Settings :=
  files.foldl (fun found (path, content) => addFile found path content) ([], {})

end Settings

def versionLine : String := "minify 0.2.0"

def helpText : String :=
  "Regenerate compacted Ruby from a resolved syntax tree\n\n" ++
  "Usage: minify [OPTIONS] <INPUT>\n\n" ++
  "Arguments:\n" ++
  "  <INPUT>  Syntax tree produced by the front end (JSON), use - for stdin\n\n" ++
  "Options:\n" ++
  "  -o, --output <OUTPUT>        Output file (default: <input base name>.min.rb next to the input)\n" ++
  "      --stdout                 Print the result instead of writing a file\n" ++
  "      --separator <SEPARATOR>  Statement separator inside bodies [possible values: newline, semicolon]\n" ++
  "      --style <STYLE>          Literal style [possible values: verbose, obfuscated]\n" ++
  "      --compact                Shorthand for --separator semicolon --style obfuscated\n" ++
  "  -v, --verbose                Log progress to stderr\n" ++
  "  -h, --help                   Print help\n" ++
  "  -V, --version                Print version"

/-- What the world sees of a finished command. -/
structure Transcript where
  exit : Nat
  stdout : String := ""
  log : List String := []
  /-- The message of a failed run. -/
  error : Option String := none

namespace Transcript

def ofReport (filter : Filter) (events : List Event) (result : Except Failure Outcome) :
    Transcript :=
  let log := filter.lines events
  match result with
  | .error failure => { exit := 1, log := log, error := some ("error: " ++ failure.message) }
  | .ok outcome =>
    { exit := 0, log := log, stdout := if outcome.path.isNone then outcome.code ++ "\n" else "" }

def misuse : Transcript := { exit := 2 }

def information (text : String) : Transcript := { exit := 0, stdout := text ++ "\n" }

end Transcript

namespace Workspace

/-- The working directory as an absolute path. -/
def currentPath (workspace : Workspace) : RawText :=
  ⟨Path.slash :: Path.unsegments (workspace.directory.map RawText.bytes)⟩

/-- The working directory as messages show it. -/
def directoryPath (workspace : Workspace) : String := workspace.currentPath.text

def loadSettings (workspace : Workspace) (environment : Environment) : List Event × Settings :=
  Settings.ofFiles <| (Settings.paths environment workspace.currentPath).map fun path =>
    (path, workspace.tree.readText workspace.directory path)

def command (workspace : Workspace) (environment : Environment) (args : List String) :
    Transcript × FileTree :=
  match CommandLine.parse args with
  | .error _ => (.misuse, workspace.tree)
  | .ok .version => (.information versionLine, workspace.tree)
  | .ok .help => (.information helpText, workspace.tree)
  | .ok (.run options verbose) =>
    let (found, settings) := workspace.loadSettings environment
    let (report, tree) := workspace.run options settings
    let filter := Filter.choose verbose environment.logFilter
    (.ofReport filter (found ++ report.events) report.result, tree)

end Workspace

end RubyPress
