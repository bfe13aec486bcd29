import RubyPress.Command.Session

/-!
The command with real files: reads the environment, the settings and the input, and writes the
output, the log and the messages.
-/

namespace RubyPress.Shell

/-- A failure of the system by its number, as far as there are own words for it. -/
def fileErrorOfCode (code : UInt32) (details : String) : FileError :=
  if code = 2 then .notFound
  else if code = 20 then .notDirectory
  else if code = 21 then .isDirectory
  else .other s!"{details} (os error {code})"

def fileError : IO.Error → FileError
  | .noFileOrDirectory _ code details => fileErrorOfCode code details
  | .inappropriateType _ code details => fileErrorOfCode code details
  | .permissionDenied _ code _ => .other s!"Permission denied (os error {code})"
  | error => .other (toString error)

def textOfBytes (bytes : ByteArray) : Except FileError String :=
  match String.fromUTF8? bytes with
  | some text => .ok text
  | none => .error .notText

/-- A path comes from the system as text and goes back to it as text. -/
def readFileText (path : RawText) : IO (Except FileError String) := do
  try
    return textOfBytes (← IO.FS.readBinFile path.text)
  catch error => return .error (fileError error)

def writeFileText (path : RawText) (text : String) : IO (Except FileError Unit) := do
  try
    IO.FS.writeFile path.text text
    return .ok ()
  catch error => return .error (fileError error)

partial def readToEnd (stream : IO.FS.Stream) (soFar : ByteArray) : IO ByteArray := do
  let more ← stream.read 65536
  if more.isEmpty then return soFar else readToEnd stream (soFar ++ more)

def readInput (options : Options) : IO (Except FileError String) := do
  if options.readsStdin then return textOfBytes (← readToEnd (← IO.getStdin) .empty)
  else readFileText options.input

def writeOutput (outcome : Outcome) (content : Except FileError String) (report : Report Outcome) :
    IO (Report Outcome) := do
  match outcome.path with
  | none => return report
  | some path =>
    match ← writeFileText path outcome.code with
    | .error cause => return ⟨report.events, .error (.unwritable path cause)⟩
    | .ok () =>
      let done := wroteEvent path (content.toOption.getD "") outcome.code
      return ⟨report.events ++ [done], .ok outcome⟩

def runCommand (options : Options) (verbose : Bool) : IO Transcript := do
  let environment : Environment := ⟨← IO.getEnv Environment.configHomeName,
    (← IO.getEnv Environment.homeName).map .ofText, ← IO.getEnv Filter.environmentName⟩
  let directory := RawText.ofText (← IO.currentDir).toString
  let files ← (Settings.paths environment directory).mapM fun path =>
    return (path, ← readFileText path)
  let (found, settings) := Settings.ofFiles files
  let content ← readInput options
  let report := prepare options settings content
  let report ←
    match report.result with
    | .error _ => pure report
    | .ok outcome => writeOutput outcome content report
  let filter := Filter.choose verbose environment.logFilter
  return .ofReport filter (found ++ report.events) report.result

end RubyPress.Shell

open RubyPress in
def main (args : List String) : IO UInt32 := do
  let transcript ←
    match CommandLine.parse args with
    | .error _ =>
      IO.eprintln "error: the arguments are not understood, try --help"
      pure Transcript.misuse
    | .ok .version => pure (Transcript.information versionLine)
    | .ok .help => pure (Transcript.information helpText)
    | .ok (.run options verbose) => Shell.runCommand options verbose
  for line in transcript.log do
    IO.eprintln line
  IO.print transcript.stdout
  match transcript.error with
  | some message => IO.eprintln message
  | none => pure ()
  return transcript.exit.toUInt32
