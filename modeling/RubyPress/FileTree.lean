import RubyPress.Path

/-!
A tree of files, as far as reading and writing whole files goes.
-/

namespace RubyPress

inductive FileError where
  | notFound
  | notDirectory
  | isDirectory
  | notText
  | nulInName
  /-- Any other failure, in the words of the system. -/
  | other (text : String)
  deriving DecidableEq

def FileError.message : FileError → String
  | notFound => "No such file or directory (os error 2)"
  | notDirectory => "Not a directory (os error 20)"
  | isDirectory => "Is a directory (os error 21)"
  | notText => "stream did not contain valid UTF-8"
  | nulInName => "file name contained an unexpected NUL byte"
  | other text => text

/-- The content of a file: text, or bytes that are no text. -/
inductive Content where
  | text (value : String)
  | bytes (value : List UInt8)
  deriving DecidableEq

def Content.asText : Content → Except FileError String
  | text value => .ok value
  | bytes _ => .error .notText

/-- A place in a tree, by the names from the root on. -/
abbrev Location := List RawText

instance : Coe (List String) Location := ⟨List.map RawText.ofText⟩

instance : CoeOut Location (List String) := ⟨List.map RawText.text⟩

inductive Entry where
  | directory
  | file (content : Content)
  deriving DecidableEq

structure FileTree where
  /-- The entries below the root, each with its place. -/
  entries : List (Location × Entry) := []
  /-- What stands against writing a text to a place that could take a file, such as missing rights
  or a full disk. -/
  refusal : Location → String → Option FileError := fun _ _ => none

namespace FileTree

def entry? (tree : FileTree) (place : Location) : Option Entry :=
  if place = [] then some .directory else tree.entries.lookup place

def set (tree : FileTree) (place : Location) (entry : Entry) : FileTree :=
  { tree with entries := (place, entry) :: tree.entries.filter fun (found, _) => found != place }

def files (tree : FileTree) : List (Location × Content) :=
  tree.entries.filterMap fun (place, entry) =>
    match entry with
    | .file content => some (place, content)
    | .directory => none

/-- Adds a directory with all directories above it. -/
def addDirectory (tree : FileTree) (place : Location) : FileTree :=
  (List.range (place.length + 1)).foldl (fun tree depth =>
    let above := place.take depth
    if (tree.entry? above).isSome then tree else tree.set above .directory) tree

def addFile (tree : FileTree) (place : Location) (content : Content) : FileTree :=
  (tree.addDirectory place.dropLast).set place (.file content)

inductive Step where
  | up
  | into (name : RawText)
  deriving DecidableEq

/-- Follows steps from a place; every place but the last has to be a directory. -/
def follow (tree : FileTree) : Location → List Step → Except FileError Location
  | place, [] => .ok place
  | place, step :: rest =>
    match tree.entry? place with
    | some .directory =>
      match step with
      | .up => follow tree place.dropLast rest
      | .into name =>
        if (tree.entry? (place ++ [name])).isSome then follow tree (place ++ [name]) rest
        else .error .notFound
    | some (.file _) => .error .notDirectory
    | none => .error .notFound

inductive Ending where
  /-- With a name. -/
  | name
  /-- With a name and a slash. -/
  | slash
  /-- With `.` or `..`, or with no name at all. -/
  | dots
  deriving DecidableEq

def stepsOf (path : RawText) : List Step :=
  (Path.segments path.bytes).filterMap fun segment =>
    if Path.isVoid segment then none
    else if segment = [Path.dot, Path.dot] then some .up
    else some (.into ⟨segment⟩)

def endingOf (path : RawText) : Ending :=
  let parts := Path.segments path.bytes
  match (parts.filter fun part => !part.isEmpty).getLast? with
  | none => .dots
  | some last =>
    if last = [Path.dot] ∨ last = [Path.dot, Path.dot] then .dots
    else if parts.getLast? = some [] then .slash
    else .name

/-- Where a path starts: at the root, or in the working directory. -/
def startOf (directory : Location) (path : RawText) : Location :=
  if path.bytes.head? = some Path.slash then [] else directory

/-- Refuses paths that name nothing at all. -/
def checkPath (path : RawText) : Except FileError Unit :=
  if path.bytes.isEmpty then .error .notFound
  else if path.bytes.contains 0 then .error .nulInName
  else .ok ()

def readText (tree : FileTree) (directory : Location) (path : RawText) :
    Except FileError String := do
  checkPath path
  let place ← tree.follow (startOf directory path) (stepsOf path)
  match tree.entry? place with
  | some (.file content) =>
    if endingOf path = .name then content.asText else .error .notDirectory
  | some .directory => .error .isDirectory
  | none => .error .notFound

/-- The place of the file that writing to a path creates or replaces. -/
def target (tree : FileTree) (directory : Location) (path : RawText) :
    Except FileError Location := do
  checkPath path
  let start := startOf directory path
  let steps := stepsOf path
  match endingOf path, steps.getLast? with
  | .dots, _ | _, none | _, some .up =>
    let place ← tree.follow start steps
    match tree.entry? place with
    | some (.file _) => .error .notDirectory
    | _ => .error .isDirectory
  | ending, some (.into name) =>
    let above ← tree.follow start steps.dropLast
    match tree.entry? above with
    | some .directory =>
      if ending = .slash ∨ tree.entry? (above ++ [name]) = some .directory then
        .error .isDirectory
      else .ok (above ++ [name])
    | some (.file _) => .error .notDirectory
    | none => .error .notFound

/-- The tree after a file has been written as a whole. -/
def writeText (tree : FileTree) (directory : Location) (path : RawText) (text : String) :
    Except FileError FileTree := do
  let place ← tree.target directory path
  match tree.refusal place text with
  | some cause => .error cause
  | none => return tree.set place (.file (.text text))

end FileTree

end RubyPress
