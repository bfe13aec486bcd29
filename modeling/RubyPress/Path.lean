import RubyPress.Text.Raw

/-!
Unix paths, which are bytes. A path is read as a list of components, in which empty and `.` segments
do not count except for a leading `.`; what is kept of a path is kept as written.
-/

namespace RubyPress.Path

@[match_pattern]
abbrev slash : UInt8 := 0x2F

@[match_pattern]
abbrev dot : UInt8 := 0x2E

inductive Component where
  | root
  | current
  | parent
  | normal (name : List UInt8)
  deriving DecidableEq

def segments : List UInt8 → List (List UInt8)
  | [] => [[]]
  | c :: rest =>
    if c = slash then [] :: segments rest
    else
      match segments rest with
      | [] => [[c]]
      | first :: others => (c :: first) :: others

def unsegments (parts : List (List UInt8)) : List UInt8 := [slash].intercalate parts

/-- Whether a segment is passed over. -/
def isVoid (segment : List UInt8) : Bool := segment == [] || segment == [dot]

/-- The leading slash or dot of a path, which is a component of its own, and the rest. -/
def splitHead : List UInt8 → List UInt8 × List UInt8
  | slash :: rest => ([slash], rest)
  | [dot] => ([dot], [])
  | dot :: slash :: rest => ([dot], slash :: rest)
  | path => ([], path)

def headComponents : List UInt8 → List Component
  | slash :: _ => [.root]
  | dot :: _ => [.current]
  | _ => []

@[simp]
theorem headComponents_slash (rest : List UInt8) : headComponents (slash :: rest) = [.root] := rfl

@[simp]
theorem headComponents_dot (rest : List UInt8) : headComponents (dot :: rest) = [.current] := rfl

@[simp]
theorem headComponents_nil : headComponents [] = [] := rfl

def bodyComponent? (segment : List UInt8) : Option Component :=
  if isVoid segment then none
  else if segment = [dot, dot] then some .parent
  else some (.normal segment)

/-- The components of a path. Two paths are the same place when these agree. -/
def components (path : List UInt8) : List Component :=
  let (head, body) := splitHead path
  headComponents head ++ (segments body).filterMap bodyComponent?

/-- The last component, if it is a name. -/
def fileName? (path : List UInt8) : Option (List UInt8) :=
  match (components path).getLast? with
  | some (.normal name) => some name
  | _ => none

def trimVoid (parts : List (List UInt8)) : List (List UInt8) :=
  (parts.reverse.dropWhile isVoid).reverse

def parent (path : List UInt8) : List UInt8 :=
  let (head, body) := splitHead path
  head ++ unsegments (trimVoid (trimVoid (segments body)).dropLast)

def join (directory name : List UInt8) : List UInt8 :=
  match directory.getLast? with
  | none => name
  | some last => if last = slash then directory ++ name else directory ++ slash :: name

/-- Puts a name in the place of the file name, or below a path that has none. -/
def withFileName (path name : List UInt8) : List UInt8 :=
  match fileName? path with
  | some _ => join (parent path) name
  | none => join path name

/-- What follows the last dot of the file name, unless that dot opens the name. -/
def extension? (path : List UInt8) : Option (List UInt8) := do
  let name ← fileName? path
  let ending := (name.reverse.takeWhile (· != dot)).reverse
  if name.length ≤ ending.length + 1 then none else some ending

/-- A file name up to its first dot; a leading dot belongs to the name. -/
def baseName : List Char → List Char
  | [] => []
  | c :: rest => c :: rest.takeWhile (· != '.')

/-- The path of the output for an input: in the same directory, the base of the name as it is shown
and the suffix. -/
def output (input : List UInt8) (suffix : List Char) : List UInt8 :=
  let base := baseName (Utf8.decode ((fileName? input).getD []))
  let base := if base.isEmpty then ['o', 'u', 't'] else base
  withFileName input (Utf8.encode (base ++ '.' :: suffix))

end RubyPress.Path

namespace RubyPress

def outputPath (input : RawText) (suffix : String) : RawText :=
  ⟨Path.output input.bytes suffix.toList⟩

/-- Whether two paths name the same place. -/
def samePath (first second : RawText) : Bool :=
  Path.components first.bytes == Path.components second.bytes

def joinPath (directory name : RawText) : RawText :=
  if name.bytes.head? = some Path.slash then name else ⟨Path.join directory.bytes name.bytes⟩

end RubyPress
