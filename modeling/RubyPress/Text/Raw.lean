/-!
Text as the system passes it: bytes, which are UTF-8 as a rule but need not be. Bytes are shown as
text with a replacement character for each stretch that is not UTF-8.
-/

namespace RubyPress

namespace Utf8

def encode (text : List Char) : List UInt8 := text.flatMap String.utf8EncodeChar

/-- What is shown for bytes that are no character. -/
def replacement : Char := Char.ofNat 0xFFFD

def isContinuation (byte : UInt8) : Bool := 0x80 ≤ byte && byte ≤ 0xBF

/-- Whether a byte can be the second of a character that takes three bytes or more. -/
def isSecond (lead second : UInt8) : Bool :=
  if lead = 0xE0 then 0xA0 ≤ second && second ≤ 0xBF
  else if lead = 0xED then 0x80 ≤ second && second ≤ 0x9F
  else if lead = 0xF0 then 0x90 ≤ second && second ≤ 0xBF
  else if lead = 0xF4 then 0x80 ≤ second && second ≤ 0x8F
  else 0xE1 ≤ lead && lead ≤ 0xF3 && isContinuation second

/-- How many bytes are replaced together if no character starts here: as many as could be the start
of one, but at least one. -/
def faultSize : List UInt8 → Nat
  | lead :: second :: rest =>
    if isSecond lead second then
      if 0xF0 ≤ lead && rest.head?.any isContinuation then 3 else 2
    else 1
  | _ => 1

/-- The character at the start, and how many bytes it takes. -/
def first (bytes : List UInt8) : Char × Nat :=
  match bytes.toByteArray.utf8DecodeChar? 0 with
  | some c => (c, c.utf8Size)
  | none => (replacement, faultSize bytes)

/-- The characters behind some bytes that belong to the character before. -/
def decodeFrom : Nat → List UInt8 → List Char
  | _, [] => []
  | skipped + 1, _ :: rest => decodeFrom skipped rest
  | 0, byte :: rest =>
    (first (byte :: rest)).1 :: decodeFrom ((first (byte :: rest)).2 - 1) rest

@[simp]
theorem decodeFrom_nil (skipped : Nat) : decodeFrom skipped [] = [] := by
  cases skipped <;> rfl

def decode (bytes : List UInt8) : List Char := decodeFrom 0 bytes

end Utf8

/-- A text of the system, as file names and paths are. -/
structure RawText where
  bytes : List UInt8
  deriving DecidableEq

namespace RawText

def ofText (text : String) : RawText := ⟨Utf8.encode text.toList⟩

/-- The text as it is shown. -/
def text (raw : RawText) : String := String.ofList (Utf8.decode raw.bytes)

instance : Coe String RawText := ⟨ofText⟩

instance : CoeOut RawText String := ⟨text⟩

end RawText

end RubyPress
