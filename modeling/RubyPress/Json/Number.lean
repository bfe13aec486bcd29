import RubyPress.Json.Fault
import RubyPress.Json.Value

/-!
Numbers in JSON text. Digits are collected into a significand while it fits in 64 bits; further
integer digits only raise the exponent and further decimals are dropped. A number with a
fraction or an exponent, an integer out of range and `-0` are real numbers, got from the
significand by one multiplication or division by a power of ten.
-/

namespace RubyPress.Json

variable {δ : Type}

namespace Number

def digitValue (c : Char) : Nat := c.toNat - 48

def maxSignificand : Nat := 18446744073709551615

def maxExponent : Nat := 2147483647

/-- Appends decimal digits to a number while it stays within the limit, and returns the digits
that no longer fit. -/
def absorb (limit : Nat) (value : Nat) : List Char → Nat × List Char
  | [] => (value, [])
  | c :: rest =>
    if limit < 10 * value + digitValue c then (value, c :: rest)
    else absorb limit (10 * value + digitValue c) rest

def powerOfTen (exponent : Nat) : Float := Float.ofScientific 1 false exponent

/-- Multiplies by `10 ^ exponent`; an infinite product is no number. After three divisions by
the largest power every significand has become zero. -/
def scale : Nat → Float → Int → Option Float
  | 0, x, _ => some x
  | steps + 1, x, exponent =>
    if exponent.natAbs ≤ 308 then
      if 0 ≤ exponent then
        let product := x * powerOfTen exponent.natAbs
        if product.isInf then none else some product
      else some (x / powerOfTen exponent.natAbs)
    else if x == 0.0 then some x
    else if 0 ≤ exponent then none
    else scale steps (x / powerOfTen 308) (exponent + 308)

/-- The real number `±significand · 10 ^ exponent`, read up to the text `rest`. -/
def real (negative : Bool) (significand : Nat) (exponent : Int) (rest : List Char) :
    Except (Fault δ) (Value × List Char) :=
  match scale 4 significand.toUInt64.toFloat exponent with
  | some x => .ok (.real (if negative then -x else x), rest)
  | none => .error (.before rest .numberRange)

/-- Whether an exponent goes down, and the text after its sign. -/
def exponentSign : List Char → Bool × List Char
  | '+' :: rest => (false, rest)
  | '-' :: rest => (true, rest)
  | text => (false, text)

def exponentPart (negative : Bool) (significand : Nat) (exponent : Int) (text : List Char) :
    Except (Fault δ) (Value × List Char) :=
  let (down, unsigned) := exponentSign text
  let rest := unsigned.dropWhile Char.isDigit
  match unsigned.takeWhile Char.isDigit with
  | [] => .error (.within unsigned (if unsigned.isEmpty then .endInValue else .invalidNumber))
  | digits =>
    match absorb maxExponent 0 digits with
    | (shift, []) =>
      real negative significand (if down then exponent - shift else exponent + shift) rest
    | (_, _ :: unread) =>
      if significand ≠ 0 ∧ !down then .error (.before (unread ++ rest) .numberRange)
      else .ok (.real (if negative then -0.0 else 0.0), rest)

def exponentOrEnd (negative : Bool) (significand : Nat) (exponent : Int) (text : List Char) :
    Except (Fault δ) (Value × List Char) :=
  match text with
  | c :: rest =>
    if c = 'e' ∨ c = 'E' then exponentPart negative significand exponent rest
    else real negative significand exponent text
  | [] => real negative significand exponent text

def fractionPart (negative : Bool) (significand : Nat) (exponent : Int) (text : List Char) :
    Except (Fault δ) (Value × List Char) :=
  let digits := text.takeWhile Char.isDigit
  let rest := text.dropWhile Char.isDigit
  if digits.isEmpty then
    .error (.within text (if text.isEmpty then .endInValue else .invalidNumber))
  else
    let (significand, dropped) := absorb maxSignificand significand digits
    let places : Nat := digits.length - dropped.length
    exponentOrEnd negative significand (exponent - places) rest

def integer (negative : Bool) (magnitude : Nat) : Value :=
  if negative then
    if magnitude = 0 ∨ 9223372036854775808 < magnitude then .real (-magnitude.toUInt64.toFloat)
    else .int (-magnitude)
  else .int magnitude

/-- What follows the digits in front of the point, of which some were dropped. -/
def afterWhole (negative : Bool) (significand : Nat) (dropped rest : List Char) :
    Except (Fault δ) (Value × List Char) :=
  match rest with
  | '.' :: decimals => fractionPart negative significand dropped.length decimals
  | c :: _ =>
    if c = 'e' ∨ c = 'E' ∨ !dropped.isEmpty then
      exponentOrEnd negative significand dropped.length rest
    else .ok (integer negative significand, rest)
  | [] =>
    if dropped.isEmpty then .ok (integer negative significand, rest)
    else real negative significand dropped.length rest

def unsigned (negative : Bool) (text : List Char) : Except (Fault δ) (Value × List Char) :=
  let rest := text.dropWhile Char.isDigit
  match text.takeWhile Char.isDigit with
  | [] => .error (.within text (if text.isEmpty then .endInValue else .invalidNumber))
  | '0' :: digit :: digits => .error (.within (digit :: digits ++ rest) .invalidNumber)
  | digits =>
    let (significand, dropped) := absorb maxSignificand 0 digits
    afterWhole negative significand dropped rest

end Number

def number : List Char → Except (Fault δ) (Value × List Char)
  | '-' :: text => Number.unsigned true text
  | text => Number.unsigned false text

end RubyPress.Json
