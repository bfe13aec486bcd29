import RubyPress.Text.Hex
import RubyPress.Toml.Value

/-!
TOML values that are one word: booleans, numbers, dates and times.
-/

namespace RubyPress.Toml.Scalar

/-- The digits of a number in which single underscores may stand between digits. -/
def digits? (isDigit : Char → Bool) : List Char → Option (List Char)
  | [] => none
  | [c] => if isDigit c then some [c] else none
  | c :: '_' :: rest => if isDigit c then (digits? isDigit rest).map (c :: ·) else none
  | c :: rest => if isDigit c then (digits? isDigit rest).map (c :: ·) else none

def numberOf (base : Nat) (digits : List Char) : Nat :=
  digits.foldl (fun soFar c => base * soFar + (Hex.digit? c).getD 0) 0

def splitSign : List Char → Bool × List Char
  | '-' :: rest => (true, rest)
  | '+' :: rest => (false, rest)
  | word => (false, word)

/-- Decimal digits without a leading zero. -/
def decimal? (word : List Char) : Option (List Char) :=
  match word with
  | '0' :: _ :: _ => none
  | _ => digits? Char.isDigit word

def inRange (value : Int) : Option Value :=
  if Int64.minValue.toInt ≤ value ∧ value ≤ Int64.maxValue.toInt then some (.integer value) else none

def isOctal (c : Char) : Bool := '0' ≤ c && c ≤ '7'

def isBinary (c : Char) : Bool := c == '0' || c == '1'

def integer? (word : List Char) : Option Value :=
  match word with
  | '0' :: 'x' :: rest => do
    inRange (numberOf 16 (← digits? (fun c => (Hex.digit? c).isSome) rest))
  | '0' :: 'o' :: rest => do inRange (numberOf 8 (← digits? isOctal rest))
  | '0' :: 'b' :: rest => do inRange (numberOf 2 (← digits? isBinary rest))
  | _ => do
    let (negative, rest) := splitSign word
    let magnitude : Int := numberOf 10 (← decimal? rest)
    inRange (if negative then -magnitude else magnitude)

/-- Whether `digits · 10 ^ exponent` rounds to infinity. The number of digits decides except
near the largest number. -/
def overflows (digits : Nat) (exponent : Int) : Bool :=
  let size := exponent + (Nat.toDigits 10 digits).length
  digits ≠ 0 && 300 < size && (400 < size ||
    (Nat.pow 2 1024 - Nat.pow 2 970) * Nat.pow 10 (-exponent).toNat ≤
      digits * Nat.pow 10 exponent.toNat)

def exponent? (word : List Char) : Option Int := do
  let (negative, rest) := splitSign word
  let magnitude : Int := numberOf 10 (← digits? Char.isDigit rest)
  return if negative then -magnitude else magnitude

/-- A number with a fraction, an exponent or both; positive numbers out of range are refused. -/
def real? (word : List Char) : Option Value := do
  let (negative, unsigned) := splitSign word
  if unsigned = "inf".toList ∨ unsigned = "nan".toList then
    return .real (String.ofList word)
  let mantissa := unsigned.takeWhile fun c => c != 'e' && c != 'E'
  let whole := mantissa.takeWhile (· != '.')
  let wholeDigits ← decimal? whole
  let fraction ←
    match mantissa.dropWhile (· != '.') with
    | [] => some []
    | _ :: rest => digits? Char.isDigit rest
  let exponent ←
    match unsigned.dropWhile fun c => c != 'e' && c != 'E' with
    | [] => some 0
    | _ :: rest => exponent? rest
  if mantissa.length = unsigned.length ∧ whole.length = mantissa.length then none
  else if !negative && overflows (numberOf 10 (wholeDigits ++ fraction))
      (exponent - (fraction.length : Int)) then none
  else return .real (String.ofList word)

/-- A number of exactly `width` digits within a range, and what follows it. -/
def field? (width least most : Nat) (text : List Char) : Option (Nat × List Char) :=
  let digits := text.take width
  let value := numberOf 10 digits
  if digits.length = width ∧ digits.all Char.isDigit ∧ least ≤ value ∧ value ≤ most then
    some (value, text.drop width)
  else none

def expect (c : Char) : List Char → Option (List Char)
  | [] => none
  | found :: rest => if found = c then some rest else none

def daysIn (year month : Nat) : Nat :=
  if month = 2 then
    if year % 4 = 0 ∧ (year % 100 ≠ 0 ∨ year % 400 = 0) then 29 else 28
  else if month = 4 ∨ month = 6 ∨ month = 9 ∨ month = 11 then 30
  else 31

def date? (text : List Char) : Option (List Char) := do
  let (year, rest) ← field? 4 0 9999 text
  let (month, rest) ← field? 2 1 12 (← expect '-' rest)
  let (_, rest) ← field? 2 1 (daysIn year month) (← expect '-' rest)
  return rest

def time? (text : List Char) : Option (List Char) := do
  let (_, rest) ← field? 2 0 23 text
  let (_, rest) ← field? 2 0 59 (← expect ':' rest)
  let (_, rest) ← field? 2 0 60 (← expect ':' rest)
  match rest with
  | '.' :: places =>
    if (places.takeWhile Char.isDigit).isEmpty then none else some (places.dropWhile Char.isDigit)
  | _ => some rest

/-- What follows an offset from universal time, if there is one. -/
def offset? (text : List Char) : Option (List Char) :=
  match text with
  | 'Z' :: rest | 'z' :: rest => some rest
  | '+' :: rest | '-' :: rest => do
    let (_, rest) ← field? 2 0 23 rest
    let (_, rest) ← field? 2 0 59 (← expect ':' rest)
    return rest
  | _ => some text

def isDate (word : List Char) : Bool := date? word == some []

def moment? (word : List Char) : Option Value := do
  let rest ←
    match date? word with
    | none => time? word
    | some [] => some []
    | some (delimiter :: rest) =>
      if delimiter = 'T' ∨ delimiter = 't' ∨ delimiter = ' ' then time? rest >>= offset? else none
  if rest = [] then return .moment (String.ofList word) else none

def ofWord? (word : List Char) : Option Value :=
  if word = "true".toList then some (.boolean true)
  else if word = "false".toList then some (.boolean false)
  else integer? word <|> real? word <|> moment? word

end RubyPress.Toml.Scalar
