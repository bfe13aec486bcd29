/-!
Hexadecimal digits in fixed-width fields, written with small or capital letters and read with
either.
-/

namespace RubyPress.Hex

/-- Which letters stand for the digits from ten to fifteen. -/
inductive Letters where
  | small
  | capital
  deriving DecidableEq

def Letters.first : Letters → Nat
  | .small => 97
  | .capital => 65

def digit (letters : Letters) (value : Nat) : Char :=
  if value < 10 then Char.ofNat (48 + value) else Char.ofNat (letters.first + (value - 10))

/-- The last `width` hexadecimal digits of a number, most significant first. -/
def fixed (letters : Letters) : Nat → Nat → List Char
  | 0, _ => []
  | width + 1, value => fixed letters width (value / 16) ++ [digit letters (value % 16)]

def digit? (c : Char) : Option Nat :=
  let code := c.toNat
  if 48 ≤ code ∧ code ≤ 57 then some (code - 48)
  else if 65 ≤ code ∧ code ≤ 70 then some (code - 55)
  else if 97 ≤ code ∧ code ≤ 102 then some (code - 87)
  else none

/-- The number that a run of digits denotes after the digits read so far. -/
def value? (soFar : Nat) : List Char → Option Nat
  | [] => some soFar
  | c :: rest =>
    match digit? c with
    | some value => value? (16 * soFar + value) rest
    | none => none

theorem digit?_digit (letters : Letters) {value : Nat} (h : value < 16) :
    digit? (digit letters value) = some value := by
  have table : ∀ value < 16, digit? (digit .small value) = some value ∧
      digit? (digit .capital value) = some value := by decide
  cases letters
  · exact (table value h).1
  · exact (table value h).2

theorem length_fixed (letters : Letters) (width value : Nat) :
    (fixed letters width value).length = width := by
  induction width generalizing value with
  | zero => rfl
  | succ width ih => simp [fixed, ih]

end RubyPress.Hex
