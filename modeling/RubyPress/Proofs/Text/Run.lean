import Mathlib.Tactic
import RubyPress.Text.Hex

/-!
# Runs of characters

A scanner takes the longest run of characters of a class. The run is exactly what was written when
the text after it does not start with a character of that class; `Stops` is that condition. Numbers
in decimal and in hexadecimal are the runs whose content matters.
-/

namespace RubyPress.Text

/-- A property of all characters of a text is decided along the text: the characters are too many to
go through. -/
instance (priority := high) decidableForallMem {p : Char → Prop} [DecidablePred p]
    (text : List Char) : Decidable (∀ c ∈ text, p c) :=
  List.decidableBAll p text

variable {p : Char → Bool} {run rest : List Char}

/-- The text does not start with a character of the class. -/
def Stops (p : Char → Bool) (text : List Char) : Prop :=
  ∀ c ∈ text.head?, p c = false

@[simp]
theorem stops_nil : Stops p [] := by
  simp [Stops]

@[simp]
theorem stops_cons {c : Char} : Stops p (c :: rest) ↔ p c = false := by
  simp [Stops]

theorem exists_cons_of_any_head? {text : List Char} (h : text.head?.any p) :
    ∃ c rest, text = c :: rest ∧ p c := by
  cases text with
  | nil => cases h
  | cons c rest => exact ⟨c, rest, rfl, h⟩

theorem takeWhile_eq_nil_of_stops (hrest : Stops p rest) : rest.takeWhile p = [] := by
  cases rest with
  | nil => rfl
  | cons c rest =>
      rw [stops_cons] at hrest
      simp [hrest]

theorem dropWhile_eq_self_of_stops (hrest : Stops p rest) : rest.dropWhile p = rest := by
  cases rest with
  | nil => rfl
  | cons c rest =>
      rw [stops_cons] at hrest
      simp [hrest]

theorem takeWhile_append_of_stops (hrun : ∀ c ∈ run, p c) (hrest : Stops p rest) :
    (run ++ rest).takeWhile p = run := by
  rw [List.takeWhile_append_of_pos hrun, takeWhile_eq_nil_of_stops hrest, List.append_nil]

theorem dropWhile_append_of_stops (hrun : ∀ c ∈ run, p c) (hrest : Stops p rest) :
    (run ++ rest).dropWhile p = rest := by
  rw [List.dropWhile_append_of_pos hrun, dropWhile_eq_self_of_stops hrest]

theorem stops_dropWhile (text : List Char) : Stops p (text.dropWhile p) := by
  intro c hc
  have := List.head?_dropWhile_not p text
  rw [Option.mem_def.1 hc] at this
  exact this

theorem isDigit_of_mem_decimal (value : Nat) : ∀ c ∈ Nat.toDigits 10 value, c.isDigit := by
  intro c hc
  exact Nat.isDigit_of_mem_toDigits (by decide) (by decide) hc

theorem exists_decimal_cons (value : Nat) :
    ∃ c digits, Nat.toDigits 10 value = c :: digits ∧ c.isDigit := by
  obtain ⟨c, digits, hdigits⟩ :=
    List.exists_cons_of_ne_nil (Nat.toDigits_ne_nil (n := value) (b := 10))
  exact ⟨c, digits, hdigits, isDigit_of_mem_decimal value c (by simp [hdigits])⟩

theorem decimal_append_ne_minus (value : Nat) (rest text : List Char) :
    Nat.toDigits 10 value ++ rest ≠ '-' :: text := by
  obtain ⟨c, digits, hdigits, hc⟩ := exists_decimal_cons value
  intro h
  rw [hdigits, List.cons_append] at h
  obtain ⟨rfl, -⟩ := List.cons.inj h
  exact absurd hc (by decide)

/-- Only the number zero starts with the digit zero, and it has no other digit. -/
theorem decimal_cases (value : Nat) :
    Nat.toDigits 10 value = ['0'] ∨
      ∃ c rest, Nat.toDigits 10 value = c :: rest ∧ c.isDigit ∧ c ≠ '0' := by
  induction value using Nat.strongRecOn with
  | ind value ih =>
      by_cases hlt : value < 10
      · rw [Nat.toDigits_of_lt_base hlt]
        by_cases hzero : value = 0
        · exact Or.inl (by rw [hzero]; rfl)
        · refine Or.inr ⟨_, [], rfl, ?_⟩
          have table : ∀ digit < 10, digit ≠ 0 →
              (Nat.digitChar digit).isDigit ∧ Nat.digitChar digit ≠ '0' := by decide
          exact table value hlt hzero
      · have hge : 10 ≤ value := by omega
        rw [Nat.toDigits_of_base_le (by decide) hge]
        rcases ih (value / 10) (by omega) with hquot | ⟨c, rest, hquot, hc, hne⟩
        · exfalso
          have hvalue := Nat.ofDigitChars_ten_toDigits (n := value / 10)
          rw [hquot] at hvalue
          have hone : 1 ≤ value / 10 := by omega
          have hzero : Nat.ofDigitChars 10 ['0'] 0 = 0 := by decide
          omega
        · exact Or.inr ⟨c, rest ++ [Nat.digitChar (value % 10)], by rw [hquot]; rfl, hc, hne⟩

theorem toList_toString_ofNat (value : Nat) :
    (toString (value : Int)).toList = Nat.toDigits 10 value := by
  simp [toString, Int.repr]

theorem toList_toString_negSucc (value : Nat) :
    (toString (Int.negSucc value)).toList = '-' :: Nat.toDigits 10 (value + 1) := by
  simp [toString, Int.repr]

theorem toList_toString_ne_nil (value : Int) : (toString value).toList ≠ [] := by
  cases value with
  | ofNat magnitude =>
      rw [Int.ofNat_eq_natCast, toList_toString_ofNat]
      exact Nat.toDigits_ne_nil
  | negSucc magnitude =>
      rw [toList_toString_negSucc]
      exact List.cons_ne_nil _ _

theorem exists_digit_of_mem_fixed {letters : Hex.Letters} {width value : Nat} {c : Char}
    (h : c ∈ Hex.fixed letters width value) : ∃ digit < 16, c = Hex.digit letters digit := by
  induction width generalizing value with
  | zero => cases h
  | succ width ih =>
      rw [Hex.fixed, List.mem_append, List.mem_singleton] at h
      rcases h with h | rfl
      · exact ih h
      · exact ⟨value % 16, Nat.mod_lt _ (by decide), rfl⟩

theorem isAlphanum_of_mem_fixed {letters : Hex.Letters} {width value : Nat} {c : Char}
    (h : c ∈ Hex.fixed letters width value) : c.isAlphanum := by
  obtain ⟨digit, hdigit, rfl⟩ := exists_digit_of_mem_fixed h
  have table : ∀ digit < 16, (Hex.digit .small digit).isAlphanum ∧
      (Hex.digit .capital digit).isAlphanum := by decide
  cases letters
  · exact (table digit hdigit).1
  · exact (table digit hdigit).2

theorem hexValue?_append (soFar : Nat) (first second : List Char) :
    Hex.value? soFar (first ++ second) =
      (Hex.value? soFar first).bind fun value => Hex.value? value second := by
  induction first generalizing soFar with
  | nil => rfl
  | cons c first ih =>
      simp only [List.cons_append, Hex.value?]
      split
      · exact ih _
      · rfl

theorem hexValue?_fixed (letters : Hex.Letters) (width value : Nat) (h : value < 16 ^ width) :
    Hex.value? 0 (Hex.fixed letters width value) = some value := by
  induction width generalizing value with
  | zero =>
      obtain rfl : value = 0 := by omega
      rfl
  | succ width ih =>
      have hquot : value / 16 < 16 ^ width := by
        rw [Nat.div_lt_iff_lt_mul (by decide), ← Nat.pow_succ]
        exact h
      have hdigit := Hex.digit?_digit letters (Nat.mod_lt value (by decide : 0 < 16))
      rw [Hex.fixed, hexValue?_append, ih _ hquot]
      simp only [Option.bind_some, Hex.value?, hdigit]
      congr 1
      omega

end RubyPress.Text
