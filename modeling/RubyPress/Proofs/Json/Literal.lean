import RubyPress.Json.Parser
import RubyPress.Json.Printer
import RubyPress.Proofs.Text.Run

/-!
# Literals in JSON text

A string literal and an integer are read back from their compact text. A string ends at its closing
quote, whatever its characters are; an integer ends where the text after it neither adds a digit nor
turns it into a real number.
-/

namespace RubyPress.Json

open Text (Stops)

variable {δ : Type}

theorem body_numericEscape {c : Char} (h : c.toNat < 0x20) (rest : List Char) :
    StringLiteral.body (δ := δ) ('\\' :: 'u' :: Hex.fixed .small 4 c.toNat ++ rest) =
      StringLiteral.push c (StringLiteral.body rest) := by
  have hvalue := Text.hexValue?_fixed .small 4 c.toNat (by omega)
  obtain ⟨d₁, d₂, d₃, d₄, hdigits⟩ :
      ∃ d₁ d₂ d₃ d₄, Hex.fixed .small 4 c.toNat = [d₁, d₂, d₃, d₄] := ⟨_, _, _, _, rfl⟩
  rw [hdigits] at hvalue ⊢
  have hhex : StringLiteral.hex4? d₁ d₂ d₃ d₄ = some c.toNat := hvalue
  simp only [List.cons_append, List.nil_append]
  rw [StringLiteral.body, hhex]
  simp only
  rw [if_neg (by omega), if_neg (by omega), Char.ofNat_toNat]

theorem body_plain {c : Char} (hquote : c ≠ '"') (hbackslash : c ≠ '\\') (h : 0x20 ≤ c.toNat)
    (rest : List Char) :
    StringLiteral.body (δ := δ) (c :: rest) = StringLiteral.push c (StringLiteral.body rest) := by
  rw [StringLiteral.body.eq_def]
  split <;> simp_all

theorem body_escapeChar (c : Char) (rest : List Char) :
    StringLiteral.body (δ := δ) (escapeChar c ++ rest) =
      StringLiteral.push c (StringLiteral.body rest) := by
  unfold escapeChar
  split_ifs with hquote hbackslash hbackspace htab hnewline hfeed hreturn hcontrol
  · rw [hquote]; rfl
  · rw [hbackslash]; rfl
  · rw [hbackspace]; rfl
  · rw [htab]; rfl
  · rw [hnewline]; rfl
  · rw [hfeed]; rfl
  · rw [hreturn]; rfl
  · exact body_numericEscape hcontrol rest
  · exact body_plain hquote hbackslash (Nat.not_lt.1 hcontrol) rest

theorem body_flatMap_escapeChar (content rest : List Char) :
    StringLiteral.body (δ := δ) (content.flatMap escapeChar ++ '"' :: rest) =
      .ok (content, rest) := by
  induction content with
  | nil => rfl
  | cons c content ih =>
      rw [List.flatMap_cons, List.append_assoc, body_escapeChar, ih]
      rfl

theorem stringLiteral_escape (value : String) (rest : List Char) :
    stringLiteral (δ := δ) (value.toList.flatMap escapeChar ++ '"' :: rest) =
      .ok (value, rest) := by
  rw [stringLiteral, body_flatMap_escapeChar]
  exact congrArg (fun content => Except.ok (content, rest)) (String.ofList_toList ..)

def carriesOn (c : Char) : Bool :=
  c.isDigit || c == '.' || c == 'e' || c == 'E'

theorem absorb_eq (limit value : Nat) (digits : List Char)
    (h : Nat.ofDigitChars 10 digits value ≤ limit) :
    Number.absorb limit value digits = (Nat.ofDigitChars 10 digits value, []) := by
  induction digits generalizing value with
  | nil => simp [Number.absorb]
  | cons c digits ih =>
      have hstep : Nat.ofDigitChars 10 (c :: digits) value =
          Nat.ofDigitChars 10 digits (10 * value + Number.digitValue c) := Nat.ofDigitChars_cons
      rw [hstep] at h ⊢
      have hle : 10 * value + Number.digitValue c ≤ limit := by
        have hpos : 1 ≤ 10 ^ digits.length := Nat.one_le_pow _ _ (by decide)
        have hmul := Nat.mul_le_mul_right (10 * value + Number.digitValue c) hpos
        rw [Nat.ofDigitChars_eq_ofDigitChars_zero] at h
        omega
      rw [Number.absorb, if_neg (Nat.not_lt.2 hle), ih _ h]

theorem stops_isDigit_of_carriesOn {rest : List Char} (h : Stops carriesOn rest) :
    Stops Char.isDigit rest := by
  intro c hc
  have := h c hc
  simp only [carriesOn, Bool.or_eq_false_iff] at this
  exact this.1.1.1

theorem unsigned_decimal (negative : Bool) (magnitude : Nat) {rest : List Char}
    (hmagnitude : magnitude ≤ Number.maxSignificand) (hrest : Stops carriesOn rest) :
    Number.unsigned (δ := δ) negative (Nat.toDigits 10 magnitude ++ rest) =
      .ok (Number.integer negative magnitude, rest) := by
  have hdigits := Text.isDigit_of_mem_decimal magnitude
  have hstops := stops_isDigit_of_carriesOn hrest
  have habsorb : Number.absorb Number.maxSignificand 0 (Nat.toDigits 10 magnitude) =
      (magnitude, []) := by
    have hvalue := Nat.ofDigitChars_ten_toDigits (n := magnitude)
    rw [absorb_eq _ _ _ (by rw [hvalue]; exact hmagnitude), hvalue]
  unfold Number.unsigned
  rw [Text.takeWhile_append_of_stops hdigits hstops, Text.dropWhile_append_of_stops hdigits hstops]
  simp only
  split
  · next hnil => exact absurd hnil Nat.toDigits_ne_nil
  · next digit digits hzero =>
      rcases Text.decimal_cases magnitude with hone | ⟨c, others, hother, -, hne⟩
      · rw [hone] at hzero
        cases hzero
      · rw [hother] at hzero
        exact absurd (List.cons.inj hzero).1 hne
  · rw [habsorb]
    simp only [Number.afterWhole]
    cases rest with
    | nil => rfl
    | cons c rest =>
        rw [Text.stops_cons, carriesOn] at hrest
        simp only [Bool.or_eq_false_iff, beq_eq_false_iff_ne] at hrest
        obtain ⟨⟨⟨-, hdot⟩, hsmall⟩, hcapital⟩ := hrest
        split
        · next heq => exact absurd (List.cons.inj heq).1 hdot
        · next heq =>
            obtain ⟨rfl, rfl⟩ := List.cons.inj heq
            rw [if_neg (by simp [hsmall, hcapital])]
        · next heq => cases heq

theorem minus_or_digit_of_mem_toString {value : Int} :
    ∀ c ∈ (toString value).toList, c = '-' ∨ c.isDigit := by
  intro c hc
  cases value with
  | ofNat magnitude =>
      rw [Int.ofNat_eq_natCast, Text.toList_toString_ofNat] at hc
      exact .inr (Text.isDigit_of_mem_decimal magnitude c hc)
  | negSucc magnitude =>
      rw [Text.toList_toString_negSucc, List.mem_cons] at hc
      exact hc.imp_right (Text.isDigit_of_mem_decimal (magnitude + 1) c)

theorem exists_cons_toString (value : Int) :
    ∃ c chars, (toString value).toList = c :: chars ∧ (c = '-' ∨ c.isDigit) := by
  obtain ⟨c, chars, hchars⟩ := List.exists_cons_of_ne_nil (Text.toList_toString_ne_nil value)
  have hmem : c ∈ (toString value).toList := hchars ▸ List.mem_cons_self ..
  exact ⟨c, chars, hchars, minus_or_digit_of_mem_toString c hmem⟩

/-- The integers that the text of a number can be read back as. -/
def IsWhole (value : Int) : Prop :=
  -9223372036854775808 ≤ value ∧ value ≤ 18446744073709551615

theorem number_toString {value : Int} (hvalue : IsWhole value) {rest : List Char}
    (hrest : Stops carriesOn rest) :
    number (δ := δ) ((toString value).toList ++ rest) = .ok (.int value, rest) := by
  cases value with
  | ofNat magnitude =>
      have hle : magnitude ≤ Number.maxSignificand := by
        have := hvalue.2
        simp only [Int.ofNat_eq_natCast] at this
        rw [Number.maxSignificand]
        omega
      have hunsigned := unsigned_decimal (δ := δ) false magnitude hle hrest
      rw [Int.ofNat_eq_natCast, Text.toList_toString_ofNat]
      rw [number.eq_def]
      split
      · next text heq => exact absurd heq (Text.decimal_append_ne_minus _ _ _)
      · exact hunsigned
  | negSucc magnitude =>
      have hbound := hvalue.1
      have hle : magnitude + 1 ≤ 9223372036854775808 := by omega
      have hunsigned := unsigned_decimal (δ := δ) true (magnitude + 1)
        (hle.trans (by decide)) hrest
      rw [Text.toList_toString_negSucc, List.cons_append, number, hunsigned, Number.integer,
        if_pos rfl, if_neg (by omega)]
      rfl

end RubyPress.Json
