import RubyPress.Proofs.Json.Literal
import RubyPress.Proofs.Success

/-!
# Spellings of literals

A string and a number can be written in many ways. `Spells` says which texts between quotes spell a
string: characters that stand for themselves, escape letters, and numeric escapes, where a character
beyond 16 bits takes a pair of surrogates. A `NumberLiteral` is the text of a number taken apart,
and it has a value unless it is out of range. The readers of literals accept these spellings and no
others.
-/

namespace RubyPress.Json

open Text (Stops)

variable {δ : Type}

open StringLiteral (unescape? hex4? pair push body)

/-- The text between the quotes of a literal, and the characters it stands for. -/
inductive Spells : List Char → List Char → Prop where
  | nil : Spells [] []
  | plain {c : Char} {text content : List Char} (hquote : c ≠ '"') (hbackslash : c ≠ '\\')
      (hcontrol : 0x20 ≤ c.toNat) (h : Spells text content) : Spells (c :: text) (c :: content)
  | letter {letter c : Char} {text content : List Char} (hletter : unescape? letter = some c)
      (h : Spells text content) : Spells ('\\' :: letter :: text) (c :: content)
  | unit {a b c d : Char} {unit : Nat} {text content : List Char}
      (hunit : hex4? a b c d = some unit) (hsurrogate : unit < 0xD800 ∨ 0xDFFF < unit)
      (h : Spells text content) :
      Spells ('\\' :: 'u' :: a :: b :: c :: d :: text) (Char.ofNat unit :: content)
  | pair {a b c d a' b' c' d' : Char} {high low : Nat} {text content : List Char}
      (hhigh : hex4? a b c d = some high) (hlow : hex4? a' b' c' d' = some low)
      (hleading : 0xD800 ≤ high ∧ high ≤ 0xDBFF) (htrailing : 0xDC00 ≤ low ∧ low ≤ 0xDFFF)
      (h : Spells text content) :
      Spells ('\\' :: 'u' :: a :: b :: c :: d :: '\\' :: 'u' :: a' :: b' :: c' :: d' :: text)
        (pair high low :: content)

theorem push_eq_ok {c : Char} {read : Except (Fault δ) (List Char × List Char)}
    {content rest : List Char} :
    push c read = .ok (content, rest) ↔
      ∃ others, read = .ok (others, rest) ∧ content = c :: others := by
  rw [push, map_eq_ok]
  constructor
  · rintro ⟨⟨others, rest'⟩, hread, heq⟩
    obtain ⟨rfl, rfl⟩ := Prod.mk.inj heq
    exact ⟨others, hread, rfl⟩
  · rintro ⟨others, hread, rfl⟩
    exact ⟨(others, rest), hread, rfl⟩

theorem body_of_spells {text content : List Char} (h : Spells text content) (rest : List Char) :
    body (δ := δ) (text ++ '"' :: rest) = .ok (content, rest) := by
  induction h with
  | nil => rfl
  | plain hquote hbackslash hcontrol _ ih =>
      rw [List.cons_append, body_plain hquote hbackslash hcontrol, ih]
      rfl
  | @letter letter c text content hletter _ ih =>
      have hu : letter ≠ 'u' := by
        rintro rfl
        cases hletter
      rw [List.cons_append, List.cons_append, body, hletter]
      · simp only [ih]
        rfl
      · exact fun _ _ _ _ _ heq _ => hu heq
      · exact hu
  | unit hunit hsurrogate _ ih =>
      simp only [List.cons_append]
      rw [body, hunit]
      simp only
      rw [if_neg (by omega), if_neg (by omega), ih]
      rfl
  | pair hhigh hlow hleading htrailing _ ih =>
      simp only [List.cons_append]
      rw [body, hhigh]
      simp only
      rw [if_neg (by omega), if_pos hleading, hlow]
      simp only
      rw [if_pos htrailing, ih]
      rfl

theorem spells_of_body {text content rest : List Char}
    (h : body (δ := δ) text = .ok (content, rest)) :
    ∃ front, text = front ++ '"' :: rest ∧ Spells front content := by
  -- Only the closing quote and the characters in front of it lead to success.
  fun_induction body (δ := δ) text generalizing content with
  | case2 rest' =>
      obtain ⟨rfl, rfl⟩ := Prod.mk.inj (Except.ok.inj h)
      exact ⟨[], rfl, .nil⟩
  | case7 a b c d high hhigh _ hleading a' b' c' d' text low hlow htrailing ih =>
      obtain ⟨others, hothers, rfl⟩ := push_eq_ok.1 h
      obtain ⟨front, rfl, hfront⟩ := ih hothers
      exact ⟨_, rfl, .pair hhigh hlow hleading htrailing hfront⟩
  | case14 a b c d text unit hunit hlow hhigh ih =>
      obtain ⟨others, hothers, rfl⟩ := push_eq_ok.1 h
      obtain ⟨front, rfl, hfront⟩ := ih hothers
      exact ⟨_, rfl, .unit hunit (by omega) hfront⟩
  | case16 letter text _ _ c hletter ih =>
      obtain ⟨others, hothers, rfl⟩ := push_eq_ok.1 h
      obtain ⟨front, rfl, hfront⟩ := ih hothers
      exact ⟨_, rfl, .letter hletter hfront⟩
  | case19 c text hquote hlone _ _ hescape hcontrol ih =>
      obtain ⟨others, hothers, rfl⟩ := push_eq_ok.1 h
      obtain ⟨front, rfl, hfront⟩ := ih hothers
      have hbackslash : c ≠ '\\' := by
        intro hc
        cases front with
        | nil => exact hescape _ _ hc rfl
        | cons => exact hescape _ _ hc rfl
      exact ⟨_, rfl, .plain hquote hbackslash (Nat.not_lt.1 hcontrol) hfront⟩
  | _ => cases h

open Number (absorb scale maxSignificand maxExponent)

def IsDigits (text : List Char) : Prop := text ≠ [] ∧ ∀ c ∈ text, c.isDigit

structure Exponent where
  mark : Char
  sign : List Char
  digits : List Char
  isMark : mark = 'e' ∨ mark = 'E'
  isSign : sign = [] ∨ sign = ['+'] ∨ sign = ['-']
  isDigits : IsDigits digits

/-- The text of a number, taken apart. Without a point there are no decimals. -/
structure NumberLiteral where
  negative : Bool
  whole : List Char
  decimals : List Char
  exponent : Option Exponent
  isWhole : IsDigits whole
  /-- No zero stands in front of other digits. -/
  isLeading : ∀ digit digits, whole ≠ '0' :: digit :: digits
  isDecimals : ∀ c ∈ decimals, c.isDigit

/-- The real number `±significand · 10 ^ shift`, unless it is too large. -/
def real? (negative : Bool) (significand : Nat) (shift : Int) : Option Value :=
  (scale 4 significand.toUInt64.toFloat shift).map fun x => .real (if negative then -x else x)

namespace Exponent

def text : Option Exponent → List Char
  | none => []
  | some exponent => exponent.mark :: (exponent.sign ++ exponent.digits)

/-- The value of a number with this exponent, if any. An exponent that is too large for every number
is still good for zero, or downwards. -/
def scaled? (negative : Bool) (significand : Nat) (shift : Int) : Option Exponent → Option Value
  | none => real? negative significand shift
  | some exponent =>
    match absorb maxExponent 0 exponent.digits with
    | (power, []) =>
      real? negative significand (if exponent.sign = ['-'] then shift - power else shift + power)
    | (_, _ :: _) =>
      if significand ≠ 0 ∧ exponent.sign ≠ ['-'] then none
      else some (.real (if negative then -0.0 else 0.0))

def carriesOn (exponent : Option Exponent) (c : Char) : Bool :=
  c.isDigit || exponent.isNone && (c == 'e' || c == 'E')

end Exponent

namespace NumberLiteral

variable (literal : NumberLiteral)

def fraction : List Char :=
  if literal.decimals = [] then [] else '.' :: literal.decimals

def text : List Char :=
  (if literal.negative then ['-'] else []) ++
    (literal.whole ++ (literal.fraction ++ Exponent.text literal.exponent))

/-- The value as a real number, unless it is too large. Digits that no longer fit into the
significand count for the power of ten in front of the point and are lost behind it. -/
def realValue? : Option Value :=
  let (whole, dropped) := absorb maxSignificand 0 literal.whole
  let (significand, lost) := absorb maxSignificand whole literal.decimals
  Exponent.scaled? literal.negative significand
    (dropped.length - (literal.decimals.length - lost.length : Nat)) literal.exponent

/-- A number without decimals and exponent is an integer as long as it fits. -/
def value? : Option Value :=
  if literal.decimals = [] ∧ literal.exponent.isNone ∧
      Nat.ofDigitChars 10 literal.whole 0 ≤ maxSignificand then
    some (Number.integer literal.negative (Nat.ofDigitChars 10 literal.whole 0))
  else literal.realValue?

/-- The characters that would belong to the number. -/
def carriesOn (c : Char) : Bool :=
  Exponent.carriesOn literal.exponent c ||
    literal.exponent.isNone && literal.decimals.isEmpty && c == '.'

end NumberLiteral

theorem absorb_snd_eq_nil_iff {limit value : Nat} {digits : List Char} (hvalue : value ≤ limit) :
    (absorb limit value digits).2 = [] ↔ Nat.ofDigitChars 10 digits value ≤ limit := by
  constructor
  · intro h
    induction digits generalizing value with
    | nil => exact hvalue
    | cons c digits ih =>
        have hstep : Nat.ofDigitChars 10 (c :: digits) value =
            Nat.ofDigitChars 10 digits (10 * value + Number.digitValue c) := Nat.ofDigitChars_cons
        rw [absorb] at h
        split_ifs at h with hlimit
        rw [hstep]
        exact ih (Nat.not_lt.1 hlimit) h
  · intro h
    rw [absorb_eq limit value digits h]

section Number

variable {negative : Bool} {significand : Nat} {shift : Int} {text rest rest' : List Char}
  {value : Value}

theorem real_eq_ok :
    Number.real (δ := δ) negative significand shift text = .ok (value, rest) ↔
      real? negative significand shift = some value ∧ rest = text := by
  rw [Number.real, real?]
  cases scale 4 significand.toUInt64.toFloat shift with
  | none => simp
  | some x => simp [eq_comm]

theorem exponentSign_append (exponent : Exponent) (rest : List Char) :
    Number.exponentSign (exponent.sign ++ (exponent.digits ++ rest)) =
      (decide (exponent.sign = ['-']), exponent.digits ++ rest) := by
  obtain ⟨hne, hdigits⟩ := exponent.isDigits
  obtain ⟨c, digits, hcons⟩ := List.exists_cons_of_ne_nil hne
  have hc : c.isDigit := hdigits c (by simp [hcons])
  rcases exponent.isSign with hsign | hsign | hsign
  · rw [hsign, hcons, Number.exponentSign.eq_def]
    split
    · next heq =>
        obtain rfl := (List.cons.inj heq).1
        cases hc
    · next heq =>
        obtain rfl := (List.cons.inj heq).1
        cases hc
    · rfl
  · rw [hsign]
    rfl
  · rw [hsign]
    rfl

theorem exponentPart_eq_ok (exponent : Exponent) (hrest : Stops Char.isDigit rest) :
    Number.exponentPart (δ := δ) negative significand shift
        (exponent.sign ++ (exponent.digits ++ rest)) = .ok (value, rest') ↔
      Exponent.scaled? negative significand shift (some exponent) = some value ∧ rest' = rest := by
  obtain ⟨hne, hdigits⟩ := exponent.isDigits
  rw [Number.exponentPart, exponentSign_append exponent]
  simp only [Text.takeWhile_append_of_stops hdigits hrest,
    Text.dropWhile_append_of_stops hdigits hrest]
  rw [Exponent.scaled?]
  obtain ⟨power, unread⟩ := absorb maxExponent 0 exponent.digits
  cases unread with
  | nil =>
      simp only [decide_eq_true_eq]
      exact real_eq_ok
  | cons c unread =>
      simp only [Bool.not_eq_true', decide_eq_false_iff_not]
      by_cases hrange : significand ≠ 0 ∧ exponent.sign ≠ ['-']
      · rw [if_pos hrange, if_pos hrange]
        simp
      · rw [if_neg hrange, if_neg hrange]
        simp [eq_comm]

theorem stops_isDigit_of_exponent {exponent : Option Exponent}
    (hrest : Stops (Exponent.carriesOn exponent) rest) : Stops Char.isDigit rest := by
  intro c hc
  have := hrest c hc
  simp only [Exponent.carriesOn, Bool.or_eq_false_iff] at this
  exact this.1

theorem exponentOrEnd_eq_ok (exponent : Option Exponent)
    (hrest : Stops (Exponent.carriesOn exponent) rest) :
    Number.exponentOrEnd (δ := δ) negative significand shift (Exponent.text exponent ++ rest) =
        .ok (value, rest') ↔
      Exponent.scaled? negative significand shift exponent = some value ∧ rest' = rest := by
  cases exponent with
  | none =>
      cases rest with
      | nil => exact real_eq_ok
      | cons c rest =>
          have hc : ¬(c = 'e' ∨ c = 'E') := by
            simp only [Text.stops_cons, Exponent.carriesOn, Option.isNone_none, Bool.true_and,
              Bool.or_eq_false_iff, beq_eq_false_iff_ne] at hrest
            exact not_or.2 hrest.2
          rw [Exponent.text, List.nil_append, Number.exponentOrEnd, if_neg hc]
          exact real_eq_ok
  | some exponent =>
      rw [Exponent.text, List.cons_append, List.append_assoc, Number.exponentOrEnd,
        if_pos exponent.isMark]
      exact exponentPart_eq_ok exponent (stops_isDigit_of_exponent hrest)

theorem exists_exponentSign (text : List Char) :
    ∃ sign, (sign = [] ∨ sign = ['+'] ∨ sign = ['-']) ∧
      text = sign ++ (Number.exponentSign text).2 := by
  rw [Number.exponentSign.eq_def]
  split
  · exact ⟨['+'], by simp, rfl⟩
  · exact ⟨['-'], by simp, rfl⟩
  · exact ⟨[], by simp, rfl⟩

theorem exists_digits (text : List Char) :
    ∃ rest, text = text.takeWhile Char.isDigit ++ rest ∧ Stops Char.isDigit rest :=
  ⟨text.dropWhile Char.isDigit, List.takeWhile_append_dropWhile.symm, Text.stops_dropWhile text⟩

theorem stops_exponent_none (hdigit : Stops Char.isDigit text)
    (hmark : ¬∃ c ∈ text.head?, c = 'e' ∨ c = 'E') : Stops (Exponent.carriesOn none) text := by
  intro c hc
  have hnot : ¬(c = 'e' ∨ c = 'E') := fun h => hmark ⟨c, hc, h⟩
  rw [not_or] at hnot
  simp [Exponent.carriesOn, hdigit c hc, hnot]

theorem exists_exponent {result : Value × List Char} (hdigit : Stops Char.isDigit text)
    (h : Number.exponentOrEnd (δ := δ) negative significand shift text = .ok result) :
    ∃ exponent rest, text = Exponent.text exponent ++ rest ∧
      Stops (Exponent.carriesOn exponent) rest := by
  by_cases hmark : ∃ c ∈ text.head?, c = 'e' ∨ c = 'E'
  · obtain ⟨c, hhead, hc⟩ := hmark
    obtain ⟨text, rfl⟩ := List.head?_eq_some_iff.1 hhead
    rw [Number.exponentOrEnd, if_pos hc, Number.exponentPart] at h
    obtain ⟨sign, hsign, htext⟩ := exists_exponentSign text
    obtain ⟨rest, hdigits, hrest⟩ := exists_digits (Number.exponentSign text).2
    have hne : (Number.exponentSign text).2.takeWhile Char.isDigit ≠ [] := by
      intro hnil
      simp only [hnil] at h
      cases h
    have hall := List.all_eq_true.1 (List.all_takeWhile (p := Char.isDigit)
      (l := (Number.exponentSign text).2))
    refine ⟨some ⟨c, sign, _, hc, hsign, hne, hall⟩, rest, ?_, ?_⟩
    · rw [Exponent.text, List.cons_append, List.append_assoc, ← hdigits, ← htext]
    · simpa [Exponent.carriesOn, Stops] using hrest
  · exact ⟨none, text, rfl, stops_exponent_none hdigit hmark⟩

theorem stops_exponentText {exponent : Option Exponent}
    (hrest : Stops (Exponent.carriesOn exponent) rest) :
    Stops Char.isDigit (Exponent.text exponent ++ rest) := by
  cases exponent with
  | none => exact stops_isDigit_of_exponent hrest
  | some exponent =>
      rw [Exponent.text, List.cons_append, Text.stops_cons]
      rcases exponent.isMark with hmark | hmark <;> rw [hmark] <;> rfl

theorem fractionPart_eq_ok {decimals : List Char} {exponent : Option Exponent}
    (hdecimals : IsDigits decimals) (hrest : Stops (Exponent.carriesOn exponent) rest) :
    Number.fractionPart (δ := δ) negative significand shift
        (decimals ++ (Exponent.text exponent ++ rest)) = .ok (value, rest') ↔
      Exponent.scaled? negative (absorb maxSignificand significand decimals).1
        (shift - (decimals.length - (absorb maxSignificand significand decimals).2.length : Nat))
        exponent = some value ∧ rest' = rest := by
  have hstops := stops_exponentText hrest
  have hfilled : decimals.isEmpty = false := List.isEmpty_eq_false_iff.2 hdecimals.1
  rw [Number.fractionPart]
  simp only [Text.takeWhile_append_of_stops hdecimals.2 hstops,
    Text.dropWhile_append_of_stops hdecimals.2 hstops, hfilled]
  exact exponentOrEnd_eq_ok exponent hrest

theorem exists_decimals {result : Value × List Char}
    (h : Number.fractionPart (δ := δ) negative significand shift text = .ok result) :
    ∃ decimals exponent rest, IsDigits decimals ∧
      text = decimals ++ (Exponent.text exponent ++ rest) ∧
        Stops (Exponent.carriesOn exponent) rest := by
  obtain ⟨after, htext, hafter⟩ := exists_digits text
  rw [Number.fractionPart] at h
  split_ifs at h with hempty
  have hall := List.all_eq_true.1 (List.all_takeWhile (p := Char.isDigit) (l := text))
  obtain ⟨exponent, rest, hexponent, hrest⟩ := exists_exponent (Text.stops_dropWhile text) h
  refine ⟨text.takeWhile Char.isDigit, exponent, rest, ⟨?_, hall⟩, ?_, hrest⟩
  · simpa using hempty
  · rw [← hexponent, List.takeWhile_append_dropWhile]

theorem unsigned_append {whole after : List Char} (hwhole : IsDigits whole)
    (hleading : ∀ digit digits, whole ≠ '0' :: digit :: digits)
    (hafter : Stops Char.isDigit after) :
    Number.unsigned (δ := δ) negative (whole ++ after) =
      Number.afterWhole negative (absorb maxSignificand 0 whole).1
        (absorb maxSignificand 0 whole).2 after := by
  rw [Number.unsigned, Text.takeWhile_append_of_stops hwhole.2 hafter,
    Text.dropWhile_append_of_stops hwhole.2 hafter]
  simp only
  split
  · exact absurd rfl hwhole.1
  · exact absurd rfl (hleading _ _)
  · rfl

theorem afterWhole_eq_exponentOrEnd {dropped after : List Char} (hpoint : Stops (· == '.') after)
    (h : dropped ≠ [] ∨ ∃ c ∈ after.head?, c = 'e' ∨ c = 'E') :
    Number.afterWhole (δ := δ) negative significand dropped after =
      Number.exponentOrEnd negative significand dropped.length after := by
  cases after with
  | nil =>
      have hdropped : dropped.isEmpty = false := by simpa using h
      rw [Number.afterWhole, hdropped]
      rfl
  | cons c after =>
      have hc : c = 'e' ∨ c = 'E' ∨ !dropped.isEmpty := by
        rcases h with h | ⟨d, hd, h⟩
        · simp [h]
        · obtain rfl : c = d := by simpa using hd
          tauto
      rw [Number.afterWhole, if_pos hc]
      rintro rfl
      simp at hpoint

theorem afterWhole_eq_integer {after : List Char}
    (hafter : Stops (fun c => Exponent.carriesOn none c || c == '.') after) :
    Number.afterWhole (δ := δ) negative significand [] after =
      .ok (Number.integer negative significand, after) := by
  cases after with
  | nil => rfl
  | cons c after =>
      simp only [Text.stops_cons, Exponent.carriesOn, Option.isNone_none, Bool.true_and,
        Bool.or_eq_false_iff, beq_eq_false_iff_ne] at hafter
      obtain ⟨⟨-, hsmall, hcapital⟩, hpoint⟩ := hafter
      rw [Number.afterWhole, if_neg (by simp [hsmall, hcapital])]
      exact hpoint

theorem unsigned_eq_ok (literal : NumberLiteral) (hrest : Stops literal.carriesOn rest) :
    Number.unsigned (δ := δ) literal.negative
        (literal.whole ++ (literal.fraction ++ (Exponent.text literal.exponent ++ rest))) =
          .ok (value, rest') ↔
      literal.value? = some value ∧ rest' = rest := by
  have hexponent : Stops (Exponent.carriesOn literal.exponent) rest := by
    intro c hc
    exact (Bool.or_eq_false_iff.1 (hrest c hc)).1
  have hstops := stops_exponentText hexponent
  by_cases hdecimals : literal.decimals = []
  · have hfraction : literal.fraction = [] := by rw [NumberLiteral.fraction, if_pos hdecimals]
    have hreal : literal.realValue? = Exponent.scaled? literal.negative
        (absorb maxSignificand 0 literal.whole).1 (absorb maxSignificand 0 literal.whole).2.length
        literal.exponent := by
      rw [NumberLiteral.realValue?, hdecimals]
      simp [absorb]
    rw [hfraction, List.nil_append, unsigned_append literal.isWhole literal.isLeading hstops]
    by_cases hinteger : literal.exponent.isNone ∧
        Nat.ofDigitChars 10 literal.whole 0 ≤ maxSignificand
    · obtain ⟨hnone, hfits⟩ := hinteger
      have hnone' := Option.isNone_iff_eq_none.1 hnone
      have hcarries : literal.carriesOn = fun c => Exponent.carriesOn none c || c == '.' := by
        funext c
        simp [NumberLiteral.carriesOn, hnone', hdecimals]
      rw [hcarries] at hrest
      rw [NumberLiteral.value?, if_pos ⟨hdecimals, hnone, hfits⟩, absorb_eq _ _ _ hfits, hnone',
        Exponent.text, List.nil_append, afterWhole_eq_integer hrest]
      simp [eq_comm]
    · rw [NumberLiteral.value?, if_neg (fun h => hinteger h.2), hreal,
        afterWhole_eq_exponentOrEnd, exponentOrEnd_eq_ok literal.exponent hexponent]
      · cases hcase : literal.exponent with
        | none =>
            intro c hc
            have := hrest c hc
            simp only [NumberLiteral.carriesOn, hcase, hdecimals, Bool.or_eq_false_iff] at this
            exact this.2
        | some exponent =>
            rw [Exponent.text, List.cons_append, Text.stops_cons]
            rcases exponent.isMark with hmark | hmark <;> rw [hmark] <;> rfl
      · cases hcase : literal.exponent with
        | none =>
            rw [hcase] at hinteger
            refine .inl fun hnil => hinteger ⟨rfl, ?_⟩
            exact (absorb_snd_eq_nil_iff (Nat.zero_le _)).1 hnil
        | some exponent => exact .inr ⟨exponent.mark, rfl, exponent.isMark⟩
  · have hfraction : literal.fraction = '.' :: literal.decimals := by
      rw [NumberLiteral.fraction, if_neg hdecimals]
    have hpoint : Stops Char.isDigit
        ('.' :: literal.decimals ++ (Exponent.text literal.exponent ++ rest)) := by
      rw [List.cons_append, Text.stops_cons]
      rfl
    rw [NumberLiteral.value?, if_neg (fun h => hdecimals h.1), hfraction,
      unsigned_append literal.isWhole literal.isLeading hpoint]
    exact fractionPart_eq_ok ⟨hdecimals, literal.isDecimals⟩ hexponent

theorem number_text (literal : NumberLiteral) (rest : List Char) :
    number (δ := δ) (literal.text ++ rest) = Number.unsigned literal.negative
      (literal.whole ++ (literal.fraction ++ (Exponent.text literal.exponent ++ rest))) := by
  rw [NumberLiteral.text, List.append_assoc, List.append_assoc, List.append_assoc]
  cases literal.negative with
  | true => rfl
  | false =>
      obtain ⟨c, digits, hwhole⟩ := List.exists_cons_of_ne_nil literal.isWhole.1
      have hc : c.isDigit := literal.isWhole.2 c (by simp [hwhole])
      simp only [hwhole, Bool.false_eq_true, if_false, List.nil_append, List.cons_append]
      rw [number]
      rintro text heq
      obtain ⟨rfl, -⟩ := List.cons.inj heq
      cases hc

/-- **A number is read as its value** if that is in range, up to where its text ends. -/
theorem number_eq_ok (literal : NumberLiteral) (hrest : Stops literal.carriesOn rest) :
    number (δ := δ) (literal.text ++ rest) = .ok (value, rest') ↔
      literal.value? = some value ∧ rest' = rest := by
  rw [number_text, unsigned_eq_ok literal hrest]

theorem exists_unsigned {result : Value × List Char}
    (h : Number.unsigned (δ := δ) negative text = .ok result) :
    ∃ literal : NumberLiteral, ∃ rest, literal.negative = negative ∧
      text = literal.whole ++ (literal.fraction ++ (Exponent.text literal.exponent ++ rest)) ∧
        Stops literal.carriesOn rest := by
  obtain ⟨after, htext, hafter⟩ := exists_digits text
  have hall := List.all_eq_true.1 (List.all_takeWhile (p := Char.isDigit) (l := text))
  generalize text.takeWhile Char.isDigit = whole at htext hall
  subst htext
  have hwhole : IsDigits whole ∧ ∀ digit digits, whole ≠ '0' :: digit :: digits := by
    rw [Number.unsigned, Text.takeWhile_append_of_stops hall hafter] at h
    refine ⟨⟨?_, hall⟩, ?_⟩
    · rintro rfl
      cases h
    · rintro digit digits rfl
      cases h
  rw [unsigned_append hwhole.1 hwhole.2 hafter] at h
  by_cases hpoint : Stops (· == '.') after
  · obtain ⟨exponent, rest, rfl, hrest⟩ : ∃ exponent rest, after = Exponent.text exponent ++ rest ∧
        Stops (Exponent.carriesOn exponent) rest := by
      by_cases hmark : ∃ c ∈ after.head?, c = 'e' ∨ c = 'E'
      · rw [afterWhole_eq_exponentOrEnd hpoint (.inr hmark)] at h
        exact exists_exponent hafter h
      · exact ⟨none, after, rfl, stops_exponent_none hafter hmark⟩
    refine ⟨⟨negative, whole, [], exponent, hwhole.1, hwhole.2, by simp⟩, rest, rfl, rfl, ?_⟩
    intro c hc
    rw [NumberLiteral.carriesOn, hrest c hc]
    cases exponent with
    | none => exact hpoint c hc
    | some exponent => rfl
  · obtain ⟨decimals, rfl⟩ : ∃ decimals, after = '.' :: decimals := by
      cases after with
      | nil => simp at hpoint
      | cons c after =>
          obtain rfl : c = '.' := by simpa using hpoint
          exact ⟨after, rfl⟩
    obtain ⟨decimals, exponent, rest, hdecimals, rfl, hrest⟩ := exists_decimals h
    refine ⟨⟨negative, whole, decimals, exponent, hwhole.1, hwhole.2, hdecimals.2⟩, rest, rfl, ?_,
      ?_⟩
    · rw [NumberLiteral.fraction, if_neg hdecimals.1, List.cons_append]
    · intro c hc
      rw [NumberLiteral.carriesOn, hrest c hc]
      simp [hdecimals.1]

theorem exists_literal {result : Value × List Char} (h : number (δ := δ) text = .ok result) :
    ∃ literal : NumberLiteral, ∃ rest, text = literal.text ++ rest ∧
      Stops literal.carriesOn rest := by
  rw [number.eq_def] at h
  split at h
  · obtain ⟨literal, rest, hnegative, rfl, hrest⟩ := exists_unsigned h
    refine ⟨literal, rest, ?_, hrest⟩
    rw [NumberLiteral.text, hnegative]
    simp
  · obtain ⟨literal, rest, hnegative, rfl, hrest⟩ := exists_unsigned h
    refine ⟨literal, rest, ?_, hrest⟩
    rw [NumberLiteral.text, hnegative]
    simp

theorem stops_literal (literal : NumberLiteral) (hrest : Stops Json.carriesOn rest) :
    Stops literal.carriesOn rest := by
  intro c hc
  have := hrest c hc
  simp only [Json.carriesOn, Bool.or_eq_false_iff] at this
  obtain ⟨⟨⟨hdigit, hpoint⟩, hsmall⟩, hcapital⟩ := this
  simp [NumberLiteral.carriesOn, Exponent.carriesOn, hdigit, hpoint, hsmall, hcapital]

theorem NumberLiteral.text_cons (literal : NumberLiteral) :
    ∃ c chars, literal.text = c :: chars ∧ (c = '-' ∨ c.isDigit) := by
  obtain ⟨c, digits, hwhole⟩ := List.exists_cons_of_ne_nil literal.isWhole.1
  have hc : c.isDigit := literal.isWhole.2 c (by simp [hwhole])
  rw [NumberLiteral.text, hwhole]
  cases literal.negative with
  | true => exact ⟨'-', _, rfl, .inl rfl⟩
  | false => exact ⟨c, _, rfl, .inr hc⟩

end Number

end RubyPress.Json
