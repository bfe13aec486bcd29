import RubyPress.Proofs.Render.Formula

/-!
# Where lexemes end

Operands and operators take turns in a formula. So what follows a lexeme tells where it ends: names
and numbers end in front of an operator or a parenthesis, and no operator goes on with the start of
an operand. Only symbols without quotes can be longer than they were meant to be (`symbol_cases`).
-/

namespace RubyPress.Render

open Lexeme (spell)
open SymbolName (isIdentifierChar isIdentifier isPlain)
open Text (Stops)

/-- What a formula may go on with. -/
inductive Place where
  | operand
  | operator

/-- Lexemes in the order of a formula, from a place in the formula to its end. -/
inductive Sequence : Place → List Lexeme → Prop where
  | symbol (value : String) {rest : List Lexeme} (hrest : Sequence .operator rest) :
      Sequence .operand (.symbol value :: rest)
  | word {name : String} (hname : isIdentifier name.toList) {rest : List Lexeme}
      (hrest : Sequence .operator rest) : Sequence .operand (.word name :: rest)
  | integer (value : Int64) {rest : List Lexeme} (hrest : Sequence .operator rest) :
      Sequence .operand (.integer value :: rest)
  | opening {rest : List Lexeme} (hrest : Sequence .operand rest) :
      Sequence .operand (.opening :: rest)
  | closing {rest : List Lexeme} (hrest : Sequence .operator rest) :
      Sequence .operator (.closing :: rest)
  | operator {name : String} (hname : Operator.isBinary name) {rest : List Lexeme}
      (hrest : Sequence .operand rest) : Sequence .operator (.operator name :: rest)
  | nil : Sequence .operator []

theorem Sequence.enclosed {least level : Precedence} {inner rest : List Lexeme}
    (h : ∀ rest, Sequence .operator rest → Sequence .operand (inner ++ rest))
    (hrest : Sequence .operator rest) :
    Sequence .operand (enclosed least level inner ++ rest) := by
  unfold Render.enclosed
  split
  · rw [List.cons_append, List.cons_append, List.append_assoc]
    exact .opening (h _ (.closing hrest))
  · exact h rest hrest

theorem Formula.sequence {style : LiteralStyle} {node : Node} (hnode : Formula node)
    {rest : List Lexeme} (hrest : Sequence .operator rest) :
    Sequence .operand (lexemes style node ++ rest) := by
  induction hnode generalizing rest with
  | symbol value => exact .symbol value hrest
  | localRead hname => exact .word hname hrest
  | integer value => exact .integer value hrest
  | binary hname _ _ ihLhs ihRhs =>
      rw [lexemes_binary, List.append_assoc]
      exact .enclosed (fun _ => ihLhs) (.operator hname (.enclosed (fun _ => ihRhs) hrest))

/-! ### Where an operand starts -/

variable {rest rest' : List Lexeme} {value value' name : String}

theorem text_integer_cases (value : Int64) :
    (∃ magnitude : Nat, value.toInt = magnitude ∧
      (Lexeme.integer value).text = Nat.toDigits 10 magnitude) ∨
    ∃ magnitude : Nat, value.toInt = -(magnitude + 1 : Nat) ∧
      (Lexeme.integer value).text = '-' :: Nat.toDigits 10 (magnitude + 1) := by
  have htext : (Lexeme.integer value).text = (toString value.toInt).toList := rfl
  rw [htext]
  cases value.toInt with
  | ofNat magnitude => exact .inl ⟨magnitude, rfl, Text.toList_toString_ofNat magnitude⟩
  | negSucc magnitude => exact .inr ⟨magnitude, rfl, Text.toList_toString_negSucc magnitude⟩

def opensOperand (c : Char) : Bool :=
  ['(', ':', '-'].contains c || isIdentifierChar c

def OpensOperand (text : List Char) : Prop := ∃ c rest, text = c :: rest ∧ opensOperand c

/-- An operator carries on no name, and of what operands start with it is only the minus sign. -/
theorem exists_cons_of_isBinary (hname : Operator.isBinary name) :
    ∃ c chars, name.toList = c :: chars ∧ Ruby.continuesWord c = false ∧ c ≠ ')' ∧
      (opensOperand c → name = "-") := by
  have table : ∀ name ∈ Operator.binaryNames, name.toList.head?.any fun c =>
      Ruby.continuesWord c = false ∧ c ≠ ')' ∧ (opensOperand c → name = "-") := by decide
  have hhead := table name (List.contains_iff_mem.1 hname)
  obtain ⟨c, chars, hchars, hfacts⟩ := Text.exists_cons_of_any_head? hhead
  exact ⟨c, chars, hchars, of_decide_eq_true hfacts⟩

theorem Sequence.stops (h : Sequence .operator rest) : Stops isIdentifierChar (spell rest) := by
  cases h with
  | closing => exact Text.stops_cons.2 (by decide)
  | operator hname =>
      obtain ⟨c, chars, hchars, hword, -⟩ := exists_cons_of_isBinary hname
      rw [Lexeme.spell_cons, Lexeme.text, hchars, List.cons_append, Text.stops_cons]
      simp only [Ruby.continuesWord, Ruby.isWordChar, Bool.or_eq_false_iff] at hword
      exact hword.1.1.1.1
  | nil => exact Text.stops_nil

/-- The class of an operand, from its first character. -/
def sortOf (c : Char) : Nat :=
  if c = '(' then 0 else if c = ':' then 1 else if c = '-' ∨ c.isDigit then 2 else 3

def Lexeme.sort : Lexeme → Nat
  | opening => 0
  | symbol _ => 1
  | integer _ => 2
  | _ => 3

theorem sortOf_of_isDigit {c : Char} (hc : c.isDigit) (value : Int64) :
    sortOf c = (Lexeme.integer value).sort := by
  have hne : ∀ d ∈ ['(', ':'], c ≠ d := by
    rintro d hd rfl
    have table : ∀ d ∈ ['(', ':'], d.isDigit = false := by decide
    rw [table c hd] at hc
    cases hc
  simp [sortOf, Lexeme.sort, hne '(' (by simp), hne ':' (by simp), hc]

theorem Sequence.exists_cons {lexeme : Lexeme} (h : Sequence .operand (lexeme :: rest)) :
    ∃ c chars, lexeme.text = c :: chars ∧ opensOperand c ∧ sortOf c = lexeme.sort := by
  cases h with
  | symbol value => exact ⟨_, _, rfl, rfl, rfl⟩
  | word hname =>
      obtain ⟨c, chars, hchars, hdigit, hall⟩ := Ruby.exists_cons_of_isIdentifier hname
      have hc : isIdentifierChar c := hall c (by simp [hchars])
      have hne : ∀ d ∈ ['(', ':', '-'], c ≠ d := by
        rintro d hd rfl
        have table : ∀ d ∈ ['(', ':', '-'], isIdentifierChar d = false := by decide
        rw [table c hd] at hc
        cases hc
      refine ⟨c, chars, hchars, by simp [opensOperand, hc], ?_⟩
      simp [sortOf, Lexeme.sort, hne '(' (by simp), hne ':' (by simp), hne '-' (by simp), hdigit]
  | integer value =>
      rcases text_integer_cases value with ⟨magnitude, -, htext⟩ | ⟨magnitude, -, htext⟩
      · obtain ⟨c, chars, hchars, hc⟩ := Text.exists_decimal_cons magnitude
        refine ⟨c, chars, htext.trans hchars, ?_, sortOf_of_isDigit hc value⟩
        simp [opensOperand, Ruby.isIdentifierChar_of_isDigit hc]
      · exact ⟨_, _, htext, rfl, rfl⟩
  | opening => exact ⟨_, _, rfl, rfl, rfl⟩

/-- Two operands with the same text start with lexemes of one class. -/
theorem Sequence.sort_eq (hrest : Sequence .operand rest) (hrest' : Sequence .operand rest')
    (h : spell rest = spell rest') : rest.head?.map Lexeme.sort = rest'.head?.map Lexeme.sort := by
  cases rest with
  | nil => cases hrest
  | cons lexeme rest =>
      cases rest' with
      | nil => cases hrest'
      | cons lexeme' rest' =>
          obtain ⟨c, chars, htext, -, hsort⟩ := hrest.exists_cons
          obtain ⟨c', chars', htext', -, hsort'⟩ := hrest'.exists_cons
          rw [Lexeme.spell_cons, Lexeme.spell_cons, htext, htext'] at h
          obtain ⟨rfl, -⟩ := List.cons.inj h
          exact congrArg some (hsort.symm.trans hsort')

theorem Sequence.opensOperand (h : Sequence .operand rest) : OpensOperand (spell rest) := by
  cases rest with
  | nil => cases h
  | cons lexeme rest =>
      obtain ⟨c, chars, htext, hc, -⟩ := h.exists_cons
      exact ⟨c, chars ++ spell rest, by rw [Lexeme.spell_cons, htext, List.cons_append], hc⟩

/-! ### Where a lexeme ends -/

theorem word_inj {text text' : List Char} (hname : isIdentifier name.toList)
    {name' : String} (hname' : isIdentifier name'.toList) (htext : Stops isIdentifierChar text)
    (htext' : Stops isIdentifierChar text') (h : name.toList ++ text = name'.toList ++ text') :
    name = name' ∧ text = text' := by
  have hread := Ruby.next_word hname htext
  rw [h, Ruby.next_word hname' htext'] at hread
  simpa [eq_comm] using hread

theorem decimal_inj {first second : Nat} {text text' : List Char} (htext : Stops Char.isDigit text)
    (htext' : Stops Char.isDigit text')
    (h : Nat.toDigits 10 first ++ text = Nat.toDigits 10 second ++ text') :
    first = second ∧ text = text' := by
  have hread : Ruby.next (Nat.toDigits 10 first ++ text) = _ := Ruby.next_number htext
  rw [h, Ruby.next_number htext'] at hread
  simpa [eq_comm] using hread

theorem integer_inj {first second : Int64} {text text' : List Char}
    (htext : Stops Char.isDigit text) (htext' : Stops Char.isDigit text')
    (h : (Lexeme.integer first).text ++ text = (Lexeme.integer second).text ++ text') :
    first = second ∧ text = text' := by
  rcases text_integer_cases first with ⟨n, hn, hfirst⟩ | ⟨n, hn, hfirst⟩ <;>
    rcases text_integer_cases second with ⟨m, hm, hsecond⟩ | ⟨m, hm, hsecond⟩ <;>
      rw [hfirst, hsecond] at h
  · obtain ⟨rfl, rfl⟩ := decimal_inj htext htext' h
    exact ⟨Int64.toInt_inj.1 (hn.trans hm.symm), rfl⟩
  · exact absurd h (Text.decimal_append_ne_minus _ _ _)
  · exact absurd h.symm (Text.decimal_append_ne_minus _ _ _)
  · obtain ⟨hmagnitude, rfl⟩ := decimal_inj htext htext' (List.cons.inj h).2
    rw [← hmagnitude, ← hn] at hm
    exact ⟨Int64.toInt_inj.1 hm.symm, rfl⟩

/-- The text behind the quote that closes a literal. -/
def afterQuote : List Char → List Char
  | [] => []
  | '\\' :: _ :: rest => afterQuote rest
  | '"' :: rest => rest
  | _ :: rest => afterQuote rest

theorem passesLetters_afterQuote :
    PassesLetters (fun _ => false) afterQuote fun _ result => result where
  opens _ h := nomatch h
  push_nil _ := rfl
  push_push _ _ _ := rfl
  escaped _ _ := rfl
  plain c rest hquote hbackslash _ := by
    rw [afterQuote]
    · rintro d others rfl
      exact absurd rfl hbackslash
    · exact hquote

theorem quote_inj {text text' : List Char}
    (h : DoubleQuoted.quote value ++ text = DoubleQuoted.quote value' ++ text') :
    value = value' ∧ text = text' := by
  have hread (value : String) (text : List Char) :
      afterQuote (DoubleQuoted.escape value.toList ++ '"' :: text) = text :=
    passesLetters_afterQuote.escape fun _ _ _ => rfl
  have hescape : DoubleQuoted.escape value.toList ++ '"' :: text =
      DoubleQuoted.escape value'.toList ++ '"' :: text' := by
    simpa [DoubleQuoted.quote] using h
  obtain rfl : text = text' := by rw [← hread value text, hescape, hread]
  exact ⟨String.toList_inj.1 (escape_injective (List.append_cancel_right hescape)), rfl⟩

theorem plain_append_ne_quote {text text' : List Char} (hvalue : isPlain value) :
    value.toList ++ text ≠ DoubleQuoted.quote value' ++ text' := by
  intro h
  cases hchars : value.toList with
  | nil =>
      rw [String.toList_eq_nil_iff] at hchars
      rw [hchars] at hvalue
      exact absurd hvalue (by decide)
  | cons c chars =>
      have hc := Ruby.isNameChar_of_isPlain hvalue c (by simp [hchars])
      rw [hchars] at h
      rw [(List.cons.inj h).1] at hc
      exact absurd hc (by decide)

/-- Of two symbols at the start of one text one goes on where the other ends, unless both are
quoted. -/
theorem symbol_cases {text text' : List Char}
    (h : (Lexeme.symbol value).text ++ text = (Lexeme.symbol value').text ++ text') :
    (value = value' ∧ text = text') ∨
      isPlain value ∧ isPlain value' ∧ ∃ longer : String,
        (value' = value ++ longer ∧ text = longer.toList ++ text') ∨
          (value = value' ++ longer ∧ text' = longer.toList ++ text) := by
  have hbody := (List.cons.inj h).2
  unfold symbolText at hbody
  split_ifs at hbody with hvalue hvalue' hvalue'
  · refine .inr ⟨hvalue, hvalue', ?_⟩
    rcases List.append_eq_append_iff.1 hbody with ⟨longer, hlonger⟩ | ⟨longer, hlonger⟩
    · refine ⟨String.ofList longer, .inl ?_⟩
      rwa [← String.toList_inj, String.toList_append, String.toList_ofList]
    · refine ⟨String.ofList longer, .inr ?_⟩
      rwa [← String.toList_inj, String.toList_append, String.toList_ofList]
  · exact absurd hbody (plain_append_ne_quote hvalue)
  · exact absurd hbody.symm (plain_append_ne_quote hvalue')
  · exact .inl (quote_inj hbody)

/-- The operators, and what a symbol may leave of them. -/
def marks : List String := "=" :: "=>" :: Operator.binaryNames

theorem mem_marks_of_isBinary (hname : Operator.isBinary name) : name ∈ marks :=
  List.mem_cons_of_mem _ (List.mem_cons_of_mem _ (List.contains_iff_mem.1 hname))

/-- No mark goes on with what starts an operand. -/
theorem eq_nil_of_marks {mark other : String} {longer text text' : List Char}
    (hmark : mark ∈ marks) (hother : other ∈ marks) (htext : OpensOperand text)
    (hlonger : other.toList = mark.toList ++ longer) (h : text = longer ++ text') :
    longer = [] := by
  have table : ∀ mark ∈ marks, ∀ other ∈ marks, mark.toList <+: other.toList →
      (other.toList.drop mark.length).head?.all fun c => !opensOperand c := by
    decide +kernel
  cases longer with
  | nil => rfl
  | cons c longer =>
      obtain ⟨d, rest, hd, hopens⟩ := htext
      obtain ⟨rfl, -⟩ := List.cons.inj (h.symm.trans hd)
      have hrow := table mark hmark other hother (hlonger ▸ List.prefix_append ..)
      rw [hlonger, ← String.length_toList, List.drop_left] at hrow
      simp [hopens] at hrow

theorem mark_inj {mark other : String} {text text' : List Char} (hmark : mark ∈ marks)
    (hother : other ∈ marks) (htext : OpensOperand text) (htext' : OpensOperand text')
    (h : mark.toList ++ text = other.toList ++ text') : mark = other ∧ text = text' := by
  rcases List.append_eq_append_iff.1 h with ⟨longer, hlonger, hrest⟩ | ⟨longer, hlonger, hrest⟩
  · obtain rfl := eq_nil_of_marks hmark hother htext hlonger hrest
    rw [List.append_nil, String.toList_inj] at hlonger
    exact ⟨hlonger.symm, hrest⟩
  · obtain rfl := eq_nil_of_marks hother hmark htext' hlonger hrest
    rw [List.append_nil, String.toList_inj] at hlonger
    exact ⟨hlonger, hrest.symm⟩

theorem Sequence.exists_integer {c : Char} {more : List Char} (h : Sequence .operand rest)
    (hspell : spell rest = c :: more) (hc : sortOf c = (Lexeme.integer 0).sort) :
    ∃ value others, rest = .integer value :: others ∧ Sequence .operator others := by
  cases rest with
  | nil => cases h
  | cons lexeme rest =>
      obtain ⟨d, chars, htext, -, hsort⟩ := h.exists_cons
      rw [Lexeme.spell_cons, htext, List.cons_append] at hspell
      obtain ⟨rfl, -⟩ := List.cons.inj hspell
      rw [hc] at hsort
      cases h with
      | integer value hrest => exact ⟨value, rest, rfl, hrest⟩
      | _ => cases hsort

/-- An operand that starts with a minus sign in front of another operand is a number, and so is the
other. -/
theorem exists_negative (hrest : Sequence .operand rest) (hrest' : Sequence .operand rest')
    (h : spell rest = '-' :: spell rest') :
    ∃ negative positive others others', rest = .integer negative :: others ∧
      rest' = .integer positive :: others' ∧ negative.toInt < 0 ∧
        negative.toInt = -positive.toInt ∧ Sequence .operator others ∧
          Sequence .operator others' ∧ spell others = spell others' := by
  obtain ⟨negative, others, rfl, hothers⟩ := hrest.exists_integer h rfl
  rw [Lexeme.spell_cons] at h
  rcases text_integer_cases negative with ⟨n, -, htext⟩ | ⟨n, hn, htext⟩
  · rw [htext] at h
    exact absurd h (Text.decimal_append_ne_minus _ _ _)
  rw [htext, List.cons_append, List.cons.injEq] at h
  obtain ⟨-, h⟩ := h
  obtain ⟨c, chars, hchars, hc⟩ := Text.exists_decimal_cons (n + 1)
  have hspell : spell rest' = c :: (chars ++ spell others) := by
    rw [← h, hchars, List.cons_append]
  obtain ⟨positive, others', rfl, hothers'⟩ := hrest'.exists_integer hspell (sortOf_of_isDigit hc 0)
  rw [Lexeme.spell_cons] at h
  rcases text_integer_cases positive with ⟨m, hm, htext'⟩ | ⟨m, -, htext'⟩
  · rw [htext'] at h
    obtain ⟨hmagnitude, htail⟩ := decimal_inj (Ruby.stops_isDigit hothers.stops)
      (Ruby.stops_isDigit hothers'.stops) h
    exact ⟨negative, positive, others, others', rfl, rfl, by omega, by omega, hothers, hothers',
      htail⟩
  · rw [htext'] at h
    exact absurd h (Text.decimal_append_ne_minus _ _ _)

end RubyPress.Render
