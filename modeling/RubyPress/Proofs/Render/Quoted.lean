import RubyPress.Proofs.Render.Writing
import RubyPress.Proofs.Ruby.Literal
import RubyPress.Proofs.Text.Printable

/-!
# Quoted values

A value is written between quotes letter by letter. A letter is written as it is, behind a backslash
or as the number of its code point, and what is written depends on the next letter only where a
number sign meets one that would make it start something. So an escaped value is passed by whatever
reads the inside of a literal, and it is read back as the letters it was written for, as long as the
text after it does not do to a number sign at its end what the value itself does not.
-/

namespace RubyPress.Render

open DoubleQuoted (escape escapeChar escapeLetter? numericEscape opensInterpolation)
open Ruby (Atom charOf? atom? escaped? letterOf? openers readBody unescaped)
open Text (Stops)

variable {c : Char} {value following rest : List Char}

theorem opensInterpolation_cons : opensInterpolation (c :: rest) = openers.contains c := by
  unfold opensInterpolation
  split <;> simp_all [openers]

theorem opensInterpolation_eq_false {text : List Char} :
    opensInterpolation text = false ↔ Stops openers.contains text := by
  cases text with
  | nil => exact iff_of_true rfl Text.stops_nil
  | cons c text => rw [opensInterpolation_cons, Text.stops_cons]

/-- A character is written as it is or with a backslash in front, and what opens an interpolation is
written as it is. -/
theorem escapeChar_cases (c : Char) (following : List Char) :
    escapeChar c following = [c] ∨
      openers.contains c = false ∧ ∃ more, escapeChar c following = '\\' :: more := by
  have table : ∀ opener ∈ openers, escapeLetter? opener = none ∧ opener ≠ '#' ∧
      0x20 ≤ opener.toNat ∧ opener.toNat < 0x7f := by decide
  by_cases hopener : openers.contains c
  · obtain ⟨hletter, hsign, hprintable⟩ := table c (by simpa using hopener)
    refine .inl ?_
    unfold escapeChar
    rw [hletter]
    simp only
    rw [if_neg hsign, if_pos hprintable]
  · rw [Bool.not_eq_true] at hopener
    unfold escapeChar numericEscape
    split
    · exact .inr ⟨hopener, _, rfl⟩
    · next hletter =>
        split_ifs
        all_goals first | exact .inr ⟨hopener, _, rfl⟩ | exact .inl rfl | skip
        next hsign _ => exact .inl (by rw [hsign])

theorem stops_escape {p : Char → Bool} (hbackslash : p '\\' = false) (hvalue : Stops p value)
    (hrest : value = [] → Stops p rest) : Stops p (escape value ++ rest) := by
  cases value with
  | nil => exact hrest rfl
  | cons c value =>
      rw [escape, List.append_assoc]
      rcases escapeChar_cases c value with hself | ⟨-, more, hescaped⟩
      · rw [hself]
        exact Text.stops_cons.2 (Text.stops_cons.1 hvalue)
      · rw [hescaped]
        exact Text.stops_cons.2 hbackslash

/-- Whether an escaped value opens an interpolation is decided by the value. -/
theorem opensInterpolation_escape :
    opensInterpolation (escape (c :: value) ++ rest) = openers.contains c := by
  rw [escape, List.append_assoc]
  rcases escapeChar_cases c value with hself | ⟨hopener, more, hescaped⟩
  · rw [hself]
    exact opensInterpolation_cons
  · rw [hescaped, hopener]
    exact opensInterpolation_cons

/-! ### Passing an escaped value -/

/-- A reader of the inside of a literal that keeps what it passes: whatever stands behind a
backslash, and every letter but a number sign in front of an opener. -/
structure PassesLetters {α : Type} (opener : Char → Bool) (read : List Char → α)
    (push : List Char → α → α) : Prop where
  opens : ∀ c, opener c → openers.contains c
  push_nil : ∀ result, push [] result = result
  push_push : ∀ first second result, push first (push second result) = push (first ++ second) result
  escaped : ∀ c rest, read ('\\' :: c :: rest) = push ['\\', c] (read rest)
  plain : ∀ c rest, c ≠ '"' → c ≠ '\\' → (c = '#' → Stops opener rest) →
    read (c :: rest) = push [c] (read rest)

namespace PassesLetters

variable {α : Type} {opener : Char → Bool} {read : List Char → α} {push : List Char → α → α}
  (h : PassesLetters opener read push)

include h

theorem append {text : List Char} (htext : ∀ c ∈ text, c ≠ '"' ∧ c ≠ '\\' ∧ c ≠ '#') :
    read (text ++ rest) = push text (read rest) := by
  induction text with
  | nil => exact (h.push_nil _).symm
  | cons c text ih =>
      rw [List.forall_mem_cons] at htext
      obtain ⟨⟨hquote, hbackslash, hsign⟩, htext⟩ := htext
      rw [List.cons_append, h.plain c _ hquote hbackslash (absurd · hsign), ih htext, h.push_push]
      rfl

theorem numericEscape (code : Nat) :
    read (DoubleQuoted.numericEscape code ++ rest) =
      push (DoubleQuoted.numericEscape code) (read rest) := by
  have hhex (width : Nat) : ∀ c ∈ Hex.fixed .capital width code, c ≠ '"' ∧ c ≠ '\\' ∧ c ≠ '#' := by
    intro c hc
    have hletter := Text.isAlphanum_of_mem_fixed hc
    refine ⟨?_, ?_, ?_⟩ <;> rintro rfl <;> exact absurd hletter (by decide)
  have hbraces (width : Nat) : ∀ c ∈ '\x7b' :: Hex.fixed .capital width code ++ ['\x7d'],
      c ≠ '"' ∧ c ≠ '\\' ∧ c ≠ '#' := by
    simp only [List.cons_append, List.forall_mem_cons, List.forall_mem_append]
    exact ⟨by decide, hhex width, by decide⟩
  have hescape (c : Char) {text : List Char} (htext : ∀ c ∈ text, c ≠ '"' ∧ c ≠ '\\' ∧ c ≠ '#') :
      read ('\\' :: c :: text ++ rest) = push ('\\' :: c :: text) (read rest) := by
    rw [List.cons_append, List.cons_append, h.escaped, h.append htext, h.push_push]
    rfl
  unfold DoubleQuoted.numericEscape
  split_ifs
  · exact hescape 'x' (hhex 2)
  · exact hescape 'u' (hhex 4)
  · exact hescape 'u' (hbraces 5)
  · exact hescape 'u' (hbraces 6)

theorem escapeChar (c : Char)
    (hrest : c = '#' → opensInterpolation following = false → Stops opener rest) :
    read (DoubleQuoted.escapeChar c following ++ rest) =
      push (DoubleQuoted.escapeChar c following) (read rest) := by
  unfold DoubleQuoted.escapeChar
  split
  · rw [List.cons_append, List.singleton_append, h.escaped]
  · next hletter =>
      have hquote : c ≠ '"' := by
        rintro rfl
        cases hletter
      have hbackslash : c ≠ '\\' := by
        rintro rfl
        cases hletter
      split_ifs with hsign hopens hprintable
      · rw [List.cons_append, List.singleton_append, h.escaped]
      · rw [hsign] at hquote hbackslash
        exact h.plain '#' rest hquote hbackslash fun _ => hrest hsign (by simpa using hopens)
      · exact h.plain c rest hquote hbackslash (absurd · hsign)
      · exact h.numericEscape c.toNat

/-- An escaped value is passed whole unless it ends in a number sign that opens something. -/
theorem escape (hrest : value.getLast? = some '#' → Stops opener rest) :
    read (DoubleQuoted.escape value ++ rest) = push (DoubleQuoted.escape value) (read rest) := by
  induction value with
  | nil => exact (h.push_nil _).symm
  | cons c value ih =>
      have hlater : value.getLast? = some '#' → Stops opener rest := by
        intro hlast
        exact hrest (by rw [List.getLast?_cons, hlast]; rfl)
      have hfollows : c = '#' → opensInterpolation value = false →
          Stops opener (DoubleQuoted.escape value ++ rest) := by
        rintro rfl hvalue
        refine stops_escape ?_ ?_ fun hnil => hrest (by rw [hnil]; rfl)
        · exact Bool.eq_false_iff.2 fun hopener => absurd (h.opens _ hopener) (by decide)
        · exact fun d hd => Bool.eq_false_iff.2 fun hopener =>
            absurd (h.opens d hopener) (by simpa using opensInterpolation_eq_false.1 hvalue d hd)
      rw [DoubleQuoted.escape, List.append_assoc, h.escapeChar c hfollows, ih hlater, h.push_push]

end PassesLetters

theorem charOf?_fixed {width : Nat} (hwidth : width ≠ 0) (hcode : c.toNat < 16 ^ width) :
    charOf? (Hex.fixed .capital width c.toNat) = some c := by
  have hne : Hex.fixed .capital width c.toNat ≠ [] := by
    rw [← List.length_pos_iff, Hex.length_fixed]
    exact Nat.pos_of_ne_zero hwidth
  have hvalid : c.toNat.isValidChar := c.valid
  rw [charOf?, Text.hexValue?_fixed _ _ _ hcode]
  simp only
  rw [if_pos ⟨hvalid, hne⟩, Char.ofNat_toNat]

theorem escaped?_byte (hcode : c.toNat < 0x80) (rest : List Char) :
    escaped? ('x' :: Hex.fixed .capital 2 c.toNat ++ rest) = some (c, rest) := by
  have hdigits : charOf? (Hex.fixed .capital 2 c.toNat) = some c :=
    charOf?_fixed (by decide) (hcode.trans (by decide))
  obtain ⟨d₁, d₂, hfixed⟩ : ∃ d₁ d₂, Hex.fixed .capital 2 c.toNat = [d₁, d₂] := ⟨_, _, rfl⟩
  rw [hfixed] at hdigits ⊢
  change ((charOf? [d₁, d₂]).filter _).map _ = _
  rw [hdigits, Option.filter_some_pos (by simpa using hcode)]
  rfl

theorem escaped?_fixed (hcode : c.toNat ≤ 0xFFFF) (rest : List Char) :
    escaped? ('u' :: Hex.fixed .capital 4 c.toNat ++ rest) = some (c, rest) := by
  have hdigits : charOf? (Hex.fixed .capital 4 c.toNat) = some c :=
    charOf?_fixed (by decide) (Nat.lt_succ_of_le hcode)
  have hmem : ∀ d ∈ Hex.fixed .capital 4 c.toNat, d.isAlphanum :=
    fun d => Text.isAlphanum_of_mem_fixed
  obtain ⟨d₁, d₂, d₃, d₄, hfixed⟩ :
      ∃ d₁ d₂ d₃ d₄, Hex.fixed .capital 4 c.toNat = [d₁, d₂, d₃, d₄] := ⟨_, _, _, _, rfl⟩
  rw [hfixed] at hdigits hmem ⊢
  have hbrace : d₁ ≠ '\x7b' := by
    rintro rfl
    exact absurd (hmem _ (.head _)) (by decide)
  have hread : escaped? ('u' :: [d₁, d₂, d₃, d₄] ++ rest) =
      (charOf? [d₁, d₂, d₃, d₄]).map (·, rest) := by
    simp only [List.cons_append, List.nil_append]
    rw [escaped?]
    exact hbrace
  rw [hread, hdigits]
  rfl

theorem escaped?_braces {width : Nat} (hwidth : width ≠ 0) (hcode : c.toNat < 16 ^ width)
    (rest : List Char) :
    escaped? ('u' :: '\x7b' :: Hex.fixed .capital width c.toNat ++ ['\x7d'] ++ rest) =
      some (c, rest) := by
  have hmem : ∀ d ∈ Hex.fixed .capital width c.toNat, d != '\x7d' := by
    intro d hd
    rw [bne_iff_ne]
    rintro rfl
    exact absurd (Text.isAlphanum_of_mem_fixed hd) (by decide)
  have hstops : Stops (· != '\x7d') ('\x7d' :: rest) := Text.stops_cons.2 (by decide)
  simp only [List.cons_append, List.append_assoc, List.nil_append]
  rw [escaped?, Text.dropWhile_append_of_stops hmem hstops,
    Text.takeWhile_append_of_stops hmem hstops, charOf?_fixed hwidth hcode]
  rfl

theorem atom?_escaped {text : List Char} (h : escaped? (text ++ rest) = some (c, rest)) :
    atom? ('\\' :: text ++ rest) = some (.letter c, rest) := by
  rw [List.cons_append, atom?, h]
  rfl

theorem atom?_numericEscape (c : Char) (rest : List Char) :
    atom? (numericEscape c.toNat ++ rest) = some (.letter c, rest) := by
  have hchar : c.toNat < 0x110000 := by
    rcases c.valid with h | ⟨-, h⟩
    · exact h.trans (by decide)
    · exact h
  unfold numericEscape
  split_ifs with hbyte hfixed hfive
  · exact atom?_escaped (escaped?_byte hbyte rest)
  · exact atom?_escaped (escaped?_fixed hfixed rest)
  · exact atom?_escaped (escaped?_braces (by decide) hfive rest)
  · exact atom?_escaped (escaped?_braces (by decide) (hchar.trans (by decide)) rest)

theorem letterOf?_escapeLetter? {letter : Char} (h : escapeLetter? c = some letter) :
    letterOf? letter = some c ∧ letter ≠ 'x' ∧ letter ≠ 'u' := by
  have hself := Char.ofNat_toNat c
  unfold escapeLetter? at h
  split at h
  case h_11 => cases h
  all_goals
    next hcode =>
      rw [hcode] at hself
      rw [← hself, ← Option.some.inj h]
      decide

theorem escaped?_letter {letter : Char} (hletter : letterOf? letter = some c) (hx : letter ≠ 'x')
    (hu : letter ≠ 'u') : escaped? (letter :: rest) = some (c, rest) := by
  unfold escaped?
  split
  · next heq => exact absurd (List.cons.inj heq).1 hx
  · next heq => exact absurd (List.cons.inj heq).1 hu
  · next heq => exact absurd (List.cons.inj heq).1 hu
  · next heq =>
      obtain ⟨rfl, rfl⟩ := List.cons.inj heq
      rw [hletter]
      rfl
  · next heq => cases heq

theorem atom?_plain (hquote : c ≠ '"') (hbackslash : c ≠ '\\')
    (hsign : c = '#' → opensInterpolation rest = false) :
    atom? (c :: rest) = some (.letter c, rest) := by
  unfold atom?
  split
  · next heq => cases heq
  · next heq => exact absurd (List.cons.inj heq).1 hbackslash
  · next d others heq =>
      obtain ⟨rfl, rfl⟩ := List.cons.inj heq
      have hopener := Text.stops_cons.1 (opensInterpolation_eq_false.1 (hsign rfl))
      have hbrace : d ≠ '\x7b' := by
        rintro rfl
        exact absurd hopener (by decide)
      rw [if_neg hbrace, if_neg (Bool.eq_false_iff.1 hopener)]
  · next heq =>
      obtain ⟨rfl, rfl⟩ := List.cons.inj heq
      rw [if_neg hquote]

/-- One letter is read back from its text, whatever that is. -/
theorem atom?_escapeChar (c : Char)
    (hrest : c = '#' → opensInterpolation following = false → opensInterpolation rest = false) :
    atom? (escapeChar c following ++ rest) = some (.letter c, rest) := by
  have hletter (letter : Char) (h : letterOf? letter = some c) (hx : letter ≠ 'x')
      (hu : letter ≠ 'u') : atom? ('\\' :: [letter] ++ rest) = some (.letter c, rest) :=
    atom?_escaped (escaped?_letter h hx hu)
  unfold escapeChar
  split
  · next letter h =>
      obtain ⟨hread, hx, hu⟩ := letterOf?_escapeLetter? h
      exact hletter letter hread hx hu
  · next hnone =>
      have hquote : c ≠ '"' := by
        rintro rfl
        cases hnone
      have hbackslash : c ≠ '\\' := by
        rintro rfl
        cases hnone
      split_ifs with hsign hopens hprintable
      · rw [hsign] at hletter ⊢
        exact hletter '#' rfl (by decide) (by decide)
      · rw [hsign] at hquote hbackslash hrest ⊢
        exact atom?_plain hquote hbackslash fun _ => hrest rfl (by simpa using hopens)
      · exact atom?_plain hquote hbackslash (absurd · hsign)
      · exact atom?_numericEscape c rest

theorem readBody_sign_ne {more : List Atom} (h : opensInterpolation rest = true) :
    readBody ('#' :: rest) ≠ some (.letter '#' :: more) := by
  intro hread
  obtain ⟨after, hatom⟩ := Ruby.exists_of_readBody_eq_cons hread
  cases rest with
  | nil => cases h
  | cons c rest =>
      rw [opensInterpolation_cons] at h
      exact Ruby.ne_letter_of_atom? h hatom rfl

/-- A value is read back from its text exactly if it does not end in a number sign that opens
something with the rest. -/
theorem readBody_escape_eq_some {more : List Atom} :
    readBody (escape value ++ rest) = some (value.map .letter ++ more) ↔
      (value.getLast? = some '#' → opensInterpolation rest = false) ∧
        readBody rest = some more := by
  induction value with
  | nil => simp [escape]
  | cons c value ih =>
      by_cases hfollows : c = '#' → opensInterpolation value = false →
          opensInterpolation (escape value ++ rest) = false
      · have hlast : ((c :: value).getLast? = some '#' → opensInterpolation rest = false) ↔
            (value.getLast? = some '#' → opensInterpolation rest = false) := by
          cases value with
          | nil =>
              refine iff_of_true (fun hsign => ?_) (fun h => absurd h (by simp))
              exact hfollows (Option.some.inj hsign) rfl
          | cons d value => rw [List.getLast?_cons_cons]
        rw [hlast, ← ih, escape, List.append_assoc,
          Ruby.readBody_of_atom? (atom?_escapeChar c hfollows)]
        exact (Option.map_injective (List.cons_injective (a := Atom.letter c))).eq_iff' rfl
      · simp only [Classical.not_imp, Bool.not_eq_false] at hfollows
        obtain ⟨rfl, hvalue, hopens⟩ := hfollows
        -- Only at the end of the value does the sign meet something that the value does not know.
        obtain rfl : value = [] := by
          cases value with
          | nil => rfl
          | cons d value =>
              rw [opensInterpolation_escape, ← opensInterpolation_cons, hvalue] at hopens
              cases hopens
        refine iff_of_false (readBody_sign_ne hopens) fun h => ?_
        cases (h.1 rfl).symm.trans hopens

theorem readBody_escape_nil (value : List Char) :
    readBody (escape value) = some (value.map .letter) := by
  have hnil : readBody [] = some [] := by rw [readBody]
  have h : readBody (escape value ++ []) = some (value.map .letter ++ []) :=
    readBody_escape_eq_some.2 ⟨fun _ => rfl, hnil⟩
  rwa [List.append_nil, List.append_nil] at h

/-- The text does not go on with a quote or with the start of an interpolation. -/
def StartsLetter (text : List Char) : Prop :=
  text.head? ≠ some '"' ∧ ∀ opener ∈ openers, ¬['#', opener] <+: text

theorem startsLetter_cons (hquote : c ≠ '"') (hsign : c = '#' → Stops openers.contains rest) :
    StartsLetter (c :: rest) := by
  refine ⟨by simpa using hquote, fun opener hopener hprefix => ?_⟩
  obtain ⟨rfl, others, rfl⟩ := List.cons_prefix_cons.1 hprefix
  have hstops := Text.stops_cons.1 (hsign rfl)
  simp only [List.contains_eq_mem, decide_eq_false_iff_not] at hstops
  exact hstops hopener

theorem passesLetters_unescaped : PassesLetters openers.contains
    (fun text => ∀ place ∈ unescaped text, StartsLetter place) fun _ result => result where
  opens _ h := h
  push_nil _ := rfl
  push_push _ _ _ := rfl
  escaped _ _ := rfl
  plain c rest hquote hbackslash hsign := by
    have hplaces : unescaped (c :: rest) = (c :: rest) :: unescaped rest := by
      rw [unescaped]
      rintro d others rfl
      exact absurd rfl hbackslash
    rw [hplaces, List.forall_mem_cons, eq_iff_iff]
    exact and_iff_right (startsLetter_cons hquote hsign)

theorem startsLetter_of_mem_unescaped (value : List Char) :
    ∀ place ∈ unescaped (escape value), StartsLetter place := by
  have h : (∀ place ∈ unescaped (escape value ++ []), StartsLetter place) =
      ∀ place ∈ unescaped [], StartsLetter place :=
    passesLetters_unescaped.escape fun _ => Text.stops_nil
  rw [List.append_nil] at h
  exact h.mpr (List.forall_mem_nil _)

/-! ### Strings and symbols -/

theorem escape_injective : Function.Injective escape := by
  intro first second h
  have hread := (readBody_escape_nil first).symm.trans (h ▸ readBody_escape_nil second)
  exact List.map_injective_iff.2 (fun _ _ => Atom.letter.inj) (Option.some.inj hread)

theorem quote_injective : Function.Injective DoubleQuoted.quote := by
  intro first second h
  have hescape := List.append_cancel_right (List.cons.inj h).2
  exact String.toList_inj.1 (escape_injective hescape)

theorem renderNode_string (config : RenderConfig) (value : String) :
    renderNode config (.string value) = .ok (String.ofList (DoubleQuoted.quote value)) := by
  rw [renderNode_eq_ok, String.toList_ofList]
  exact (write_succ rfl).trans writePieces_text

def symbolText (value : String) : List Char :=
  if SymbolName.isPlain value then value.toList else DoubleQuoted.quote value

theorem rule_symbol (style : LiteralStyle) (value : String) :
    rule style (.symbol value) = .ok [text ":", .text (symbolText value)] := by
  unfold symbolText
  rw [rule]
  split <;> rfl

theorem write_symbol (config : RenderConfig) (room : Nat) (value : String) :
    write config (room + 1) (.symbol value) = .ok (':' :: symbolText value) :=
  (write_succ (rule_symbol config.style value)).trans (writePieces_text_cons writePieces_text)

theorem renderNode_symbol (config : RenderConfig) (value : String) :
    renderNode config (.symbol value) = .ok (String.ofList (':' :: symbolText value)) := by
  rw [renderNode_eq_ok, String.toList_ofList]
  exact write_symbol config _ value

theorem symbolText_injective : Function.Injective symbolText := by
  have hmixed {first second : String} (hfirst : SymbolName.isPlain first) :
      first.toList ≠ DoubleQuoted.quote second := by
    intro h
    have hquote := Ruby.isNameChar_of_isPlain hfirst '"' (h ▸ List.mem_cons_self ..)
    exact absurd hquote (by decide)
  intro first second h
  unfold symbolText at h
  split_ifs at h with hfirst hsecond hsecond
  · exact String.toList_inj.1 h
  · exact absurd h (hmixed hfirst)
  · exact absurd h.symm (hmixed hsecond)
  · exact quote_injective h

end RubyPress.Render

namespace RubyPress

open Ruby Render

/-- **Quoting is invertible.** The inside of a literal is printable ASCII without a bare quote or
the start of an interpolation, and it is read back as the letters of the value. So strings are told
apart by their texts, and symbols are too, with and without quotes. -/
theorem readBody_of_value :
    (∀ value : List Char,
      (∀ c ∈ DoubleQuoted.escape value, 0x20 ≤ c.toNat ∧ c.toNat ≤ 0x7e) ∧
      (∀ place ∈ unescaped (DoubleQuoted.escape value),
        place.head? ≠ some '"' ∧ ∀ opener ∈ ['\x7b', '$', '@'], ¬['#', opener] <+: place) ∧
      readBody (DoubleQuoted.escape value) = some (value.map .letter)) ∧
    ∀ config,
      (∃ text : String → String, Function.Injective text ∧
        ∀ value, renderNode config (.string value) = .ok (text value)) ∧
      ∃ text : String → String, Function.Injective text ∧
        ∀ value, renderNode config (.symbol value) = .ok (text value) := by
  have hofList : Function.Injective String.ofList := fun _ _ => String.ofList_inj.1
  refine ⟨fun value => ⟨fun c hc => ?_, startsLetter_of_mem_unescaped value,
    readBody_escape_nil value⟩, fun config => ⟨?_, ?_⟩⟩
  · have hprintable := Text.isPrintable_of_mem_escape hc
    simp only [Text.isPrintable, Bool.and_eq_true, decide_eq_true_eq] at hprintable
    omega
  · exact ⟨_, hofList.comp quote_injective, renderNode_string config⟩
  · have htext := hofList.comp
      ((List.cons_injective (a := ':')).comp symbolText_injective)
    exact ⟨_, htext, renderNode_symbol config⟩

end RubyPress
