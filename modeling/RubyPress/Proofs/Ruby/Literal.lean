import RubyPress.Proofs.Ruby.Scan

/-!
# Double-quoted literals

What Ruby finds between double quotes, from left to right: letters, some of them behind a backslash,
code in braces, and the names of variables behind a bare number sign. Code ends at the brace that
closes it; braces and literals inside of the code are passed, and so is the code in those literals.

`readBody` reads such an inside from its first character to its last. Two readings agree exactly if
the literals are made up of the same letters and the same code, however the letters are spelled.
-/

namespace RubyPress.Ruby

open Text (Stops)

/-- What a place in a literal stands for. -/
inductive Atom where
  | letter (c : Char)
  | code (source : List Char)
  | named (name : List Char)
  deriving DecidableEq

def letterOf? : Char → Option Char
  | '"' => some '"'
  | '\\' => some '\\'
  | 'n' => some '\n'
  | 'r' => some '\r'
  | 't' => some '\t'
  | 'f' => some '\x0c'
  | 'v' => some '\x0b'
  | 'b' => some '\x08'
  | 'a' => some '\x07'
  | 'e' => some '\x1b'
  | '#' => some '#'
  | _ => none

def charOf? (digits : List Char) : Option Char :=
  match Hex.value? 0 digits with
  | some code => if code.isValidChar ∧ digits ≠ [] then some (Char.ofNat code) else none
  | none => none

/-- The character at the start of a text behind a backslash, and the text after it. Two digits are
the code of a byte, which is a character of its own only in ASCII. -/
def escaped? : List Char → Option (Char × List Char)
  | 'x' :: d₁ :: d₂ :: rest => ((charOf? [d₁, d₂]).filter (·.toNat < 0x80)).map (·, rest)
  | 'u' :: '\x7b' :: rest =>
    match rest.dropWhile (· != '\x7d') with
    | _ :: after => (charOf? (rest.takeWhile (· != '\x7d'))).map (·, after)
    | [] => none
  | 'u' :: d₁ :: d₂ :: d₃ :: d₄ :: rest => (charOf? [d₁, d₂, d₃, d₄]).map (·, rest)
  | c :: rest => (letterOf? c).map (·, rest)
  | [] => none

def pushSource (front : List Char) (result : List Char × List Char) : List Char × List Char :=
  (front ++ result.1, result.2)

mutual

/-- The code up to the brace that closes it, and the text after that brace. What is open inside of
the code is on the stack. -/
def readCode (stack : List Frame) : List Char → Option (List Char × List Char)
  | [] => none
  | '"' :: rest => (readLiteral stack rest).map (pushSource ['"'])
  | '\x7b' :: rest => (readCode (.brace :: stack) rest).map (pushSource ['\x7b'])
  | '\x7d' :: rest =>
    match stack with
    | [] => some ([], rest)
    | .embedding :: outer => (readLiteral outer rest).map (pushSource ['\x7d'])
    | _ :: outer => (readCode outer rest).map (pushSource ['\x7d'])
  | c :: rest => (readCode stack rest).map (pushSource [c])

/-- The same for a text that starts inside of a literal in the code. -/
def readLiteral (stack : List Frame) : List Char → Option (List Char × List Char)
  | [] => none
  | '\\' :: c :: rest => (readLiteral stack rest).map (pushSource ['\\', c])
  | '#' :: '\x7b' :: rest => (readCode (.embedding :: stack) rest).map (pushSource ['#', '\x7b'])
  | '"' :: rest => (readCode stack rest).map (pushSource ['"'])
  | c :: rest => (readLiteral stack rest).map (pushSource [c])

end

/-- What a number sign in front of them makes into something else than a letter. -/
def openers : List Char := ['\x7b', '$', '@']

/-- What the inside of a literal starts with, and the text after it. -/
def atom? : List Char → Option (Atom × List Char)
  | [] => none
  | '\\' :: rest => (escaped? rest).map fun (c, after) => (.letter c, after)
  | '#' :: c :: rest =>
    if c = '\x7b' then (readCode [] rest).map fun (source, after) => (.code source, after)
    else if openers.contains c then
      some (.named (c :: rest.takeWhile isWordChar), rest.dropWhile isWordChar)
    else some (.letter '#', c :: rest)
  | c :: rest => if c = '"' then none else some (.letter c, rest)

section Source

variable {stack outer : List Frame} {c : Char} {front text rest source after : List Char}

@[simp]
theorem map_pushSource_nil (result : Option (List Char × List Char)) :
    result.map (pushSource []) = result := by
  cases result <;> rfl

theorem map_pushSource_map_pushSource (first second : List Char)
    (result : Option (List Char × List Char)) :
    (result.map (pushSource second)).map (pushSource first) =
      result.map (pushSource (first ++ second)) := by
  cases result <;> simp [pushSource]

theorem readCode_plain (hquote : c ≠ '"') (hopening : c ≠ '\x7b') (hclosing : c ≠ '\x7d') :
    readCode stack (c :: rest) = (readCode stack rest).map (pushSource [c]) := by
  rw [readCode] <;> assumption

theorem readLiteral_plain (hquote : c ≠ '"') (hbackslash : c ≠ '\\')
    (hbrace : c = '#' → Stops isBrace rest) :
    readLiteral stack (c :: rest) = (readLiteral stack rest).map (pushSource [c]) := by
  rw [readLiteral]
  · rintro d rest rfl
    exact absurd rfl hbackslash
  · rintro others rfl rfl
    exact absurd (Text.stops_cons.1 (hbrace rfl)) (by decide)
  · rintro rfl
    exact absurd rfl hquote

theorem eq_append_of_map_pushSource {result : Option (List Char × List Char)}
    (hrest : ∀ source after, result = some (source, after) → rest = source ++ '\x7d' :: after)
    (h : result.map (pushSource front) = some (source, after)) :
    front ++ rest = source ++ '\x7d' :: after := by
  obtain ⟨⟨inner, others⟩, hresult, heq⟩ := Option.map_eq_some_iff.1 h
  obtain ⟨rfl, rfl⟩ := Prod.mk.inj heq
  rw [hrest inner others hresult, List.append_assoc]

/-- Embedded code is the text itself up to a brace. -/
theorem eq_append_of_readCode (h : readCode stack text = some (source, after)) :
    text = source ++ '\x7d' :: after := by
  suffices hboth : (∀ stack text source after, readCode stack text = some (source, after) →
      text = source ++ '\x7d' :: after) ∧ ∀ stack text source after,
        readLiteral stack text = some (source, after) → text = source ++ '\x7d' :: after from
    hboth.1 stack text source after h
  clear h
  apply readCode.mutual_induct
    (fun stack text => ∀ source after, readCode stack text = some (source, after) →
      text = source ++ '\x7d' :: after)
    (fun stack text => ∀ source after, readLiteral stack text = some (source, after) →
      text = source ++ '\x7d' :: after)
  case case1 | case8 =>
    intro stack source after h
    cases h
  case case4 =>
    intro rest source after h
    obtain ⟨rfl, rfl⟩ := Prod.mk.inj (Option.some.inj h)
    rfl
  case case6 =>
    intro rest frame outer hframe ih source after h
    rw [readCode] at h
    · exact eq_append_of_map_pushSource ih h
    · exact hframe
  case case7 =>
    intro stack c rest hquote hopening hclosing ih source after h
    rw [readCode_plain hquote hopening hclosing] at h
    exact eq_append_of_map_pushSource ih h
  case case12 =>
    intro stack c rest hbackslash hbrace hquote ih source after h
    rw [readLiteral] at h
    · exact eq_append_of_map_pushSource ih h
    · exact hbackslash
    · exact hbrace
    · exact hquote
  all_goals
    intros
    exact eq_append_of_map_pushSource ‹_› ‹_›

end Source

theorem eq_of_map_pair {α β : Type} {first : Option α} {item : α} {rest after : β}
    (h : first.map (·, rest) = some (item, after)) : after = rest := by
  obtain ⟨_, -, heq⟩ := Option.map_eq_some_iff.1 h
  exact (Prod.mk.inj heq).2.symm

theorem length_lt_of_escaped? {text after : List Char} {c : Char}
    (h : escaped? text = some (c, after)) : after.length < text.length := by
  unfold escaped? at h
  split at h
  · rw [eq_of_map_pair h, List.length_cons, List.length_cons, List.length_cons]
    omega
  · next rest =>
      split at h
      · next hrest =>
          have hle := (rest.dropWhile_sublist (· != '\x7d')).length_le
          rw [hrest, List.length_cons] at hle
          rw [eq_of_map_pair h, List.length_cons, List.length_cons]
          omega
      · cases h
  · rw [eq_of_map_pair h]
    simp only [List.length_cons]
    omega
  · rw [eq_of_map_pair h, List.length_cons]
    exact Nat.lt_succ_self _
  · cases h

theorem length_lt_of_atom? {text after : List Char} {atom : Atom}
    (h : atom? text = some (atom, after)) : after.length < text.length := by
  unfold atom? at h
  split at h
  · cases h
  · obtain ⟨⟨c, others⟩, hescaped, heq⟩ := Option.map_eq_some_iff.1 h
    obtain ⟨-, rfl⟩ := Prod.mk.inj heq
    exact (length_lt_of_escaped? hescaped).trans (Nat.lt_succ_self _)
  · next c rest =>
      split_ifs at h
      · obtain ⟨⟨source, others⟩, hcode, heq⟩ := Option.map_eq_some_iff.1 h
        obtain ⟨-, rfl⟩ := Prod.mk.inj heq
        rw [eq_append_of_readCode hcode]
        simp only [List.length_cons, List.length_append]
        omega
      · obtain ⟨-, rfl⟩ := Prod.mk.inj (Option.some.inj h)
        have hle := (rest.dropWhile_sublist isWordChar).length_le
        simp only [List.length_cons]
        omega
      · obtain ⟨-, rfl⟩ := Prod.mk.inj (Option.some.inj h)
        exact Nat.lt_succ_self _
  · split_ifs at h
    obtain ⟨-, rfl⟩ := Prod.mk.inj (Option.some.inj h)
    exact Nat.lt_succ_self _

/-- The inside of a literal, unless a quote ends it or an escape makes no sense. -/
def readBody : List Char → Option (List Atom)
  | [] => some []
  | c :: rest =>
    match _hatom : atom? (c :: rest) with
    | none => none
    | some (atom, after) => (readBody after).map (atom :: ·)
termination_by text => text.length
decreasing_by exact length_lt_of_atom? ‹_›

theorem readBody_of_atom? {text after : List Char} {atom : Atom}
    (h : atom? text = some (atom, after)) :
    readBody text = (readBody after).map (atom :: ·) := by
  cases text with
  | nil => cases h
  | cons c rest =>
      rw [readBody]
      split
      · next hnone => cases hnone.symm.trans h
      · next other rest hsome =>
          obtain ⟨rfl, rfl⟩ := Prod.mk.inj (Option.some.inj (hsome.symm.trans h))
          rfl

theorem exists_of_readBody_eq_cons {text : List Char} {atom : Atom} {more : List Atom}
    (h : readBody text = some (atom :: more)) :
    ∃ after, atom? text = some (atom, after) := by
  cases text with
  | nil =>
      rw [readBody] at h
      cases h
  | cons c rest =>
      rw [readBody] at h
      split at h
      · cases h
      · next other after hsome =>
          obtain ⟨others, -, heq⟩ := Option.map_eq_some_iff.1 h
          obtain ⟨rfl, -⟩ := List.cons.inj heq
          exact ⟨after, hsome⟩

/-- A number sign in front of an opener is no letter. -/
theorem ne_letter_of_atom? {opener c : Char} (hopener : openers.contains opener)
    {rest after : List Char} {atom : Atom}
    (h : atom? ('#' :: opener :: rest) = some (atom, after)) : atom ≠ .letter c := by
  rw [atom?] at h
  split_ifs at h
  · obtain ⟨_, -, heq⟩ := Option.map_eq_some_iff.1 h
    rw [← (Prod.mk.inj heq).1]
    exact Atom.noConfusion
  · rw [← (Prod.mk.inj (Option.some.inj h)).1]
    exact Atom.noConfusion

/-- Embedded code is no letter, and neither is the escaped letter behind it. -/
example : readBody "#\x7bf\x7b\"\x7d\"\x7d\x7d\\u00e9#@b!".toList = some [
    .code "f\x7b\"\x7d\"\x7d".toList, .letter 'é', .named "@b".toList, .letter '!'] := by
  cbv

/-- The texts that start at those characters of an inside that no backslash escapes. -/
def unescaped : List Char → List (List Char)
  | [] => []
  | '\\' :: _ :: rest => unescaped rest
  | c :: rest => (c :: rest) :: unescaped rest

/-! ### Balanced code -/

/-- Code that closes the braces and the literals it opens. -/
def Balanced (text : List Char) : Prop :=
  ∀ stack rest, readCode stack (text ++ rest) = (readCode stack rest).map (pushSource text)

namespace Balanced

variable {text first second : List Char}

theorem nil : Balanced [] := fun _ _ => by simp

theorem append (hfirst : Balanced first) (hsecond : Balanced second) :
    Balanced (first ++ second) := by
  intro stack rest
  rw [List.append_assoc, hfirst, hsecond, map_pushSource_map_pushSource]

theorem bare (h : ∀ c ∈ text, c ∉ ['"', '\x7b', '\x7d']) : Balanced text := by
  induction text with
  | nil => exact nil
  | cons c text ih =>
      rw [List.forall_mem_cons] at h
      have hc := h.1
      simp only [List.mem_cons, List.not_mem_nil, or_false, not_or] at hc
      have hfirst : Balanced [c] := fun stack rest => readCode_plain hc.1 hc.2.1 hc.2.2
      exact hfirst.append (ih h.2)

theorem braced (h : Balanced text) : Balanced ('\x7b' :: text ++ ['\x7d']) := by
  intro stack rest
  have hopening : readCode stack ('\x7b' :: text ++ ['\x7d'] ++ rest) =
      (readCode (.brace :: stack) (text ++ '\x7d' :: rest)).map (pushSource ['\x7b']) := by
    rw [List.cons_append, List.cons_append, List.append_assoc]
    rfl
  have hclosing : readCode (.brace :: stack) ('\x7d' :: rest) =
      (readCode stack rest).map (pushSource ['\x7d']) := rfl
  rw [hopening, h, hclosing, map_pushSource_map_pushSource, map_pushSource_map_pushSource]
  rfl

theorem literal (h : ∀ stack rest, readLiteral stack (text ++ '"' :: rest) =
    (readLiteral stack ('"' :: rest)).map (pushSource text)) : Balanced ('"' :: text ++ ['"']) := by
  intro stack rest
  have hopening : readCode stack ('"' :: text ++ ['"'] ++ rest) =
      (readLiteral stack (text ++ '"' :: rest)).map (pushSource ['"']) := by
    rw [List.cons_append, List.cons_append, List.append_assoc]
    rfl
  have hclosing : readLiteral stack ('"' :: rest) =
      (readCode stack rest).map (pushSource ['"']) := rfl
  rw [hopening, h, hclosing, map_pushSource_map_pushSource, map_pushSource_map_pushSource]
  rfl

/-- Balanced code in a literal inside of other code. -/
theorem readLiteral_embedded (h : Balanced text) (stack : List Frame) (rest : List Char) :
    readLiteral stack ('#' :: '\x7b' :: text ++ ['\x7d'] ++ rest) =
      (readLiteral stack rest).map (pushSource ('#' :: '\x7b' :: text ++ ['\x7d'])) := by
  have hopening : readLiteral stack ('#' :: '\x7b' :: text ++ ['\x7d'] ++ rest) =
      (readCode (.embedding :: stack) (text ++ '\x7d' :: rest)).map (pushSource ['#', '\x7b']) := by
    rw [List.cons_append, List.cons_append, List.cons_append, List.cons_append, List.append_assoc]
    rfl
  have hclosing : readCode (.embedding :: stack) ('\x7d' :: rest) =
      (readLiteral stack rest).map (pushSource ['\x7d']) := rfl
  rw [hopening, h, hclosing, map_pushSource_map_pushSource, map_pushSource_map_pushSource]
  rfl

/-- Balanced code ends at the brace behind it. -/
theorem readBody_embedded (h : Balanced text) (rest : List Char) :
    readBody ('#' :: '\x7b' :: text ++ ['\x7d'] ++ rest) =
      (readBody rest).map (.code text :: ·) := by
  have hclosing : readCode [] ('\x7d' :: rest) = some ([], rest) := rfl
  have hcode : readCode [] (text ++ '\x7d' :: rest) = some (text, rest) := by
    rw [h, hclosing, Option.map_some, pushSource, List.append_nil]
  refine readBody_of_atom? ?_
  rw [List.cons_append, List.cons_append, List.cons_append, List.cons_append, List.append_assoc,
    List.singleton_append, atom?, if_pos rfl, hcode]
  rfl

end Balanced

end RubyPress.Ruby
