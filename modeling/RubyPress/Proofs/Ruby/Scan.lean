import RubyPress.Proofs.Text.Run
import RubyPress.Proofs.Ruby.Token

/-!
# Scanning Ruby text

A scanner that knows how a Ruby text is nested: brackets, string literals with the code embedded in
them, and the regions from `def`, `class`, `module` and `case` to `end`. It cuts the text at a given
character wherever nothing is open.

A part of a text is seen by its effect on what is open. `Segment` is that effect, for a part in
front of any other text; the two marks of a segment say on which side it may touch a word.
-/

namespace RubyPress.Ruby

open SymbolName (isIdentifierChar isIdentifier)
open Text (Stops)

/-- What can be open at a place in a text. -/
inductive Frame where
  | paren
  | bracket
  | brace
  /-- Code embedded in a string literal. -/
  | embedding
  /-- What stands between one of four keywords and its `end`. -/
  | region
  deriving DecidableEq

def isWordChar (c : Char) : Bool :=
  isIdentifierChar c || c == '@' || c == '$'

/-- The characters that carry on a word; a name can have a closing mark. -/
def continuesWord (c : Char) : Bool :=
  isWordChar c || c == '?' || c == '!'

def wordAt (text : List Char) : List Char :=
  let word := text.takeWhile isWordChar
  match text.dropWhile isWordChar with
  | c :: _ => if c = '?' ∨ c = '!' then word ++ [c] else word
  | [] => word

def passWord (word : List Char) (stack : List Frame) : Option (List Frame) :=
  if ["def".toList, "class".toList, "module".toList, "case".toList].contains word then
    some (.region :: stack)
  else if word = "end".toList then
    match stack with
    | .region :: outer => some outer
    | _ => none
  else some stack

/-- What is open after a character that belongs to no word, and whether it is inside of a literal. -/
def passSymbol (c : Char) (stack : List Frame) : Option (Bool × List Frame) :=
  match c, stack with
  | '(', stack => some (false, .paren :: stack)
  | '[', stack => some (false, .bracket :: stack)
  | '\x7b', stack => some (false, .brace :: stack)
  | ')', .paren :: outer => some (false, outer)
  | ']', .bracket :: outer => some (false, outer)
  | '\x7d', .brace :: outer => some (false, outer)
  | '\x7d', .embedding :: outer => some (true, outer)
  | '"', stack => some (true, stack)
  | c, stack => if [')', ']', '\x7d'].contains c then none else some (false, stack)

def prepend (front : List Char) : List (List Char) → List (List Char)
  | [] => []
  | piece :: pieces => (front ++ piece) :: pieces

mutual

/-- The pieces of a text outside of literals, unless it closes what is not open or leaves something
open. -/
def scan (cut : Char) (inWord : Bool) (stack : List Frame) :
    List Char → Option (List (List Char))
  | [] => if stack.isEmpty then some [[]] else none
  | c :: rest =>
    if isWordChar c then
      if inWord then (scan cut true stack rest).map (prepend [c])
      else
        match passWord (wordAt (c :: rest)) stack with
        | none => none
        | some stack => (scan cut true stack rest).map (prepend [c])
    else if c = cut ∧ stack.isEmpty then (scan cut false [] rest).map ([] :: ·)
    else
      match passSymbol c stack with
      | none => none
      | some (false, stack) => (scan cut false stack rest).map (prepend [c])
      | some (true, stack) => (scanLiteral cut stack rest).map (prepend [c])

/-- The pieces of a text that starts inside of a literal. -/
def scanLiteral (cut : Char) (stack : List Frame) : List Char → Option (List (List Char))
  | [] => none
  | '\\' :: c :: rest => (scanLiteral cut stack rest).map (prepend ['\\', c])
  | '#' :: '\x7b' :: rest =>
    (scan cut false (.embedding :: stack) rest).map (prepend ['#', '\x7b'])
  | '"' :: rest => (scan cut false stack rest).map (prepend ['"'])
  | c :: rest => (scanLiteral cut stack rest).map (prepend [c])

end

/-- The pieces of a text between the cuts at its outermost level. -/
def split (cut : Char) (source : String) : Option (List (List Char)) :=
  scan cut false [] source.toList

@[simp]
theorem prepend_nil (pieces : List (List Char)) : prepend [] pieces = pieces := by
  cases pieces <;> rfl

@[simp]
theorem prepend_prepend (first second : List Char) (pieces : List (List Char)) :
    prepend first (prepend second pieces) = prepend (first ++ second) pieces := by
  cases pieces with
  | nil => rfl
  | cons piece pieces => simp [prepend]

@[simp]
theorem map_prepend_nil (pieces : Option (List (List Char))) :
    pieces.map (prepend []) = pieces := by
  cases pieces <;> simp

theorem map_prepend_map_prepend (first second : List Char) (pieces : Option (List (List Char))) :
    (pieces.map (prepend second)).map (prepend first) = pieces.map (prepend (first ++ second)) := by
  rw [Option.map_map]
  congr 1
  funext others
  exact prepend_prepend first second others

section Steps

variable {cut : Char} {inWord : Bool} {stack after : List Frame} {c : Char} {rest : List Char}

theorem scan_letter (hc : isWordChar c) :
    scan cut true stack (c :: rest) = (scan cut true stack rest).map (prepend [c]) := if_pos hc

/-- The word decides what is open before its letters are passed. -/
theorem scan_firstLetter (hc : isWordChar c)
    (hpass : passWord (wordAt (c :: rest)) stack = some after) :
    scan cut false stack (c :: rest) = (scan cut true after rest).map (prepend [c]) := by
  refine (if_pos hc).trans ((if_neg Bool.false_ne_true).trans ?_)
  rw [hpass]

theorem scan_cut (hc : isWordChar cut = false) :
    scan cut inWord [] (cut :: rest) = (scan cut false [] rest).map ([] :: ·) :=
  (if_neg (by simp [hc])).trans (if_pos ⟨rfl, rfl⟩)

theorem scan_symbol (hc : isWordChar c = false) (hcut : c ≠ cut ∨ stack ≠ []) {literal : Bool}
    (hpass : passSymbol c stack = some (literal, after)) :
    scan cut inWord stack (c :: rest) =
      (if literal then scanLiteral cut after rest else scan cut false after rest).map
        (prepend [c]) := by
  have hnot : ¬(c = cut ∧ stack.isEmpty) := by
    rw [List.isEmpty_iff]
    exact fun h => hcut.elim (· h.1) (· h.2)
  refine (if_neg (by simp [hc])).trans ((if_neg hnot).trans ?_)
  rw [hpass]
  cases literal <;> rfl

theorem scanLiteral_escaped : scanLiteral cut stack ('\\' :: c :: rest) =
    (scanLiteral cut stack rest).map (prepend ['\\', c]) := rfl

theorem scanLiteral_opening : scanLiteral cut stack ('#' :: '\x7b' :: rest) =
    (scan cut false (.embedding :: stack) rest).map (prepend ['#', '\x7b']) := rfl

theorem scanLiteral_closing : scanLiteral cut stack ('"' :: rest) =
    (scan cut false stack rest).map (prepend ['"']) := rfl

end Steps

/-! ### Segments -/

/-- The text takes what is open from `before` to `after`, whatever follows it. A `fresh` segment can
follow a word, and a `closed` one can be followed by a word; the empty text is one or the other. -/
structure Segment (cut : Char) (before : List Frame) (fresh : Bool) (text : List Char)
    (after : List Frame) (closed : Bool) : Prop where
  starts : fresh → ∀ rest, (closed = false → Stops continuesWord rest) →
    Stops continuesWord (text ++ rest)
  scans : ∀ rest, (closed = false → Stops continuesWord rest) →
    scan cut false before (text ++ rest) = (scan cut false after rest).map (prepend text)

namespace Segment

variable {cut : Char} {before middle after : List Frame} {fresh closed : Bool}
  {text first second : List Char}

theorem nil : Segment cut before false [] before true :=
  ⟨fun h => absurd h (by decide), fun rest _ => by simp⟩

theorem nilFresh : Segment cut before true [] before false :=
  ⟨fun _ rest hrest => hrest rfl, fun rest _ => by simp⟩

theorem loosen (h : Segment cut before fresh text after closed) :
    Segment cut before false text after false :=
  ⟨fun h => absurd h (by decide), fun rest hrest => h.scans rest fun _ => hrest rfl⟩

theorem loosenEnd (h : Segment cut before fresh text after closed) :
    Segment cut before fresh text after false :=
  ⟨fun hfresh rest hrest => h.starts hfresh rest fun _ => hrest rfl,
    fun rest hrest => h.scans rest fun _ => hrest rfl⟩

/-- Two segments follow each other unless both touch a word there. -/
theorem append {end₁ start₂ : Bool} (hfirst : Segment cut before fresh first middle end₁)
    (hsecond : Segment cut middle start₂ second after closed)
    (h : (end₁ || start₂) = true) :
    Segment cut before fresh (first ++ second) after closed := by
  have htouch (rest : List Char) (hrest : closed = false → Stops continuesWord rest) :
      end₁ = false → Stops continuesWord (second ++ rest) := by
    rintro rfl
    exact hsecond.starts h rest hrest
  refine ⟨fun hfresh rest hrest => ?_, fun rest hrest => ?_⟩
  · rw [List.append_assoc]
    exact hfirst.starts hfresh _ (htouch rest hrest)
  · rw [List.append_assoc, hfirst.scans _ (htouch rest hrest), hsecond.scans rest hrest,
      map_prepend_map_prepend]

end Segment

theorem scan_true_of_stops {cut : Char} {stack : List Frame} {rest : List Char}
    (hrest : Stops isWordChar rest) : scan cut true stack rest = scan cut false stack rest := by
  cases rest with
  | nil => rfl
  | cons c rest =>
      have hc : ¬isWordChar c := by simp [Text.stops_cons.1 hrest]
      exact (if_neg hc).trans (if_neg hc).symm

theorem stops_isWordChar {rest : List Char} (hrest : Stops continuesWord rest) :
    Stops isWordChar rest := by
  intro c hc
  have := hrest c hc
  simp only [continuesWord, Bool.or_eq_false_iff] at this
  exact this.1.1

theorem scan_true_append {cut : Char} {stack : List Frame} {word rest : List Char}
    (hword : ∀ c ∈ word, isWordChar c) :
    scan cut true stack (word ++ rest) = (scan cut true stack rest).map (prepend word) := by
  induction word with
  | nil => simp
  | cons c word ih =>
      rw [List.forall_mem_cons] at hword
      rw [List.cons_append, scan_letter hword.1, ih hword.2, map_prepend_map_prepend]
      rfl

theorem wordAt_append {word rest : List Char} (hword : ∀ c ∈ word, isWordChar c)
    (hrest : Stops continuesWord rest) : wordAt (word ++ rest) = word := by
  have hstops := stops_isWordChar hrest
  unfold wordAt
  rw [Text.takeWhile_append_of_stops hword hstops, Text.dropWhile_append_of_stops hword hstops]
  cases rest with
  | nil => rfl
  | cons c rest =>
      rw [Text.stops_cons] at hrest
      simp only [continuesWord, Bool.or_eq_false_iff, beq_eq_false_iff_ne] at hrest
      simp only [hrest.1.2, hrest.2, or_self, if_false]

theorem wordAt_mark {word rest : List Char} {mark : Char} (hword : ∀ c ∈ word, isWordChar c)
    (hmark : mark = '?' ∨ mark = '!') : wordAt (word ++ mark :: rest) = word ++ [mark] := by
  have hstops : Stops isWordChar (mark :: rest) := by
    rcases hmark with rfl | rfl <;> exact Text.stops_cons.2 (by decide)
  unfold wordAt
  rw [Text.takeWhile_append_of_stops hword hstops, Text.dropWhile_append_of_stops hword hstops]
  simp only [hmark, if_true]

namespace Segment

variable {cut : Char} {before after : List Frame} {letters : List Char}

theorem scan_word (hne : letters ≠ []) (hword : ∀ c ∈ letters, isWordChar c) (rest : List Char)
    (hpass : passWord (wordAt (letters ++ rest)) before = some after) :
    scan cut false before (letters ++ rest) = (scan cut true after rest).map (prepend letters) := by
  obtain ⟨c, others, rfl⟩ := List.exists_cons_of_ne_nil hne
  have hcons : scan cut true after (c :: others ++ rest) =
      (scan cut true after rest).map (prepend (c :: others)) := scan_true_append hword
  rw [List.forall_mem_cons] at hword
  rw [List.cons_append] at hpass hcons ⊢
  rw [scan_letter hword.1] at hcons
  rw [scan_firstLetter hword.1 hpass]
  exact hcons

theorem word (hne : letters ≠ []) (hword : ∀ c ∈ letters, isWordChar c)
    (hpass : passWord letters before = some after) :
    Segment cut before false letters after false := by
  refine ⟨fun h => absurd h (by decide), fun rest hrest => ?_⟩
  have hstops := hrest rfl
  rw [scan_word hne hword rest (by rw [wordAt_append hword hstops, hpass]),
    scan_true_of_stops (stops_isWordChar hstops)]

theorem symbol (c : Char) (hword : isWordChar c = false) (hcut : c ≠ cut ∨ before ≠ [])
    (hpass : passSymbol c before = some (false, after)) :
    Segment cut before (!continuesWord c) [c] after true := by
  refine ⟨fun hfresh rest _ => ?_, fun rest _ => ?_⟩
  · exact Text.stops_cons.2 (by simpa using hfresh)
  · exact scan_symbol hword hcut hpass

end Segment

def cuts : List Char := ['\n', ';', ',']

/-- Characters that are passed without any effect. -/
def isInert (c : Char) : Bool :=
  !isWordChar c && !("()[]\x7b\x7d\"".toList ++ cuts).contains c

def opensFresh : List Char → Bool
  | [] => false
  | c :: _ => !continuesWord c

theorem passSymbol_of_isInert {c : Char} (h : isInert c) (stack : List Frame) :
    passSymbol c stack = some (false, stack) := by
  unfold passSymbol
  split <;> first | exact absurd h (by decide) | skip
  rw [if_neg]
  intro hclosing
  have table : ∀ d ∈ [')', ']', '\x7d'], ¬isInert d := by decide
  exact table c (by simpa using hclosing) h

theorem isKeyword_of_isDigit {digits : List Char} (hdigits : ∀ c ∈ digits, c.isDigit) :
    isKeyword (String.ofList digits) = false := by
  have table : ∀ word ∈ keywords, word.toList.all Char.isDigit = false := by decide
  rw [← Bool.not_eq_true]
  intro hkeyword
  have hletter := table _ (by simpa [isKeyword] using hkeyword)
  rw [String.toList_ofList, List.all_eq_true.2 hdigits] at hletter
  cases hletter

/-- The words that open or close a region. -/
def regionWords : List String := ["def", "class", "module", "case", "end"]

theorem passWord_of_not_region {letters : List Char} (h : String.ofList letters ∉ regionWords)
    (stack : List Frame) : passWord letters stack = some stack := by
  have hne : ∀ word ∈ regionWords, letters ≠ word.toList := by
    rintro word hword rfl
    rw [String.ofList_toList] at h
    exact h hword
  simp only [regionWords, List.forall_mem_cons] at hne
  obtain ⟨hdef, hclass, hmodule, hcase, hend, -⟩ := hne
  have hopens : ¬["def".toList, "class".toList, "module".toList, "case".toList].contains letters := by
    simp only [List.contains_eq_mem, List.mem_cons, List.not_mem_nil, or_false, decide_eq_true_eq,
      not_or]
    exact ⟨hdef, hclass, hmodule, hcase⟩
  unfold passWord
  rw [if_neg hopens, if_neg hend]

theorem passWord_of_not_keyword {letters : List Char} (h : isKeyword (String.ofList letters) = false)
    (stack : List Frame) : passWord letters stack = some stack := by
  have table : ∀ word ∈ regionWords, isKeyword word := by decide
  refine passWord_of_not_region (fun hword => ?_) stack
  rw [table _ hword] at h
  cases h

namespace Segment

variable {cut : Char} {stack : List Frame} {text : List Char}

theorem inert (hcut : cut ∈ cuts) (htext : text.all isInert) :
    Segment cut stack (opensFresh text) text stack true := by
  induction text with
  | nil => exact .nil
  | cons c text ih =>
      rw [List.all_cons, Bool.and_eq_true] at htext
      have hword : isWordChar c = false := by
        have := htext.1
        simp only [isInert, Bool.and_eq_true, Bool.not_eq_true'] at this
        exact this.1
      have hne : c ≠ cut := by
        have table : ∀ d ∈ cuts, ¬isInert d := by decide
        rintro rfl
        exact table c hcut htext.1
      have hfirst : Segment cut stack (!continuesWord c) [c] stack true :=
        symbol c hword (.inl hne) (passSymbol_of_isInert htext.1 stack)
      exact hfirst.append (ih htext.2) rfl

end Segment

/-! ### Names -/

/-- A name without a closing equals sign, which is no part of the word it starts with. -/
def withoutEquals (name : List Char) : List Char :=
  if name.getLast? = some '=' then name.dropLast else name

/-- Names that are plain and no keywords. Five names with an equals sign are left out too: `end=`
cannot be told from an `end` in front of an equals sign. -/
def isName (name : String) : Bool :=
  SymbolName.isPlain name && !isKeyword name &&
    !regionWords.contains (String.ofList (withoutEquals name.toList))

theorem isWordChar_of_isIdentifierChar {c : Char} (h : isIdentifierChar c) : isWordChar c := by
  simp [isWordChar, h]

theorem forall_isWordChar_of_isIdentifier {letters : List Char} (h : isIdentifier letters) :
    letters ≠ [] ∧ ∀ c ∈ letters, isWordChar c := by
  obtain ⟨c, others, rfl, -, hall⟩ := exists_cons_of_isIdentifier h
  exact ⟨List.cons_ne_nil _ _, fun d hd => isWordChar_of_isIdentifierChar (hall d hd)⟩

/-- A name that is no operator is a word, but for a closing mark. -/
theorem word_or_marked {name : List Char} (h : isIdentifier (SymbolName.body name)) :
    (name ≠ [] ∧ ∀ c ∈ name, isWordChar c) ∨
      ∃ letters mark, name = letters ++ [mark] ∧ (mark = '?' ∨ mark = '!' ∨ mark = '=') ∧
        letters ≠ [] ∧ ∀ c ∈ letters, isWordChar c := by
  have hat : isWordChar '@' := by decide
  have hdollar : isWordChar '$' := by decide
  unfold SymbolName.body at h
  split at h
  · next rest =>
      have hrest := (forall_isWordChar_of_isIdentifier h).2
      exact .inl ⟨List.cons_ne_nil _ _,
        List.forall_mem_cons.2 ⟨hat, List.forall_mem_cons.2 ⟨hat, hrest⟩⟩⟩
  · next rest _ =>
      have hrest := (forall_isWordChar_of_isIdentifier h).2
      exact .inl ⟨List.cons_ne_nil _ _, List.forall_mem_cons.2 ⟨hat, hrest⟩⟩
  · next rest =>
      have hrest := (forall_isWordChar_of_isIdentifier h).2
      exact .inl ⟨List.cons_ne_nil _ _, List.forall_mem_cons.2 ⟨hdollar, hrest⟩⟩
  · split at h
    · next last hlast =>
        split at h
        · next hmark =>
            refine .inr ⟨name.dropLast, last, ?_, hmark, forall_isWordChar_of_isIdentifier h⟩
            exact (List.dropLast_append_getLast? last hlast).symm
        · exact .inl (forall_isWordChar_of_isIdentifier h)
    · exact .inl (forall_isWordChar_of_isIdentifier h)

def isNameChar (c : Char) : Bool :=
  isWordChar c || "?!=+-*/%<>[]&|^~".toList.contains c

theorem isNameChar_of_isPlain {value : String} (h : SymbolName.isPlain value) :
    ∀ c ∈ value.toList, isNameChar c := by
  have hletter {letters : List Char} (hletters : ∀ c ∈ letters, isWordChar c) :
      ∀ c ∈ letters, isNameChar c := fun c hc => by simp [isNameChar, hletters c hc]
  simp only [SymbolName.isPlain, Bool.or_eq_true, List.contains_eq_mem, decide_eq_true_eq] at h
  rcases h with hoperator | hidentifier
  · have table : ∀ operator ∈ SymbolName.operators, operator.toList.all isNameChar := by decide
    exact List.all_eq_true.1 (table value hoperator)
  · rcases word_or_marked hidentifier with
      ⟨-, hletters⟩ | ⟨letters, mark, hvalue, hmark, -, hletters⟩
    · exact hletter hletters
    · rw [hvalue, List.forall_mem_append, List.forall_mem_singleton]
      refine ⟨hletter hletters, ?_⟩
      rcases hmark with rfl | rfl | rfl <;> decide

namespace Segment

variable {cut : Char} {stack : List Frame}

theorem marked {letters : List Char} {mark : Char} (hcut : cut ∈ cuts) (hne : letters ≠ [])
    (hword : ∀ c ∈ letters, isWordChar c) (hmark : mark = '?' ∨ mark = '!')
    (hkeyword : isKeyword (String.ofList (letters ++ [mark])) = false) :
    Segment cut stack false (letters ++ [mark]) stack true := by
  have hinert : [mark].all isInert := by rcases hmark with rfl | rfl <;> decide
  have hstops (rest : List Char) : Stops isWordChar (mark :: rest) := by
    rcases hmark with rfl | rfl <;> exact Text.stops_cons.2 (by decide)
  refine ⟨fun h => absurd h (by decide), fun rest hrest => ?_⟩
  have hpass : passWord (wordAt (letters ++ mark :: rest)) stack = some stack := by
    rw [wordAt_mark hword hmark, passWord_of_not_keyword hkeyword]
  have hscan : scan cut false stack (mark :: rest) =
      (scan cut false stack rest).map (prepend [mark]) := (inert hcut hinert).scans rest hrest
  rw [List.append_assoc, List.singleton_append, scan_word hne hword _ hpass,
    scan_true_of_stops (hstops rest), hscan, map_prepend_map_prepend]

theorem ne_of_mem_cuts {c : Char} (hcut : cut ∈ cuts) (hc : c ∉ cuts) : c ≠ cut := by
  rintro rfl
  exact hc hcut

theorem opening {c : Char} {frame : Frame} (hcut : cut ∈ cuts)
    (hframe : (c, frame) ∈ [('(', Frame.paren), ('[', .bracket), ('\x7b', .brace)]) :
    Segment cut stack true [c] (frame :: stack) true := by
  simp only [List.mem_cons, Prod.mk.injEq, List.not_mem_nil, or_false] at hframe
  rcases hframe with ⟨rfl, rfl⟩ | ⟨rfl, rfl⟩ | ⟨rfl, rfl⟩
  · exact symbol '(' (by decide) (.inl (ne_of_mem_cuts hcut (by decide))) rfl
  · exact symbol '[' (by decide) (.inl (ne_of_mem_cuts hcut (by decide))) rfl
  · exact symbol '\x7b' (by decide) (.inl (ne_of_mem_cuts hcut (by decide))) rfl

theorem closing {c : Char} {frame : Frame} (hcut : cut ∈ cuts)
    (hframe : (c, frame) ∈ [(')', Frame.paren), (']', .bracket), ('\x7d', .brace)]) :
    Segment cut (frame :: stack) true [c] stack true := by
  simp only [List.mem_cons, Prod.mk.injEq, List.not_mem_nil, or_false] at hframe
  rcases hframe with ⟨rfl, rfl⟩ | ⟨rfl, rfl⟩ | ⟨rfl, rfl⟩
  · exact symbol ')' (by decide) (.inl (ne_of_mem_cuts hcut (by decide))) rfl
  · exact symbol ']' (by decide) (.inl (ne_of_mem_cuts hcut (by decide))) rfl
  · exact symbol '\x7d' (by decide) (.inl (ne_of_mem_cuts hcut (by decide))) rfl

theorem brackets (hcut : cut ∈ cuts) : Segment cut stack true ['[', ']'] stack true :=
  (opening hcut (by decide : ('[', Frame.bracket) ∈ _)).append (closing hcut (by decide)) rfl

theorem name {name : String} (hcut : cut ∈ cuts) (hname : isName name) :
    Segment cut stack false name.toList stack false := by
  simp only [isName, Bool.and_eq_true, Bool.not_eq_true', SymbolName.isPlain, Bool.or_eq_true,
    List.contains_eq_mem, decide_eq_true_eq] at hname
  obtain ⟨⟨hplain | hplain, hkeyword⟩, hequals⟩ := hname
  · have table : ∀ operator ∈ SymbolName.operators, operator.toList.all isInert ∨
        operator = "[]" ∨ operator = "[]=" ∨ operator = "+@" ∨ operator = "-@" := by decide
    have hsign : Segment cut stack false ['@'] stack false :=
      word (by decide) (by decide) (passWord_of_not_keyword (by decide) stack)
    rcases table name hplain with hinert | rfl | rfl | rfl | rfl
    · exact (inert hcut hinert).loosen
    · exact (brackets hcut).loosen
    · exact ((brackets hcut).append (inert hcut (by decide : ['='].all isInert)) rfl).loosen
    · exact ((inert hcut (by decide : ['+'].all isInert)).append hsign rfl).loosen
    · exact ((inert hcut (by decide : ['-'].all isInert)).append hsign rfl).loosen
  · rcases word_or_marked hplain with ⟨hne, hword⟩ | ⟨letters, mark, hletters, hmark, hne, hword⟩
    · refine word hne hword (passWord_of_not_keyword ?_ stack)
      rwa [String.ofList_toList]
    · have hwhole : isKeyword (String.ofList (letters ++ [mark])) = false := by
        rwa [← hletters, String.ofList_toList]
      rw [hletters] at hequals ⊢
      rcases hmark with hmark | hmark | rfl
      · exact (marked hcut hne hword (.inl hmark) hwhole).loosen
      · exact (marked hcut hne hword (.inr hmark) hwhole).loosen
      · rw [withoutEquals, if_pos (by simp), List.dropLast_concat] at hequals
        have hword : Segment cut stack false letters stack false :=
          word hne hword (passWord_of_not_region (by simpa using hequals) stack)
        exact (hword.append (inert hcut (by decide : ['='].all isInert)) rfl).loosen

theorem join {joiner : List Char} {texts : List (List Char)}
    (hjoiner : Segment cut stack true joiner stack true)
    (htexts : ∀ text ∈ texts, Segment cut stack false text stack false) :
    Segment cut stack false (joiner.intercalate texts) stack false := by
  induction texts with
  | nil => exact nil.loosen
  | cons text texts ih =>
      rw [List.forall_mem_cons] at htexts
      cases texts with
      | nil =>
          rw [List.intercalate_singleton]
          exact htexts.1
      | cons second texts =>
          rw [List.intercalate_cons_cons]
          exact (htexts.1.append hjoiner rfl).append (ih htexts.2) rfl

/-- Texts that leave nothing open are found again between the cuts. -/
theorem scan_intercalate (hcut : cut ∈ cuts) {text : List Char} {texts : List (List Char)}
    (htexts : ∀ content ∈ text :: texts, Segment cut [] false content [] false) :
    scan cut false [] ([cut].intercalate (text :: texts)) = some (text :: texts) := by
  have table : ∀ c ∈ cuts, continuesWord c = false ∧ isWordChar c = false := by decide
  obtain ⟨hcontinues, hword⟩ := table cut hcut
  induction texts generalizing text with
  | nil =>
      rw [List.forall_mem_singleton] at htexts
      have hscan := htexts.scans [] fun _ => Text.stops_nil
      rw [List.append_nil] at hscan
      rw [List.intercalate_singleton, hscan]
      simp [show scan cut false [] [] = some [[]] from rfl, prepend]
  | cons second texts ih =>
      rw [List.forall_mem_cons] at htexts
      rw [List.intercalate_cons_cons, List.append_assoc, List.singleton_append,
        htexts.1.scans _ fun _ => Text.stops_cons.2 hcontinues, scan_cut hword,
        ih htexts.2]
      simp [prepend]

end Segment

def isBrace (c : Char) : Bool := c == '\x7b'

/-- Text inside of a literal that neither ends it nor opens anything, as long as no brace follows. -/
def Inside (cut : Char) (stack : List Frame) (text : List Char) : Prop :=
  ∀ rest, Stops isBrace rest →
    scanLiteral cut stack (text ++ rest) = (scanLiteral cut stack rest).map (prepend text)

theorem scanLiteral_plain {cut : Char} {stack : List Frame} {c : Char} {rest : List Char}
    (hquote : c ≠ '"') (hbackslash : c ≠ '\\') (hbrace : c = '#' → Stops isBrace rest) :
    scanLiteral cut stack (c :: rest) = (scanLiteral cut stack rest).map (prepend [c]) := by
  rw [scanLiteral]
  · rintro d rest rfl
    exact absurd rfl hbackslash
  · rintro others rfl rfl
    exact absurd (Text.stops_cons.1 (hbrace rfl)) (by decide)
  · rintro rfl
    exact absurd rfl hquote

theorem scanLiteral_embedded {cut : Char} {stack : List Frame} {text : List Char}
    {fresh closed : Bool}
    (h : Segment cut (.embedding :: stack) fresh text (.embedding :: stack) closed)
    (rest : List Char) :
    scanLiteral cut stack (['#', '\x7b'] ++ (text ++ ['\x7d']) ++ rest) =
      (scanLiteral cut stack rest).map (prepend (['#', '\x7b'] ++ (text ++ ['\x7d']))) := by
  have hstops : closed = false → Stops continuesWord ('\x7d' :: rest) :=
    fun _ => Text.stops_cons.2 (by decide)
  have hbrace : scan cut false (.embedding :: stack) ('\x7d' :: rest) =
      (scanLiteral cut stack rest).map (prepend ['\x7d']) := by
    have hpass : passSymbol '\x7d' (.embedding :: stack) = some (true, stack) := rfl
    exact scan_symbol (by decide) (.inr (List.cons_ne_nil _ _)) hpass
  have htext : ['#', '\x7b'] ++ (text ++ ['\x7d']) ++ rest =
      '#' :: '\x7b' :: (text ++ '\x7d' :: rest) := by simp
  rw [htext, scanLiteral_opening, h.scans _ hstops, hbrace, map_prepend_map_prepend,
    map_prepend_map_prepend]
  rfl

theorem Segment.literal {cut : Char} {stack : List Frame} {text : List Char} (hcut : cut ∈ cuts)
    (h : Inside cut stack text) : Segment cut stack true ('"' :: text ++ ['"']) stack true := by
  refine ⟨fun _ rest _ => Text.stops_cons.2 (by decide), fun rest _ => ?_⟩
  have hopening (rest : List Char) : scan cut false stack ('"' :: rest) =
      (scanLiteral cut stack rest).map (prepend ['"']) := by
    have hpass : passSymbol '"' stack = some (true, stack) := rfl
    exact scan_symbol (by decide) (.inl (Segment.ne_of_mem_cuts hcut (by decide))) hpass
  rw [List.cons_append, List.cons_append, List.append_assoc, List.singleton_append, hopening,
    h _ (Text.stops_cons.2 (by decide)), scanLiteral_closing, map_prepend_map_prepend,
    map_prepend_map_prepend]
  rfl

end RubyPress.Ruby
