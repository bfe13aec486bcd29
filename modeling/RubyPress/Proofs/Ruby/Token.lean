import Mathlib.Tactic
import RubyPress.Proofs.Text.Run
import RubyPress.Text.SymbolName

/-!
# Tokens of Ruby expressions

How a Ruby expression falls into tokens: a run of digits, a run of identifier characters, an
instance variable with its sigil, or the longest symbol the text starts with. The last is what makes
`a--2` a minus and a negative number, and `x&&=v` an assignment and not a conjunction.

The main statement is `lex_spelling`: a token is read back from its spelling as long as what follows
does not carry it on.
-/

namespace RubyPress.Ruby

open SymbolName (isIdentifierChar isIdentifier)
open Text (Stops)

def keywords : List String :=
  ["__ENCODING__", "__FILE__", "__LINE__", "BEGIN", "END", "alias", "and", "begin", "break",
    "case", "class", "def", "defined?", "do", "else", "elsif", "end", "ensure", "false", "for",
    "if", "in", "module", "next", "nil", "not", "or", "redo", "rescue", "retry", "return", "self",
    "super", "then", "true", "undef", "unless", "until", "when", "while", "yield"]

def isKeyword (word : String) : Bool := keywords.contains word

inductive Token where
  | number (value : Nat)
  | word (text : String)
  /-- An instance variable, sigil included. -/
  | field (text : String)
  | opening
  | closing
  | bang
  | question
  | colon
  | operator (name : String)
  /-- An assignment with its operator, which is empty for a plain one. -/
  | becomes (operator : String)
  deriving DecidableEq

/-- Ruby's symbols with their tokens, longer symbols first. Those without a part in operator
expressions are here because they can be what a text starts with. -/
def symbols : List (String × Token) :=
  [("**=", .becomes "**"), ("&&=", .becomes "&&"), ("||=", .becomes "||"),
    ("<<=", .becomes "<<"), (">>=", .becomes ">>"), ("===", .operator "==="),
    ("<=>", .operator "<=>"), ("...", .operator "..."),
    ("+=", .becomes "+"), ("-=", .becomes "-"), ("*=", .becomes "*"), ("/=", .becomes "/"),
    ("%=", .becomes "%"), ("^=", .becomes "^"), ("&=", .becomes "&"), ("|=", .becomes "|"),
    ("**", .operator "**"), ("&&", .operator "&&"), ("||", .operator "||"),
    ("==", .operator "=="), ("!=", .operator "!="), ("=~", .operator "=~"),
    ("!~", .operator "!~"), ("<=", .operator "<="), (">=", .operator ">="),
    ("<<", .operator "<<"), (">>", .operator ">>"), ("=>", .operator "=>"),
    ("->", .operator "->"), ("::", .operator "::"), ("..", .operator ".."),
    ("=", .becomes ""), ("!", .bang), ("?", .question), (":", .colon), ("(", .opening),
    (")", .closing), ("+", .operator "+"), ("-", .operator "-"), ("*", .operator "*"),
    ("/", .operator "/"), ("%", .operator "%"), ("^", .operator "^"), ("<", .operator "<"),
    (">", .operator ">"), ("&", .operator "&"), ("|", .operator "|"), ("~", .operator "~"),
    (".", .operator "."), (",", .operator ","), (";", .operator ";"), ("[", .operator "["),
    ("]", .operator "]"), ("\x7b", .operator "\x7b"), ("\x7d", .operator "\x7d")]

def continuesSymbol (c : Char) : Bool :=
  ['*', '&', '|', '<', '>', '=', '~', '.', ':'].contains c

/-- The first token of a text without leading blanks, and the text after it. -/
def next : List Char → Option (Token × List Char)
  | [] => none
  | c :: rest =>
    if c.isDigit then
      some (.number (Nat.ofDigitChars 10 ((c :: rest).takeWhile Char.isDigit) 0),
        (c :: rest).dropWhile Char.isDigit)
    else if c = '@' then
      some (.field (String.ofList ('@' :: rest.takeWhile isIdentifierChar)),
        rest.dropWhile isIdentifierChar)
    else if isIdentifierChar c then
      some (.word (String.ofList ((c :: rest).takeWhile isIdentifierChar)),
        (c :: rest).dropWhile isIdentifierChar)
    else
      (symbols.find? fun symbol => symbol.1.toList.isPrefixOf (c :: rest)).map fun symbol =>
        (symbol.2, (c :: rest).drop symbol.1.toList.length)

theorem symbols_ne_nil : ∀ symbol ∈ symbols, symbol.1.toList ≠ [] := by
  decide

theorem length_lt_of_next {text rest : List Char} {token : Token}
    (h : next text = some (token, rest)) : rest.length < text.length := by
  cases text with
  | nil => simp [next] at h
  | cons c tail =>
    rw [next] at h
    split_ifs at h with hdigit hat hident
    · obtain ⟨-, rfl⟩ := Prod.mk.inj (Option.some.inj h)
      rw [List.dropWhile_cons_of_pos hdigit]
      exact Nat.lt_succ_of_le (List.dropWhile_sublist _).length_le
    · obtain ⟨-, rfl⟩ := Prod.mk.inj (Option.some.inj h)
      exact Nat.lt_succ_of_le (List.dropWhile_sublist _).length_le
    · obtain ⟨-, rfl⟩ := Prod.mk.inj (Option.some.inj h)
      rw [List.dropWhile_cons_of_pos hident]
      exact Nat.lt_succ_of_le (List.dropWhile_sublist _).length_le
    · obtain ⟨symbol, hfind, heq⟩ := Option.map_eq_some_iff.1 h
      obtain ⟨-, rfl⟩ := Prod.mk.inj heq
      have hpos := List.length_pos_iff.2 (symbols_ne_nil symbol (List.mem_of_find?_eq_some hfind))
      simp only [List.length_drop, List.length_cons]
      omega

/-- The tokens of a text; blanks divide tokens and are no tokens themselves. -/
def lex : List Char → Option (List Token)
  | [] => some []
  | c :: rest =>
    if c = ' ' then lex rest
    else
      match _hnext : next (c :: rest) with
      | none => none
      | some (token, after) => (lex after).map (token :: ·)
termination_by text => text.length
decreasing_by
  · simp
  · exact length_lt_of_next ‹_›

theorem lex_blank (text : List Char) : lex (' ' :: text) = lex text := by
  rw [lex, if_pos rfl]

theorem next_blank (text : List Char) : next (' ' :: text) = none := by
  rfl

theorem lex_of_next {text after : List Char} {token : Token}
    (hnext : next text = some (token, after)) : lex text = (lex after).map (token :: ·) := by
  cases text with
  | nil => cases hnext
  | cons c text =>
      have hblank : c ≠ ' ' := by
        rintro rfl
        rw [next_blank] at hnext
        cases hnext
      rw [lex, if_neg hblank]
      split
      · next hnone => rw [hnone] at hnext; cases hnext
      · next found hsome =>
          rw [hsome] at hnext
          obtain ⟨rfl, rfl⟩ := Prod.mk.inj (Option.some.inj hnext)
          rfl

namespace Token

def text : Token → List Char
  | number value => Nat.toDigits 10 value
  | word text => text.toList
  | field text => text.toList
  | opening => ['(']
  | closing => [')']
  | bang => ['!']
  | question => ['?']
  | colon => [':']
  | operator name => name.toList
  | becomes op => op.toList ++ ['=']

def Valid : Token → Prop
  | word text => isIdentifier text.toList
  | field text => ∃ name, text.toList = '@' :: name ∧ isIdentifier name
  | operator name => (name, operator name) ∈ symbols
  | becomes op => (op ++ "=", becomes op) ∈ symbols
  | _ => True

/-- The token ends where the given text begins: the text does not carry it on. -/
def EndsBefore : Token → List Char → Prop
  | number _, rest => Stops Char.isDigit rest
  | word _, rest => Stops isIdentifierChar rest
  | field _, rest => Stops isIdentifierChar rest
  | closing, _ => True
  | _, rest => Stops continuesSymbol rest

end Token

/-! ### Symbols

No symbol is carried on by a character that only starts symbols, so the longest symbol at the start
of a text is the one that was written. -/

theorem continuesSymbol_of_mem_tail :
    ∀ symbol ∈ symbols, ∀ c ∈ symbol.1.toList.tail, continuesSymbol c := by
  decide

theorem find?_symbols_self : ∀ symbol ∈ symbols,
    symbols.find? (fun other => other.1.toList.isPrefixOf symbol.1.toList) = some symbol := by
  decide

theorem prefix_append_cases {symbol first rest : List Char} (h : symbol <+: first ++ rest) :
    symbol <+: first ∨ ∃ c ∈ rest.head?, c ∈ symbol.drop first.length := by
  obtain ⟨after, hafter⟩ := h
  rcases List.append_eq_append_iff.1 hafter with ⟨more, hfirst, -⟩ | ⟨more, hsymbol, hrest⟩
  · exact Or.inl ⟨more, hfirst.symm⟩
  · cases more with
    | nil => exact Or.inl (by rw [hsymbol, List.append_nil])
    | cons c more =>
        refine Or.inr ⟨c, by rw [hrest]; rfl, ?_⟩
        rw [hsymbol, List.drop_left]
        exact List.mem_cons_self ..

theorem isPrefixOf_append_of_stops {symbol other : String × Token} {rest : List Char}
    (hsymbol : symbol ∈ symbols) (hother : other ∈ symbols)
    (hrest : Stops continuesSymbol rest) :
    other.1.toList.isPrefixOf (symbol.1.toList ++ rest) =
      other.1.toList.isPrefixOf symbol.1.toList := by
  rw [Bool.eq_iff_iff, List.isPrefixOf_iff_prefix, List.isPrefixOf_iff_prefix]
  constructor
  · intro hprefix
    rcases prefix_append_cases hprefix with hfirst | ⟨c, hhead, hmem⟩
    · exact hfirst
    · -- the symbol would go on with a character that starts what follows
      exfalso
      have hpos := List.length_pos_iff.2 (symbols_ne_nil symbol hsymbol)
      have htail : c ∈ other.1.toList.tail := by
        rw [← List.drop_one]
        exact (List.drop_sublist_drop_left _ hpos).subset hmem
      have hcontinues := continuesSymbol_of_mem_tail other hother c htail
      rw [hrest c hhead] at hcontinues
      cases hcontinues
  · exact List.prefix_append_of_prefix

theorem find?_symbols {symbol : String × Token} {rest : List Char} (hsymbol : symbol ∈ symbols)
    (hrest : Stops continuesSymbol rest) :
    symbols.find? (fun other => other.1.toList.isPrefixOf (symbol.1.toList ++ rest)) =
      some symbol := by
  rw [← find?_symbols_self symbol hsymbol]
  apply List.find?_congr
  intro other hother
  exact isPrefixOf_append_of_stops hsymbol hother hrest

theorem find?_symbols_closing (rest : List Char) :
    symbols.find? (fun other => other.1.toList.isPrefixOf (')' :: rest)) = some (")", .closing) := by
  rfl

theorem symbols_chars : ∀ symbol ∈ symbols, ∀ c ∈ symbol.1.toList,
    c.isDigit = false ∧ c ≠ '@' ∧ isIdentifierChar c = false := by
  decide

theorem next_symbol (symbol : String × Token) {rest : List Char} (hsymbol : symbol ∈ symbols)
    (hrest : symbol = (")", .closing) ∨ Stops continuesSymbol rest) :
    next (symbol.1.toList ++ rest) = some (symbol.2, rest) := by
  have hfind : symbols.find? (fun other => other.1.toList.isPrefixOf (symbol.1.toList ++ rest)) =
      some symbol := by
    rcases hrest with rfl | hrest
    · exact find?_symbols_closing rest
    · exact find?_symbols hsymbol hrest
  obtain ⟨c, chars, hchars⟩ := List.exists_cons_of_ne_nil (symbols_ne_nil symbol hsymbol)
  obtain ⟨hdigit, hat, hident⟩ := symbols_chars symbol hsymbol c (by simp [hchars])
  rw [hchars, List.cons_append] at hfind ⊢
  simp only [next, hdigit, hat, hident, Bool.false_eq_true, if_false, hfind, Option.map_some]
  rw [hchars, ← List.cons_append, List.drop_left]

theorem isIdentifierChar_of_isDigit {c : Char} (h : c.isDigit) : isIdentifierChar c := by
  simp [isIdentifierChar, Char.isAlphanum, h]

theorem exists_cons_of_isIdentifier {name : List Char} (h : isIdentifier name) :
    ∃ c chars, name = c :: chars ∧ c.isDigit = false ∧ ∀ d ∈ name, isIdentifierChar d := by
  cases name with
  | nil => cases h
  | cons c chars =>
      simp only [isIdentifier, Bool.and_eq_true, Bool.not_eq_true', List.all_eq_true] at h
      refine ⟨c, chars, rfl, h.1.2, ?_⟩
      intro d hd
      rcases List.mem_cons.1 hd with rfl | hd
      · exact h.1.1
      · exact h.2 d hd

theorem next_number {value : Nat} {rest : List Char} (hrest : Stops Char.isDigit rest) :
    next (Nat.toDigits 10 value ++ rest) = some (.number value, rest) := by
  have hdigits := Text.isDigit_of_mem_decimal value
  have htake := Text.takeWhile_append_of_stops hdigits hrest
  have hdrop := Text.dropWhile_append_of_stops hdigits hrest
  obtain ⟨c, chars, hchars, hc⟩ := Text.exists_decimal_cons value
  rw [hchars, List.cons_append] at htake hdrop ⊢
  rw [next, if_pos hc, htake, hdrop, ← hchars, Nat.ofDigitChars_ten_toDigits]

theorem next_word {text : String} {rest : List Char} (htext : isIdentifier text.toList)
    (hrest : Stops isIdentifierChar rest) :
    next (text.toList ++ rest) = some (.word text, rest) := by
  obtain ⟨c, chars, hchars, hdigit, hall⟩ := exists_cons_of_isIdentifier htext
  have htake := Text.takeWhile_append_of_stops hall hrest
  have hdrop := Text.dropWhile_append_of_stops hall hrest
  have hc : isIdentifierChar c := hall c (by rw [hchars]; exact List.mem_cons_self ..)
  have hat : c ≠ '@' := by
    rintro rfl
    exact absurd hc (by decide)
  rw [hchars, List.cons_append] at htake hdrop ⊢
  rw [next, if_neg (by rw [hdigit]; decide), if_neg hat, if_pos hc, htake, hdrop, ← hchars,
    String.ofList_toList]

theorem next_field {text : String} {name rest : List Char} (htext : text.toList = '@' :: name)
    (hname : isIdentifier name) (hrest : Stops isIdentifierChar rest) :
    next (text.toList ++ rest) = some (.field text, rest) := by
  obtain ⟨c, chars, -, -, hall⟩ := exists_cons_of_isIdentifier hname
  rw [htext, List.cons_append, next, if_neg (by decide), if_pos rfl,
    Text.takeWhile_append_of_stops hall hrest, Text.dropWhile_append_of_stops hall hrest, ← htext,
    String.ofList_toList]

theorem next_text {token : Token} {rest : List Char} (hvalid : token.Valid)
    (hends : token.EndsBefore rest) : next (token.text ++ rest) = some (token, rest) := by
  cases token with
  | number value => exact next_number hends
  | word text => exact next_word hvalid hends
  | field text =>
      obtain ⟨name, htext, hname⟩ := hvalid
      exact next_field htext hname hends
  | opening => exact next_symbol ("(", .opening) (by decide) (.inr hends)
  | closing => exact next_symbol (")", .closing) (by decide) (.inl rfl)
  | bang => exact next_symbol ("!", .bang) (by decide) (.inr hends)
  | question => exact next_symbol ("?", .question) (by decide) (.inr hends)
  | colon => exact next_symbol (":", .colon) (by decide) (.inr hends)
  | operator name => exact next_symbol _ hvalid (.inr hends)
  | becomes op =>
      have hnext := next_symbol _ hvalid (.inr hends)
      rwa [String.toList_append] at hnext

namespace Token

def isSpaced : Token → Bool
  | question => true
  | colon => true
  | word text => text == "if"
  | _ => false

/-- The token as it stands in a text, with the blanks that belong to it. -/
def spelling (token : Token) : List Char :=
  if token.isSpaced then ' ' :: token.text ++ [' '] else token.text

end Token

def spell (tokens : List Token) : List Char := tokens.flatMap Token.spelling

@[simp]
theorem spell_nil : spell [] = [] := rfl

@[simp]
theorem spell_cons (token : Token) (tokens : List Token) :
    spell (token :: tokens) = token.spelling ++ spell tokens := rfl

@[simp]
theorem spell_append (first second : List Token) :
    spell (first ++ second) = spell first ++ spell second :=
  List.flatMap_append

theorem Token.endsBefore_blank (token : Token) (rest : List Char) : token.EndsBefore (' ' :: rest) := by
  cases token <;> first | trivial | exact Text.stops_cons.2 (by decide)

/-- **A token is read back from its spelling**, if it has blanks around it or the text after it does
not carry it on. -/
theorem lex_spelling (token : Token) {rest : List Char} (hvalid : token.Valid)
    (hends : token.isSpaced ∨ token.EndsBefore rest) :
    lex (token.spelling ++ rest) = (lex rest).map (token :: ·) := by
  unfold Token.spelling
  split
  · rw [List.cons_append, List.cons_append, List.append_assoc, lex_blank, List.singleton_append,
      lex_of_next (next_text hvalid (token.endsBefore_blank _)), lex_blank]
  · next hspaced => exact lex_of_next (next_text hvalid (hends.resolve_left hspaced))

end RubyPress.Ruby
