import RubyPress.Proofs.Render.Lexemes

/-!
# Junctions

A symbol without quotes may run into the operator behind it, so that the two are a longer symbol and
another operator as well. These places are clashes, and they are the only ones where the text of a
formula does not tell its lexemes.
-/

namespace RubyPress.Render

open Lexeme (spell)
open SymbolName (isPlain)

/-- Symbols and operators behind them that make a longer symbol together. -/
def overlaps : List (String × String) := [("*", "*"), ("<", "<"), ("<=", ">"), (">", ">")]

/-- Two readings of one text, the first with the shorter symbol: `:***x`, `:a===x` and `:<<-1`. -/
inductive Clash : List Lexeme → List Lexeme → Prop where
  | power : Clash [.symbol "*", .operator "**"] [.symbol "**", .operator "*"]
  | equals {value : String} (hvalue : isPlain value) (hlonger : isPlain (value ++ "=")) :
      Clash [.symbol value, .operator "==="] [.symbol (value ++ "="), .operator "=="]
  | minus {value name : String} (hoverlap : (value, name) ∈ overlaps) {negative positive : Int64}
      (hnegative : negative.toInt < 0) (hpositive : negative.toInt = -positive.toInt) :
      Clash [.symbol value, .operator name, .integer negative]
        [.symbol (value ++ name), .operator "-", .integer positive]

/-- Lexemes that differ by clashes only. -/
inductive Alike : List Lexeme → List Lexeme → Prop where
  | nil : Alike [] []
  | cons (lexeme : Lexeme) {rest rest' : List Lexeme} (h : Alike rest rest') :
      Alike (lexeme :: rest) (lexeme :: rest')
  | clash {first second rest rest' : List Lexeme} (hclash : Clash first second ∨ Clash second first)
      (h : Alike rest rest') : Alike (first ++ rest) (second ++ rest')

/-- No part of the lexemes has another reading. -/
def Clear (lexemes : List Lexeme) : Prop :=
  ∀ first second, Clash first second → ¬first <:+: lexemes ∧ ¬second <:+: lexemes

theorem text_symbol_of_isPlain {value : String} (h : isPlain value) :
    (Lexeme.symbol value).text = ':' :: value.toList := by
  simp [Lexeme.text, symbolText, h]

theorem Clash.spell_eq {first second : List Lexeme} (h : Clash first second) :
    spell first = spell second := by
  cases h with
  | power => rfl
  | equals hvalue hlonger =>
      simp only [Lexeme.spell_cons, Lexeme.spell_nil, text_symbol_of_isPlain hvalue,
        text_symbol_of_isPlain hlonger, String.toList_append, List.cons_append, List.append_assoc]
      rfl
  | @minus value name hoverlap negative positive hnegative hpositive =>
      have table : ∀ overlap ∈ overlaps, isPlain overlap.1 ∧ isPlain (overlap.1 ++ overlap.2) := by
        decide
      obtain ⟨hvalue, hlonger⟩ := table _ hoverlap
      have htext : (Lexeme.integer negative).text = '-' :: (Lexeme.integer positive).text := by
        rcases text_integer_cases negative with ⟨n, hn, -⟩ | ⟨n, hn, htext⟩
        · omega
        · rcases text_integer_cases positive with ⟨m, hm, htext'⟩ | ⟨m, hm, -⟩
          · obtain rfl : m = n + 1 := by omega
            rw [htext, htext']
          · omega
      simp only [Lexeme.spell_cons, Lexeme.spell_nil, text_symbol_of_isPlain hvalue,
        text_symbol_of_isPlain hlonger, String.toList_append, List.cons_append, List.append_assoc,
        htext]
      rfl

theorem Alike.spell_eq {first second : List Lexeme} (h : Alike first second) :
    spell first = spell second := by
  induction h with
  | nil => rfl
  | cons lexeme _ ih => rw [Lexeme.spell_cons, Lexeme.spell_cons, ih]
  | clash hclash _ ih =>
      rw [Lexeme.spell_append, Lexeme.spell_append, ih]
      rcases hclash with hclash | hclash <;> rw [hclash.spell_eq]

theorem Alike.symm {first second : List Lexeme} (h : Alike first second) : Alike second first := by
  induction h with
  | nil => exact .nil
  | cons lexeme _ ih => exact .cons lexeme ih
  | clash hclash _ ih => exact .clash hclash.symm ih

theorem Clear.tail {lexeme : Lexeme} {rest : List Lexeme} (h : Clear (lexeme :: rest)) :
    Clear rest := by
  have htail : rest <:+: lexeme :: rest := (List.suffix_cons ..).isInfix
  intro first second hclash
  exact ⟨fun hpart => (h first second hclash).1 (hpart.trans htail),
    fun hpart => (h first second hclash).2 (hpart.trans htail)⟩

theorem Alike.eq_of_clear {first second : List Lexeme} (h : Alike first second)
    (hclear : Clear first) : first = second := by
  induction h with
  | nil => rfl
  | cons lexeme _ ih => rw [ih hclear.tail]
  | @clash first second rest _ hclash =>
      have hprefix : first <:+: first ++ rest := (List.prefix_append ..).isInfix
      rcases hclash with hclash | hclash
      · exact absurd hprefix (hclear _ _ hclash).1
      · exact absurd hprefix (hclear _ _ hclash).2

/-! ### Where a symbol runs into an operator -/

variable {rest rest' : List Lexeme} {value value' name : String}

/-- How an operator as a symbol goes on with the start of an operator, but for an equals sign. -/
def extensions : List (String × String) := ("<", "=>") :: overlaps

/-- A plain symbol goes on with the start of an operator only if it takes an equals sign or is an
operator itself. -/
theorem extension_cases {mark : String} (hvalue : isPlain value) (hlonger : isPlain (value ++ mark))
    {c : Char} (hmark : mark.toList.head? = some c) (hname : Operator.isBinary name)
    (hhead : name.toList.head? = some c) : mark = "=" ∨ (value, mark) ∈ extensions := by
  have table : ∀ operator ∈ SymbolName.operators, ∀ length < operator.length,
      ∀ name ∈ Operator.binaryNames,
        isPlain (String.ofList (operator.toList.take length)) →
          (operator.toList.drop length).head? = name.toList.head? →
            String.ofList (operator.toList.drop length) = "=" ∨
              (String.ofList (operator.toList.take length),
                String.ofList (operator.toList.drop length)) ∈ extensions := by
    decide +kernel
  obtain ⟨chars, hchars⟩ := List.head?_eq_some_iff.1 hmark
  have hplain := hlonger
  rw [isPlain, Bool.or_eq_true, List.contains_iff_mem, String.toList_append] at hplain
  rcases hplain with hoperator | hidentifier
  · have hlength : value.length < (value ++ mark).length := by
      have hpos : 0 < mark.toList.length := by simp [hchars]
      rw [String.length_append, ← String.length_toList (s := mark)]
      omega
    have hrow := table _ hoperator _ hlength name (List.contains_iff_mem.1 hname)
    rw [String.toList_append, ← String.length_toList, List.take_left, List.drop_left,
      String.ofList_toList, String.ofList_toList] at hrow
    exact hrow hvalue (hmark.trans hhead.symm)
  · left
    obtain ⟨d, _, hd, hword, -⟩ := exists_cons_of_isBinary hname
    obtain rfl : d = c := by simpa [hd] using hhead
    have hletters : ∀ letters : List Char, (∀ c ∈ letters, Ruby.isWordChar c) → d ∉ letters := by
      intro letters hall hmem
      rw [Ruby.continuesWord, hall d hmem] at hword
      cases hword
    rw [hchars] at hidentifier
    rcases Ruby.word_or_marked hidentifier with ⟨-, hall⟩ | ⟨letters, last, hlast, hmarks, -, hall⟩
    · exact absurd (by simp) (hletters _ hall)
    · rcases List.eq_nil_or_concat chars with rfl | ⟨front, end', rfl⟩
      · obtain ⟨-, hlast⟩ := List.append_inj' hlast rfl
        obtain rfl := List.singleton_inj.1 hlast
        rcases hmarks with rfl | rfl | rfl
        · exact absurd hword (by decide)
        · exact absurd hword (by decide)
        · exact String.toList_inj.1 hchars
      · rw [List.concat_eq_append, ← List.cons_append, ← List.append_assoc] at hlast
        obtain ⟨rfl, -⟩ := List.append_inj' hlast rfl
        exact absurd (by simp) (hletters _ hall)

/-- What longer symbols take of an operator. -/
def taken : List String := "=" :: extensions.map Prod.snd

/-- What is left of the operator that a symbol has taken the start of. -/
theorem exists_left {mark : String} {text text' : List Char} (hmark : mark ∈ taken)
    (hname : Operator.isBinary name) (htext : OpensOperand text)
    (h : name.toList ++ text = mark.toList ++ text') :
    ∃ left : String, (left = "" ∨ left ∈ marks) ∧ name = mark ++ left ∧
      text' = left.toList ++ text := by
  have hmarks : ∀ mark ∈ taken, mark ∈ marks := by decide
  have table : ∀ mark ∈ taken, ∀ name ∈ Operator.binaryNames, mark.toList <+: name.toList →
      String.ofList (name.toList.drop mark.length) = "" ∨
        String.ofList (name.toList.drop mark.length) ∈ marks := by decide +kernel
  have hmem : name ∈ Operator.binaryNames := List.contains_iff_mem.1 hname
  rcases List.append_eq_append_iff.1 h with ⟨longer, hlonger, hrest⟩ | ⟨left, hleft, hrest⟩
  · obtain rfl := eq_nil_of_marks (mem_marks_of_isBinary hname)
      (hmarks mark hmark) htext hlonger hrest
    rw [List.append_nil, String.toList_inj] at hlonger
    exact ⟨"", .inl rfl, by rw [hlonger, String.append_empty], hrest.symm⟩
  · have hrow := table mark hmark name hmem (hleft ▸ List.prefix_append ..)
    rw [hleft, ← String.length_toList, List.drop_left] at hrow
    refine ⟨String.ofList left, hrow, ?_, ?_⟩
    · rw [← String.toList_inj, String.toList_append, String.toList_ofList, hleft]
    · rw [String.toList_ofList, hrest]

theorem exists_cons_of_left {left : String} {text : List Char} (hleft : left = "" ∨ left ∈ marks)
    (htext : OpensOperand text) : ∃ c chars, left.toList ++ text = c :: chars ∧ c ≠ ')' := by
  have table : ∀ mark ∈ marks, mark.toList.head?.any fun c => c ≠ ')' := by decide
  rcases hleft with rfl | hleft
  · obtain ⟨c, rest, rfl, hopens⟩ := htext
    refine ⟨c, rest, rfl, ?_⟩
    rintro rfl
    exact absurd hopens (by decide)
  · obtain ⟨c, chars, hchars, hne⟩ := Text.exists_cons_of_any_head? (table left hleft)
    exact ⟨c, chars ++ text, by rw [hchars, List.cons_append], of_decide_eq_true hne⟩

/-- The lexemes start with a clash, behind which they have the same text. -/
inductive ClashAhead : List Lexeme → List Lexeme → Prop where
  | intro {first second others others' : List Lexeme} {place : Place} (hclash : Clash first second)
      (hothers : Sequence place others) (hothers' : Sequence place others')
      (h : spell others = spell others') : ClashAhead (first ++ others) (second ++ others')

theorem overlap_of_isBinary {mark : String} (hmark : mark = "=" ∨ (value, mark) ∈ extensions)
    (hname : Operator.isBinary mark) : (value, mark) ∈ overlaps := by
  have table : ∀ extension ∈ extensions, Operator.isBinary extension.2 → extension ∈ overlaps := by
    decide
  rcases hmark with rfl | hmark
  · exact absurd hname (by decide)
  · exact table _ hmark hname

theorem left_cases {mark left : String} (hmark : mark ∈ taken) (hleft : Operator.isBinary left)
    (hname : Operator.isBinary (mark ++ left)) :
    (mark = "*" ∧ left = "*") ∨ (mark = "=" ∧ left = "==") := by
  have table : ∀ mark ∈ taken, ∀ left ∈ Operator.binaryNames, Operator.isBinary (mark ++ left) →
      (mark = "*" ∧ left = "*") ∨ (mark = "=" ∧ left = "==") := by decide +kernel
  exact table mark hmark left (List.contains_iff_mem.1 hleft) hname

theorem clashAhead_of_operator {mark : String} {others : List Lexeme} (hvalue : isPlain value)
    (hvalue' : isPlain (value ++ mark)) (hmark : mark = "=" ∨ (value, mark) ∈ extensions)
    (hname : Operator.isBinary name) (hothers : Sequence .operand others)
    (hrest : Sequence .operator rest)
    (h : name.toList ++ spell others = mark.toList ++ spell rest) :
    ClashAhead (.symbol value :: .operator name :: others) (.symbol (value ++ mark) :: rest) := by
  have hmem : mark ∈ taken := by
    rcases hmark with rfl | hmark
    · exact List.mem_cons_self ..
    · exact List.mem_cons_of_mem _ (List.mem_map_of_mem hmark)
  obtain ⟨left, hleft, rfl, htext⟩ := exists_left hmem hname hothers.opensOperand h
  obtain ⟨c, chars, hc, hne⟩ := exists_cons_of_left hleft hothers.opensOperand
  cases hrest with
  | nil =>
      rw [hc] at htext
      cases htext
  | closing =>
      rw [hc] at htext
      exact absurd (List.cons.inj htext).1.symm hne
  | @operator name' hname' others' hothers' =>
      rw [Lexeme.spell_cons, Lexeme.text] at htext
      rcases hleft with rfl | hleft
      · -- the symbol takes the whole operator, and the other one is part of the right operand
        obtain ⟨d, tail, hd, -, -, hminus⟩ := exists_cons_of_isBinary hname'
        obtain rfl : name' = "-" := by
          obtain ⟨first, back, hfirst, hopens⟩ := hothers.opensOperand
          rw [hfirst, hd] at htext
          obtain ⟨rfl, -⟩ := List.cons.inj htext
          exact hminus hopens
        obtain ⟨negative, positive, more, more', rfl, rfl, hnegative, hpositive, hmore, hmore',
          heq⟩ := exists_negative hothers hothers' htext.symm
        rw [String.append_empty] at hname ⊢
        exact .intro (.minus (overlap_of_isBinary hmark hname) hnegative hpositive) hmore hmore' heq
      · -- the symbol takes the start of the operator, and the other one is the rest of it
        obtain ⟨rfl, heq⟩ := mark_inj (mem_marks_of_isBinary hname') hleft hothers'.opensOperand
          hothers.opensOperand htext
        rcases left_cases hmem hname' hname with ⟨rfl, rfl⟩ | ⟨rfl, rfl⟩
        · obtain rfl : value = "*" := by simpa [extensions, overlaps] using hmark
          exact .intro .power hothers hothers' heq.symm
        · exact .intro (.equals hvalue hvalue') hothers hothers' heq.symm

theorem clashAhead_of_longer {longer : String} (hne : longer ≠ "") (hvalue : isPlain value)
    (hlonger : isPlain (value ++ longer)) (hrest : Sequence .operator rest)
    (hrest' : Sequence .operator rest') (h : spell rest = longer.toList ++ spell rest') :
    ClashAhead (.symbol value :: rest) (.symbol (value ++ longer) :: rest') := by
  obtain ⟨c, chars, hchars⟩ := List.exists_cons_of_ne_nil (String.toList_eq_nil_iff.not.2 hne)
  have hhead : (spell rest).head? = some c := by rw [h, hchars]; rfl
  cases hrest with
  | nil => cases hhead
  | closing =>
      obtain rfl := Option.some.inj hhead
      have hc := Ruby.isNameChar_of_isPlain hlonger ')' (by simp [hchars])
      exact absurd hc (by decide)
  | @operator name hname others hothers =>
      obtain ⟨d, front, hfront, -⟩ := exists_cons_of_isBinary hname
      rw [Lexeme.spell_cons, Lexeme.text, hfront] at hhead
      have hhead : name.toList.head? = some c := by rwa [hfront]
      have hmark := extension_cases hvalue hlonger (by rw [hchars]; rfl) hname hhead
      exact clashAhead_of_operator hvalue hlonger hmark hname hothers hrest' h

/-! ### Lexemes with the same text -/

/-- Shorter lexemes are known to be alike if they have the same text. -/
def Settled (first second : List Lexeme) : Prop :=
  ∀ (place : Place) (others others' : List Lexeme), others.length < first.length →
    others'.length < second.length → Sequence place others → Sequence place others' →
      spell others = spell others' → Alike others others'

section Steps

variable {first second : List Lexeme}

theorem Settled.symm (hsettled : Settled first second) : Settled second first :=
  fun _ _ _ hlength hlength' hothers hothers' h =>
    (hsettled _ _ _ hlength' hlength hothers' hothers h.symm).symm

theorem Settled.cons {place : Place} {lexeme : Lexeme}
    (hsettled : Settled (lexeme :: rest) (lexeme :: rest')) (hrest : Sequence place rest)
    (hrest' : Sequence place rest') (h : spell rest = spell rest') :
    Alike (lexeme :: rest) (lexeme :: rest') :=
  .cons lexeme (hsettled _ _ _ (Nat.lt_succ_self _) (Nat.lt_succ_self _) hrest hrest' h)

theorem Settled.clash (hsettled : Settled first second) (hahead : ClashAhead first second) :
    Alike first second := by
  cases hahead with
  | intro hclash hothers hothers' h =>
      refine .clash (.inl hclash) (hsettled _ _ _ ?_ ?_ hothers hothers' h) <;>
        cases hclash <;> simp only [List.length_append, List.length_cons, List.length_nil] <;> omega

theorem Settled.longer {longer : String}
    (hsettled : Settled (.symbol value :: rest) (.symbol (value ++ longer) :: rest'))
    (hvalue : isPlain value) (hlonger : isPlain (value ++ longer)) (hrest : Sequence .operator rest)
    (hrest' : Sequence .operator rest') (h : spell rest = longer.toList ++ spell rest') :
    Alike (.symbol value :: rest) (.symbol (value ++ longer) :: rest') := by
  by_cases hne : longer = ""
  · subst hne
    rw [String.append_empty] at hsettled ⊢
    exact hsettled.cons hrest hrest' h
  · exact hsettled.clash (clashAhead_of_longer hne hvalue hlonger hrest hrest' h)

theorem Settled.symbol (hsettled : Settled (.symbol value :: rest) (.symbol value' :: rest'))
    (hrest : Sequence .operator rest) (hrest' : Sequence .operator rest')
    (h : spell (.symbol value :: rest) = spell (.symbol value' :: rest')) :
    Alike (.symbol value :: rest) (.symbol value' :: rest') := by
  rcases symbol_cases h with ⟨rfl, heq⟩ | ⟨hvalue, hvalue', longer, ⟨rfl, heq⟩ | ⟨rfl, heq⟩⟩
  · exact hsettled.cons hrest hrest' heq
  · exact hsettled.longer hvalue hvalue' hrest hrest' heq
  · exact (hsettled.symm.longer hvalue' hvalue hrest' hrest heq).symm

theorem Settled.operand (hsettled : Settled first second) (hfirst : Sequence .operand first)
    (hsecond : Sequence .operand second) (h : spell first = spell second) : Alike first second := by
  have hsort := hfirst.sort_eq hsecond h
  cases hfirst with
  | symbol value hrest =>
      cases hsecond with
      | symbol value' hrest' => exact hsettled.symbol hrest hrest' h
      | _ => cases hsort
  | word hname hrest =>
      cases hsecond with
      | word hname' hrest' =>
          obtain ⟨rfl, heq⟩ := word_inj hname hname' hrest.stops hrest'.stops h
          exact hsettled.cons hrest hrest' heq
      | _ => cases hsort
  | integer value hrest =>
      cases hsecond with
      | integer value' hrest' =>
          obtain ⟨rfl, heq⟩ := integer_inj (Ruby.stops_isDigit hrest.stops)
            (Ruby.stops_isDigit hrest'.stops) h
          exact hsettled.cons hrest hrest' heq
      | _ => cases hsort
  | opening hrest =>
      cases hsecond with
      | opening hrest' => exact hsettled.cons hrest hrest' (List.cons.inj h).2
      | _ => cases hsort

theorem Settled.operator (hsettled : Settled first second) (hfirst : Sequence .operator first)
    (hsecond : Sequence .operator second) (h : spell first = spell second) :
    Alike first second := by
  have hhead {name : String} (hname : Operator.isBinary name) (text : List Char) :
      name.toList ++ text ≠ [] ∧ ∀ text', name.toList ++ text ≠ ')' :: text' := by
    obtain ⟨c, chars, hchars, -, hne, -⟩ := exists_cons_of_isBinary hname
    rw [hchars]
    exact ⟨List.cons_ne_nil _ _, fun text' heq => hne (List.cons.inj heq).1⟩
  cases hfirst with
  | nil =>
      cases hsecond with
      | nil => exact .nil
      | closing => cases h
      | operator hname => exact absurd h.symm (hhead hname _).1
  | closing hrest =>
      cases hsecond with
      | nil => cases h
      | closing hrest' => exact hsettled.cons hrest hrest' (List.cons.inj h).2
      | operator hname => exact absurd h.symm ((hhead hname _).2 _)
  | operator hname hrest =>
      cases hsecond with
      | nil => exact absurd h (hhead hname _).1
      | closing => exact absurd h ((hhead hname _).2 _)
      | operator hname' hrest' =>
          obtain ⟨rfl, heq⟩ := mark_inj (mem_marks_of_isBinary hname)
            (mem_marks_of_isBinary hname') hrest.opensOperand hrest'.opensOperand h
          exact hsettled.cons hrest hrest' heq

end Steps

theorem Sequence.alike {place : Place} {first second : List Lexeme} (hfirst : Sequence place first)
    (hsecond : Sequence place second) (h : spell first = spell second) : Alike first second := by
  induction hsize : first.length + second.length using Nat.strong_induction_on
    generalizing place first second with
  | h size ih =>
      -- a clash takes two or three lexemes at once, so the induction is on the length
      have hsettled : Settled first second := fun _ _ _ hlength hlength' hothers hothers' h =>
        ih _ (by omega) hothers hothers' h rfl
      cases place with
      | operand => exact hsettled.operand hfirst hsecond h
      | operator => exact hsettled.operator hfirst hsecond h

theorem Formula.renderNode_eq {config : RenderConfig} {node : Node} (hnode : Formula node)
    (hheight : node.height ≤ maxDepth) :
    renderNode config node = .ok (String.ofList (spell (lexemes config.style node))) := by
  rw [renderNode_eq_ok, String.toList_ofList]
  exact hnode.write_eq hheight

/-- **Formulas are told apart by their texts, except for clashes.** Two formulas have the same text
exactly if their lexemes differ by clashes only. So a formula without a clash shares its text with
no other formula. -/
theorem renderNode_eq_iff_alike (config : RenderConfig) {tree other : Node} (htree : Formula tree)
    (hother : Formula other) (hheight : tree.height ≤ maxDepth)
    (hheight' : other.height ≤ maxDepth) :
    (∃ content, renderNode config tree = .ok content) ∧
      (renderNode config tree = renderNode config other ↔
        Alike (lexemes config.style tree) (lexemes config.style other)) ∧
      (renderNode config tree = renderNode config other → Clear (lexemes config.style tree) →
        tree = other) := by
  have hsame : renderNode config tree = renderNode config other ↔
      Alike (lexemes config.style tree) (lexemes config.style other) := by
    rw [htree.renderNode_eq hheight, hother.renderNode_eq hheight', Except.ok.injEq,
      String.ofList_inj]
    refine ⟨fun h => ?_, Alike.spell_eq⟩
    have hfirst : Sequence .operand (lexemes config.style tree ++ []) := htree.sequence .nil
    have hsecond : Sequence .operand (lexemes config.style other ++ []) := hother.sequence .nil
    rw [List.append_nil] at hfirst hsecond
    exact hfirst.alike hsecond h
  refine ⟨⟨_, htree.renderNode_eq hheight⟩, hsame, fun h hclear => ?_⟩
  exact htree.eq_of_lexemes_eq hother ((hsame.1 h).eq_of_clear hclear)

theorem height_symbol_binary_integer_le (value name : String) (literal : Int64) :
    ((Node.symbol value).binary name (.integer literal)).height ≤ maxDepth := by
  simp [Node.height_eq, Node.binary, Node.invoke, Node.children, maxDepth]

/-- A product with the symbol `:*` is told from a difference with the symbol `:**`. -/
theorem renderNode_product_ne_difference :
    let product : Node := .binary (.symbol "*") "*" (.integer 2)
    let difference : Node := .binary (.symbol "**") "-" (.integer 2)
    Clear (lexemes .verbose product) ∧
      renderNode .readable product ≠ renderNode .readable difference := by
  intro product difference
  have hproduct : Formula product := .binary (by decide) (.symbol "*") (.integer 2)
  have hdifference : Formula difference := .binary (by decide) (.symbol "**") (.integer 2)
  have hlexemes : lexemes .verbose product = [.symbol "*", .operator "*", .integer 2] := by
    decide
  have hclear : Clear (lexemes .verbose product) := by
    rw [hlexemes]
    intro first second hclash
    cases hclash with
    | power => decide
    | equals =>
        refine ⟨fun h => ?_, fun h => ?_⟩
        · exact absurd (h.subset (.tail _ (.head _))) (by decide)
        · exact absurd (h.subset (.tail _ (.head _))) (by decide)
    | @minus value name hoverlap negative positive hnegative hpositive =>
        refine ⟨fun h => ?_, fun h => ?_⟩
        · have hmem := h.subset (.tail _ (.tail _ (.head _)))
          obtain rfl : negative = 2 := by simpa using hmem
          exact absurd hnegative (by decide)
        · exact absurd (h.subset (.tail _ (.head _))) (by decide)
  refine ⟨hclear, fun h => ?_⟩
  have heq := (renderNode_eq_iff_alike .readable hproduct hdifference
    (height_symbol_binary_integer_le ..) (height_symbol_binary_integer_le ..)).2.2 h hclear
  simp [product, difference, Node.binary, Node.invoke] at heq

/-- A power of the symbol `:*` and a product with the symbol `:**` are written alike. -/
theorem renderNode_power_eq_product :
    let power : Node := .binary (.symbol "*") "**" (.integer 1)
    let product : Node := .binary (.symbol "**") "*" (.integer 1)
    (Formula power ∧ power.height ≤ maxDepth) ∧ (Formula product ∧ product.height ≤ maxDepth) ∧
      renderNode .readable power = .ok ":***1" ∧ renderNode .readable product = .ok ":***1" ∧
        power ≠ product := by
  intro power product
  have hpower : Formula power := .binary (by decide) (.symbol "*") (.integer 1)
  have hproduct : Formula product := .binary (by decide) (.symbol "**") (.integer 1)
  have hpowerHeight : power.height ≤ maxDepth := height_symbol_binary_integer_le ..
  have hproductHeight : product.height ≤ maxDepth := height_symbol_binary_integer_le ..
  refine ⟨⟨hpower, hpowerHeight⟩, ⟨hproduct, hproductHeight⟩,
    (hpower.renderNode_eq hpowerHeight).trans rfl,
    (hproduct.renderNode_eq hproductHeight).trans rfl, ?_⟩
  simp [power, product, Node.binary, Node.invoke]

end RubyPress.Render
