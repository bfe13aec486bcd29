import RubyPress.Proofs.Render.Pieces
import RubyPress.Proofs.Render.Quoted

/-!
# Embedded code

The inside of an interpolated literal is its parts one after the other: an escaped value for a
fragment, and the text of its statements in braces for any other part. It is read back as these
parts if the code ends where it should and if nothing looks like code or like the name of a variable
that is neither.

The first holds because the text of a node closes all braces and literals that it opens. The second
does not hold throughout: a fragment is escaped without a look at the next one, so a number sign at
its end and a brace at the start of the next fragment become the start of embedded code. Nothing
else can go wrong.
-/

namespace RubyPress

open DoubleQuoted (escape opensInterpolation)
open Ruby (Balanced Atom Frame isBrace pushSource readBody readLiteral)
open Text (Stops)

namespace Node

/-- The letters of the fragments at the start of a list of parts. -/
def leadingLetters : List Node → List Char
  | string value :: parts => value.toList ++ leadingLetters parts
  | _ => []

/-- Whether a fragment ends in a number sign and the next letter makes it the start of an
interpolation. -/
def straddles : List Node → Bool
  | string value :: parts =>
    (value.toList.getLast? = some '#' && opensInterpolation (leadingLetters parts)) ||
      straddles parts
  | _ :: parts => straddles parts
  | [] => false

theorem isFragment_eq_false {part : Node} (h : ∀ value, part = string value → False) :
    part.isFragment = false := by
  cases part <;> first | rfl | exact absurd rfl (h _)

end Node

namespace Render

/-- Nodes whose names have no quotes and no braces, and whose fragments can be told from code. -/
structure IsLegible (node : Node) : Prop where
  names : ∀ name ∈ node.names, ∀ c ∈ name.toList, c ∉ ['"', '\x7b', '\x7d']
  parts : Node.straddles node.parts = false

instance (node : Node) : Decidable (IsLegible node) :=
  decidable_of_iff ((∀ name ∈ node.names, ∀ c ∈ name.toList, c ∉ ['"', '\x7b', '\x7d']) ∧
      Node.straddles node.parts = false)
    ⟨fun ⟨hnames, hparts⟩ => ⟨hnames, hparts⟩, fun ⟨hnames, hparts⟩ => ⟨hnames, hparts⟩⟩

/-- The text of a part when `source` gives the texts of the code. -/
def partText (source : Node → List Char) : Node → List Char
  | .string value => escape value.toList
  | part => '#' :: '\x7b' :: source part ++ ['\x7d']

/-- What a part stands for when `source` gives the texts of the code. -/
def partAtoms (source : Node → List Char) : Node → List Atom
  | .string value => value.toList.map .letter
  | part => [.code (source part)]

variable {config : RenderConfig} {style : LiteralStyle} {separator : Separator}
  {emit : Node → Except Unsupported (List Char)} {source : Node → List Char} {parts : List Node}
  {rest : List Char}

/-- Whether the inside of a literal opens an interpolation is decided by its first letter. -/
theorem opensInterpolation_parts (hrest : opensInterpolation rest = false) :
    opensInterpolation (parts.flatMap (partText source) ++ rest) =
      opensInterpolation (Node.leadingLetters parts) := by
  induction parts using Node.leadingLetters.induct with
  | case1 value parts ih =>
      rw [List.flatMap_cons, List.append_assoc, partText, Node.leadingLetters]
      cases hvalue : value.toList with
      | nil => exact ih
      | cons c letters =>
          rw [opensInterpolation_escape, List.cons_append, opensInterpolation_cons]
  | case2 parts hparts =>
      cases parts with
      | nil => exact hrest
      | cons part parts =>
          rw [List.flatMap_cons, partText, Node.leadingLetters]
          · rfl
          · exact hparts
          · exact fun value hvalue => hparts value parts (by rw [hvalue])

/-- The inside of a literal is read back as its parts exactly if no fragment straddles. -/
theorem readBody_parts
    (hbalanced : ∀ part ∈ parts, part.isFragment = false → Balanced (source part)) :
    readBody (parts.flatMap (partText source)) = some (parts.flatMap (partAtoms source)) ↔
      Node.straddles parts = false := by
  induction parts using Node.straddles.induct with
  | case1 value parts ih =>
      rw [List.forall_mem_cons] at hbalanced
      have hopens : opensInterpolation (parts.flatMap (partText source) ++ []) =
          opensInterpolation (Node.leadingLetters parts) := opensInterpolation_parts rfl
      rw [List.append_nil] at hopens
      rw [List.flatMap_cons, List.flatMap_cons, partText, partAtoms, readBody_escape_eq_some,
        ih hbalanced.2, hopens, Node.straddles, Bool.or_eq_false_iff, Bool.and_eq_false_imp,
        decide_eq_true_iff]
  | case2 part parts hpart ih =>
      rw [List.forall_mem_cons] at hbalanced
      have hsource := hbalanced.1 (Node.isFragment_eq_false hpart)
      rw [List.flatMap_cons, List.flatMap_cons, partText, partAtoms, hsource.readBody_embedded,
        Node.straddles, ← ih hbalanced.2]
      · exact (Option.map_injective List.cons_injective).eq_iff' rfl
      all_goals exact hpart
  | case3 => simp [readBody, Node.straddles]

theorem passesLetters_readLiteral (stack : List Frame) :
    PassesLetters isBrace (readLiteral stack) fun text => Option.map (pushSource text) where
  opens c hc := by
    obtain rfl : c = '\x7b' := by simpa [isBrace] using hc
    decide
  push_nil := Ruby.map_pushSource_nil
  push_push := Ruby.map_pushSource_map_pushSource
  escaped _ _ := rfl
  plain _ _ := Ruby.readLiteral_plain

theorem stops_isBrace {text : List Char} (h : opensInterpolation text = false) :
    Stops isBrace text := by
  have hstops := opensInterpolation_eq_false.1 h
  intro c hc
  refine Bool.eq_false_iff.2 fun hbrace => ?_
  have hopener := (passesLetters_readLiteral []).opens c hbrace
  exact absurd hopener (Bool.eq_false_iff.1 (hstops c hc))

/-- The inside of a literal is passed by whatever reads the code around it. -/
theorem readLiteral_parts (hparts : Node.straddles parts = false)
    (hbalanced : ∀ part ∈ parts, part.isFragment = false → Balanced (source part))
    (stack : List Frame) (hrest : opensInterpolation rest = false) :
    readLiteral stack (parts.flatMap (partText source) ++ rest) =
      (readLiteral stack rest).map (pushSource (parts.flatMap (partText source))) := by
  induction parts using Node.straddles.induct with
  | case1 value parts ih =>
      rw [List.forall_mem_cons] at hbalanced
      rw [Node.straddles, Bool.or_eq_false_iff, Bool.and_eq_false_imp, decide_eq_true_iff] at hparts
      have hstops : value.toList.getLast? = some '#' →
          Stops isBrace (parts.flatMap (partText source) ++ rest) := fun hlast =>
        stops_isBrace ((opensInterpolation_parts hrest).trans (hparts.1 hlast))
      rw [List.flatMap_cons, partText, List.append_assoc,
        (passesLetters_readLiteral stack).escape hstops, ih hparts.2 hbalanced.2,
        Ruby.map_pushSource_map_pushSource]
  | case2 part parts hpart ih =>
      rw [List.forall_mem_cons] at hbalanced
      rw [Node.straddles] at hparts
      · have hsource := hbalanced.1 (Node.isFragment_eq_false hpart)
        rw [List.flatMap_cons, partText, List.append_assoc, hsource.readLiteral_embedded,
          ih hparts hbalanced.2, Ruby.map_pushSource_map_pushSource]
        exact hpart
      · exact hpart
  | case3 => simp

theorem writePieces_parts (hsource : ∀ part ∈ parts, part.isFragment = false →
      writePieces separator emit (statements style part) = .ok (source part)) :
    writePieces separator emit (parts.flatMap (interpolatedPart style)) =
      .ok (parts.flatMap (partText source)) := by
  have hpart (part : Node) (h : part.isFragment = false →
      writePieces separator emit (statements style part) = .ok (source part)) :
      writePieces separator emit (interpolatedPart style part) = .ok (partText source part) := by
    unfold interpolatedPart
    split
    · exact writePieces_text
    · next hembedded =>
        have hstatements := h (Node.isFragment_eq_false hembedded)
        rw [partText]
        · exact writePieces_enclosed_eq_ok.2 ⟨_, hstatements, rfl⟩
        · exact hembedded
  induction parts with
  | nil => rfl
  | cons part parts ih =>
      rw [List.forall_mem_cons] at hsource
      exact writePieces_append (hpart part hsource.1) (ih hsource.2)

theorem exists_source {content : List Char}
    (h : writePieces separator emit (parts.flatMap (interpolatedPart style)) = .ok content) :
    ∃ source : Node → List Char, ∀ part ∈ parts, part.isFragment = false →
      writePieces separator emit (statements style part) = .ok (source part) := by
  refine ⟨fun part => (writePieces separator emit (statements style part)).toOption.getD [], ?_⟩
  induction parts generalizing content with
  | nil => exact List.forall_mem_nil _
  | cons part parts ih =>
      rw [List.flatMap_cons] at h
      obtain ⟨first, others, hfirst, hothers, -⟩ := writePieces_append_eq_ok.1 h
      refine List.forall_mem_cons.2 ⟨fun hpart => ?_, ih hothers⟩
      rw [interpolatedPart_of_embedded style hpart] at hfirst
      obtain ⟨text, htext, -⟩ := writePieces_enclosed_eq_ok.1 hfirst
      simp only [htext, Except.toOption, Option.getD_some]

theorem not_mem_of_isBare {c : Char} (h : isBare c) : c ∉ ['"', '\x7b', '\x7d'] := by
  simp only [isBare, Bool.and_eq_true, Bool.not_eq_true', List.contains_eq_mem,
    decide_eq_false_iff_not] at h
  exact h.2

theorem balanced_of_bare {text : List Char} (h : ∀ c ∈ text, isBare c) : Balanced text :=
  .bare fun c hc => not_mem_of_isBare (h c hc)

theorem balanced_quote (value : String) : Balanced (DoubleQuoted.quote value) :=
  .literal fun stack _ => (passesLetters_readLiteral stack).escape fun _ =>
    Text.stops_cons.2 (by decide)

theorem not_mem_of_mem_letters {node : Node} (hnode : IsLegible node) {c : Char}
    (hc : c ∈ node.letters) : c ∉ ['"', '\x7b', '\x7d'] := by
  obtain ⟨name, hname, hmem⟩ := List.mem_flatMap.1 hc
  rcases List.mem_append.1 hname with hname | hsymbol
  · exact hnode.names name hname c hmem
  · cases node with
    | symbol value =>
        rw [Node.plainSymbols] at hsymbol
        split at hsymbol
        · next hplain =>
            obtain rfl := List.mem_singleton.1 hsymbol
            have table : ∀ mark ∈ ['"', '\x7b', '\x7d'], ¬Ruby.isNameChar mark := by decide
            exact fun hmark => table c hmark (Ruby.isNameChar_of_isPlain hplain c hmem)
        · cases hsymbol
    | _ => cases hsymbol

theorem balanced_of_composed {node : Node} (hnode : IsLegible node)
    (hemit : ∀ other, node.Near other → ∀ content, emit other = .ok content → Balanced content)
    {pieces : List Piece} (hpieces : Composed style node pieces) {content : List Char}
    (hcontent : writePieces separator emit pieces = .ok content) : Balanced content := by
  induction hpieces generalizing content with
  | nil =>
      obtain rfl := (Except.ok.inj hcontent).symm
      exact .nil
  | text htext =>
      obtain rfl := Except.ok.inj (writePieces_text.symm.trans hcontent)
      refine .bare fun c hc => ?_
      rcases htext c hc with hbare | hletter
      · exact not_mem_of_isBare hbare
      · exact not_mem_of_mem_letters hnode hletter
  | separator =>
      obtain rfl := (Except.ok.inj hcontent).symm
      cases separator <;> exact .bare (by decide)
  | child hother => exact hemit _ hother content (writePieces_child_eq_ok.1 hcontent)
  | quoted value =>
      obtain rfl := Except.ok.inj (writePieces_text.symm.trans hcontent)
      exact balanced_quote value
  | braced hheader _ ih =>
      obtain ⟨inner, hinner, rfl⟩ := writePieces_enclosed_eq_ok.1 hcontent
      exact ((balanced_of_bare hheader).append (ih hinner)).braced
  | interpolated hopening _ ih =>
      obtain ⟨inner, hinner, rfl⟩ := writePieces_enclosed_eq_ok.1 hcontent
      obtain ⟨source, hsource⟩ := exists_source hinner
      obtain rfl := Except.ok.inj ((writePieces_parts hsource).symm.trans hinner)
      have hliteral : Balanced ('"' :: node.parts.flatMap (partText source) ++ ['"']) :=
        .literal fun stack _ => readLiteral_parts hnode.parts
          (fun part hpart hembedded => ih part hpart (hsource part hpart hembedded)) stack rfl
      have hwhole := (balanced_of_bare hopening).append hliteral
      simpa only [List.append_assoc, List.cons_append, List.nil_append] using hwhole
  | append _ _ hfirst hsecond =>
      obtain ⟨first, second, hpieces, hothers, rfl⟩ := writePieces_append_eq_ok.1 hcontent
      exact (hfirst hpieces).append (hsecond hothers)

/-- **Balanced code.** The text of a legible tree closes the braces and the literals it opens. -/
theorem balanced_write {room : Nat} {tree : Node} (htree : tree.Everywhere IsLegible)
    {content : List Char} (hcontent : write config room tree = .ok content) : Balanced content := by
  induction room generalizing tree content with
  | zero => cases hcontent
  | succ room ih =>
      obtain ⟨pieces, hrule, hpieces⟩ := write_succ_eq_ok.1 hcontent
      exact balanced_of_composed (Node.everywhere_iff.1 htree).1
        (fun other hnear content => ih (htree.of_near hnear)) (composed_rule hrule) hpieces

theorem balanced_statements {room : Nat} {body : Node} (hbody : body.Everywhere IsLegible)
    {content : List Char} (hcontent : writePieces config.separator (write config room)
      (statements config.style body) = .ok content) : Balanced content := by
  -- The statements of a body are pieces of anything that has the body as a part.
  have hpieces : Composed config.style (.ret body) (statements config.style body) :=
    composed_statements (.head _)
  have hwhole : (Node.ret body).Everywhere IsLegible :=
    .intro ⟨List.forall_mem_nil _, rfl⟩ (List.forall_mem_singleton.2 hbody)
  exact balanced_of_composed (Node.everywhere_iff.1 hwhole).1
    (fun other hnear content => balanced_write (hwhole.of_near hnear)) hpieces hcontent

end Render

open Render

/-- **Interpolated literals keep their parts** exactly if no number sign at the end of a fragment
meets an opener at the start of the next: then the inside of the literal is read back as the letters
of the fragments and the code of the other parts. The text of the code is what `source` gives. -/
theorem readBody_of_parts (config : RenderConfig) (room : Nat) {parts : List Node}
    {source : Node → List Char} (hembedded : ∀ part ∈ parts, part.isFragment = false →
      part.Everywhere IsLegible ∧ writePieces config.separator (write config room)
        (statements config.style part) = .ok (source part)) :
    ∃ body, write config (room + 1) (.interpolatedString parts) = .ok ('"' :: body ++ ['"']) ∧
      write config (room + 1) (.interpolatedSymbol parts) = .ok (':' :: '"' :: body ++ ['"']) ∧
      (readBody body = some (parts.flatMap (partAtoms source)) ↔
        Node.straddles parts = false) := by
  have hparts := writePieces_parts fun part hpart h => (hembedded part hpart h).2
  refine ⟨parts.flatMap (partText source), (write_succ rfl).trans ?_, (write_succ rfl).trans ?_, ?_⟩
  · exact writePieces_enclosed_eq_ok.2 ⟨_, hparts, rfl⟩
  · exact writePieces_enclosed_eq_ok.2 ⟨_, hparts, rfl⟩
  · refine readBody_parts fun part hpart h => ?_
    obtain ⟨hlegible, hsource⟩ := hembedded part hpart h
    exact balanced_statements hlegible hsource

/-- A number sign is a letter in front of code, and in front of a brace that is escaped with it. -/
theorem readBody_of_fragments_and_code :
    let parts : List Node := [.string "#\x7b", .string "", .string "\"#",
      .interpolatedSymbol [.localRead "x", .string "\x7d#"], .string "$"]
    let atoms : List Atom := [.letter '#', .letter '\x7b', .letter '"', .letter '#',
      .code ":\"#\x7bx\x7d\x7d#\"".toList, .letter '$']
    ∃ body, write .compact 3 (.interpolatedString parts) = .ok ('"' :: body ++ ['"']) ∧
      write .compact 3 (.interpolatedSymbol parts) = .ok (':' :: '"' :: body ++ ['"']) ∧
      readBody body = some atoms := by
  intro parts atoms
  have hembedded : ∀ part ∈ parts, part.isFragment = false →
      part.Everywhere IsLegible ∧ writePieces .semicolon (write .compact 2)
        (statements .obfuscated part) = .ok ":\"#\x7bx\x7d\x7d#\"".toList := by
    have hlegible : (Node.interpolatedSymbol [.localRead "x", .string "\x7d#"]).Everywhere
        IsLegible := by
      repeat' first
        | exact List.forall_mem_nil _
        | refine List.forall_mem_cons.2 ⟨?_, ?_⟩
        | refine .intro (by decide) ?_
    intro part hpart hcode
    simp only [parts, List.mem_cons, List.not_mem_nil, or_false] at hpart
    rcases hpart with rfl | rfl | rfl | rfl | rfl
    all_goals first | exact ⟨hlegible, rfl⟩ | cases hcode
  obtain ⟨body, hstring, hsymbol, hread⟩ := readBody_of_parts .compact 2 hembedded
  exact ⟨body, hstring, hsymbol, hread.2 (by decide)⟩

/-- The second fragment turns the number sign of the first into the start of code. -/
theorem readBody_of_straddling_fragments :
    let parts : List Node := [.string "a#", .string "\x7bb\x7d"]
    renderNode {} (.interpolatedString parts) = .ok "\"a#\x7bb\x7d\"" ∧
      readBody "a#\x7bb\x7d".toList = some [.letter 'a', .code ['b']] ∧
      ∀ source, readBody "a#\x7bb\x7d".toList ≠ some (parts.flatMap (partAtoms source)) := by
  intro parts
  have hread : readBody "a#\x7bb\x7d".toList = some [.letter 'a', .code ['b']] := by cbv
  refine ⟨by decide, hread, fun source hparts => ?_⟩
  cases hread.symm.trans hparts

end RubyPress
