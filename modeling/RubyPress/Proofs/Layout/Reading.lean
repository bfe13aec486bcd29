import Mathlib
import RubyPress.Proofs.Json.Grammar
import RubyPress.Proofs.Layout.Represents

/-!
# Reading stored trees

The outermost node is read by a reader of its own, which refuses a bad kind on the spot. It is run
side by side with the reader of values: both give the same value, or the first refuses one whose
kind is not given once and by name. So reading a tree is reading a value and decoding it, and the
texts that store a tree are those that denote a value that represents it.
-/

namespace RubyPress

open Json (Value Fault Denotes DenotesWithin)

namespace Layout

/-- The second reading gives what the first gives if that fits, and refuses it otherwise. -/
structure Screened {α : Type} (fits : α → Prop)
    (free screened : Except (Fault DataError) (α × List Char)) : Prop where
  sound : ∀ {result}, screened = .ok result → free = .ok result
  accepts : ∀ {result}, free = .ok result → fits result.1 → screened = .ok result
  refuses : ∀ {result}, free = .ok result → ¬fits result.1 →
    ∃ reason left, screened = .error ⟨.refused reason, left⟩

namespace Screened

variable {α β γ : Type} {fits : α → Prop}
  {free screened : Except (Fault DataError) (α × List Char)}

theorem error {fault : Fault DataError} : Screened fits (.error fault) (.error fault) :=
  ⟨fun h => (by cases h), fun h => (by cases h), fun h => (by cases h)⟩

theorem same (h : ∀ {result}, free = .ok result → fits result.1) : Screened fits free free :=
  ⟨fun h => h, fun h _ => h, fun hok hnot => absurd (h hok) hnot⟩

theorem refusal {text : List Char} {reason : DataError}
    (h : ∀ {result}, free = .ok result → ¬fits result.1) :
    Screened fits free (.error (.refusal text reason)) :=
  ⟨fun h => (by cases h), fun hok hfits => absurd hfits (h hok), fun _ _ => ⟨_, _, rfl⟩⟩

theorem of_iff {others : α → Prop} (h : Screened fits free screened)
    (hiff : ∀ value, others value ↔ fits value) : Screened others free screened := by
  obtain rfl : others = fits := funext fun value => propext (hiff value)
  exact h

theorem map {others : β → Prop} (build : α → β)
    (hbuild : ∀ value, others (build value) ↔ fits value) (h : Screened fits free screened) :
    Screened others (free.map fun result => (build result.1, result.2))
      (screened.map fun result => (build result.1, result.2)) := by
  constructor
  · intro result hresult
    obtain ⟨first, hfirst, rfl⟩ := map_eq_ok.1 hresult
    rw [h.sound hfirst]
    rfl
  · intro result hresult hfits
    obtain ⟨first, hfirst, rfl⟩ := map_eq_ok.1 hresult
    rw [h.accepts hfirst ((hbuild first.1).1 hfits)]
    rfl
  · intro result hresult hnot
    obtain ⟨first, hfirst, rfl⟩ := map_eq_ok.1 hresult
    obtain ⟨reason, left, hrefused⟩ := h.refuses hfirst fun hfits => hnot ((hbuild first.1).2 hfits)
    exact ⟨reason, left, by rw [hrefused]; rfl⟩

theorem seq {fitsNext : α → β → Prop} {fitsBoth : γ → Prop} (build : α → β → γ)
    (hboth : ∀ first second, fitsBoth (build first second) ↔ fits first ∧ fitsNext first second)
    {freeNext screenedNext : α → List Char → Except (Fault DataError) (β × List Char)}
    (hfirst : Screened fits free screened)
    (hnext : ∀ first rest,
      Screened (fitsNext first) (freeNext first rest) (screenedNext first rest)) :
    Screened fitsBoth
      (do let (first, rest) ← free
          let (second, rest) ← freeNext first rest
          .ok (build first second, rest))
      (do let (first, rest) ← screened
          let (second, rest) ← screenedNext first rest
          .ok (build first second, rest)) := by
  constructor
  · intro result hresult
    obtain ⟨⟨first, middle⟩, hscreened, hresult⟩ := bind_eq_ok.1 hresult
    obtain ⟨⟨second, rest⟩, hsecond, hresult⟩ := bind_eq_ok.1 hresult
    rw [hfirst.sound hscreened]
    show (freeNext first middle >>= _) = _
    rw [(hnext first middle).sound hsecond]
    exact hresult
  · intro result hresult hfits
    obtain ⟨⟨first, middle⟩, hfree, hresult⟩ := bind_eq_ok.1 hresult
    obtain ⟨⟨second, rest⟩, hsecond, hresult⟩ := bind_eq_ok.1 hresult
    obtain rfl := Except.ok.inj hresult
    obtain ⟨hfits, hfitsNext⟩ := (hboth first second).1 hfits
    rw [hfirst.accepts hfree hfits]
    show (screenedNext first middle >>= _) = _
    rw [(hnext first middle).accepts hsecond hfitsNext]
    rfl
  · intro result hresult hnot
    obtain ⟨⟨first, middle⟩, hfree, hresult⟩ := bind_eq_ok.1 hresult
    obtain ⟨⟨second, rest⟩, hsecond, hresult⟩ := bind_eq_ok.1 hresult
    obtain rfl := Except.ok.inj hresult
    by_cases hfits : fits first
    · obtain ⟨reason, left, hrefused⟩ := (hnext first middle).refuses hsecond
        fun hfitsNext => hnot ((hboth first second).2 ⟨hfits, hfitsNext⟩)
      refine ⟨reason, left, ?_⟩
      rw [hfirst.accepts hfree hfits]
      show (screenedNext first middle >>= _) = _
      rw [hrefused]
      rfl
    · obtain ⟨reason, left, hrefused⟩ := hfirst.refuses hfree hfits
      exact ⟨reason, left, by rw [hrefused]; rfl⟩

end Screened

section Members

variable {fits : List String → String × Value → Prop}
  {free screened : List String → String → List Char → Except (Fault DataError) (Value × List Char)}

def FitsAll (fits : List String → String × Value → Prop) :
    List String → List (String × Value) → Prop
  | _, [] => True
  | seen, entry :: entries => fits seen entry ∧ FitsAll fits (entry.1 :: seen) entries

theorem screened_member (h : ∀ seen key text, Screened (fun value => fits seen (key, value))
      (free seen key text) (screened seen key text)) (seen : List String) (text : List Char) :
    Screened (fits seen) (Json.member free seen text) (Json.member screened seen text) := by
  rw [Json.member.eq_def, Json.member.eq_def]
  split
  · next text =>
      cases Json.stringLiteral (δ := DataError) text with
      | error fault => exact .error
      | ok result =>
          obtain ⟨key, rest⟩ := result
          have hmap (read : Except (Fault DataError) (Value × List Char)) :
              (read >>= fun result => .ok ((key, result.1), result.2)) =
                read.map fun result => ((key, result.1), result.2) := by
            cases read <;> rfl
          have hvalue := (h seen key rest).map (key, ·) fun _ => Iff.rfl
          rw [← hmap, ← hmap] at hvalue
          exact hvalue
  · exact .error

theorem screened_objectTail (h : ∀ seen key text, Screened (fun value => fits seen (key, value))
      (free seen key text) (screened seen key text)) (rounds : List Char) (seen : List String)
    (text : List Char) :
    Screened (FitsAll fits seen) (Json.objectTail free rounds seen text)
      (Json.objectTail screened rounds seen text) := by
  induction rounds generalizing seen text with
  | nil => exact .error
  | cons round rounds ih =>
      rw [Json.objectTail, Json.objectTail]
      split
      · exact .error
      · exact .same fun hresult => by
          obtain rfl := Except.ok.inj hresult
          trivial
      · split
        · exact .error
        · exact .error
        · exact .seq List.cons (fun _ _ => Iff.rfl) (screened_member h seen _)
            fun first rest => ih (first.1 :: seen) rest
      · exact .error

theorem screened_object (h : ∀ seen key text, Screened (fun value => fits seen (key, value))
      (free seen key text) (screened seen key text)) (text : List Char) :
    Screened (FitsAll fits []) (Json.object free text) (Json.object screened text) := by
  rw [Json.object, Json.object]
  split
  · exact .error
  · exact .same fun hresult => by
      obtain rfl := Except.ok.inj hresult
      trivial
  · exact .seq List.cons (fun _ _ => Iff.rfl) (screened_member h [] _)
      fun first rest => screened_objectTail h rest [first.1] rest

end Members

/-! ### The outermost node -/

/-- The kind of the outermost node is given once and by its name. -/
def TaggedByName : Value → Prop
  | .obj members => ∃ kind : Kind, valuesOf tagName members = [.str kind.name]
  | .arr values => ∃ kind : Kind, values.head? = some (.str kind.name)
  | .null | .bool _ | .int _ | .real _ | .str _ => False

theorem screened_outerTag (room : Nat) (text : List Char) :
    Screened (fun value => ∃ kind : Kind, value = .str kind.name) (Json.value room text)
      (outerTag text) := by
  unfold outerTag
  split
  · next rest heq =>
      refine .refusal fun hvalue => ?_
      obtain ⟨values, hvalues⟩ := Json.exists_arr_of_value heq hvalue
      simp [hvalues]
  · next rest heq =>
      refine .refusal fun hvalue => ?_
      obtain ⟨members, hmembers⟩ := Json.exists_obj_of_value heq hvalue
      simp [hmembers]
  · next hbracket hbrace =>
      rw [Json.value_eq_scalar_skipBlanks hbracket hbrace]
      cases Json.scalar (δ := DataError) (Json.skipBlanks text) with
      | error fault => exact .error
      | ok result =>
          obtain ⟨tag, rest⟩ := result
          cases tag with
          | str name =>
              simp only [bind, Except.bind]
              cases hname : Kind.ofName? name with
              | none =>
                  refine .refusal fun hresult => ?_
                  obtain rfl := Except.ok.inj hresult
                  rintro ⟨kind, hkind⟩
                  rw [ofName?_eq_some.2 (Value.str.inj hkind)] at hname
                  cases hname
              | some kind =>
                  refine .same fun hresult => ?_
                  obtain rfl := Except.ok.inj hresult
                  exact ⟨kind, congrArg Value.str (ofName?_eq_some.1 hname)⟩
          | _ =>
              refine .refusal fun hresult => ?_
              obtain rfl := Except.ok.inj hresult
              simp

/-- A member of the outermost node fits unless it gives the kind again, or not by its name. -/
def FitsOutermost (seen : List String) (entry : String × Value) : Prop :=
  entry.1 = tagName → tagName ∉ seen ∧ ∃ kind : Kind, entry.2 = .str kind.name

theorem screened_outerMember (seen : List String) (key : String) (text : List Char) :
    Screened (fun value => FitsOutermost seen (key, value))
      (Json.colon text >>= Json.value (Json.maxNesting - 1)) (outerMember seen key text) := by
  unfold outerMember
  split_ifs with hkey hseen
  · refine .refusal fun _ hfits => ?_
    exact (hfits hkey).1 (List.contains_iff_mem.1 hseen)
  · cases Json.colon (δ := DataError) text with
    | error fault => exact .error
    | ok rest =>
        have hnew : tagName ∉ seen := fun hmem => hseen (List.contains_iff_mem.2 hmem)
        refine (screened_outerTag (Json.maxNesting - 1) rest).of_iff fun value => ?_
        exact ⟨fun hfits => (hfits hkey).2, fun hname _ => ⟨hnew, hname⟩⟩
  · exact .same fun _ htag => absurd htag hkey

theorem fitsAll_of_mem {seen : List String} {members : List (String × Value)}
    (hseen : tagName ∈ seen) :
    FitsAll FitsOutermost seen members ↔ valuesOf tagName members = [] := by
  induction members generalizing seen with
  | nil => simp [FitsAll, valuesOf]
  | cons member members ih =>
      obtain ⟨key, value⟩ := member
      rw [FitsAll, ih (List.mem_cons_of_mem _ hseen), valuesOf_cons]
      split_ifs with hkey
      · simp [FitsOutermost, hkey, hseen]
      · simp [FitsOutermost, hkey]

theorem fitsAll_of_not_mem {seen : List String} {members : List (String × Value)}
    (hseen : tagName ∉ seen) :
    FitsAll FitsOutermost seen members ↔ valuesOf tagName members = [] ∨
      TaggedByName (.obj members) := by
  simp only [TaggedByName]
  induction members generalizing seen with
  | nil => simp [FitsAll, valuesOf]
  | cons member members ih =>
      obtain ⟨key, value⟩ := member
      rw [FitsAll, valuesOf_cons]
      split_ifs with hkey
      · rw [hkey, fitsAll_of_mem (List.mem_cons_self ..)]
        simp [FitsOutermost, hseen]
      · rw [ih]
        · simp [FitsOutermost, hkey]
        · simp [hseen, Ne.symm hkey]

theorem any_tagName_iff {members : List (String × Value)} :
    (members.any fun (key, _) => key = tagName) ↔ valuesOf tagName members ≠ [] := by
  induction members with
  | nil => simp [valuesOf]
  | cons member members ih =>
      obtain ⟨key, value⟩ := member
      rw [List.any_cons, valuesOf_cons, Bool.or_eq_true, ih]
      split_ifs with hkey <;> simp [hkey]

theorem TaggedByName.nesting_ne_zero {value : Value} (h : TaggedByName value) :
    value.nesting ≠ 0 := by
  cases value with
  | arr | obj => exact Nat.succ_ne_zero _
  | _ => cases h

theorem screened_outerList (text : List Char) :
    Screened TaggedByName
      ((Json.list (Json.value (Json.maxNesting - 1)) text).map fun (values, rest) =>
        (.arr values, rest)) (outerList text) := by
  have hmap (read : Except (Fault DataError) (Value × List Char)) :
      (read >>= fun first =>
        Json.listTail (Json.value (Json.maxNesting - 1)) first.2 first.2 >>= fun others =>
          .ok (.arr (first.1 :: others.1), others.2)) =
        (read >>= fun first =>
          Json.listTail (Json.value (Json.maxNesting - 1)) first.2 first.2 >>= fun others =>
            .ok (first.1 :: others.1, others.2)).map
        fun result => (Value.arr result.1, result.2) := by
    cases read with
    | error fault => rfl
    | ok first =>
        simp only [bind, Except.bind]
        cases Json.listTail (Json.value (δ := DataError) (Json.maxNesting - 1)) first.2 first.2 <;>
          rfl
  cases hskip : Json.skipBlanks text with
  | nil =>
      rw [Json.list, outerList, hskip]
      exact .error
  | cons c chars =>
      by_cases hbracket : c = ']'
      · subst hbracket
        rw [Json.list, outerList, hskip]
        refine .refusal fun hresult => ?_
        obtain rfl := Except.ok.inj hresult
        simp [TaggedByName]
      · have houter : outerList text = (outerTag (c :: chars) >>= fun first =>
            Json.listTail (Json.value (Json.maxNesting - 1)) first.2 first.2 >>= fun others =>
              .ok (.arr (first.1 :: others.1), others.2)) := by
          rw [outerList, hskip]
          split
          · next heq => cases heq
          · next heq => exact absurd (List.cons.inj heq).1 hbracket
          · rfl
        have hothers (tag : Value) (rest : List Char) : Screened (fun _ => True)
            (Json.listTail (Json.value (Json.maxNesting - 1)) rest rest)
            (Json.listTail (Json.value (Json.maxNesting - 1)) rest rest) :=
          .same fun _ => trivial
        have hvalues : Screened
            (fun values : List Value => ∃ kind : Kind, values.head? = some (.str kind.name)) _ _ :=
          .seq List.cons (by simp) (screened_outerTag (Json.maxNesting - 1) (c :: chars)) hothers
        rw [houter, hmap, Json.list_of_skipBlanks hskip hbracket]
        exact hvalues.map Value.arr fun _ => Iff.rfl

theorem screened_outerObject (text : List Char) :
    Screened TaggedByName
      ((Json.object (fun _ _ rest => Json.colon rest >>= Json.value (Json.maxNesting - 1)) text).map
        fun (members, rest) => (.obj members, rest))
      (do let (members, rest) ← Json.object outerMember text
          if members.any fun (key, _) => key = tagName then .ok (.obj members, rest)
          else .error (.refusal rest (.missingField tagName))) := by
  have hobject := screened_object screened_outerMember text
  constructor
  · intro result hresult
    obtain ⟨⟨members, rest⟩, hmembers, htagged⟩ := bind_eq_ok.1 hresult
    dsimp only at htagged
    split_ifs at htagged
    rw [hobject.sound hmembers]
    exact htagged
  · intro result hresult htagged
    obtain ⟨⟨members, rest⟩, hmembers, rfl⟩ := map_eq_ok.1 hresult
    rw [hobject.accepts hmembers ((fitsAll_of_not_mem (by simp)).2 (.inr htagged))]
    obtain ⟨kind, hkind⟩ := htagged
    show (if _ then _ else _) = _
    rw [if_pos (any_tagName_iff.2 (by simp [hkind]))]
  · intro result hresult hnot
    obtain ⟨⟨members, rest⟩, hmembers, rfl⟩ := map_eq_ok.1 hresult
    by_cases hfits : FitsAll FitsOutermost [] members
    · have hnone := ((fitsAll_of_not_mem (by simp)).1 hfits).resolve_right hnot
      rw [hobject.accepts hmembers hfits]
      refine ⟨.missingField tagName, Json.byteLength rest, ?_⟩
      show (if _ then _ else _) = _
      rw [if_neg (fun hany => any_tagName_iff.1 hany hnone)]
      rfl
    · obtain ⟨reason, left, hrefused⟩ := hobject.refuses hmembers hfits
      exact ⟨reason, left, by rw [hrefused]; rfl⟩

/-- **The outermost node is read as a value**, unless its kind is not given once and by name. -/
theorem screened_outerValue (text : List Char) :
    Screened TaggedByName (Json.value Json.maxNesting text) (outerValue text) := by
  unfold outerValue
  split
  · next rest heq =>
      rw [show Json.maxNesting = Json.maxNesting - 1 + 1 from rfl, Json.value_bracket heq]
      exact screened_outerList rest
  · next rest heq =>
      rw [show Json.maxNesting = Json.maxNesting - 1 + 1 from rfl, Json.value_brace heq]
      exact screened_outerObject rest
  · next hbracket hbrace =>
      rw [Json.value_eq_scalar_skipBlanks hbracket hbrace]
      cases hscalar : Json.scalar (δ := DataError) (Json.skipBlanks text) with
      | error fault => exact .error
      | ok result =>
          refine .refusal fun hresult htagged => ?_
          obtain rfl := Except.ok.inj hresult
          obtain ⟨front, -, hdenotes⟩ :
              ∃ front, _ ∧ DenotesWithin 0 front result.1 := Json.denotes_of_scalar hscalar
          exact htagged.nesting_ne_zero (Nat.le_zero.1 hdenotes.nesting_le)

end Layout

open Layout (TaggedByName Represents Tags Names)

section Texts

variable {source : String} {value : Value} {tree : Node}

theorem readTree_eq_ok_iff :
    readTree source = .ok tree ↔ ∃ value rest, Layout.outerValue source.toList = .ok (value, rest) ∧
      Layout.node value = .ok tree ∧ Json.finish (δ := Layout.DataError) rest = .ok () := by
  rw [readTree]
  constructor
  · intro h
    split at h
    · cases h
    · next value rest houter =>
        split at h
        · cases h
        · next node hnode =>
            split at h
            · cases h
            · next hfinish =>
                obtain rfl := Except.ok.inj h
                exact ⟨value, rest, houter, hnode, hfinish⟩
  · rintro ⟨value, rest, houter, hnode, hfinish⟩
    simp only [houter, hnode, hfinish]

theorem exists_denotes_of_readTree (h : readTree source = .ok tree) :
    ∃ value, DenotesWithin Json.maxNesting source.toList value ∧ TaggedByName value ∧
      Represents Tags .node value tree := by
  obtain ⟨value, rest, houter, hnode, hfinish⟩ := readTree_eq_ok_iff.1 h
  have hscreened := Layout.screened_outerValue source.toList
  have hvalue := hscreened.sound houter
  refine ⟨value, Json.denotesWithin_of_value_finish hvalue hfinish, ?_,
    Layout.decode_eq_ok_iff.1 hnode⟩
  by_contra hnot
  obtain ⟨reason, left, hrefused⟩ := hscreened.refuses hvalue hnot
  rw [houter] at hrefused
  cases hrefused

theorem readTree_of_represents (hsource : DenotesWithin Json.maxNesting source.toList value)
    (htagged : TaggedByName value) (h : Represents Tags .node value tree) :
    readTree source = .ok tree := by
  obtain ⟨rest, hvalue, hfinish⟩ := hsource.exists_value (δ := Layout.DataError)
  have houter := (Layout.screened_outerValue source.toList).accepts hvalue htagged
  exact readTree_eq_ok_iff.2 ⟨value, rest, houter, Layout.decode_eq_ok_iff.2 h, hfinish⟩

theorem readTree_of_not_represents (hsource : DenotesWithin Json.maxNesting source.toList value)
    (h : ∀ tree, ¬(TaggedByName value ∧ Represents Tags .node value tree)) :
    ∃ reason position, readTree source = .error (.invalid reason position) := by
  obtain ⟨rest, hvalue, hfinish⟩ := hsource.exists_value (δ := Layout.DataError)
  have hscreened := Layout.screened_outerValue source.toList
  rw [readTree]
  by_cases htagged : TaggedByName value
  · have houter := hscreened.accepts hvalue htagged
    cases hnode : Layout.node value with
    | error error =>
        refine ⟨error, none, ?_⟩
        simp only [houter, hnode]
    | ok tree => exact absurd ⟨htagged, Layout.decode_eq_ok_iff.1 hnode⟩ (h tree)
  · obtain ⟨reason, left, hrefused⟩ := hscreened.refuses hvalue htagged
    refine ⟨reason, some (.ofLeft source.toList left), ?_⟩
    simp only [hrefused]
    rfl

end Texts

/-- **The reader accepts exactly the texts of the layout.** A well-formed text is read as the tree
that its value represents, if its outermost kind is given by name, and otherwise it is an invalid
tree; whatever is read is well-formed as a whole. -/
theorem readTree_eq_ok_iff_represents (source : String) :
    (∀ value, Denotes source.toList value → value.nesting < 128 →
      (∀ tree, readTree source = .ok tree ↔ TaggedByName value ∧ Represents Tags .node value tree) ∧
        ((∀ tree, ¬(TaggedByName value ∧ Represents Tags .node value tree)) →
          ∃ reason position, readTree source = .error (.invalid reason position))) ∧
      ∀ tree, readTree source = .ok tree →
        ∃ value, Denotes source.toList value ∧ value.nesting < 128 := by
  refine ⟨fun value hvalue hnesting => ?_, fun tree htree => ?_⟩
  · have hsource : DenotesWithin Json.maxNesting source.toList value :=
      ⟨hvalue, Nat.le_of_lt_succ hnesting⟩
    refine ⟨fun tree => ⟨fun htree => ?_, fun h => ?_⟩, readTree_of_not_represents hsource⟩
    · obtain ⟨value', hvalue', h⟩ := exists_denotes_of_readTree htree
      obtain rfl := hsource.eq hvalue'
      exact h
    · exact readTree_of_represents hsource h.1 h.2
  · obtain ⟨value, hvalue, -⟩ := exists_denotes_of_readTree htree
    exact ⟨value, hvalue.denotes, Nat.lt_succ_of_le hvalue.nesting_le⟩

/-- A node in list form inside of one in object form, among blanks and a member of no field. -/
theorem readTree_eq_ok_iff_represents_of_list :
    Denotes "\n\x7b \"extra\":[true], \"argument\":[\"nil\"], \"type\":\"r\\u0065turn\"\x7d ".toList
        (.obj [("extra", .arr [.bool true]), ("argument", .arr [.str "nil"]),
          ("type", .str "return")]) ∧
      readTree "\n\x7b \"extra\":[true], \"argument\":[\"nil\"], \"type\":\"r\\u0065turn\"\x7d " =
        .ok (.ret .nil) := by
  have hdenotes := Json.parse_eq_ok_iff.1 (show Json.parse (δ := Unit)
    "\n\x7b \"extra\":[true], \"argument\":[\"nil\"], \"type\":\"r\\u0065turn\"\x7d ".toList =
      .ok (.obj [("extra", .arr [.bool true]), ("argument", .arr [.str "nil"]),
          ("type", .str "return")]) by cbv)
  refine ⟨hdenotes.denotes, ?_⟩
  refine (((readTree_eq_ok_iff_represents _).1 _ hdenotes.denotes (by decide)).1 _).2
    ⟨⟨.ret, rfl⟩, ?_⟩
  exact Layout.decode_eq_ok_iff.1 (by cbv)

/-- Inside of a tree a kind may be given by its index, so a text can be read although its value
represents no tree by the names of kinds. -/
theorem readTree_kind_by_index :
    Denotes "\x7b\"type\":\"return\",\"argument\":\x7b\"type\":27\x7d\x7d".toList
        (.obj [("type", .str "return"), ("argument", .obj [("type", .int 27)])]) ∧
      (∀ tree, ¬Represents Names .node
        (.obj [("type", .str "return"), ("argument", .obj [("type", .int 27)])]) tree) ∧
      readTree "\x7b\"type\":\"return\",\"argument\":\x7b\"type\":27\x7d\x7d" =
        .ok (.ret .nil) := by
  have hdenotes := Json.parse_eq_ok_iff.1 (show Json.parse (δ := Unit)
    "\x7b\"type\":\"return\",\"argument\":\x7b\"type\":27\x7d\x7d".toList =
      .ok (.obj [("type", .str "return"), ("argument", .obj [("type", .int 27)])]) by cbv)
  refine ⟨hdenotes.denotes, fun tree htree => ?_, by cbv⟩
  have hargument (argument : Node) :
      ¬Represents Names .node (.obj [("type", .int 27)]) argument := by
    intro h
    obtain ⟨tag, kind, htag, hname⟩ := h.exists_tag
    obtain rfl : Value.int 27 = tag := (List.cons.inj htag).1
    cases hname
  cases htree with
  | @object _ tag kind record htag hname honce hpresent hmissing =>
      obtain rfl : Value.str "return" = tag := (List.cons.inj htag).1
      obtain rfl : Kind.ret = kind := by
        have hkind := Layout.ofName?_eq_some.2 (Value.str.inj hname)
        exact Option.some.inj ((by decide : Kind.ofName? "return" = some .ret).symm.trans hkind)
      exact hargument record.1 (hpresent ⟨_, record.1⟩ (List.mem_cons_self ..) _
        (List.mem_cons_self ..))

end RubyPress
