import Mathlib.Data.List.TakeWhile
import RubyPress.Proofs.Json.Nesting
import RubyPress.Proofs.Json.Spelling

/-!
# Texts that denote values

`Denotes` says which texts stand for which value: literals in any spelling, lists and objects with
commas between their parts, and blanks around every value and key. The reader of values accepts a
text up to its limit of nesting exactly if it denotes a value, and gives that value.
-/

namespace RubyPress.Json

open Text (Stops)

variable {δ : Type}

def IsBlanks (text : List Char) : Prop := ∀ c ∈ text, isBlank c

structure Key where
  before : List Char
  spelling : List Char
  content : List Char
  after : List Char
  isBefore : IsBlanks before
  isSpelling : Spells spelling content
  isAfter : IsBlanks after

namespace Key

def name (key : Key) : String := String.ofList key.content

/-- The key from its opening quote on, and the colon after it. -/
def quoted (key : Key) : List Char :=
  '"' :: (key.spelling ++ '"' :: (key.after ++ [':']))

end Key

structure MemberText where
  key : Key
  text : List Char
  value : Value

namespace MemberText

def source (member : MemberText) : List Char :=
  member.key.before ++ (member.key.quoted ++ member.text)

def entry (member : MemberText) : String × Value := (member.key.name, member.value)

end MemberText

/-- The texts of a value. -/
inductive Denotes : List Char → Value → Prop where
  | null : Denotes ['n', 'u', 'l', 'l'] .null
  | isTrue : Denotes ['t', 'r', 'u', 'e'] (.bool true)
  | isFalse : Denotes ['f', 'a', 'l', 's', 'e'] (.bool false)
  | number {literal : NumberLiteral} {value : Value} (hvalue : literal.value? = some value) :
      Denotes literal.text value
  | string {text content : List Char} (hspells : Spells text content) :
      Denotes ('"' :: (text ++ ['"'])) (.str (String.ofList content))
  | emptyList {blanks : List Char} (hblanks : IsBlanks blanks) :
      Denotes ('[' :: (blanks ++ [']'])) (.arr [])
  | list {items : List (List Char × Value)} (hne : items ≠ [])
      (hitems : ∀ item ∈ items, Denotes item.1 item.2) :
      Denotes ('[' :: ([','].intercalate (items.map Prod.fst) ++ [']'])) (.arr (items.map Prod.snd))
  | emptyObject {blanks : List Char} (hblanks : IsBlanks blanks) :
      Denotes ('\x7b' :: (blanks ++ ['\x7d'])) (.obj [])
  | object {members : List MemberText} (hne : members ≠ [])
      (hmembers : ∀ member ∈ members, Denotes member.text member.value) :
      Denotes ('\x7b' :: ([','].intercalate (members.map MemberText.source) ++ ['\x7d']))
        (.obj (members.map MemberText.entry))
  | padded {before text after : List Char} {value : Value} (hbefore : IsBlanks before)
      (hafter : IsBlanks after) (h : Denotes text value) : Denotes (before ++ (text ++ after)) value

section Blanks

variable {blanks text rest : List Char}

theorem isBlanks_nil : IsBlanks [] := by
  simp [IsBlanks]

theorem skipBlanks_append (hblanks : IsBlanks blanks) (rest : List Char) :
    skipBlanks (blanks ++ rest) = skipBlanks rest :=
  List.dropWhile_append_of_pos hblanks

theorem exists_blanks (text : List Char) : ∃ blanks, IsBlanks blanks ∧
    text = blanks ++ skipBlanks text :=
  ⟨text.takeWhile isBlank, List.all_eq_true.1 List.all_takeWhile,
    List.takeWhile_append_dropWhile.symm⟩

theorem skipBlanks_skipBlanks (text : List Char) : skipBlanks (skipBlanks text) = skipBlanks text :=
  Text.dropWhile_eq_self_of_stops (Text.stops_dropWhile text)

theorem stops_blanks_append (hblanks : IsBlanks blanks) (hrest : Stops carriesOn rest) :
    Stops carriesOn (blanks ++ rest) := by
  cases blanks with
  | nil => exact hrest
  | cons c blanks =>
      have hc := hblanks c (List.mem_cons_self ..)
      simp only [isBlank, Bool.or_eq_true, beq_iff_eq] at hc
      rw [List.cons_append, Text.stops_cons]
      rcases hc with ((rfl | rfl) | rfl) | rfl <;> rfl

theorem length_skipBlanks_le (text : List Char) : (skipBlanks text).length ≤ text.length :=
  (List.dropWhile_sublist _).length_le

end Blanks

/-! ### What is read denotes the value it is read as -/

section Sound

theorem keyword_eq_ok {α : Type} {result value : α} {letters text rest : List Char} :
    keyword (δ := δ) value letters text = .ok (result, rest) ↔
      result = value ∧ text = letters ++ rest := by
  induction letters generalizing text with
  | nil => simp [keyword, eq_comm]
  | cons letter letters ih =>
      cases text with
      | nil => simp [keyword]
      | cons c text =>
          rw [keyword]
          split_ifs with hc
          · rw [ih, List.cons_append, List.cons.injEq, hc]
            simp
          · simp [hc]

/-- The text denotes the value, and at most `room` brackets are open in it at once. -/
structure DenotesWithin (room : Nat) (text : List Char) (value : Value) : Prop where
  denotes : Denotes text value
  nesting_le : value.nesting ≤ room

theorem DenotesWithin.padded {room : Nat} {before text after : List Char} {value : Value}
    (hbefore : IsBlanks before) (hafter : IsBlanks after) (h : DenotesWithin room text value) :
    DenotesWithin room (before ++ (text ++ after)) value :=
  ⟨.padded hbefore hafter h.denotes, h.nesting_le⟩

variable {room : Nat}

theorem nesting_of_number {literal : NumberLiteral} {value : Value}
    (h : literal.value? = some value) : value.nesting = 0 := by
  have hreal {negative : Bool} {significand : Nat} {shift : Int}
      (h : real? negative significand shift = some value) : value.nesting = 0 := by
    obtain ⟨x, -, rfl⟩ := Option.map_eq_some_iff.1 h
    rfl
  rw [NumberLiteral.value?] at h
  split_ifs at h
  · obtain rfl := Option.some.inj h
    rw [Number.integer]
    split_ifs <;> rfl
  · rw [NumberLiteral.realValue?] at h
    cases hexponent : literal.exponent with
    | none =>
        rw [hexponent] at h
        exact hreal h
    | some exponent =>
        simp only [hexponent, Exponent.scaled?] at h
        split at h
        · exact hreal h
        · split_ifs at h <;>
          · obtain rfl := Option.some.inj h
            rfl

theorem denotes_of_scalar {text rest : List Char} {value : Value}
    (h : scalar (δ := δ) text = .ok (value, rest)) :
    ∃ front, text = front ++ rest ∧ DenotesWithin room front value := by
  cases text with
  | nil => cases h
  | cons c text =>
      rw [scalar] at h
      split_ifs at h with hn ht hf hnumber hquote
      · obtain ⟨rfl, rfl⟩ := keyword_eq_ok.1 h
        exact ⟨['n', 'u', 'l', 'l'], by rw [hn]; rfl, .null, Nat.zero_le _⟩
      · obtain ⟨rfl, rfl⟩ := keyword_eq_ok.1 h
        exact ⟨['t', 'r', 'u', 'e'], by rw [ht]; rfl, .isTrue, Nat.zero_le _⟩
      · obtain ⟨rfl, rfl⟩ := keyword_eq_ok.1 h
        exact ⟨['f', 'a', 'l', 's', 'e'], by rw [hf]; rfl, .isFalse, Nat.zero_le _⟩
      · obtain ⟨literal, rest', htext, hrest⟩ := exists_literal h
        rw [htext] at h ⊢
        obtain ⟨hvalue, rfl⟩ := (number_eq_ok literal hrest).1 h
        exact ⟨literal.text, rfl, .number hvalue, by simp [nesting_of_number hvalue]⟩
      · obtain ⟨⟨content, rest'⟩, hliteral, heq⟩ := map_eq_ok.1 h
        obtain ⟨rfl, rfl⟩ := Prod.mk.inj heq
        obtain ⟨⟨chars, rest''⟩, hbody, heq⟩ := map_eq_ok.1 hliteral
        obtain ⟨rfl, rfl⟩ := Prod.mk.inj heq
        obtain ⟨front, rfl, hspells⟩ := spells_of_body hbody
        exact ⟨'"' :: (front ++ ['"']), by simp [hquote], .string hspells, Nat.zero_le _⟩

section Items

variable {item : List Char → Except (Fault δ) (Value × List Char)}

theorem items_of_listTail
    (hitem : ∀ {text value rest}, item text = .ok (value, rest) →
      ∃ front, text = front ++ rest ∧ DenotesWithin room front value)
    {rounds text rest : List Char} {values : List Value}
    (h : listTail item rounds text = .ok (values, rest)) :
    ∃ blanks, IsBlanks blanks ∧ ∃ items : List (List Char × Value),
      (∀ item ∈ items, DenotesWithin room item.1 item.2) ∧ values = items.map Prod.snd ∧
        text = blanks ++ ((items.map Prod.fst).flatMap (',' :: ·) ++ ']' :: rest) := by
  induction rounds generalizing text values with
  | nil => cases h
  | cons round rounds ih =>
      obtain ⟨blanks, hblanks, htext⟩ := exists_blanks text
      refine ⟨blanks, hblanks, ?_⟩
      rw [htext]
      rw [listTail] at h
      split at h
      · cases h
      · next rest' heq =>
          obtain ⟨rfl, rfl⟩ := Prod.mk.inj (Except.ok.inj h)
          exact ⟨[], by simp, rfl, by rw [heq]; rfl⟩
      · next rest' heq =>
          obtain ⟨before, hbefore, hrest'⟩ := exists_blanks rest'
          split at h
          · cases h
          · cases h
          · next next _ _ =>
              obtain ⟨⟨first, middle⟩, hfirst, h⟩ := bind_eq_ok.1 h
              obtain ⟨⟨others, last⟩, hothers, h⟩ := bind_eq_ok.1 h
              obtain ⟨rfl, rfl⟩ := Prod.mk.inj (Except.ok.inj h)
              obtain ⟨front, hfront, hdenotes⟩ := hitem hfirst
              obtain ⟨after, hafter, items, hitems, rfl, rfl⟩ := ih hothers
              refine ⟨(before ++ (front ++ after), first) :: items, ?_, rfl, ?_⟩
              · exact List.forall_mem_cons.2 ⟨hdenotes.padded hbefore hafter, hitems⟩
              · rw [heq, hrest', hfront]
                simp
      · cases h

theorem denotes_of_list
    (hitem : ∀ {text value rest}, item text = .ok (value, rest) →
      ∃ front, text = front ++ rest ∧ DenotesWithin room front value)
    {text rest : List Char} {values : List Value} (h : list item text = .ok (values, rest)) :
    ∃ front, text = front ++ ']' :: rest ∧
      DenotesWithin (room + 1) ('[' :: (front ++ [']'])) (.arr values) := by
  obtain ⟨before, hbefore, htext⟩ := exists_blanks text
  rw [list] at h
  split at h
  · cases h
  · next rest' heq =>
      obtain ⟨rfl, rfl⟩ := Prod.mk.inj (Except.ok.inj h)
      exact ⟨before, by rw [← heq, ← htext], .emptyList hbefore,
        by simp [Value.nesting, nestingAll]⟩
  · obtain ⟨⟨first, middle⟩, hfirst, h⟩ := bind_eq_ok.1 h
    obtain ⟨⟨others, last⟩, hothers, h⟩ := bind_eq_ok.1 h
    obtain ⟨rfl, rfl⟩ := Prod.mk.inj (Except.ok.inj h)
    obtain ⟨front, hfront, hdenotes⟩ := hitem hfirst
    obtain ⟨after, hafter, items, hitems, rfl, rfl⟩ := items_of_listTail hitem hothers
    have hfirst := (hdenotes.padded hbefore hafter).denotes
    refine ⟨[','].intercalate ((before ++ (front ++ after)) :: items.map Prod.fst), ?_, ?_, ?_⟩
    · rw [htext, hfront, intercalate_comma_cons]
      simp
    · exact @Denotes.list ((before ++ (front ++ after), first) :: items) (List.cons_ne_nil _ _)
        (List.forall_mem_cons.2 ⟨hfirst, fun item hmem => (hitems item hmem).denotes⟩)
    · rw [Value.nesting, Nat.add_le_add_iff_right, nestingAll_le_iff, List.forall_mem_cons,
        List.forall_mem_map]
      exact ⟨hdenotes.nesting_le, fun item hmem => (hitems item hmem).nesting_le⟩

end Items

section Members

variable {item : List String → String → List Char → Except (Fault δ) (Value × List Char)}

theorem member_of_eq_ok
    (hitem : ∀ {seen name text value rest}, item seen name text = .ok (value, rest) →
      ∃ after front, IsBlanks after ∧ text = after ++ ':' :: (front ++ rest) ∧
        DenotesWithin room front value)
    {seen : List String} {before text rest : List Char} {entry : String × Value}
    (hbefore : IsBlanks before) (h : member item seen text = .ok (entry, rest)) :
    ∃ written : MemberText, written.key.before = before ∧ written.entry = entry ∧
      text = written.key.quoted ++ (written.text ++ rest) ∧
        DenotesWithin room written.text written.value := by
  rw [member.eq_def] at h
  split at h
  · next text' =>
      obtain ⟨⟨name, middle⟩, hname, h⟩ := bind_eq_ok.1 h
      obtain ⟨⟨value, last⟩, hvalue, h⟩ := bind_eq_ok.1 h
      obtain ⟨rfl, rfl⟩ := Prod.mk.inj (Except.ok.inj h)
      obtain ⟨⟨content, middle'⟩, hbody, heq⟩ := map_eq_ok.1 hname
      obtain ⟨rfl, rfl⟩ := Prod.mk.inj heq
      obtain ⟨spelling, rfl, hspells⟩ := spells_of_body hbody
      obtain ⟨after, front, hafter, rfl, hdenotes⟩ := hitem hvalue
      refine ⟨⟨⟨before, spelling, content, after, hbefore, hspells, hafter⟩, front, value⟩, rfl,
        rfl, ?_, hdenotes⟩
      simp [Key.quoted]
  · cases h

theorem members_of_objectTail
    (hitem : ∀ {seen name text value rest}, item seen name text = .ok (value, rest) →
      ∃ after front, IsBlanks after ∧ text = after ++ ':' :: (front ++ rest) ∧
        DenotesWithin room front value)
    {rounds text rest : List Char} {seen : List String} {entries : List (String × Value)}
    (h : objectTail item rounds seen text = .ok (entries, rest)) :
    ∃ blanks, IsBlanks blanks ∧ ∃ members : List MemberText,
      (∀ member ∈ members, DenotesWithin room member.text member.value) ∧
        entries = members.map MemberText.entry ∧
          text =
            blanks ++ ((members.map MemberText.source).flatMap (',' :: ·) ++ '\x7d' :: rest) := by
  induction rounds generalizing text entries seen with
  | nil => cases h
  | cons round rounds ih =>
      obtain ⟨blanks, hblanks, htext⟩ := exists_blanks text
      refine ⟨blanks, hblanks, ?_⟩
      rw [htext]
      rw [objectTail] at h
      split at h
      · cases h
      · next rest' heq =>
          obtain ⟨rfl, rfl⟩ := Prod.mk.inj (Except.ok.inj h)
          exact ⟨[], by simp, rfl, by rw [heq]; rfl⟩
      · next rest' heq =>
          obtain ⟨before, hbefore, hrest'⟩ := exists_blanks rest'
          split at h
          · cases h
          · cases h
          · obtain ⟨⟨first, middle⟩, hfirst, h⟩ := bind_eq_ok.1 h
            obtain ⟨⟨others, last⟩, hothers, h⟩ := bind_eq_ok.1 h
            obtain ⟨rfl, rfl⟩ := Prod.mk.inj (Except.ok.inj h)
            obtain ⟨written, hwritten, rfl, hsource, hdenotes⟩ :=
              member_of_eq_ok hitem hbefore hfirst
            obtain ⟨after, hafter, members, hmembers, rfl, rfl⟩ := ih hothers
            have hpadded : DenotesWithin room (written.text ++ after) written.value :=
              hdenotes.padded isBlanks_nil hafter
            refine ⟨⟨written.key, written.text ++ after, written.value⟩ :: members, ?_, rfl, ?_⟩
            · exact List.forall_mem_cons.2 ⟨hpadded, hmembers⟩
            · rw [heq, hrest', hsource]
              simp [MemberText.source, hwritten]
      · cases h

theorem denotes_of_object
    (hitem : ∀ {seen name text value rest}, item seen name text = .ok (value, rest) →
      ∃ after front, IsBlanks after ∧ text = after ++ ':' :: (front ++ rest) ∧
        DenotesWithin room front value)
    {text rest : List Char} {entries : List (String × Value)}
    (h : object item text = .ok (entries, rest)) :
    ∃ front, text = front ++ '\x7d' :: rest ∧
      DenotesWithin (room + 1) ('\x7b' :: (front ++ ['\x7d'])) (.obj entries) := by
  obtain ⟨before, hbefore, htext⟩ := exists_blanks text
  rw [object] at h
  split at h
  · cases h
  · next rest' heq =>
      obtain ⟨rfl, rfl⟩ := Prod.mk.inj (Except.ok.inj h)
      exact ⟨before, by rw [← heq, ← htext], .emptyObject hbefore,
        by simp [Value.nesting, nestingMembers]⟩
  · obtain ⟨⟨first, middle⟩, hfirst, h⟩ := bind_eq_ok.1 h
    obtain ⟨⟨others, last⟩, hothers, h⟩ := bind_eq_ok.1 h
    obtain ⟨rfl, rfl⟩ := Prod.mk.inj (Except.ok.inj h)
    obtain ⟨written, hwritten, rfl, hsource, hdenotes⟩ := member_of_eq_ok hitem hbefore hfirst
    obtain ⟨after, hafter, members, hmembers, rfl, rfl⟩ := members_of_objectTail hitem hothers
    have hpadded : Denotes (written.text ++ after) written.value :=
      .padded isBlanks_nil hafter hdenotes.denotes
    refine ⟨[','].intercalate ((⟨written.key, written.text ++ after, written.value⟩ ::
      members).map MemberText.source), ?_, ?_, ?_⟩
    · rw [htext, hsource, List.map_cons, intercalate_comma_cons]
      simp [MemberText.source, hwritten]
    · exact @Denotes.object (⟨written.key, written.text ++ after, written.value⟩ :: members)
        (List.cons_ne_nil _ _)
        (List.forall_mem_cons.2 ⟨hpadded, fun member hmem => (hmembers member hmem).denotes⟩)
    · rw [Value.nesting, Nat.add_le_add_iff_right, nestingMembers_le_iff, List.forall_mem_cons,
        List.forall_mem_map]
      exact ⟨hdenotes.nesting_le, fun member hmem => (hmembers member hmem).nesting_le⟩

end Members

theorem colon_eq_ok {text rest : List Char} (h : colon (δ := δ) text = .ok rest) :
    ∃ blanks, IsBlanks blanks ∧ text = blanks ++ ':' :: rest := by
  obtain ⟨blanks, hblanks, htext⟩ := exists_blanks text
  rw [colon] at h
  split at h
  · cases h
  · next rest' heq =>
      obtain rfl := Except.ok.inj h
      exact ⟨blanks, hblanks, by rw [← heq, ← htext]⟩
  · cases h

theorem denotes_of_colon {item : List Char → Except (Fault δ) (Value × List Char)}
    (hitem : ∀ {text value rest}, item text = .ok (value, rest) →
      ∃ front, text = front ++ rest ∧ DenotesWithin room front value)
    {text rest : List Char} {value : Value} (h : colon text >>= item = .ok (value, rest)) :
    ∃ after front, IsBlanks after ∧ text = after ++ ':' :: (front ++ rest) ∧
      DenotesWithin room front value := by
  obtain ⟨middle, hcolon, hvalue⟩ := bind_eq_ok.1 h
  obtain ⟨after, hafter, rfl⟩ := colon_eq_ok hcolon
  obtain ⟨front, rfl, hdenotes⟩ := hitem hvalue
  exact ⟨after, front, hafter, rfl, hdenotes⟩

theorem denotes_of_valueWith {nested : Option (List Char → Except (Fault δ) (Value × List Char))}
    (hnested : ∀ item ∈ nested, ∃ inner, room = inner + 1 ∧
      ∀ {text value rest}, item text = .ok (value, rest) →
        ∃ front, text = front ++ rest ∧ DenotesWithin inner front value)
    {text rest : List Char} {read : Value} (h : valueWith nested text = .ok (read, rest)) :
    ∃ front, text = front ++ rest ∧ DenotesWithin room front read := by
  obtain ⟨before, hbefore, htext⟩ := exists_blanks text
  obtain ⟨front, hfront, hdenotes⟩ :
      ∃ front, skipBlanks text = front ++ rest ∧ DenotesWithin room front read := by
    unfold valueWith at h
    split at h
    · next text' item heq =>
        obtain ⟨inner, rfl, hitem⟩ := hnested item rfl
        obtain ⟨⟨values, rest'⟩, hlist, hread⟩ := map_eq_ok.1 h
        obtain ⟨rfl, rfl⟩ := Prod.mk.inj hread
        obtain ⟨front, rfl, hdenotes⟩ := denotes_of_list hitem hlist
        exact ⟨_, by rw [heq]; simp, hdenotes⟩
    · next text' item heq =>
        obtain ⟨inner, rfl, hitem⟩ := hnested item rfl
        obtain ⟨⟨entries, rest'⟩, hobject, hread⟩ := map_eq_ok.1 h
        obtain ⟨rfl, rfl⟩ := Prod.mk.inj hread
        obtain ⟨front, rfl, hdenotes⟩ := denotes_of_object (denotes_of_colon hitem) hobject
        exact ⟨_, by rw [heq]; simp, hdenotes⟩
    · cases h
    · cases h
    · exact denotes_of_scalar h
  refine ⟨before ++ front, ?_, ?_⟩
  · rw [htext, hfront, List.append_assoc]
  · simpa using hdenotes.padded hbefore isBlanks_nil

/-- **What is read denotes the value it is read as.** -/
theorem denotes_of_value {text rest : List Char} {read : Value}
    (h : value (δ := δ) room text = .ok (read, rest)) :
    ∃ front, text = front ++ rest ∧ DenotesWithin room front read := by
  induction room generalizing text rest read with
  | zero => exact denotes_of_valueWith (by simp) h
  | succ room ih =>
      refine denotes_of_valueWith ?_ h
      rintro item ⟨⟩
      exact ⟨room, rfl, ih⟩

end Sound

/-! ### Every text that denotes a value is read as it -/

section Complete

/-- Reading gives the value and leaves the rest, up to blanks. -/
def Gives {α : Type} (result : Except (Fault δ) (α × List Char)) (value : α) (rest : List Char) :
    Prop :=
  ∃ left, result = .ok (value, left) ∧ skipBlanks left = skipBlanks rest

theorem ne_of_minus_or_digit {c d : Char} (hc : c = '-' ∨ c.isDigit)
    (hd : ¬(d = '-' ∨ d.isDigit)) : c ≠ d := by
  rintro rfl
  exact hd hc

theorem isBlank_of_minus_or_digit {c : Char} (hc : c = '-' ∨ c.isDigit) : isBlank c = false := by
  simp only [isBlank, Bool.or_eq_false_iff, beq_eq_false_iff_ne]
  exact ⟨⟨⟨ne_of_minus_or_digit hc (by decide), ne_of_minus_or_digit hc (by decide)⟩,
    ne_of_minus_or_digit hc (by decide)⟩, ne_of_minus_or_digit hc (by decide)⟩

theorem Denotes.exists_skipBlanks {text : List Char} {value : Value} (h : Denotes text value)
    (rest : List Char) : ∃ c chars, skipBlanks (text ++ rest) = c :: chars ∧ c ≠ ']' := by
  induction h generalizing rest with
  | null | isTrue | isFalse | string | emptyList | list | emptyObject | object =>
      exact ⟨_, _, rfl, by decide⟩
  | @number literal value hvalue =>
      obtain ⟨c, chars, hchars, hc⟩ := literal.text_cons
      refine ⟨c, chars ++ rest, ?_, ne_of_minus_or_digit hc (by decide)⟩
      rw [hchars, List.cons_append, skipBlanks_cons (isBlank_of_minus_or_digit hc)]
  | @padded before text after value hbefore hafter h ih =>
      rw [List.append_assoc, List.append_assoc, skipBlanks_append hbefore]
      exact ih (after ++ rest)

section Items

variable {item : List Char → Except (Fault δ) (Value × List Char)}

theorem skipBlanks_flatMap_comma (texts : List (List Char)) {c : Char} (hc : isBlank c = false)
    (rest : List Char) : skipBlanks (texts.flatMap (',' :: ·) ++ c :: rest) =
      texts.flatMap (',' :: ·) ++ c :: rest := by
  cases texts with
  | nil => exact skipBlanks_cons hc rest
  | cons text texts => exact skipBlanks_cons (by decide) _

/-- There is a round for every further text that is left. -/
theorem length_lt_of_skipBlanks {texts : List (List Char)} {c : Char} {left rest : List Char}
    (h : skipBlanks left = texts.flatMap (',' :: ·) ++ c :: rest) : texts.length < left.length := by
  have hlength := length_lt_flatMap_comma texts c rest
  rw [← h] at hlength
  exact hlength.trans_le (length_skipBlanks_le left)

/-- The first of several items is read in front of the others and of the bracket that closes them,
and it does not close them itself. -/
theorem first_gives (hskip : ∀ text, item (skipBlanks text) = item text)
    {entry : List Char × Value} (hentry : Denotes entry.1 entry.2)
    (hread : ∀ rest, Stops carriesOn rest → Gives (item (entry.1 ++ rest)) entry.2 rest)
    (texts : List (List Char)) (rest : List Char) :
    ∃ c chars left,
      skipBlanks (entry.1 ++ (texts.flatMap (',' :: ·) ++ ']' :: rest)) = c :: chars ∧ c ≠ ']' ∧
        item (c :: chars) = .ok (entry.2, left) ∧
          skipBlanks left = texts.flatMap (',' :: ·) ++ ']' :: rest := by
  obtain ⟨left, hfirst, hleft⟩ :=
    hread _ (stops_flatMap_comma texts (by decide : carriesOn ']' = false) rest)
  obtain ⟨c, chars, hcons, hbracket⟩ :=
    hentry.exists_skipBlanks (texts.flatMap (',' :: ·) ++ ']' :: rest)
  rw [← hskip, hcons] at hfirst
  rw [skipBlanks_flatMap_comma _ (by decide)] at hleft
  exact ⟨c, chars, left, hcons, hbracket, hfirst, hleft⟩

theorem list_of_skipBlanks {text chars : List Char} {c : Char}
    (htext : skipBlanks text = c :: chars) (hbracket : c ≠ ']') :
    list item text = (do
      let (first, rest) ← item (c :: chars)
      let (others, rest) ← listTail item rest rest
      .ok (first :: others, rest)) := by
  rw [list, htext]
  split
  · next heq => cases heq
  · next heq => exact absurd (List.cons.inj heq).1 hbracket
  · rfl

theorem listTail_gives (hskip : ∀ text, item (skipBlanks text) = item text)
    {items : List (List Char × Value)} (hitems : ∀ entry ∈ items, Denotes entry.1 entry.2)
    (hread : ∀ entry ∈ items, ∀ rest, Stops carriesOn rest →
      Gives (item (entry.1 ++ rest)) entry.2 rest)
    {rounds text rest : List Char} (hrounds : items.length < rounds.length)
    (htext : skipBlanks text = (items.map Prod.fst).flatMap (',' :: ·) ++ ']' :: rest) :
    listTail item rounds text = .ok (items.map Prod.snd, rest) := by
  induction items generalizing rounds text with
  | nil =>
      obtain ⟨round, rounds, rfl⟩ := List.exists_cons_of_ne_nil (List.length_pos_iff.1 hrounds)
      rw [listTail, htext]
      rfl
  | cons entry items ih =>
      rw [List.forall_mem_cons] at hitems hread
      obtain ⟨round, rounds, rfl⟩ :=
        List.exists_cons_of_ne_nil (List.length_pos_iff.1 (Nat.zero_lt_of_lt hrounds))
      rw [List.map_cons, List.flatMap_cons, List.cons_append, List.cons_append,
        List.append_assoc] at htext
      obtain ⟨c, chars, left, hcons, hbracket, hfirst, hleft⟩ :=
        first_gives hskip hitems.1 hread.1 (items.map Prod.fst) rest
      have hothers := ih hitems.2 hread.2 (Nat.lt_of_succ_lt_succ hrounds) hleft
      rw [listTail, htext]
      simp only [hcons]
      split
      · next heq => cases heq
      · next heq => exact absurd (List.cons.inj heq).1 hbracket
      · rw [hfirst]
        show (listTail item rounds left >>= _) = _
        rw [hothers]
        rfl

theorem list_gives (hskip : ∀ text, item (skipBlanks text) = item text)
    {items : List (List Char × Value)} (hne : items ≠ [])
    (hitems : ∀ entry ∈ items, Denotes entry.1 entry.2)
    (hread : ∀ entry ∈ items, ∀ rest, Stops carriesOn rest →
      Gives (item (entry.1 ++ rest)) entry.2 rest) (rest : List Char) :
    list item ([','].intercalate (items.map Prod.fst) ++ ']' :: rest) =
      .ok (items.map Prod.snd, rest) := by
  obtain ⟨entry, items, rfl⟩ := List.exists_cons_of_ne_nil hne
  rw [List.forall_mem_cons] at hitems hread
  obtain ⟨c, chars, left, hcons, hbracket, hfirst, hleft⟩ :=
    first_gives hskip hitems.1 hread.1 (items.map Prod.fst) rest
  have hrounds : items.length < left.length := by simpa using length_lt_of_skipBlanks hleft
  have hothers := listTail_gives hskip hitems.2 hread.2 hrounds hleft
  rw [List.map_cons, intercalate_comma_cons, List.append_assoc, list_of_skipBlanks hcons hbracket,
    hfirst]
  show (listTail item left left >>= _) = _
  rw [hothers]
  rfl

end Items

section Members

variable {item : List String → String → List Char → Except (Fault δ) (Value × List Char)}

theorem member_gives {seen : List String} {written : MemberText} {rest : List Char}
    (hread : Gives (item seen written.key.name
      (written.key.after ++ ':' :: (written.text ++ rest))) written.value rest) :
    Gives (member item seen (written.key.quoted ++ (written.text ++ rest))) written.entry rest := by
  obtain ⟨left, hvalue, hleft⟩ := hread
  have hliteral : stringLiteral (δ := δ) (written.key.spelling ++
      '"' :: (written.key.after ++ ':' :: (written.text ++ rest))) =
        .ok (written.key.name, written.key.after ++ ':' :: (written.text ++ rest)) := by
    rw [stringLiteral, body_of_spells written.key.isSpelling]
    rfl
  refine ⟨left, ?_, hleft⟩
  simp only [Key.quoted, List.cons_append, List.append_assoc, List.nil_append]
  rw [member, hliteral]
  show (item seen written.key.name _ >>= _) = _
  rw [hvalue]
  rfl

theorem exists_skipBlanks_source (written : MemberText) (rest : List Char) :
    ∃ chars, skipBlanks (written.source ++ rest) = '"' :: chars ∧
      written.key.quoted ++ (written.text ++ rest) = '"' :: chars := by
  refine ⟨_, ?_, rfl⟩
  rw [MemberText.source, List.append_assoc, skipBlanks_append written.key.isBefore,
    List.append_assoc]
  exact skipBlanks_cons (by decide) _

theorem firstMember_gives {written : MemberText} {seen : List String}
    (hread : ∀ rest, Stops carriesOn rest →
      Gives (item seen written.key.name (written.key.after ++ ':' :: (written.text ++ rest)))
        written.value rest)
    (texts : List (List Char)) (rest : List Char) :
    ∃ chars left,
      skipBlanks (written.source ++ (texts.flatMap (',' :: ·) ++ '\x7d' :: rest)) = '"' :: chars ∧
        member item seen ('"' :: chars) = .ok (written.entry, left) ∧
          skipBlanks left = texts.flatMap (',' :: ·) ++ '\x7d' :: rest := by
  obtain ⟨left, hfirst, hleft⟩ := member_gives
    (hread _ (stops_flatMap_comma texts (by decide : carriesOn '\x7d' = false) rest))
  obtain ⟨chars, hcons, hquoted⟩ :=
    exists_skipBlanks_source written (texts.flatMap (',' :: ·) ++ '\x7d' :: rest)
  rw [hquoted] at hfirst
  rw [skipBlanks_flatMap_comma _ (by decide)] at hleft
  exact ⟨chars, left, hcons, hfirst, hleft⟩

theorem objectTail_gives {members : List MemberText}
    (hread : ∀ member ∈ members, ∀ seen rest, Stops carriesOn rest →
      Gives (item seen member.key.name (member.key.after ++ ':' :: (member.text ++ rest)))
        member.value rest)
    {rounds text rest : List Char} {seen : List String} (hrounds : members.length < rounds.length)
    (htext : skipBlanks text =
      (members.map MemberText.source).flatMap (',' :: ·) ++ '\x7d' :: rest) :
    objectTail item rounds seen text = .ok (members.map MemberText.entry, rest) := by
  induction members generalizing rounds text seen with
  | nil =>
      obtain ⟨round, rounds, rfl⟩ := List.exists_cons_of_ne_nil (List.length_pos_iff.1 hrounds)
      rw [objectTail, htext]
      rfl
  | cons written members ih =>
      rw [List.forall_mem_cons] at hread
      obtain ⟨round, rounds, rfl⟩ :=
        List.exists_cons_of_ne_nil (List.length_pos_iff.1 (Nat.zero_lt_of_lt hrounds))
      rw [List.map_cons, List.flatMap_cons, List.cons_append, List.cons_append,
        List.append_assoc] at htext
      obtain ⟨chars, left, hcons, hfirst, hleft⟩ :=
        firstMember_gives (hread.1 seen) (members.map MemberText.source) rest
      have hothers : objectTail item rounds (written.entry.1 :: seen) left = _ :=
        ih hread.2 (Nat.lt_of_succ_lt_succ hrounds) hleft
      rw [objectTail, htext]
      simp only [hcons]
      show (member item seen ('"' :: chars) >>= _) = _
      rw [hfirst]
      show (objectTail item rounds (written.entry.1 :: seen) left >>= _) = _
      rw [hothers]
      rfl

theorem object_gives {members : List MemberText} (hne : members ≠ [])
    (hread : ∀ member ∈ members, ∀ seen rest, Stops carriesOn rest →
      Gives (item seen member.key.name (member.key.after ++ ':' :: (member.text ++ rest)))
        member.value rest) (rest : List Char) :
    object item ([','].intercalate (members.map MemberText.source) ++ '\x7d' :: rest) =
      .ok (members.map MemberText.entry, rest) := by
  obtain ⟨written, members, rfl⟩ := List.exists_cons_of_ne_nil hne
  rw [List.forall_mem_cons] at hread
  obtain ⟨chars, left, hcons, hfirst, hleft⟩ :=
    firstMember_gives (hread.1 []) (members.map MemberText.source) rest
  have hrounds : members.length < left.length := by simpa using length_lt_of_skipBlanks hleft
  have hothers : objectTail item left [written.entry.1] left = _ :=
    objectTail_gives hread.2 hrounds hleft
  rw [List.map_cons, intercalate_comma_cons, List.append_assoc, object, hcons]
  show (member item [] ('"' :: chars) >>= _) = _
  rw [hfirst]
  show (objectTail item left [written.entry.1] left >>= _) = _
  rw [hothers]
  rfl

end Members

theorem colon_append {blanks : List Char} (hblanks : IsBlanks blanks) (rest : List Char) :
    colon (δ := δ) (blanks ++ ':' :: rest) = .ok rest := by
  rw [colon, skipBlanks_append hblanks]
  rfl

theorem value_skipBlanks (room : Nat) (text : List Char) :
    value (δ := δ) room (skipBlanks text) = value room text := by
  cases room <;> simp only [value, valueWith, skipBlanks_skipBlanks]

theorem value_eq_scalar {c : Char} {chars : List Char} (room : Nat) (hblank : isBlank c = false)
    (hbracket : c ≠ '[') (hbrace : c ≠ '\x7b') :
    value (δ := δ) room (c :: chars) = scalar (c :: chars) := by
  cases room <;> simp [value, valueWith, skipBlanks_cons hblank, hbracket, hbrace]

/-- **Every text that denotes a value is read as it**, if it is nested within the limit. -/
theorem value_of_denotes {text : List Char} {read : Value} (h : Denotes text read) {room : Nat}
    (hroom : read.nesting ≤ room) {rest : List Char} (hrest : Stops carriesOn rest) :
    Gives (value (δ := δ) room (text ++ rest)) read rest := by
  induction h generalizing room rest with
  | null | isTrue | isFalse => cases room <;> exact ⟨rest, rfl, rfl⟩
  | @number literal read hvalue =>
      obtain ⟨c, chars, hchars, hc⟩ := literal.text_cons
      refine ⟨rest, ?_, rfl⟩
      have hnumber := (number_eq_ok (δ := δ) literal (stops_literal literal hrest)).2 ⟨hvalue, rfl⟩
      rw [hchars, List.cons_append] at hnumber ⊢
      rw [value_eq_scalar room (isBlank_of_minus_or_digit hc) (ne_of_minus_or_digit hc (by decide))
        (ne_of_minus_or_digit hc (by decide)), scalar,
        if_neg (ne_of_minus_or_digit hc (by decide)), if_neg (ne_of_minus_or_digit hc (by decide)),
        if_neg (ne_of_minus_or_digit hc (by decide)), if_pos hc, hnumber]
  | @string text content hspells =>
      refine ⟨rest, ?_, rfl⟩
      have hliteral : stringLiteral (δ := δ) (text ++ '"' :: rest) =
          .ok (String.ofList content, rest) := by
        rw [stringLiteral, body_of_spells hspells]
        rfl
      rw [List.cons_append, List.append_assoc, List.singleton_append,
        value_eq_scalar room (by decide) (by decide) (by decide)]
      show (stringLiteral (text ++ '"' :: rest)).map _ = _
      rw [hliteral]
      rfl
  | @emptyList blanks hblanks =>
      obtain ⟨room, rfl⟩ := Nat.exists_eq_add_one_of_ne_zero (Nat.pos_iff_ne_zero.1 hroom)
      refine ⟨rest, ?_, rfl⟩
      rw [List.cons_append, List.append_assoc]
      show (list _ (blanks ++ ']' :: rest)).map _ = _
      rw [list, skipBlanks_append hblanks]
      rfl
  | @list items hne hitems ih =>
      obtain ⟨room, rfl⟩ := Nat.exists_eq_add_one_of_ne_zero
        (Nat.pos_iff_ne_zero.1 (Nat.zero_lt_of_lt hroom))
      rw [Value.nesting, Nat.add_le_add_iff_right, nestingAll_le_iff, List.forall_mem_map] at hroom
      refine ⟨rest, ?_, rfl⟩
      have hlist := list_gives (δ := δ) (value_skipBlanks room) hne hitems
        (fun item hmem rest => ih item hmem (hroom item hmem)) rest
      rw [List.cons_append, List.append_assoc]
      show (list _ ([','].intercalate (items.map Prod.fst) ++ ']' :: rest)).map _ = _
      rw [hlist]
      rfl
  | @emptyObject blanks hblanks =>
      obtain ⟨room, rfl⟩ := Nat.exists_eq_add_one_of_ne_zero (Nat.pos_iff_ne_zero.1 hroom)
      refine ⟨rest, ?_, rfl⟩
      rw [List.cons_append, List.append_assoc]
      show (object _ (blanks ++ '\x7d' :: rest)).map _ = _
      rw [object, skipBlanks_append hblanks]
      rfl
  | @object members hne hmembers ih =>
      obtain ⟨room, rfl⟩ := Nat.exists_eq_add_one_of_ne_zero
        (Nat.pos_iff_ne_zero.1 (Nat.zero_lt_of_lt hroom))
      rw [Value.nesting, Nat.add_le_add_iff_right, nestingMembers_le_iff,
        List.forall_mem_map] at hroom
      refine ⟨rest, ?_, rfl⟩
      have hread (member : MemberText) (hmem : member ∈ members) (seen : List String)
          (rest : List Char) (hrest : Stops carriesOn rest) :
          Gives (colon (δ := δ) (member.key.after ++ ':' :: (member.text ++ rest)) >>= value room)
            member.value rest := by
        rw [colon_append member.key.isAfter]
        exact ih member hmem (hroom member hmem) hrest
      have hobject : object (fun _ _ rest => colon (δ := δ) rest >>= value room)
          ([','].intercalate (members.map MemberText.source) ++ '\x7d' :: rest) = _ :=
        object_gives hne hread rest
      rw [List.cons_append, List.append_assoc]
      show (object _
        ([','].intercalate (members.map MemberText.source) ++ '\x7d' :: rest)).map _ = _
      rw [hobject]
      rfl
  | @padded before text after value hbefore hafter h ih =>
      obtain ⟨left, hleft, hblanks⟩ := ih hroom (stops_blanks_append hafter hrest)
      refine ⟨left, ?_, ?_⟩
      · rw [← value_skipBlanks, List.append_assoc, List.append_assoc, skipBlanks_append hbefore,
          value_skipBlanks, hleft]
      · rw [hblanks, skipBlanks_append hafter]

end Complete

section Start

variable {room : Nat} {text rest : List Char}

theorem value_bracket (h : skipBlanks text = '[' :: rest) :
    value (δ := δ) (room + 1) text =
      (list (value room) rest).map fun (values, rest) => (.arr values, rest) := by
  rw [← value_skipBlanks, h]
  rfl

theorem value_brace (h : skipBlanks text = '\x7b' :: rest) :
    value (δ := δ) (room + 1) text =
      (object (fun _ _ rest => colon rest >>= value room) rest).map fun (values, rest) =>
        (.obj values, rest) := by
  rw [← value_skipBlanks, h]
  rfl

theorem value_eq_scalar_skipBlanks (hbracket : ∀ rest, skipBlanks text ≠ '[' :: rest)
    (hbrace : ∀ rest, skipBlanks text ≠ '\x7b' :: rest) :
    value (δ := δ) room text = scalar (skipBlanks text) := by
  cases room with
  | zero =>
      show valueWith none text = _
      unfold valueWith
      split <;> simp_all
  | succ room =>
      show valueWith (some (value room)) text = _
      unfold valueWith
      split <;> simp_all

theorem exists_arr_of_value {result : Value × List Char} (h : skipBlanks text = '[' :: rest)
    (hvalue : value (δ := δ) room text = .ok result) : ∃ values, result.1 = .arr values := by
  cases room with
  | zero =>
      rw [← value_skipBlanks, h] at hvalue
      cases hvalue
  | succ room =>
      rw [value_bracket h] at hvalue
      obtain ⟨first, -, rfl⟩ := map_eq_ok.1 hvalue
      exact ⟨first.1, rfl⟩

theorem exists_obj_of_value {result : Value × List Char} (h : skipBlanks text = '\x7b' :: rest)
    (hvalue : value (δ := δ) room text = .ok result) : ∃ members, result.1 = .obj members := by
  cases room with
  | zero =>
      rw [← value_skipBlanks, h] at hvalue
      cases hvalue
  | succ room =>
      rw [value_brace h] at hvalue
      obtain ⟨first, -, rfl⟩ := map_eq_ok.1 hvalue
      exact ⟨first.1, rfl⟩

end Start

section Whole

variable {room : Nat} {text : List Char} {read : Value}

theorem finish_eq_ok_iff : finish (δ := δ) text = .ok () ↔ skipBlanks text = [] := by
  rw [finish]
  split
  · next heq => simp [heq]
  · next other hother => simpa using hother

theorem isBlanks_of_finish (h : finish (δ := δ) text = .ok ()) : IsBlanks text :=
  List.dropWhile_eq_nil_iff.1 (finish_eq_ok_iff.1 h)

theorem denotesWithin_of_value_finish {rest : List Char}
    (hvalue : value (δ := δ) room text = .ok (read, rest))
    (hfinish : finish (δ := δ) rest = .ok ()) : DenotesWithin room text read := by
  obtain ⟨front, rfl, hdenotes⟩ := denotes_of_value hvalue
  exact hdenotes.padded isBlanks_nil (isBlanks_of_finish hfinish)

theorem DenotesWithin.exists_value (h : DenotesWithin room text read) :
    ∃ rest, value (δ := δ) room text = .ok (read, rest) ∧ finish (δ := δ) rest = .ok () := by
  obtain ⟨rest, hvalue, hblanks⟩ :=
    value_of_denotes (δ := δ) h.denotes h.nesting_le Text.stops_nil
  rw [List.append_nil] at hvalue
  exact ⟨rest, hvalue, finish_eq_ok_iff.2 hblanks⟩

/-- **A whole text is read as a value exactly if it denotes it**, within the limit of nesting. -/
theorem parse_eq_ok_iff :
    parse (δ := δ) text = .ok read ↔ DenotesWithin maxNesting text read := by
  constructor
  · intro h
    obtain ⟨⟨read', rest⟩, hvalue, h⟩ := bind_eq_ok.1 h
    obtain ⟨_, hfinish, h⟩ := bind_eq_ok.1 h
    obtain rfl := Except.ok.inj h
    exact denotesWithin_of_value_finish hvalue hfinish
  · intro h
    obtain ⟨rest, hvalue, hfinish⟩ := h.exists_value (δ := δ)
    rw [parse, hvalue]
    show (finish rest >>= _) = _
    rw [hfinish]
    rfl

theorem DenotesWithin.eq {other : Value} (h : DenotesWithin room text read)
    (hother : DenotesWithin room text other) : read = other := by
  obtain ⟨rest, hvalue, -⟩ := h.exists_value (δ := Unit)
  obtain ⟨rest', hvalue', -⟩ := hother.exists_value (δ := Unit)
  exact (Prod.mk.inj (Except.ok.inj (hvalue.symm.trans hvalue'))).1

theorem Denotes.eq {other : Value} (h : Denotes text read) (hother : Denotes text other) :
    read = other :=
  DenotesWithin.eq ⟨h, le_max_left _ other.nesting⟩ ⟨hother, le_max_right _ _⟩

end Whole

end RubyPress.Json
