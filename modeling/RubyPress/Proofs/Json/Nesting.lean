import RubyPress.Proofs.Json.Literal

/-!
# Nested values in JSON text

How deep the brackets of a text are nested decides whether it can be read. Up to the limit a value
is read back from its compact text, and beyond it reading stops at the limit and for no other reason
(`value_print`). The depth is that of the value, and it can be seen in the text alone by counting
brackets outside of string literals (`deepest_print`).
-/

namespace RubyPress.Json

open Text (Stops)

variable {δ : Type}

/-- The values that their compact text holds exactly: they have no real numbers. -/
inductive Exact : Value → Prop where
  | null : Exact .null
  | bool (value : Bool) : Exact (.bool value)
  | int {value : Int} (hvalue : IsWhole value) : Exact (.int value)
  | str (value : String) : Exact (.str value)
  | arr {elements : List Value} (helements : ∀ element ∈ elements, Exact element) :
      Exact (.arr elements)
  | obj {members : List (String × Value)} (hmembers : ∀ member ∈ members, Exact member.2) :
      Exact (.obj members)

mutual

/-- The most brackets that are open at once in a value. -/
def Value.nesting : Value → Nat
  | .arr elements => nestingAll elements + 1
  | .obj members => nestingMembers members + 1
  | .null | .bool _ | .int _ | .real _ | .str _ => 0

def nestingAll : List Value → Nat
  | [] => 0
  | value :: rest => max value.nesting (nestingAll rest)

def nestingMembers : List (String × Value) → Nat
  | [] => 0
  | (_, value) :: rest => max value.nesting (nestingMembers rest)

end

theorem nestingAll_le_iff {elements : List Value} {room : Nat} :
    nestingAll elements ≤ room ↔ ∀ element ∈ elements, element.nesting ≤ room := by
  induction elements with
  | nil => simp [nestingAll]
  | cons element elements ih => simp [nestingAll, ih]

theorem nestingMembers_le_iff {members : List (String × Value)} {room : Nat} :
    nestingMembers members ≤ room ↔ ∀ member ∈ members, member.2.nesting ≤ room := by
  induction members with
  | nil => simp [nestingMembers]
  | cons member members ih =>
      obtain ⟨key, value⟩ := member
      rw [nestingMembers, max_le_iff, ih, List.forall_mem_cons]

def Value.parts : Value → List Value
  | .arr elements => elements
  | .obj members => members.map Prod.snd
  | .null | .bool _ | .int _ | .real _ | .str _ => []

theorem nesting_lt_of_mem_parts {value part : Value} (h : part ∈ value.parts) :
    part.nesting < value.nesting := by
  cases value with
  | arr elements => exact Nat.lt_succ_of_le (nestingAll_le_iff.1 le_rfl part h)
  | obj members =>
      obtain ⟨member, hmember, rfl⟩ := List.mem_map.1 h
      exact Nat.lt_succ_of_le (nestingMembers_le_iff.1 le_rfl member hmember)
  | _ => cases h

/-- What holds of a value whenever it holds of its parts holds of every value. -/
@[elab_as_elim]
theorem Value.induction_parts {motive : Value → Prop}
    (step : ∀ value : Value, (∀ part ∈ value.parts, motive part) → motive value) (value : Value) :
    motive value :=
  step value fun part _ => induction_parts step part
termination_by value.nesting
decreasing_by exact nesting_lt_of_mem_parts ‹_›

theorem printAll_eq (elements : List Value) : printAll elements = elements.map print := by
  induction elements with
  | nil => rfl
  | cons element elements ih => rw [printAll, ih, List.map_cons]

def printMember (member : String × Value) : List Char :=
  printString member.1 ++ ':' :: print member.2

theorem printMembers_eq (members : List (String × Value)) :
    printMembers members = members.map printMember := by
  induction members with
  | nil => rfl
  | cons member members ih =>
      obtain ⟨key, value⟩ := member
      rw [printMembers, ih, List.map_cons, printMember]

theorem intercalate_comma_cons (first : List Char) (others : List (List Char)) :
    [','].intercalate (first :: others) = first ++ others.flatMap (',' :: ·) := by
  induction others generalizing first with
  | nil => simp
  | cons second others ih =>
      rw [List.intercalate_cons_cons, ih, List.flatMap_cons]
      simp

/-- No value starts with a blank or with a closing bracket. -/
theorem Exact.print_cons {value : Value} (hvalue : Exact value) :
    ∃ c chars, print value = c :: chars ∧ isBlank c = false ∧ c ≠ ']' := by
  cases hvalue with
  | null => exact ⟨'n', _, rfl, rfl, by decide⟩
  | bool value => cases value <;> exact ⟨_, _, rfl, rfl, by decide⟩
  | @int value hwhole =>
      obtain ⟨c, chars, hchars, hc⟩ := exists_cons_toString value
      have table : ∀ d ∈ [' ', '\t', '\n', '\r', ']'], ¬(d = '-' ∨ d.isDigit) := by decide
      have hne : ∀ d ∈ [' ', '\t', '\n', '\r', ']'], c ≠ d := by
        rintro d hd rfl
        exact table c hd hc
      simp only [List.forall_mem_cons] at hne
      obtain ⟨hspace, htab, hnewline, hreturn, hbracket, -⟩ := hne
      exact ⟨c, chars, hchars, by simp [isBlank, hspace, htab, hnewline, hreturn], hbracket⟩
  | str value => exact ⟨'"', _, rfl, rfl, by decide⟩
  | arr helements => exact ⟨'[', _, rfl, rfl, by decide⟩
  | obj hmembers => exact ⟨'\x7b', _, rfl, rfl, by decide⟩

theorem skipBlanks_cons {c : Char} (hc : isBlank c = false) (rest : List Char) :
    skipBlanks (c :: rest) = c :: rest := by
  simp [skipBlanks, hc]

/-- Reading gives the value and leaves the rest, if the value fits; otherwise the nesting limit is
what stops it. -/
def Reads {α : Type} (fits : Prop) (result : Except (Fault δ) (α × List Char)) (value : α)
    (rest : List Char) : Prop :=
  (fits → result = .ok (value, rest)) ∧
    (¬fits → ∃ left, result = .error ⟨.malformed .nestingLimit, left⟩)

section Reads

variable {α β γ : Type} {fits others : Prop} {value : α} {rest middle : List Char}

theorem Reads.of_iff {result : Except (Fault δ) (α × List Char)} (h : Reads fits result value rest)
    (hiff : fits ↔ others) : Reads others result value rest := by
  rwa [propext hiff] at h

theorem Reads.of_eq_ok {result : Except (Fault δ) (α × List Char)} (hfits : fits)
    (h : result = .ok (value, rest)) : Reads fits result value rest :=
  ⟨fun _ => h, fun hnot => absurd hfits hnot⟩

theorem Reads.map {result : Except (Fault δ) (α × List Char)} (h : Reads fits result value rest)
    (build : α → β) :
    Reads fits (result.map fun (value, rest) => (build value, rest)) (build value) rest := by
  refine ⟨fun hfits => ?_, fun hnot => ?_⟩
  · rw [h.1 hfits]
    rfl
  · obtain ⟨left, hleft⟩ := h.2 hnot
    exact ⟨left, by rw [hleft]; rfl⟩

/-- Two reads one after the other; the first that does not fit stops both. -/
theorem Reads.seq {first : Except (Fault δ) (α × List Char)} {second : β} (build : α → β → γ)
    (next : α → List Char → Except (Fault δ) (β × List Char))
    (hfirst : Reads fits first value middle) (hnext : Reads others (next value middle) second rest) :
    Reads (fits ∧ others) (do
      let (value, middle) ← first
      let (second, rest) ← next value middle
      .ok (build value second, rest)) (build value second) rest := by
  by_cases hfits : fits
  · rw [hfirst.1 hfits]
    refine ⟨fun h => ?_, fun hnot => ?_⟩
    · show (next value middle >>= fun (second, rest) => .ok (build value second, rest)) = _
      rw [hnext.1 h.2]
      rfl
    · obtain ⟨left, hleft⟩ := hnext.2 (fun h => hnot ⟨hfits, h⟩)
      refine ⟨left, ?_⟩
      show (next value middle >>= fun (second, rest) => .ok (build value second, rest)) = _
      rw [hleft]
      rfl
  · refine ⟨fun h => absurd h.1 hfits, fun _ => ?_⟩
    obtain ⟨left, hleft⟩ := hfirst.2 hfits
    exact ⟨left, by rw [hleft]; rfl⟩

end Reads

section Items

theorem stops_flatMap_comma (texts : List (List Char)) {c : Char} (hc : carriesOn c = false)
    (rest : List Char) : Stops carriesOn (texts.flatMap (',' :: ·) ++ c :: rest) := by
  cases texts with
  | nil => exact Text.stops_cons.2 hc
  | cons text texts => exact Text.stops_cons.2 (by decide)

theorem length_lt_flatMap_comma (texts : List (List Char)) (c : Char) (rest : List Char) :
    texts.length < (texts.flatMap (',' :: ·) ++ c :: rest).length := by
  induction texts with
  | nil => simp
  | cons text texts ih =>
      simp only [List.flatMap_cons, List.length_append, List.length_cons] at ih ⊢
      omega

variable {item : List Char → Except (Fault δ) (Value × List Char)}

theorem listTail_comma {round c : Char} {rounds chars : List Char} (hblank : isBlank c = false)
    (hbracket : c ≠ ']') :
    listTail item (round :: rounds) (',' :: c :: chars) = (do
      let (first, rest) ← item (c :: chars)
      let (others, rest) ← listTail item rounds rest
      .ok (first :: others, rest)) := by
  rw [listTail, skipBlanks_cons (by decide)]
  simp only [skipBlanks_cons hblank]
  split
  · next heq => cases heq
  · next heq => exact absurd (List.cons.inj heq).1 hbracket
  · rfl

theorem list_cons {c : Char} {chars : List Char} (hblank : isBlank c = false) (hbracket : c ≠ ']') :
    list item (c :: chars) = (do
      let (first, rest) ← item (c :: chars)
      let (others, rest) ← listTail item rest rest
      .ok (first :: others, rest)) := by
  rw [list, skipBlanks_cons hblank]
  split
  · next heq => cases heq
  · next heq => exact absurd (List.cons.inj heq).1 hbracket
  · rfl

theorem listTail_print {fits : Value → Prop} {elements : List Value}
    (hexact : ∀ element ∈ elements, Exact element)
    (hitem : ∀ element ∈ elements, ∀ rest, Stops carriesOn rest →
      Reads (fits element) (item (print element ++ rest)) element rest)
    (rounds rest : List Char) (hrounds : elements.length < rounds.length) :
    Reads (∀ element ∈ elements, fits element)
      (listTail item rounds ((elements.map print).flatMap (',' :: ·) ++ ']' :: rest))
      elements rest := by
  -- Each element takes one round, and the closing bracket takes the last.
  induction elements generalizing rounds with
  | nil =>
      obtain ⟨round, rounds, rfl⟩ := List.exists_cons_of_ne_nil (List.length_pos_iff.1 hrounds)
      exact .of_eq_ok (by simp) rfl
  | cons element elements ih =>
      rw [List.forall_mem_cons] at hexact hitem
      obtain ⟨round, rounds, rfl⟩ :=
        List.exists_cons_of_ne_nil (List.length_pos_iff.1 (Nat.zero_lt_of_lt hrounds))
      obtain ⟨c, chars, hprint, hblank, hbracket⟩ := hexact.1.print_cons
      have hfirst := hitem.1 _ (stops_flatMap_comma (elements.map print)
        (by decide : carriesOn ']' = false) rest)
      have hothers := ih hexact.2 hitem.2 rounds (Nat.lt_of_succ_lt_succ hrounds)
      rw [List.map_cons, List.flatMap_cons, List.cons_append, List.cons_append, List.append_assoc,
        hprint, List.cons_append, listTail_comma hblank hbracket]
      rw [hprint, List.cons_append] at hfirst
      exact (hfirst.seq List.cons (fun _ => listTail item rounds) hothers).of_iff
        List.forall_mem_cons.symm

theorem list_print {fits : Value → Prop} {elements : List Value}
    (hexact : ∀ element ∈ elements, Exact element)
    (hitem : ∀ element ∈ elements, ∀ rest, Stops carriesOn rest →
      Reads (fits element) (item (print element ++ rest)) element rest) (rest : List Char) :
    Reads (∀ element ∈ elements, fits element)
      (list item ([','].intercalate (elements.map print) ++ ']' :: rest)) elements rest := by
  cases elements with
  | nil => exact .of_eq_ok (by simp) rfl
  | cons element elements =>
      rw [List.forall_mem_cons] at hexact hitem
      obtain ⟨c, chars, hprint, hblank, hbracket⟩ := hexact.1.print_cons
      have hfirst := hitem.1 _ (stops_flatMap_comma (elements.map print)
        (by decide : carriesOn ']' = false) rest)
      have hrounds := length_lt_flatMap_comma (elements.map print) ']' rest
      rw [List.length_map] at hrounds
      have hothers := listTail_print hexact.2 hitem.2 _ rest hrounds
      rw [List.map_cons, intercalate_comma_cons, List.append_assoc, hprint, List.cons_append,
        list_cons hblank hbracket]
      rw [hprint, List.cons_append] at hfirst
      exact (hfirst.seq List.cons (fun _ rest => listTail item rest rest) hothers).of_iff
        List.forall_mem_cons.symm

end Items

section Members

variable {item : List String → String → List Char → Except (Fault δ) (Value × List Char)}

theorem member_print {fits : Prop} {seen : List String} {entry : String × Value}
    {rest : List Char}
    (hitem : Reads fits (item seen entry.1 (':' :: print entry.2 ++ rest)) entry.2 rest) :
    Reads fits (member item seen (printMember entry ++ rest)) entry rest := by
  have hmember : member item seen (printMember entry ++ rest) =
      (item seen entry.1 (':' :: print entry.2 ++ rest)).map
        fun (value, rest) => ((entry.1, value), rest) := by
    simp only [printMember, printString, List.cons_append, List.append_assoc, member,
      List.nil_append, stringLiteral_escape]
    show (item seen entry.1 _ >>= fun (value, rest) => .ok ((entry.1, value), rest)) = _
    cases item seen entry.1 (':' :: (print entry.2 ++ rest)) <;> rfl
  rw [hmember]
  exact hitem.map (entry.1, ·)

theorem printMember_append (entry : String × Value) (rest : List Char) :
    ∃ chars, printMember entry ++ rest = '"' :: chars :=
  ⟨_, rfl⟩

theorem objectTail_comma {round : Char} {rounds chars : List Char} {seen : List String} :
    objectTail item (round :: rounds) seen (',' :: '"' :: chars) = (do
      let (first, rest) ← member item seen ('"' :: chars)
      let (others, rest) ← objectTail item rounds (first.1 :: seen) rest
      .ok (first :: others, rest)) := by
  rw [objectTail, skipBlanks_cons (by decide)]
  simp only [skipBlanks_cons (by decide : isBlank '"' = false)]
  rfl

theorem object_cons {chars : List Char} :
    object item ('"' :: chars) = (do
      let (first, rest) ← member item [] ('"' :: chars)
      let (others, rest) ← objectTail item rest [first.1] rest
      .ok (first :: others, rest)) := by
  rw [object, skipBlanks_cons (by decide)]
  rfl

theorem objectTail_print {fits : String × Value → Prop} {members : List (String × Value)}
    (hitem : ∀ entry ∈ members, ∀ seen rest, Stops carriesOn rest →
      Reads (fits entry) (item seen entry.1 (':' :: print entry.2 ++ rest)) entry.2 rest)
    (rounds rest : List Char) (seen : List String) (hrounds : members.length < rounds.length) :
    Reads (∀ entry ∈ members, fits entry)
      (objectTail item rounds seen ((members.map printMember).flatMap (',' :: ·) ++ '\x7d' :: rest))
      members rest := by
  induction members generalizing rounds seen with
  | nil =>
      obtain ⟨round, rounds, rfl⟩ := List.exists_cons_of_ne_nil (List.length_pos_iff.1 hrounds)
      exact .of_eq_ok (by simp) rfl
  | cons entry members ih =>
      rw [List.forall_mem_cons] at hitem
      obtain ⟨round, rounds, rfl⟩ :=
        List.exists_cons_of_ne_nil (List.length_pos_iff.1 (Nat.zero_lt_of_lt hrounds))
      have hfirst := member_print (hitem.1 seen _ (stops_flatMap_comma (members.map printMember)
        (by decide : carriesOn '\x7d' = false) rest))
      have hothers := ih hitem.2 rounds (entry.1 :: seen) (Nat.lt_of_succ_lt_succ hrounds)
      obtain ⟨chars, hchars⟩ := printMember_append entry
        ((members.map printMember).flatMap (',' :: ·) ++ '\x7d' :: rest)
      rw [List.map_cons, List.flatMap_cons, List.cons_append, List.cons_append, List.append_assoc,
        hchars, objectTail_comma]
      rw [hchars] at hfirst
      exact (hfirst.seq List.cons (fun first => objectTail item rounds (first.1 :: seen))
        hothers).of_iff List.forall_mem_cons.symm

theorem object_print {fits : String × Value → Prop} {entry : String × Value}
    {members : List (String × Value)}
    (hentry : ∀ rest, Stops carriesOn rest →
      Reads (fits entry) (item [] entry.1 (':' :: print entry.2 ++ rest)) entry.2 rest)
    (hitem : ∀ entry ∈ members, ∀ seen rest, Stops carriesOn rest →
      Reads (fits entry) (item seen entry.1 (':' :: print entry.2 ++ rest)) entry.2 rest)
    (rest : List Char) :
    Reads (∀ member ∈ entry :: members, fits member)
      (object item ([','].intercalate ((entry :: members).map printMember) ++ '\x7d' :: rest))
      (entry :: members) rest := by
  have hfirst := member_print (hentry _ (stops_flatMap_comma (members.map printMember)
    (by decide : carriesOn '\x7d' = false) rest))
  have hrounds := length_lt_flatMap_comma (members.map printMember) '\x7d' rest
  rw [List.length_map] at hrounds
  have hothers := objectTail_print hitem _ rest [entry.1] hrounds
  obtain ⟨chars, hchars⟩ := printMember_append entry
    ((members.map printMember).flatMap (',' :: ·) ++ '\x7d' :: rest)
  rw [List.map_cons, intercalate_comma_cons, List.append_assoc, hchars, object_cons]
  rw [hchars] at hfirst
  exact (hfirst.seq List.cons (fun first rest => objectTail item rest [first.1] rest)
    hothers).of_iff List.forall_mem_cons.symm

end Members

variable {nested : Option (List Char → Except (Fault δ) (Value × List Char))}

theorem valueWith_number {value : Int} (hvalue : IsWhole value) {rest : List Char}
    (hrest : Stops carriesOn rest) :
    valueWith nested ((toString value).toList ++ rest) = .ok (.int value, rest) := by
  have hnumber : number (δ := δ) ((toString value).toList ++ rest) = .ok (.int value, rest) :=
    number_toString hvalue hrest
  obtain ⟨c, chars, hchars, hc⟩ := exists_cons_toString value
  have hne : ∀ d ∈ [' ', '\t', '\n', '\r', '[', '\x7b', 'n', 't', 'f'], c ≠ d := by
    have table : ∀ d ∈ [' ', '\t', '\n', '\r', '[', '\x7b', 'n', 't', 'f'],
        ¬(d = '-' ∨ d.isDigit) := by decide
    rintro d hd rfl
    exact table c hd hc
  simp only [List.forall_mem_cons] at hne
  obtain ⟨hspace, htab, hnewline, hreturn, hbracket, hbrace, hn, ht, hf, -⟩ := hne
  rw [hchars, List.cons_append] at hnumber ⊢
  unfold valueWith
  rw [skipBlanks_cons (by simp [isBlank, hspace, htab, hnewline, hreturn])]
  split
  · next heq => exact absurd (List.cons.inj heq).1 hbracket
  · next heq => exact absurd (List.cons.inj heq).1 hbrace
  · next heq => exact absurd (List.cons.inj heq).1 hbracket
  · next heq => exact absurd (List.cons.inj heq).1 hbrace
  · rw [scalar, if_neg hn, if_neg ht, if_neg hf, if_pos hc, hnumber]

theorem valueWith_string (value : String) (rest : List Char) :
    valueWith nested (printString value ++ rest) = .ok (.str value, rest) := by
  have hliteral : stringLiteral (δ := δ) (value.toList.flatMap escapeChar ++ '"' :: rest) =
      .ok (value, rest) := stringLiteral_escape value rest
  have hscalar : scalar (δ := δ) ('"' :: (value.toList.flatMap escapeChar ++ '"' :: rest)) =
      .ok (.str value, rest) := by
    show (stringLiteral _).map _ = _
    rw [hliteral]
    rfl
  rw [printString, List.cons_append, List.cons_append, List.append_assoc, List.singleton_append]
  cases nested <;> exact hscalar

theorem valueWith_null (rest : List Char) :
    valueWith nested (print .null ++ rest) = .ok (.null, rest) := by
  cases nested <;> rfl

theorem valueWith_bool (value : Bool) (rest : List Char) :
    valueWith nested (print (.bool value) ++ rest) = .ok (.bool value, rest) := by
  cases nested <;> cases value <;> rfl

/-- **Values are read back up to the limit of nesting**, and no others are refused. -/
theorem value_print {read : Value} (hread : Exact read) (room : Nat) {rest : List Char}
    (hrest : Stops carriesOn rest) :
    Reads (δ := δ) (read.nesting ≤ room) (value room (print read ++ rest)) read rest := by
  induction hread generalizing room rest with
  | null => cases room <;> exact .of_eq_ok (Nat.zero_le _) (valueWith_null rest)
  | bool value => cases room <;> exact .of_eq_ok (Nat.zero_le _) (valueWith_bool value rest)
  | int hvalue => cases room <;> exact .of_eq_ok (Nat.zero_le _) (valueWith_number hvalue hrest)
  | str value => cases room <;> exact .of_eq_ok (Nat.zero_le _) (valueWith_string value rest)
  | @arr elements hexact ih =>
      cases room with
      | zero => exact ⟨fun h => absurd h (by simp [Value.nesting]), fun _ => ⟨_, rfl⟩⟩
      | succ room =>
          have hlist := list_print hexact (fun element hmem rest => ih element hmem room) rest
          have htext : print (.arr elements) ++ rest =
              '[' :: ([','].intercalate (elements.map print) ++ ']' :: rest) := by
            rw [print, printAll_eq]
            simp
          rw [htext, Value.nesting]
          refine Reads.of_iff (hlist.map Value.arr) ?_
          rw [Nat.add_le_add_iff_right, nestingAll_le_iff]
  | @obj members hexact ih =>
      cases room with
      | zero => exact ⟨fun h => absurd h (by simp [Value.nesting]), fun _ => ⟨_, rfl⟩⟩
      | succ room =>
          have hobject : Reads (δ := δ) (∀ entry ∈ members, entry.2.nesting ≤ room)
              (object (fun _ _ rest => colon rest >>= value room)
                ([','].intercalate (members.map printMember) ++ '\x7d' :: rest)) members rest := by
            cases members with
            | nil => exact .of_eq_ok (by simp) rfl
            | cons entry members =>
                rw [List.forall_mem_cons] at ih
                exact object_print (fun rest => ih.1 room)
                  (fun entry hmem seen rest => ih.2 entry hmem room) rest
          have htext : print (.obj members) ++ rest =
              '\x7b' :: ([','].intercalate (members.map printMember) ++ '\x7d' :: rest) := by
            rw [print, printMembers_eq]
            simp
          rw [htext, Value.nesting]
          refine Reads.of_iff (hobject.map Value.obj) ?_
          rw [Nat.add_le_add_iff_right, nestingMembers_le_iff]

/-! ### Depth of a text -/

/-- The most brackets that are open at once from here on, inside of a string literal or outside,
where `opened` brackets are open already. -/
def deepest : Bool → Nat → List Char → Nat
  | _, opened, [] => opened
  | true, opened, '\\' :: _ :: rest => deepest true opened rest
  | true, opened, c :: rest => deepest (c != '"') opened rest
  | false, opened, c :: rest =>
    if c = '"' then deepest true opened rest
    else if c = '[' ∨ c = '\x7b' then deepest false (opened + 1) rest
    else if c = ']' ∨ c = '\x7d' then max opened (deepest false (opened - 1) rest)
    else deepest false opened rest

/-- The most brackets that a text has open at once. -/
def bracketDepth (source : String) : Nat := deepest false 0 source.toList

theorem le_deepest (quoted : Bool) (opened : Nat) (text : List Char) :
    opened ≤ deepest quoted opened text := by
  fun_induction deepest quoted opened text <;> omega

/-- The characters that count for the depth. -/
def counts (c : Char) : Bool :=
  ['"', '[', ']', '\x7b', '\x7d'].contains c

theorem deepest_plain (opened : Nat) {text : List Char} (htext : ∀ c ∈ text, counts c = false)
    (rest : List Char) : deepest false opened (text ++ rest) = deepest false opened rest := by
  induction text with
  | nil => rfl
  | cons c text ih =>
      rw [List.forall_mem_cons] at htext
      have hc := htext.1
      simp only [counts, List.contains_eq_mem, List.mem_cons, List.not_mem_nil, or_false,
        decide_eq_false_iff_not, not_or] at hc
      obtain ⟨hquote, hopen, hclose, hopenBrace, hcloseBrace⟩ := hc
      simp only [List.cons_append, deepest, hquote, hopen, hclose, hopenBrace, hcloseBrace, or_self,
        if_false]
      exact ih htext.2

theorem deepest_quoted (opened : Nat) {text : List Char} (htext : ∀ c ∈ text, c ≠ '"' ∧ c ≠ '\\')
    (rest : List Char) : deepest true opened (text ++ rest) = deepest true opened rest := by
  induction text with
  | nil => rfl
  | cons c text ih =>
      rw [List.forall_mem_cons] at htext
      obtain ⟨hquote, hbackslash⟩ := htext.1
      rw [List.cons_append, deepest, bne_iff_ne.2 hquote]
      · exact ih htext.2
      · rintro c rest rfl
        exact absurd rfl hbackslash

theorem deepest_escapeChar (opened : Nat) (c : Char) (rest : List Char) :
    deepest true opened (escapeChar c ++ rest) = deepest true opened rest := by
  unfold escapeChar
  split_ifs with hquote hbackslash hbackspace htab hnewline hfeed hreturn hcontrol
  · rfl
  · rfl
  · rfl
  · rfl
  · rfl
  · rfl
  · rfl
  · rw [List.cons_append, List.cons_append, deepest]
    refine deepest_quoted opened ?_ rest
    intro d hd
    have hletter := Text.isAlphanum_of_mem_fixed hd
    constructor <;> rintro rfl <;> exact absurd hletter (by decide)
  · exact deepest_quoted opened (by simp [hquote, hbackslash]) rest

theorem deepest_printString (opened : Nat) (value : String) (rest : List Char) :
    deepest false opened (printString value ++ rest) = deepest false opened rest := by
  have hcontent : ∀ content : List Char,
      deepest true opened (content.flatMap escapeChar ++ '"' :: rest) =
        deepest false opened rest := by
    intro content
    induction content with
    | nil => rfl
    | cons c content ih => rw [List.flatMap_cons, List.append_assoc, deepest_escapeChar, ih]
  rw [printString, List.cons_append, List.cons_append, List.append_assoc]
  exact hcontent value.toList

theorem deepest_intercalate {α : Type} {items : List α} {text : α → List Char} {depth : α → Nat}
    {opened : Nat} (hitem : ∀ item ∈ items, ∀ rest, deepest false opened (text item ++ rest) =
      max (opened + depth item) (deepest false opened rest)) (rest : List Char) :
    deepest false opened ([','].intercalate (items.map text) ++ rest) =
      max (opened + (items.map depth).foldr max 0) (deepest false opened rest) := by
  have htail : ∀ others : List α, (∀ item ∈ others, item ∈ items) →
      deepest false opened ((others.map text).flatMap (',' :: ·) ++ rest) =
        max (opened + (others.map depth).foldr max 0) (deepest false opened rest) := by
    intro others hothers
    induction others with
    | nil => exact (max_eq_right (le_deepest false opened rest)).symm
    | cons item others ih =>
        rw [List.forall_mem_cons] at hothers
        have hcomma (rest : List Char) : deepest false opened (',' :: rest) =
            deepest false opened rest := rfl
        rw [List.map_cons, List.flatMap_cons, List.cons_append, List.cons_append,
          List.append_assoc, hcomma, hitem item hothers.1, ih hothers.2, List.map_cons,
          List.foldr_cons]
        omega
  cases items with
  | nil => exact (max_eq_right (le_deepest false opened rest)).symm
  | cons item items =>
      rw [List.map_cons, intercalate_comma_cons, List.append_assoc, hitem item (by simp),
        htail items (by simp +contextual), List.map_cons, List.foldr_cons]
      omega

theorem nestingAll_eq (elements : List Value) :
    nestingAll elements = (elements.map Value.nesting).foldr max 0 := by
  induction elements with
  | nil => rfl
  | cons element elements ih => rw [nestingAll, ih, List.map_cons, List.foldr_cons]

theorem nestingMembers_eq (members : List (String × Value)) :
    nestingMembers members = (members.map fun entry => entry.2.nesting).foldr max 0 := by
  induction members with
  | nil => rfl
  | cons entry members ih =>
      obtain ⟨key, value⟩ := entry
      rw [nestingMembers, ih, List.map_cons, List.foldr_cons]

theorem deepest_of_not_counts (opened : Nat) {text : List Char}
    (htext : ∀ c ∈ text, counts c = false) (rest : List Char) :
    deepest false opened (text ++ rest) = max (opened + 0) (deepest false opened rest) := by
  rw [deepest_plain opened htext, Nat.add_zero, max_eq_right (le_deepest false opened rest)]

/-- **The text of a value shows how deep it is nested.** -/
theorem deepest_print {value : Value} (hvalue : Exact value) (opened : Nat) (rest : List Char) :
    deepest false opened (print value ++ rest) =
      max (opened + value.nesting) (deepest false opened rest) := by
  -- The elements of a list are read with one more bracket open, hence for every `opened`.
  induction hvalue generalizing opened rest with
  | null => exact deepest_of_not_counts opened (by decide) rest
  | bool value => cases value <;> exact deepest_of_not_counts opened (by decide) rest
  | @int value hwhole =>
      have htext : ∀ c ∈ (toString value).toList, counts c = false := by
        intro c hc
        have table : ∀ d ∈ ['"', '[', ']', '\x7b', '\x7d'], ¬(d = '-' ∨ d.isDigit) := by decide
        rw [counts, List.contains_eq_mem, decide_eq_false_iff_not]
        intro hmem
        exact table c hmem (minus_or_digit_of_mem_toString c hc)
      exact deepest_of_not_counts opened htext rest
  | str value =>
      rw [print, deepest_printString, Value.nesting, Nat.add_zero,
        max_eq_right (le_deepest false opened rest)]
  | @arr elements hexact ih =>
      have hopening (rest : List Char) : deepest false opened ('[' :: rest) =
          deepest false (opened + 1) rest := rfl
      have hclosing : deepest false (opened + 1) (']' :: rest) =
          max (opened + 1) (deepest false opened rest) := rfl
      have hitems := deepest_intercalate (fun element hmem => ih element hmem (opened + 1))
        (']' :: rest)
      rw [print, printAll_eq, List.cons_append, List.cons_append, List.append_assoc, hopening,
        List.singleton_append, hitems, hclosing, Value.nesting, nestingAll_eq]
      omega
  | @obj members hexact ih =>
      have hopening (rest : List Char) : deepest false opened ('\x7b' :: rest) =
          deepest false (opened + 1) rest := rfl
      have hclosing : deepest false (opened + 1) ('\x7d' :: rest) =
          max (opened + 1) (deepest false opened rest) := rfl
      have hmember : ∀ entry ∈ members, ∀ rest,
          deepest false (opened + 1) (printMember entry ++ rest) =
            max (opened + 1 + entry.2.nesting) (deepest false (opened + 1) rest) := by
        intro entry hmem rest
        have hcolon (rest : List Char) : deepest false (opened + 1) (':' :: rest) =
            deepest false (opened + 1) rest := rfl
        rw [printMember, List.append_assoc, deepest_printString, List.cons_append, hcolon,
          ih entry hmem]
      have hitems := deepest_intercalate hmember ('\x7d' :: rest)
      rw [print, printMembers_eq, List.cons_append, List.cons_append, List.append_assoc, hopening,
        List.singleton_append, hitems, hclosing, Value.nesting, nestingMembers_eq]
      omega

theorem bracketDepth_compact {value : Value} (hvalue : Exact value) :
    bracketDepth value.compact = value.nesting := by
  have hdeepest := deepest_print hvalue 0 []
  rw [List.append_nil] at hdeepest
  rw [bracketDepth, Value.compact, String.toList_ofList, hdeepest, deepest]
  omega

end RubyPress.Json
