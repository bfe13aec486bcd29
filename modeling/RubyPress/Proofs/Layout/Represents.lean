import RubyPress.Proofs.Layout.Storage
import RubyPress.Proofs.Success

/-!
# Values that represent nodes

The layout of stored nodes as a relation between values and contents: a node is an object with one
member for its kind and at most one for each of its fields, in any order and among any other
members, or a list of its kind and its fields in their order. Decoding gives a content exactly if
the value represents it.
-/

namespace RubyPress.Layout

open Json (Value)

/-- The values of the members of a name. -/
def valuesOf {α : Type} (name : String) : List (String × α) → List α
  | [] => []
  | (key, value) :: rest => if key = name then value :: valuesOf name rest else valuesOf name rest

def Record.entries :
    {fields : List Field} → Record fields → List (Σ field : Field, field.type.Content)
  | [], () => []
  | field :: _, (content, record) => ⟨field, content⟩ :: entries record

def Names (tag : Value) (kind : Kind) : Prop := tag = .str kind.name

/-- A kind is given by its name or by its place among all kinds. -/
inductive Tags : Value → Kind → Prop where
  | name (kind : Kind) : Tags (.str kind.name) kind
  | index {index : Nat} {kind : Kind} (hindex : Kind.all[index]? = some kind) :
      Tags (.int index) kind

/-- A value represents the content of a field, where `tags` says how kinds are given. -/
inductive Represents (tags : Value → Kind → Prop) :
    (type : FieldType) → Value → type.Content → Prop where
  | text (value : String) : Represents tags .text (.str value) value
  | texts (names : List String) : Represents tags .texts (.arr (strings names)) names
  | flag (value : Bool) : Represents tags .flag (.bool value) value
  | integer (value : Int64) : Represents tags .integer (.int value.toInt) value
  | pathObject {members : List (String × Value)} {value : Value} {names : List String}
      (hsegments : valuesOf "segments" members = [value])
      (hnames : Represents tags .texts value names) : Represents tags .path (.obj members) ⟨names⟩
  | pathList {value : Value} {names : List String} (hnames : Represents tags .texts value names) :
      Represents tags .path (.arr [value]) ⟨names⟩
  | noPath : Represents tags .optionalPath .null none
  | somePath {value : Value} {path : ConstPath} (h : Represents tags .path value path) :
      Represents tags .optionalPath value (some path)
  | noNode : Represents tags .optionalNode .null none
  | someNode {value : Value} {node : Node} (h : Represents tags .node value node) :
      Represents tags .optionalNode value (some node)
  | nodes {items : List (Value × Node)}
      (hitems : ∀ item ∈ items, Represents tags .node item.1 item.2) :
      Represents tags .nodes (.arr (items.map Prod.fst)) (items.map Prod.snd)
  | object {members : List (String × Value)} {tag : Value} {kind : Kind}
      {record : Record (fields kind)} (htag : valuesOf tagName members = [tag])
      (hkind : tags tag kind)
      (honce : ∀ entry ∈ record.entries, (valuesOf entry.1.name members).length ≤ 1)
      (hpresent : ∀ entry ∈ record.entries, ∀ value ∈ valuesOf entry.1.name members,
        Represents tags entry.1.type value entry.2)
      (hmissing : ∀ entry ∈ record.entries, valuesOf entry.1.name members = [] →
        entry.1.missing? = some entry.2) :
      Represents tags .node (.obj members) (assemble kind record)
  | list {tag : Value} {values : List Value} {kind : Kind} {record : Record (fields kind)}
      (hkind : tags tag kind) (hlength : values.length ≤ record.entries.length)
      (hpresent : ∀ pair ∈ record.entries.zip values,
        Represents tags pair.1.1.type pair.2 pair.1.2)
      (hmissing : ∀ entry ∈ record.entries.drop values.length,
        entry.1.missing? = some entry.2) :
      Represents tags .node (.arr (tag :: values)) (assemble kind record)

section Members

variable {α : Type} {name key : String} {value : α} {members : List (String × α)}

theorem valuesOf_cons :
    valuesOf name ((key, value) :: members) =
      if key = name then value :: valuesOf name members else valuesOf name members :=
  rfl

theorem mem_of_mem_valuesOf (h : value ∈ valuesOf name members) : (name, value) ∈ members := by
  induction members with
  | nil => cases h
  | cons member members ih =>
      obtain ⟨key, other⟩ := member
      rw [valuesOf_cons] at h
      split_ifs at h with hkey
      · grind
      · exact List.mem_cons_of_mem _ (ih h)

end Members

theorem Represents.exists_tag {tags : Value → Kind → Prop} {members : List (String × Value)}
    {node : Node} (h : Represents tags .node (.obj members) node) :
    ∃ tag kind, valuesOf tagName members = [tag] ∧ tags tag kind := by
  cases h with
  | object htag hkind => exact ⟨_, _, htag, hkind⟩

theorem valuesOf_memberOffers (name : String) (members : List (String × Value)) :
    valuesOf name (memberOffers members) =
      (valuesOf name members).map fun value => ⟨value, decode value⟩ := by
  induction members with
  | nil => rfl
  | cons member members ih =>
      obtain ⟨key, value⟩ := member
      rw [memberOffers, valuesOf_cons, valuesOf_cons, ih]
      split_ifs <;> rfl

theorem findKind_eq_ok {found : Option Kind} {members : List (String × Offer)} {kind : Kind} :
    findKind found members = .ok kind ↔
      found = some kind ∧ valuesOf tagName members = [] ∨
        found = none ∧
          ∃ offer, valuesOf tagName members = [offer] ∧ kindOf offer.value = .ok kind := by
  induction members generalizing found with
  | nil => cases found <;> simp [findKind, valuesOf]
  | cons member members ih =>
      obtain ⟨key, offer⟩ := member
      by_cases hkey : key = tagName
      · rw [valuesOf_cons, if_pos hkey]
        cases found with
        | some kind => simp [findKind, hkey]
        | none =>
            rw [findKind, if_pos hkey, bind_eq_ok]
            simp only [ih]
            simp [and_comm]
      · rw [valuesOf_cons, if_neg hkey, ← ih]
        cases found <;> rw [findKind, if_neg hkey]

theorem text_eq_ok {value : Value} {content : String} :
    text value = .ok content ↔ value = .str content := by
  cases value <;> simp [text]

theorem texts_eq_ok {value : Value} {names : List String} :
    texts value = .ok names ↔ value = .arr (strings names) := by
  constructor
  · intro h
    cases value with
    | arr values =>
        rw [texts] at h
        induction values generalizing names with
        | nil =>
            obtain rfl := Except.ok.inj h
            rfl
        | cons value values ih =>
            rw [List.mapM_cons] at h
            obtain ⟨first, hfirst, h⟩ := bind_eq_ok.1 h
            obtain ⟨others, hothers, h⟩ := bind_eq_ok.1 h
            obtain rfl := Except.ok.inj h
            rw [text_eq_ok.1 hfirst, strings, List.map_cons, Value.arr.inj (ih hothers), strings]
    | _ => cases h
  · rintro rfl
    exact texts_strings names

theorem segments_eq_ok {found : Option (List String)} {members : List (String × Value)}
    {names : List String} :
    segments found members = .ok names ↔
      found = some names ∧ valuesOf "segments" members = [] ∨
        found = none ∧
          ∃ value, valuesOf "segments" members = [value] ∧ texts value = .ok names := by
  induction members generalizing found with
  | nil => cases found <;> simp [segments, valuesOf]
  | cons member members ih =>
      obtain ⟨key, value⟩ := member
      by_cases hkey : key = "segments"
      · rw [valuesOf_cons, if_pos hkey]
        cases found with
        | some names => simp [segments, hkey]
        | none =>
            rw [segments, if_pos hkey, bind_eq_ok]
            simp only [ih]
            simp [and_comm]
      · rw [valuesOf_cons, if_neg hkey, ← ih]
        cases found <;> rw [segments, if_neg hkey]

theorem ofName?_eq_some {name : String} {kind : Kind} :
    Kind.ofName? name = some kind ↔ name = kind.name := by
  constructor
  · intro h
    have hname := List.find?_some (p := fun kind : Kind => kind.name == name) h
    exact (beq_iff_eq.1 hname).symm
  · rintro rfl
    exact Kind.ofName?_name kind

theorem kindOf_eq_ok {value : Value} {kind : Kind} :
    kindOf value = .ok kind ↔ Tags value kind := by
  constructor
  · intro h
    unfold kindOf at h
    split at h
    · split at h
      · next found hfound =>
          obtain rfl := Except.ok.inj h
          rw [ofName?_eq_some.1 hfound]
          exact .name found
      · cases h
    · split at h
      · next found hfound =>
          obtain rfl := Except.ok.inj h
          exact .index hfound
      · cases h
    · cases h
  · rintro (_ | hindex)
    · rw [kindOf, Kind.ofName?_name]
    · show kindOf (.int (.ofNat _)) = _
      rw [kindOf, Kind.ofIndex?, hindex]

theorem represents_texts_iff {value : Value} {names : List String} :
    Represents Tags .texts value names ↔ value = .arr (strings names) := by
  constructor
  · rintro ⟨⟩
    rfl
  · rintro rfl
    exact .texts names

theorem path_eq_ok {value : Value} {content : ConstPath} :
    path value = .ok content ↔ Represents Tags .path value content := by
  constructor
  · intro h
    unfold path at h
    split at h
    · obtain ⟨names, hnames, rfl⟩ := functor_map_eq_ok.1 h
      obtain ⟨⟨⟩, -⟩ | ⟨-, value, hvalue, htexts⟩ := segments_eq_ok.1 hnames
      exact .pathObject hvalue (represents_texts_iff.2 (texts_eq_ok.1 htexts))
    · cases h
    · next first rest =>
        obtain ⟨names, hnames, hlength⟩ := bind_eq_ok.1 h
        split_ifs at hlength with hrest
        obtain rfl := List.isEmpty_iff.1 hrest
        obtain rfl := Except.ok.inj hlength
        exact .pathList (represents_texts_iff.2 (texts_eq_ok.1 hnames))
    · cases h
  · intro h
    cases h with
    | pathObject hsegments hnames =>
        have htexts := texts_eq_ok.2 (represents_texts_iff.1 hnames)
        rw [path, segments_eq_ok.2 (.inr ⟨rfl, _, hsegments, htexts⟩)]
        rfl
    | pathList hnames =>
        rw [path, texts_eq_ok.2 (represents_texts_iff.1 hnames)]
        rfl

theorem integer_eq_ok {value : Value} {content : Int64} :
    integer value = .ok content ↔ value = .int content.toInt := by
  constructor
  · intro h
    cases value with
    | int value =>
        rw [integer] at h
        split_ifs at h with hrange
        obtain rfl := Except.ok.inj h
        rw [Int64.toInt_ofInt_of_le hrange.1 (Int.lt_add_one_of_le hrange.2)]
    | _ => cases h
  · rintro rfl
    exact (holds_integer content).decode_eq

/-! ### Fields of an object -/

/-- What the members of a field's name make of its slot. -/
def Takes (type : FieldType) (slot : Option type.Content) (offers : List Offer)
    (slot' : Option type.Content) : Prop :=
  offers = [] ∧ slot' = slot ∨
    slot = none ∧ ∃ offer content, offers = [offer] ∧ offer.read type = .ok content ∧
      slot' = some content

theorem fill_of_not_mem {key : String} {offer : Offer} {fields : List Field} {slots : Slots fields}
    (h : key ∉ fields.map Field.name) : Slots.fill key offer fields slots = .ok slots := by
  induction fields with
  | nil => rfl
  | cons field fields ih =>
      simp only [List.map_cons, List.mem_cons, not_or] at h
      rw [fill_of_ne (Ne.symm h.1), ih h.2]
      rfl

/-- The slot of a field depends on the members of its name only, and the other slots do not depend
on them. -/
theorem fillAll_cons_eq_ok {field : Field} {fields : List Field}
    {slot slot' : Option field.type.Content} {slots slots' : Slots fields}
    {members : List (String × Offer)} (hname : field.name ∉ fields.map Field.name)
    (htag : field.name ≠ tagName) :
    fillAll (field :: fields) (slot, slots) members = .ok (slot', slots') ↔
      Takes field.type slot (valuesOf field.name members) slot' ∧
        fillAll fields slots members = .ok slots' := by
  induction members generalizing slot slots with
  | nil =>
      simp [fillAll, valuesOf, Takes, eq_comm]
  | cons member members ih =>
      obtain ⟨key, offer⟩ := member
      rw [valuesOf_cons]
      by_cases hkey : key = tagName
      · rw [fillAll, fillAll, if_pos hkey, if_pos hkey, if_neg (by rw [hkey]; exact htag.symm), ih]
      · rw [fillAll, fillAll, if_neg hkey, if_neg hkey]
        by_cases hfield : key = field.name
        · subst hfield
          rw [if_pos rfl, fill_of_not_mem hname]
          cases slot with
          | some content =>
              simp [Slots.fill, Takes, bind, Except.bind]
          | none =>
              cases hread : offer.read field.type with
              | error error => simp [Slots.fill, Takes, hread, bind, Except.bind]
              | ok content =>
                  simp only [Slots.fill, if_pos, hread]
                  show fillAll (field :: fields) (some content, slots) members = _ ↔
                    _ ∧ fillAll fields slots members = _
                  rw [ih]
                  simp [Takes, hread]
        · rw [if_neg hfield, fill_of_ne (Ne.symm hfield)]
          cases Slots.fill key offer fields slots with
          | error error =>
              constructor
              · rintro ⟨⟩
              · rintro ⟨-, ⟨⟩⟩
          | ok filled => exact ih

structure Filled (field : Field) (offers : List Offer) (content : field.type.Content) : Prop where
  once : offers.length ≤ 1
  present : ∀ offer ∈ offers, offer.read field.type = .ok content
  missing : offers = [] → field.missing? = some content

theorem exists_takes_iff {field : Field} {offers : List Offer} {content : field.type.Content} :
    (∃ slot, Takes field.type none offers slot ∧ slot.or field.missing? = some content) ↔
      Filled field offers content := by
  constructor
  · rintro ⟨slot, ⟨rfl, rfl⟩ | ⟨-, offer, content', rfl, hread, rfl⟩, hslot⟩
    · exact ⟨by simp, by simp, fun _ => hslot⟩
    · obtain rfl := Option.some.inj hslot
      exact ⟨by simp, by simpa using hread, by simp⟩
  · rintro ⟨honce, hpresent, hmissing⟩
    cases offers with
    | nil => exact ⟨none, .inl ⟨rfl, rfl⟩, hmissing rfl⟩
    | cons offer offers =>
        obtain rfl : offers = [] := by simpa using honce
        exact ⟨some content, .inr ⟨rfl, offer, content, rfl, hpresent offer (by simp), rfl⟩, rfl⟩

theorem complete_cons_eq_ok {field : Field} {fields : List Field} {slot : Option field.type.Content}
    {slots : Slots fields} {content : field.type.Content} {record : Record fields} :
    Slots.complete (field :: fields) (slot, slots) = .ok (content, record) ↔
      slot.or field.missing? = some content ∧ Slots.complete fields slots = .ok record := by
  rw [Slots.complete]
  cases slot.or field.missing? with
  | none => simp
  | some found => rw [Option.some_inj, bind_pair_eq_ok]

theorem fillAll_nil (members : List (String × Offer)) : fillAll [] () members = .ok () := by
  induction members with
  | nil => rfl
  | cons member members ih =>
      obtain ⟨key, offer⟩ := member
      rw [fillAll]
      split_ifs <;> exact ih

theorem exists_slots_iff {fields : List Field} {members : List (String × Offer)}
    {record : Record fields} (hnames : (tagName :: fields.map Field.name).Nodup) :
    (∃ slots, fillAll fields (.blank fields) members = .ok slots ∧
        Slots.complete fields slots = .ok record) ↔
      ∀ entry ∈ record.entries, Filled entry.1 (valuesOf entry.1.name members) entry.2 := by
  induction fields with
  | nil => exact iff_of_true ⟨(), fillAll_nil members, rfl⟩ (by simp [Record.entries])
  | cons field fields ih =>
      simp only [List.map_cons, List.nodup_cons, List.mem_cons, not_or] at hnames
      obtain ⟨⟨htag, htagRest⟩, hfield, hrest⟩ := hnames
      obtain ⟨content, record⟩ := record
      rw [Record.entries, List.forall_mem_cons, ← ih (List.nodup_cons.2 ⟨htagRest, hrest⟩),
        ← exists_takes_iff]
      constructor
      · rintro ⟨⟨slot, slots⟩, hfill, hcomplete⟩
        obtain ⟨htakes, hfillAll⟩ := (fillAll_cons_eq_ok hfield (Ne.symm htag)).1 hfill
        obtain ⟨hslot, hslots⟩ := complete_cons_eq_ok.1 hcomplete
        exact ⟨⟨slot, htakes, hslot⟩, slots, hfillAll, hslots⟩
      · rintro ⟨⟨slot, htakes, hslot⟩, slots, hfillAll, hslots⟩
        exact ⟨(slot, slots), (fillAll_cons_eq_ok hfield (Ne.symm htag)).2 ⟨htakes, hfillAll⟩,
          complete_cons_eq_ok.2 ⟨hslot, hslots⟩⟩

theorem nodeOfMembers_eq_ok {members : List (String × Offer)} {node : Node} :
    nodeOfMembers members = .ok node ↔
      ∃ offer kind, ∃ record : Record (fields kind), valuesOf tagName members = [offer] ∧
        kindOf offer.value = .ok kind ∧ node = assemble kind record ∧
          ∀ entry ∈ record.entries, Filled entry.1 (valuesOf entry.1.name members) entry.2 := by
  constructor
  · intro h
    obtain ⟨kind, hkind, h⟩ := bind_eq_ok.1 h
    obtain ⟨slots, hslots, h⟩ := bind_eq_ok.1 h
    obtain ⟨record, hrecord, h⟩ := bind_eq_ok.1 h
    obtain rfl := Except.ok.inj h
    obtain ⟨⟨⟩, -⟩ | ⟨-, offer, htag, hoffer⟩ := findKind_eq_ok.1 hkind
    exact ⟨offer, kind, record, htag, hoffer, rfl,
      (exists_slots_iff (nodup_names kind)).1 ⟨slots, hslots, hrecord⟩⟩
  · rintro ⟨offer, kind, record, htag, hoffer, rfl, hentries⟩
    obtain ⟨slots, hslots, hrecord⟩ := (exists_slots_iff (nodup_names kind)).2 hentries
    rw [nodeOfMembers, findKind_eq_ok.2 (.inr ⟨rfl, offer, htag, hoffer⟩)]
    show (fillAll (fields kind) _ members >>= _) = _
    rw [hslots]
    show (Slots.complete (fields kind) slots >>= _) = _
    rw [hrecord]
    rfl

/-! ### Fields of a list -/

theorem recordOfElements_eq_ok {kind : Kind} {total index : Nat} {fields : List Field}
    {offers : List Offer} {record : Record fields} :
    recordOfElements kind total index fields offers = .ok record ↔
      offers.length ≤ record.entries.length ∧
        (∀ pair ∈ record.entries.zip offers, pair.2.read pair.1.1.type = .ok pair.1.2) ∧
          ∀ entry ∈ record.entries.drop offers.length, entry.1.missing? = some entry.2 := by
  induction fields generalizing offers index with
  | nil =>
      cases offers <;> simp [recordOfElements, Record.entries]
  | cons field fields ih =>
      obtain ⟨content, record⟩ := record
      cases offers with
      | nil =>
          have hothers : recordOfElements kind total (index + 1) fields [] = .ok record ↔ _ := ih
          simp only [List.length_nil, Nat.zero_le, List.zip_nil_right, List.not_mem_nil,
            false_implies, implies_true, List.drop_zero, true_and] at hothers ⊢
          rw [Record.entries, List.forall_mem_cons, ← hothers, recordOfElements]
          cases field.missing? with
          | none => simp
          | some found => rw [Option.some_inj, bind_pair_eq_ok]
      | cons offer offers =>
          rw [Record.entries, recordOfElements, bind_eq_ok]
          simp only [bind_pair_eq_ok, ih, List.length_cons, Nat.add_le_add_iff_right,
            List.zip_cons_cons, List.forall_mem_cons, List.drop_succ_cons]
          constructor
          · rintro ⟨found, hread, rfl, hlength, hpresent, hmissing⟩
            exact ⟨hlength, ⟨hread, hpresent⟩, hmissing⟩
          · rintro ⟨hlength, ⟨hread, hpresent⟩, hmissing⟩
            exact ⟨content, hread, rfl, hlength, hpresent, hmissing⟩

theorem nodeOfElements_eq_ok {offers : List Offer} {node : Node} :
    nodeOfElements offers = .ok node ↔
      ∃ tag others kind, ∃ record : Record (fields kind), offers = tag :: others ∧
        kindOf tag.value = .ok kind ∧ node = assemble kind record ∧
          others.length ≤ record.entries.length ∧
            (∀ pair ∈ record.entries.zip others, pair.2.read pair.1.1.type = .ok pair.1.2) ∧
              ∀ entry ∈ record.entries.drop others.length, entry.1.missing? = some entry.2 := by
  constructor
  · intro h
    cases offers with
    | nil => cases h
    | cons tag others =>
        obtain ⟨kind, hkind, h⟩ := bind_eq_ok.1 h
        obtain ⟨record, hrecord, h⟩ := bind_eq_ok.1 h
        obtain rfl := Except.ok.inj h
        exact ⟨tag, others, kind, record, rfl, hkind, rfl, recordOfElements_eq_ok.1 hrecord⟩
  · rintro ⟨tag, others, kind, record, rfl, hkind, rfl, hrecord⟩
    rw [nodeOfElements, hkind]
    show (recordOfElements kind others.length 0 (fields kind) others >>= _) = _
    rw [recordOfElements_eq_ok.2 hrecord]
    rfl

theorem offers_eq (values : List Value) :
    offers values = values.map fun value => ⟨value, decode value⟩ := by
  induction values with
  | nil => rfl
  | cons value values ih => rw [offers, ih, List.map_cons]

theorem unlessNull_eq_ok {α : Type} {value : Value} {read : Except DataError α}
    {content : Option α} :
    unlessNull value read = .ok content ↔
      value = .null ∧ content = none ∨
        value ≠ .null ∧ ∃ found, read = .ok found ∧ content = some found := by
  unfold unlessNull
  split
  · simp [eq_comm]
  · next hnull =>
      have hnull : value ≠ .null := hnull
      rw [functor_map_eq_ok]
      simp [hnull, eq_comm]

/-- Decoding a field agrees with the layout if decoding a node and a list of nodes does. -/
theorem contentOf_eq_ok_iff {value : Value} {node : Unit → Except DataError Node}
    {nodes : Unit → Except DataError (List Node)}
    (hnode : ∀ content, node () = .ok content ↔ Represents Tags .node value content)
    (hnodes : ∀ contents, nodes () = .ok contents ↔ Represents Tags .nodes value contents)
    {type : FieldType} {content : type.Content} :
    contentOf value node nodes type = .ok content ↔ Represents Tags type value content := by
  cases type with
  | node => exact hnode content
  | nodes => exact hnodes content
  | optionalNode =>
      show unlessNull value (node ()) = .ok content ↔ _
      rw [unlessNull_eq_ok]
      constructor
      · rintro (⟨rfl, rfl⟩ | ⟨-, found, hfound, rfl⟩)
        · exact .noNode
        · exact .someNode ((hnode found).1 hfound)
      · intro h
        cases h with
        | noNode => exact .inl ⟨rfl, rfl⟩
        | someNode hfound =>
            refine .inr ⟨?_, _, (hnode _).2 hfound, rfl⟩
            rintro rfl
            cases hfound
  | text =>
      show text value = .ok content ↔ _
      rw [text_eq_ok]
      constructor
      · rintro rfl
        exact .text content
      · rintro ⟨⟩
        rfl
  | texts =>
      show texts value = .ok content ↔ _
      rw [texts_eq_ok, represents_texts_iff]
  | path => exact path_eq_ok
  | optionalPath =>
      show unlessNull value (path value) = .ok content ↔ _
      rw [unlessNull_eq_ok]
      constructor
      · rintro (⟨rfl, rfl⟩ | ⟨-, found, hfound, rfl⟩)
        · exact .noPath
        · exact .somePath (path_eq_ok.1 hfound)
      · intro h
        cases h with
        | noPath => exact .inl ⟨rfl, rfl⟩
        | somePath hfound =>
            refine .inr ⟨?_, _, path_eq_ok.2 hfound, rfl⟩
            rintro rfl
            cases hfound
  | flag =>
      show flag value = .ok content ↔ _
      constructor
      · intro h
        cases value with
        | bool value =>
            obtain rfl := Except.ok.inj h
            exact .flag value
        | _ => cases h
      · rintro ⟨⟩
        rfl
  | integer =>
      show integer value = .ok content ↔ _
      rw [integer_eq_ok]
      constructor
      · rintro rfl
        exact .integer content
      · rintro ⟨⟩
        rfl

theorem filled_map_iff {field : Field} {values : List Value} {content : field.type.Content} :
    Filled field (values.map fun value => ⟨value, decode value⟩) content ↔
      values.length ≤ 1 ∧ (∀ value ∈ values, decode value field.type = .ok content) ∧
        (values = [] → field.missing? = some content) := by
  constructor
  · rintro ⟨honce, hpresent, hmissing⟩
    refine ⟨by simpa using honce, ?_, fun hnil => hmissing (by simp [hnil])⟩
    simpa using hpresent
  · rintro ⟨honce, hpresent, hmissing⟩
    refine ⟨by simpa using honce, ?_, fun hnil => hmissing (by simpa using hnil)⟩
    simpa using hpresent

theorem nodeOfMembers_iff {members : List (String × Value)} {node : Node}
    (ih : ∀ member ∈ members, ∀ {type : FieldType} {content : type.Content},
      decode member.2 type = .ok content ↔ Represents Tags type member.2 content) :
    nodeOfMembers (memberOffers members) = .ok node ↔
      Represents Tags .node (.obj members) node := by
  rw [nodeOfMembers_eq_ok]
  simp only [valuesOf_memberOffers, filled_map_iff]
  constructor
  · rintro ⟨offer, kind, record, htag, hkind, rfl, hentries⟩
    obtain ⟨tag, hvalue, rfl⟩ := List.map_eq_singleton_iff.1 htag
    refine .object hvalue (kindOf_eq_ok.1 hkind) (fun entry hmem => (hentries entry hmem).1) ?_
      (fun entry hmem => (hentries entry hmem).2.2)
    intro entry hmem value hvalue
    exact (ih _ (mem_of_mem_valuesOf hvalue)).1 ((hentries entry hmem).2.1 value hvalue)
  · intro h
    cases h with
    | @object _ tag kind record htag hkind honce hpresent hmissing =>
        refine ⟨⟨tag, decode tag⟩, kind, record, by rw [htag]; rfl, kindOf_eq_ok.2 hkind, rfl,
          fun entry hmem => ⟨honce entry hmem, fun value hvalue => ?_, hmissing entry hmem⟩⟩
        exact (ih _ (mem_of_mem_valuesOf hvalue)).2 (hpresent entry hmem value hvalue)

theorem nodeOfElements_iff {elements : List Value} {node : Node}
    (ih : ∀ element ∈ elements, ∀ {type : FieldType} {content : type.Content},
      decode element type = .ok content ↔ Represents Tags type element content) :
    nodeOfElements (offers elements) = .ok node ↔ Represents Tags .node (.arr elements) node := by
  rw [nodeOfElements_eq_ok, offers_eq]
  constructor
  · rintro ⟨offer, others, kind, record, helements, hkind, rfl, hlength, hpresent, hmissing⟩
    obtain ⟨tag, values, rfl, rfl, rfl⟩ := List.map_eq_cons_iff.1 helements
    rw [List.length_map] at hlength hmissing
    rw [List.zip_map_right, List.forall_mem_map] at hpresent
    refine .list (kindOf_eq_ok.1 hkind) hlength (fun pair hmem => ?_) hmissing
    have hvalue := List.mem_cons_of_mem tag (List.of_mem_zip hmem).2
    exact (ih pair.2 hvalue).1 (hpresent pair hmem)
  · intro h
    cases h with
    | @list tag values kind record hkind hlength hpresent hmissing =>
        refine ⟨⟨tag, decode tag⟩, _, kind, record, rfl, kindOf_eq_ok.2 hkind, rfl, ?_, ?_, ?_⟩
        · rwa [List.length_map]
        · rw [List.zip_map_right, List.forall_mem_map]
          intro pair hmem
          have hvalue := List.mem_cons_of_mem tag (List.of_mem_zip hmem).2
          exact (ih pair.2 hvalue).2 (hpresent pair hmem)
        · rwa [List.length_map]

theorem represents_nodes_iff {value : Value} {nodes : List Node} :
    Represents Tags .nodes value nodes ↔ ∃ items : List (Value × Node),
      value = .arr (items.map Prod.fst) ∧ nodes = items.map Prod.snd ∧
        ∀ item ∈ items, Represents Tags .node item.1 item.2 := by
  constructor
  · rintro ⟨⟩
    exact ⟨_, rfl, rfl, ‹_›⟩
  · rintro ⟨items, rfl, rfl, hitems⟩
    exact .nodes hitems

theorem mapM_read_iff {elements : List Value} {nodes : List Node}
    (ih : ∀ element ∈ elements, ∀ {type : FieldType} {content : type.Content},
      decode element type = .ok content ↔ Represents Tags type element content) :
    (offers elements).mapM (fun offer => offer.read .node) = .ok nodes ↔
      Represents Tags .nodes (.arr elements) nodes := by
  rw [represents_nodes_iff]
  induction elements generalizing nodes with
  | nil =>
      constructor
      · intro h
        obtain rfl := Except.ok.inj h
        exact ⟨[], rfl, rfl, by simp⟩
      · rintro ⟨items, heq, rfl, -⟩
        obtain rfl : items = [] := by simpa using heq
        rfl
  | cons element elements ih' =>
      rw [List.forall_mem_cons] at ih
      rw [offers, List.mapM_cons]
      constructor
      · intro h
        obtain ⟨node, hnode, h⟩ := bind_eq_ok.1 h
        obtain ⟨others, hothers, h⟩ := bind_eq_ok.1 h
        obtain rfl := Except.ok.inj h
        obtain ⟨items, heq, rfl, hitems⟩ := (ih' ih.2).1 hothers
        obtain rfl := Value.arr.inj heq
        exact ⟨(element, node) :: items, rfl, rfl,
          List.forall_mem_cons.2 ⟨ih.1.1 hnode, hitems⟩⟩
      · rintro ⟨items, heq, rfl, hitems⟩
        obtain ⟨item, items, rfl, rfl, rfl⟩ := List.map_eq_cons_iff.1 (Value.arr.inj heq).symm
        rw [List.forall_mem_cons] at hitems
        have hothers := (ih' ih.2).2 ⟨items, rfl, rfl, hitems.2⟩
        show (decode item.1 .node >>= _) = _
        rw [ih.1.2 hitems.1, hothers]
        rfl

/-- **A value is decoded exactly if it represents the content.** -/
theorem decode_eq_ok_iff {value : Value} {type : FieldType} {content : type.Content} :
    decode value type = .ok content ↔ Represents Tags type value content := by
  induction value using Value.induction_parts generalizing type with
  | step value ih =>
      cases value with
      | obj members =>
          rw [decode]
          refine contentOf_eq_ok_iff (fun node => nodeOfMembers_iff ?_) ?_
          · exact fun member hmem => ih member.2 (List.mem_map_of_mem hmem)
          · exact fun nodes => iff_of_false (by simp) (by rintro ⟨⟩)
      | arr elements =>
          rw [decode]
          exact contentOf_eq_ok_iff (fun node => nodeOfElements_iff ih)
            fun nodes => mapM_read_iff ih
      | _ =>
          rw [decode]
          · exact contentOf_eq_ok_iff (fun node => iff_of_false (by simp) (by rintro ⟨⟩))
              fun nodes => iff_of_false (by simp) (by rintro ⟨⟩)
          · simp
          · simp

end RubyPress.Layout
