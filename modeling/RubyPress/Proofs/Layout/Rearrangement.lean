import RubyPress.Proofs.Layout.Reading

/-!
# Rearranged trees

The members of an object may stand in any order, a node may have members that no field of its kind
takes, and an empty list or a null may be written for a field that may be left out. Two relations
between values list these changes one at a time. Values that differ by them represent the same
nodes, so texts that denote such values are read as the same tree.
-/

namespace RubyPress

namespace Layout

open Json (Value)

/-- The members of one object change their order. -/
inductive Reorders : Value → Value → Prop where
  | members {members members' : List (String × Value)} (h : members.Perm members') :
      Reorders (.obj members) (.obj members')
  | inElement {value value' : Value} (before after : List Value) (h : Reorders value value') :
      Reorders (.arr (before ++ value :: after)) (.arr (before ++ value' :: after))
  | inMember {value value' : Value} (before after : List (String × Value)) (key : String)
      (h : Reorders value value') :
      Reorders (.obj (before ++ (key, value) :: after)) (.obj (before ++ (key, value') :: after))

/-- The value that says the same as leaving a field out. -/
def FieldType.blank? : FieldType → Option Value
  | nodes | texts => some (.arr [])
  | optionalNode | optionalPath => some .null
  | node | text | path | flag | integer => none

/-- The members give a kind, once. -/
def GivesKind (members : List (String × Value)) (kind : Kind) : Prop :=
  ∃ tag, valuesOf tagName members = [tag] ∧ Tags tag kind

/-- One node inside of a value that is read as a given type gets a member of no field, or a blank
value for a field that it leaves out. In a node stored as a list that is the field after its last
element. -/
inductive Extends : FieldType → Value → Value → Prop where
  | unknown {members : List (String × Value)} {kind : Kind} (key : String) (value : Value)
      (hkind : GivesKind members kind) (hkey : key ∉ tagName :: (fields kind).map Field.name) :
      Extends .node (.obj members) (.obj ((key, value) :: members))
  | blankMember {members : List (String × Value)} {kind : Kind} {blank : Value} (field : Field)
      (hkind : GivesKind members kind) (hfield : field ∈ fields kind) (hmay : field.mayMiss)
      (hblank : field.type.blank? = some blank) (habsent : valuesOf field.name members = []) :
      Extends .node (.obj members) (.obj ((field.name, blank) :: members))
  | blankElement {tag blank : Value} {values : List Value} {kind : Kind} {field : Field}
      (hkind : Tags tag kind) (hfield : (fields kind)[values.length]? = some field)
      (hmay : field.mayMiss) (hblank : field.type.blank? = some blank) :
      Extends .node (.arr (tag :: values)) (.arr (tag :: (values ++ [blank])))
  | inMember {kind : Kind} {value value' : Value} (before after : List (String × Value))
      (field : Field) (hkind : GivesKind (before ++ (field.name, value) :: after) kind)
      (hfield : field ∈ fields kind) (h : Extends field.type value value') :
      Extends .node (.obj (before ++ (field.name, value) :: after))
        (.obj (before ++ (field.name, value') :: after))
  | inElement {tag value value' : Value} {kind : Kind} {field : Field} (before after : List Value)
      (hkind : Tags tag kind) (hfield : (fields kind)[before.length]? = some field)
      (h : Extends field.type value value') :
      Extends .node (.arr (tag :: (before ++ value :: after)))
        (.arr (tag :: (before ++ value' :: after)))
  | inNodes {value value' : Value} (before after : List Value) (h : Extends .node value value') :
      Extends .nodes (.arr (before ++ value :: after)) (.arr (before ++ value' :: after))
  | inOptional {value value' : Value} (h : Extends .node value value') :
      Extends .optionalNode value value'

inductive Rearranges (value value' : Value) : Prop where
  | reordered (h : Reorders value value')
  | written (h : Extends .node value value')
  | omitted (h : Extends .node value' value)

section Members

variable {α : Type} {name key : String} {value : α} {members members' : List (String × α)}

theorem valuesOf_append :
    valuesOf name (members ++ members') = valuesOf name members ++ valuesOf name members' := by
  induction members with
  | nil => rfl
  | cons member members ih =>
      obtain ⟨key, value⟩ := member
      rw [List.cons_append, valuesOf_cons, valuesOf_cons, ih]
      split_ifs <;> rfl

theorem valuesOf_perm (h : members.Perm members') :
    (valuesOf name members).Perm (valuesOf name members') := by
  induction h with
  | nil => exact .nil
  | cons member _ ih =>
      obtain ⟨key, value⟩ := member
      rw [valuesOf_cons, valuesOf_cons]
      split_ifs
      · exact ih.cons value
      · exact ih
  | swap first second members =>
      obtain ⟨key, value⟩ := first
      obtain ⟨key', value'⟩ := second
      simp only [valuesOf_cons]
      split_ifs
      · exact .swap value value' _
      all_goals exact .refl _
  | trans _ _ ih ih' => exact ih.trans ih'

theorem valuesOf_replace_of_ne (before after : List (String × α)) (value' : α) (h : key ≠ name) :
    valuesOf name (before ++ (key, value) :: after) =
      valuesOf name (before ++ (key, value') :: after) := by
  rw [valuesOf_append, valuesOf_append, valuesOf_cons, valuesOf_cons, if_neg h, if_neg h]

end Members

section Fields

variable {field : Field} {content : field.type.Content} {value value' blank : Value}
  {values values' : List Value}

/-- What a field holds that is given a value, or left out. -/
def Field.Holds (field : Field) (content : field.type.Content) : Option Value → Prop
  | some value => Represents Tags field.type value content
  | none => field.missing? = some content

/-- What a field of an object holds, given the values of its name. -/
def Field.Fits (field : Field) (values : List Value) (content : field.type.Content) : Prop :=
  values.length ≤ 1 ∧ field.Holds content values.head?

theorem represents_blank_iff (hblank : field.type.blank? = some blank) :
    Represents Tags field.type blank content ↔ field.type.empty? = some content := by
  obtain ⟨name, type, mayMiss⟩ := field
  cases type with
  | nodes =>
      obtain rfl := Option.some.inj hblank
      show Represents Tags .nodes _ content ↔ some [] = some content
      rw [represents_nodes_iff, Option.some_inj]
      constructor
      · rintro ⟨items, hitems, rfl, -⟩
        obtain rfl := List.map_eq_nil_iff.1 (Value.arr.inj hitems).symm
        rfl
      · rintro rfl
        exact ⟨[], rfl, rfl, by simp⟩
  | texts =>
      obtain rfl := Option.some.inj hblank
      show Represents Tags .texts _ content ↔ some [] = some content
      rw [represents_texts_iff, Option.some_inj]
      constructor
      · intro h
        exact (List.map_eq_nil_iff.1 (Value.arr.inj h).symm).symm
      · rintro rfl
        rfl
  | optionalNode =>
      obtain rfl := Option.some.inj hblank
      show Represents Tags .optionalNode _ content ↔ some none = some content
      rw [Option.some_inj]
      constructor
      · rintro (_ | ⟨⟨⟩⟩)
        · rfl
        · next h => cases h
      · rintro rfl
        exact .noNode
  | optionalPath =>
      obtain rfl := Option.some.inj hblank
      show Represents Tags .optionalPath _ content ↔ some none = some content
      rw [Option.some_inj]
      constructor
      · rintro (_ | ⟨⟨⟩⟩)
        · rfl
        · next h => cases h
      · rintro rfl
        exact .noPath
  | node | text | path | flag | integer => cases hblank

/-- A blank value and no value are one. -/
theorem holds_blank_iff (hmay : field.mayMiss) (hblank : field.type.blank? = some blank) :
    field.Holds content (some blank) ↔ field.Holds content none := by
  rw [Field.Holds, Field.Holds, represents_blank_iff hblank, Field.missing?, if_pos hmay]

theorem fits_perm (h : values.Perm values') :
    field.Fits values content ↔ field.Fits values' content := by
  have hsame (honce : values.length ≤ 1) : values = values' := by
    cases values with
    | nil => exact (List.nil_perm.1 h).symm
    | cons value values =>
        obtain rfl : values = [] := by simpa using honce
        exact List.singleton_perm.1 h
  constructor
  · rintro ⟨honce, hholds⟩
    obtain rfl := hsame honce
    exact ⟨honce, hholds⟩
  · rintro ⟨honce, hholds⟩
    obtain rfl := hsame (h.length_eq ▸ honce)
    exact ⟨honce, hholds⟩

theorem fits_replace (before after : List (String × Value)) {key : String}
    (h : key = field.name → ∀ content,
      Represents Tags field.type value content ↔ Represents Tags field.type value' content) :
    field.Fits (valuesOf field.name (before ++ (key, value) :: after)) content ↔
      field.Fits (valuesOf field.name (before ++ (key, value') :: after)) content := by
  by_cases hkey : key = field.name
  · rw [valuesOf_append, valuesOf_append, valuesOf_cons, valuesOf_cons, if_pos hkey, if_pos hkey]
    cases valuesOf field.name before with
    | nil => exact and_congr_right' (h hkey content)
    | cons first others => simp [Field.Fits]
  · rw [valuesOf_replace_of_ne before after value' hkey]

end Fields

section Nodes

variable {members members' : List (String × Value)} {tag value value' : Value}
  {values values' : List Value} {kind : Kind} {node : Node}

theorem nesting_arr_ne_zero (values : List Value) : (Value.arr values).nesting ≠ 0 :=
  Nat.succ_ne_zero _

theorem nesting_obj_ne_zero (members : List (String × Value)) : (Value.obj members).nesting ≠ 0 :=
  Nat.succ_ne_zero _

theorem map_fst_entries {fields : List Field} (record : Record fields) :
    record.entries.map Sigma.fst = fields := by
  induction fields with
  | nil => rfl
  | cons field fields ih => rw [Record.entries, List.map_cons, ih]

theorem Tags.eq {other : Kind} (h : Tags tag kind) (hother : Tags tag other) : kind = other :=
  Except.ok.inj ((kindOf_eq_ok.2 h).symm.trans (kindOf_eq_ok.2 hother))

theorem Tags.nesting_eq_zero (h : Tags tag kind) : tag.nesting = 0 := by
  cases h <;> rfl

theorem GivesKind.eq {other : Kind} (h : GivesKind members kind)
    (hother : GivesKind members other) : kind = other := by
  obtain ⟨tag, htag, hkind⟩ := h
  obtain ⟨tag', htag', hother⟩ := hother
  obtain rfl : tag = tag' := (List.cons.inj (htag.symm.trans htag')).1
  exact hkind.eq hother

theorem eq_of_name_eq {field other : Field} (hfield : field ∈ fields kind)
    (hother : other ∈ fields kind) (h : field.name = other.name) : field = other :=
  List.inj_on_of_nodup_map (List.nodup_cons.1 (nodup_names kind)).2 hfield hother h

theorem name_ne_tagName {field : Field} (hfield : field ∈ fields kind) : field.name ≠ tagName :=
  fun h => (List.nodup_cons.1 (nodup_names kind)).1 (h ▸ List.mem_map_of_mem hfield)

/-- Both objects give a kind in the same way, or neither gives one. -/
def SameTag (members members' : List (String × Value)) : Prop :=
  ∀ tag : Value, tag.nesting = 0 →
    (valuesOf tagName members = [tag] ↔ valuesOf tagName members' = [tag])

theorem SameTag.givesKind_iff (h : SameTag members members') :
    GivesKind members kind ↔ GivesKind members' kind :=
  exists_congr fun tag => and_congr_left fun hkind => h tag hkind.nesting_eq_zero

theorem SameTag.taggedByName_iff (h : SameTag members members') :
    TaggedByName (.obj members) ↔ TaggedByName (.obj members') :=
  exists_congr fun kind => h (.str kind.name) rfl

theorem sameTag_perm (h : members.Perm members') : SameTag members members' := by
  intro tag _
  have hvalues : (valuesOf tagName members).Perm (valuesOf tagName members') := valuesOf_perm h
  constructor
  · intro heq
    exact List.perm_singleton.1 (heq ▸ hvalues.symm)
  · intro heq
    exact List.perm_singleton.1 (heq ▸ hvalues)

theorem sameTag_cons {key : String} (h : key ≠ tagName) :
    SameTag members ((key, value) :: members) := by
  intro tag _
  rw [valuesOf_cons, if_neg h]

/-- A member inside of which a change is possible gives no kind. -/
theorem sameTag_replace (before after : List (String × Value)) {key : String}
    (h : key = tagName → value.nesting ≠ 0 ∧ value'.nesting ≠ 0) :
    SameTag (before ++ (key, value) :: after) (before ++ (key, value') :: after) := by
  intro tag htag
  by_cases hkey : key = tagName
  · obtain ⟨hvalue, hvalue'⟩ := h hkey
    have hnone (inner : Value) (hinner : inner.nesting ≠ 0) :
        valuesOf tagName (before ++ (key, inner) :: after) ≠ [tag] := by
      rw [valuesOf_append, valuesOf_cons, if_pos hkey]
      intro heq
      have hmem : inner ∈ [tag] := heq ▸ List.mem_append_right _ (List.mem_cons_self ..)
      exact hinner (List.mem_singleton.1 hmem ▸ htag)
    exact iff_of_false (hnone value hvalue) (hnone value' hvalue')
  · rw [valuesOf_replace_of_ne before after value' hkey]

theorem represents_object_iff :
    Represents Tags .node (.obj members) node ↔
      ∃ kind, ∃ record : Record (fields kind), GivesKind members kind ∧
        node = assemble kind record ∧
          ∀ entry ∈ record.entries, entry.1.Fits (valuesOf entry.1.name members) entry.2 := by
  constructor
  · intro h
    cases h with
    | @object _ tag kind record htag hkind honce hpresent hmissing =>
        refine ⟨kind, record, ⟨tag, htag, hkind⟩, rfl, fun entry hentry => ⟨honce entry hentry, ?_⟩⟩
        cases hvalues : valuesOf entry.1.name members with
        | nil => exact hmissing entry hentry hvalues
        | cons value values => exact hpresent entry hentry value (by simp [hvalues])
  · rintro ⟨kind, record, ⟨tag, htag, hkind⟩, rfl, hfits⟩
    refine .object htag hkind (fun entry hentry => (hfits entry hentry).1) ?_ ?_
    · intro entry hentry value hvalue
      obtain ⟨honce, hholds⟩ := hfits entry hentry
      obtain ⟨single, hsingle⟩ := List.length_eq_one_iff.1
        (le_antisymm honce (List.length_pos_of_mem hvalue))
      rw [hsingle] at hvalue hholds
      obtain rfl := List.mem_singleton.1 hvalue
      exact hholds
    · intro entry hentry hvalues
      have hholds := (hfits entry hentry).2
      rw [hvalues] at hholds
      exact hholds

theorem represents_list_iff :
    Represents Tags .node (.arr (tag :: values)) node ↔
      ∃ kind, ∃ record : Record (fields kind), Tags tag kind ∧ node = assemble kind record ∧
        values.length ≤ record.entries.length ∧
          ∀ (index : Nat) (entry : Σ field : Field, field.type.Content),
            record.entries[index]? = some entry → entry.1.Holds entry.2 values[index]? := by
  constructor
  · intro h
    cases h with
    | @list _ _ kind record hkind hlength hpresent hmissing =>
        refine ⟨kind, record, hkind, rfl, hlength, fun index entry hentry => ?_⟩
        cases hvalue : values[index]? with
        | none =>
            have hend := List.getElem?_eq_none_iff.1 hvalue
            rw [← Nat.add_sub_cancel' hend, ← List.getElem?_drop] at hentry
            exact hmissing entry (List.mem_of_getElem? hentry)
        | some value =>
            exact hpresent (entry, value)
              (List.mem_of_getElem? (List.getElem?_zip_eq_some.2 ⟨hentry, hvalue⟩))
  · rintro ⟨kind, record, hkind, rfl, hlength, hholds⟩
    refine .list hkind hlength (fun pair hpair => ?_) (fun entry hentry => ?_)
    · obtain ⟨index, hindex⟩ := List.mem_iff_getElem?.1 hpair
      obtain ⟨hentry, hvalue⟩ := List.getElem?_zip_eq_some.1 hindex
      have := hholds index _ hentry
      rwa [hvalue] at this
    · obtain ⟨index, hindex⟩ := List.mem_iff_getElem?.1 hentry
      rw [List.getElem?_drop] at hindex
      have := hholds _ _ hindex
      rwa [List.getElem?_eq_none (Nat.le_add_right _ _)] at this

theorem represents_object_congr (hsame : SameTag members members')
    (hfits : ∀ kind, GivesKind members kind → ∀ field ∈ fields kind, ∀ content,
      field.Fits (valuesOf field.name members) content ↔
        field.Fits (valuesOf field.name members') content) :
    Represents Tags .node (.obj members) node ↔ Represents Tags .node (.obj members') node := by
  rw [represents_object_iff, represents_object_iff]
  refine exists_congr fun kind => exists_congr fun record => ?_
  rw [← hsame.givesKind_iff]
  refine and_congr_right fun hkind => and_congr_right' (forall₂_congr fun entry hentry => ?_)
  have hfield : entry.1 ∈ fields kind := map_fst_entries record ▸ List.mem_map_of_mem hentry
  exact hfits kind hkind entry.1 hfield entry.2

theorem represents_list_congr
    (h : ∀ kind, Tags tag kind →
      (values.length ≤ (fields kind).length ↔ values'.length ≤ (fields kind).length) ∧
        ∀ (index : Nat) (field : Field), (fields kind)[index]? = some field → ∀ content,
          field.Holds content values[index]? ↔ field.Holds content values'[index]?) :
    Represents Tags .node (.arr (tag :: values)) node ↔
      Represents Tags .node (.arr (tag :: values')) node := by
  rw [represents_list_iff, represents_list_iff]
  refine exists_congr fun kind => exists_congr fun record => and_congr_right fun hkind => ?_
  obtain ⟨hlength, hholds⟩ := h kind hkind
  have hentries := map_fst_entries record
  have hcount : record.entries.length = (fields kind).length := by
    rw [← List.length_map Sigma.fst, hentries]
  rw [hcount, hlength]
  refine and_congr_right' (and_congr_right' (forall₃_congr fun index entry hentry => ?_))
  refine hholds index entry.1 ?_ entry.2
  rw [← hentries, List.getElem?_map, hentry]
  rfl

theorem represents_list_replace (before after : List Value)
    (h : ∀ kind, Tags tag kind → ∀ field, (fields kind)[before.length]? = some field →
      ∀ content, Represents Tags field.type value content ↔
        Represents Tags field.type value' content) :
    Represents Tags .node (.arr (tag :: (before ++ value :: after))) node ↔
      Represents Tags .node (.arr (tag :: (before ++ value' :: after))) node := by
  refine represents_list_congr fun kind hkind =>
    ⟨by simp, fun index field hfield content => ?_⟩
  rw [List.getElem?_append, List.getElem?_append]
  split_ifs with hlt
  · rfl
  · cases hindex : index - before.length with
    | zero =>
        obtain rfl : index = before.length := by omega
        exact h kind hkind field hfield content
    | succ rest => rfl

theorem represents_nodes_iff_forall₂ {nodes : List Node} :
    Represents Tags .nodes (.arr values) nodes ↔
      List.Forall₂ (Represents Tags .node) values nodes := by
  rw [represents_nodes_iff]
  constructor
  · rintro ⟨items, hvalues, rfl, hitems⟩
    obtain rfl := Value.arr.inj hvalues
    rw [List.forall₂_map_left_iff, List.forall₂_map_right_iff, List.forall₂_same]
    exact hitems
  · intro h
    refine ⟨values.zip nodes, ?_, ?_, fun item hitem => (List.forall₂_iff_zip.1 h).2 hitem⟩
    · rw [List.map_fst_zip h.length_eq.le]
    · rw [List.map_snd_zip h.length_eq.ge]

theorem represents_nodes_replace (before after : List Value) (nodes : List Node)
    (h : ∀ node, Represents Tags .node value node ↔ Represents Tags .node value' node) :
    Represents Tags .nodes (.arr (before ++ value :: after)) nodes ↔
      Represents Tags .nodes (.arr (before ++ value' :: after)) nodes := by
  rw [represents_nodes_iff_forall₂, represents_nodes_iff_forall₂]
  induction before generalizing nodes with
  | nil => cases nodes <;> simp [h]
  | cons first before ih => cases nodes <;> simp [ih]

theorem represents_optionalNode_iff {content : Option Node} :
    Represents Tags .optionalNode value content ↔
      value = .null ∧ content = none ∨
        ∃ node, Represents Tags .node value node ∧ content = some node := by
  constructor
  · intro h
    cases h with
    | noNode => exact .inl ⟨rfl, rfl⟩
    | someNode h => exact .inr ⟨_, h, rfl⟩
  · rintro (⟨rfl, rfl⟩ | ⟨node, h, rfl⟩)
    · exact .noNode
    · exact .someNode h

theorem represents_optionalNode_congr {content : Option Node} (hvalue : value.nesting ≠ 0)
    (hvalue' : value'.nesting ≠ 0)
    (h : ∀ node, Represents Tags .node value node ↔ Represents Tags .node value' node) :
    Represents Tags .optionalNode value content ↔ Represents Tags .optionalNode value' content := by
  have hnull : value ≠ .null := fun heq => hvalue (heq ▸ rfl)
  have hnull' : value' ≠ .null := fun heq => hvalue' (heq ▸ rfl)
  simp only [represents_optionalNode_iff, hnull, hnull', h]

theorem represents_optionalPath_iff {content : Option ConstPath} :
    Represents Tags .optionalPath value content ↔
      value = .null ∧ content = none ∨
        ∃ path, Represents Tags .path value path ∧ content = some path := by
  constructor
  · intro h
    cases h with
    | noPath => exact .inl ⟨rfl, rfl⟩
    | somePath h => exact .inr ⟨_, h, rfl⟩
  · rintro (⟨rfl, rfl⟩ | ⟨path, h, rfl⟩)
    · exact .noPath
    · exact .somePath h

/-- What lists and objects represent is settled by what they represent as nodes, as lists and as
paths. -/
theorem represents_congr (hvalue : value.nesting ≠ 0) (hvalue' : value'.nesting ≠ 0)
    (hnode : ∀ node, Represents Tags .node value node ↔ Represents Tags .node value' node)
    (hnodes : ∀ nodes, Represents Tags .nodes value nodes ↔ Represents Tags .nodes value' nodes)
    (htexts : ∀ names, Represents Tags .texts value names ↔ Represents Tags .texts value' names)
    (hpath : ∀ path, Represents Tags .path value path ↔ Represents Tags .path value' path)
    (type : FieldType) (content : type.Content) :
    Represents Tags type value content ↔ Represents Tags type value' content := by
  have hscalar {inner : Value} (hinner : inner.nesting ≠ 0) :
      (∀ content, ¬Represents Tags .text inner content) ∧
        (∀ content, ¬Represents Tags .flag inner content) ∧
          ∀ content, ¬Represents Tags .integer inner content := by
    refine ⟨?_, ?_, ?_⟩ <;> rintro content ⟨⟩ <;> exact hinner rfl
  obtain ⟨htext, hflag, hinteger⟩ := hscalar hvalue
  obtain ⟨htext', hflag', hinteger'⟩ := hscalar hvalue'
  cases type with
  | node => exact hnode content
  | optionalNode => exact represents_optionalNode_congr hvalue hvalue' hnode
  | nodes => exact hnodes content
  | text => exact iff_of_false (htext content) (htext' content)
  | texts => exact htexts content
  | path => exact hpath content
  | optionalPath =>
      have hnull : value ≠ .null := fun heq => hvalue (heq ▸ rfl)
      have hnull' : value' ≠ .null := fun heq => hvalue' (heq ▸ rfl)
      simp only [represents_optionalPath_iff, hnull, hnull', hpath]
  | flag => exact iff_of_false (hflag content) (hflag' content)
  | integer => exact iff_of_false (hinteger content) (hinteger' content)

theorem represents_obj_congr
    (hnode : ∀ node, Represents Tags .node (.obj members) node ↔
      Represents Tags .node (.obj members') node)
    (hpath : ∀ path, Represents Tags .path (.obj members) path ↔
      Represents Tags .path (.obj members') path) (type : FieldType) (content : type.Content) :
    Represents Tags type (.obj members) content ↔ Represents Tags type (.obj members') content := by
  refine represents_congr (nesting_obj_ne_zero members) (nesting_obj_ne_zero members') hnode ?_ ?_
    hpath type content
  all_goals exact fun content => iff_of_false (by rintro ⟨⟩) (by rintro ⟨⟩)

theorem represents_pathObject_iff {path : ConstPath} :
    Represents Tags .path (.obj members) path ↔
      (required "segments" .texts).Fits (valuesOf "segments" members) path.segments := by
  constructor
  · intro h
    cases h with
    | pathObject hsegments hnames =>
        rw [hsegments]
        exact ⟨le_rfl, hnames⟩
  · rintro ⟨honce, hholds⟩
    cases hvalues : valuesOf "segments" members with
    | nil =>
        rw [hvalues] at hholds
        cases hholds
    | cons value values =>
        rw [hvalues] at honce hholds
        obtain rfl : values = [] := by simpa using honce
        exact .pathObject hvalues hholds

theorem represents_pathList_replace (before after : List Value) (path : ConstPath)
    (h : ∀ names, Represents Tags .texts value names ↔ Represents Tags .texts value' names) :
    Represents Tags .path (.arr (before ++ value :: after)) path ↔
      Represents Tags .path (.arr (before ++ value' :: after)) path := by
  have hsingle (inner : Value) : Represents Tags .path (.arr (before ++ inner :: after)) path ↔
      (before = [] ∧ after = []) ∧ Represents Tags .texts inner path.segments := by
    constructor
    · intro hpath
      generalize helements : before ++ inner :: after = elements at hpath
      cases hpath with
      | pathList hnames =>
          obtain ⟨rfl, hrest⟩ | ⟨hrest, hnil⟩ := List.append_eq_singleton_iff.1 helements
          · obtain ⟨rfl, rfl⟩ := List.cons.inj hrest
            exact ⟨⟨rfl, rfl⟩, hnames⟩
          · cases hnil
    · rintro ⟨⟨rfl, rfl⟩, hnames⟩
      exact .pathList hnames
  rw [hsingle, hsingle, h]

theorem not_represents_texts_of_nesting {names : List String} (before after : List Value)
    (hvalue : value.nesting ≠ 0) :
    ¬Represents Tags .texts (.arr (before ++ value :: after)) names := by
  rw [represents_texts_iff, Value.arr.injEq]
  intro heq
  have hmem : value ∈ strings names := heq ▸ List.mem_append_right _ (List.mem_cons_self ..)
  obtain ⟨name, -, rfl⟩ := List.mem_map.1 hmem
  exact hvalue rfl

end Nodes

/-! ### What the changes keep -/

section Changes

variable {type : FieldType} {value value' : Value}

theorem Extends.nesting_ne_zero (h : Extends .node value value') :
    value.nesting ≠ 0 ∧ value'.nesting ≠ 0 := by
  cases h <;>
    first
    | exact ⟨nesting_arr_ne_zero _, nesting_arr_ne_zero _⟩
    | exact ⟨nesting_obj_ne_zero _, nesting_obj_ne_zero _⟩

theorem Extends.represents_iff (h : Extends type value value') (content : type.Content) :
    Represents Tags type value content ↔ Represents Tags type value' content := by
  induction h with
  | @unknown members kind key value hkind hkey =>
      have htag : key ≠ tagName := fun heq => hkey (heq ▸ List.mem_cons_self ..)
      refine represents_object_congr (sameTag_cons htag) fun other hother field hfield content => ?_
      obtain rfl := hkind.eq hother
      rw [valuesOf_cons, if_neg]
      rintro rfl
      exact hkey (List.mem_cons_of_mem _ (List.mem_map_of_mem hfield))
  | @blankMember members kind blank field hkind hfield hmay hblank habsent =>
      refine represents_object_congr (sameTag_cons (name_ne_tagName hfield))
        fun other hother field' hfield' content => ?_
      obtain rfl := hkind.eq hother
      rw [valuesOf_cons]
      split_ifs with hname
      · obtain rfl := eq_of_name_eq hfield hfield' hname
        rw [habsent]
        exact and_congr (by simp) (holds_blank_iff hmay hblank).symm
      · rfl
  | @blankElement tag blank values kind field hkind hfield hmay hblank =>
      have hroom := (List.getElem?_eq_some_iff.1 hfield).1
      refine represents_list_congr fun other hother => ?_
      obtain rfl := hkind.eq hother
      refine ⟨?_, fun index field' hfield' content => ?_⟩
      · rw [List.length_append, List.length_singleton]
        exact iff_of_true hroom.le hroom
      · by_cases hindex : index = values.length
        · subst hindex
          obtain rfl := Option.some.inj (hfield.symm.trans hfield')
          rw [List.getElem?_concat_length, List.getElem?_eq_none le_rfl]
          exact (holds_blank_iff hmay hblank).symm
        · rw [List.getElem?_append]
          split_ifs with hlt
          · rfl
          · rw [List.getElem?_eq_none (by omega), List.getElem?_eq_none (by simp; omega)]
  | @inMember kind value value' before after field hkind hfield h ih =>
      refine represents_object_congr
        (sameTag_replace before after fun htag => absurd htag (name_ne_tagName hfield))
        fun other hother field' hfield' content => fits_replace before after fun hname => ?_
      obtain rfl := hkind.eq hother
      obtain rfl := eq_of_name_eq hfield hfield' hname
      exact ih
  | @inElement tag value value' kind field before after hkind hfield h ih =>
      refine represents_list_replace before after fun other hother field' hfield' => ?_
      obtain rfl := hkind.eq hother
      obtain rfl := Option.some.inj (hfield.symm.trans hfield')
      exact ih
  | inNodes before after h ih => exact represents_nodes_replace before after content ih
  | inOptional h ih =>
      exact represents_optionalNode_congr h.nesting_ne_zero.1 h.nesting_ne_zero.2 ih

theorem Extends.taggedByName_iff (h : Extends .node value value') :
    TaggedByName value ↔ TaggedByName value' := by
  cases h with
  | unknown key value hkind hkey =>
      exact (sameTag_cons fun heq => hkey (heq ▸ List.mem_cons_self ..)).taggedByName_iff
  | blankMember field hkind hfield => exact (sameTag_cons (name_ne_tagName hfield)).taggedByName_iff
  | @inMember kind value value' before after field hkind hfield h =>
      exact (sameTag_replace before after
        fun htag => absurd htag (name_ne_tagName hfield)).taggedByName_iff
  | blankElement | inElement => exact Iff.rfl

theorem Reorders.nesting_ne_zero (h : Reorders value value') :
    value.nesting ≠ 0 ∧ value'.nesting ≠ 0 := by
  cases h <;>
    first
    | exact ⟨nesting_arr_ne_zero _, nesting_arr_ne_zero _⟩
    | exact ⟨nesting_obj_ne_zero _, nesting_obj_ne_zero _⟩

theorem Reorders.represents_iff (h : Reorders value value') (type : FieldType)
    (content : type.Content) :
    Represents Tags type value content ↔ Represents Tags type value' content := by
  induction h generalizing type with
  | members h =>
      refine represents_obj_congr (fun node => ?_) (fun path => ?_) type content
      · exact represents_object_congr (sameTag_perm h)
          fun kind _ field _ content => fits_perm (valuesOf_perm h)
      · rw [represents_pathObject_iff, represents_pathObject_iff, fits_perm (valuesOf_perm h)]
  | @inElement value value' before after h ih =>
      obtain ⟨hvalue, hvalue'⟩ := h.nesting_ne_zero
      refine represents_congr (nesting_arr_ne_zero _) (nesting_arr_ne_zero _) (fun node => ?_)
        (fun nodes => represents_nodes_replace before after nodes (ih .node))
        (fun names => iff_of_false (not_represents_texts_of_nesting before after hvalue)
          (not_represents_texts_of_nesting before after hvalue'))
        (fun path => represents_pathList_replace before after path (ih .texts)) type content
      cases before with
      | nil =>
          -- a list or an object gives no kind
          have hnot {tag : Value} (htag : tag.nesting ≠ 0) :
              ¬Represents Tags .node (.arr (tag :: after)) node := by
            rw [represents_list_iff]
            rintro ⟨kind, record, hkind, -⟩
            exact htag hkind.nesting_eq_zero
          exact iff_of_false (hnot hvalue) (hnot hvalue')
      | cons tag before =>
          exact represents_list_replace before after fun kind _ field _ => ih field.type
  | @inMember value value' before after key h ih =>
      refine represents_obj_congr (fun node => ?_) (fun path => ?_) type content
      · exact represents_object_congr (sameTag_replace before after fun _ => h.nesting_ne_zero)
          fun kind _ field _ content => fits_replace before after fun _ => ih field.type
      · rw [represents_pathObject_iff, represents_pathObject_iff]
        exact fits_replace before after fun _ => ih .texts

theorem Reorders.taggedByName_iff (h : Reorders value value') :
    TaggedByName value ↔ TaggedByName value' := by
  cases h with
  | members h => exact (sameTag_perm h).taggedByName_iff
  | inMember before after key h =>
      exact (sameTag_replace before after fun _ => h.nesting_ne_zero).taggedByName_iff
  | inElement before after h =>
      cases before with
      | nil =>
          have hnot {tag : Value} (htag : tag.nesting ≠ 0) : ¬TaggedByName (.arr (tag :: after)) :=
            fun ⟨kind, hkind⟩ => htag (Option.some.inj hkind ▸ rfl)
          exact iff_of_false (hnot h.nesting_ne_zero.1) (hnot h.nesting_ne_zero.2)
      | cons tag before => exact Iff.rfl

theorem Rearranges.represents_iff (h : Rearranges value value') (tree : Node) :
    TaggedByName value ∧ Represents Tags .node value tree ↔
      TaggedByName value' ∧ Represents Tags .node value' tree := by
  cases h with
  | reordered h => exact and_congr h.taggedByName_iff (h.represents_iff .node tree)
  | written h => exact and_congr h.taggedByName_iff (h.represents_iff tree)
  | omitted h => exact and_congr h.taggedByName_iff.symm (h.represents_iff tree).symm

/-- Any number of changes leaves the tree as it is. -/
theorem represents_iff_of_rearranges (h : Relation.ReflTransGen Rearranges value value')
    (tree : Node) :
    TaggedByName value ∧ Represents Tags .node value tree ↔
      TaggedByName value' ∧ Represents Tags .node value' tree := by
  induction h with
  | refl => rfl
  | tail _ hstep ih => exact ih.trans (hstep.represents_iff tree)

end Changes

end Layout

open Layout (Rearranges)

/-- **The tree read does not depend on how its text is laid out.** A text is read as the same tree
after any changes of the value it denotes: members put in another order, members added that are
neither the kind nor a field of their node, blank values written or left out, in a node stored as a
list at its end. The blanks between the parts of the new text and the spelling of its strings are
free. -/
theorem readTree_of_rearranges {source source' : String} {value value' : Json.Value} {tree : Node}
    (htree : readTree source = .ok tree) (hsource : Json.Denotes source.toList value)
    (hsource' : Json.Denotes source'.toList value') (hnesting : value'.nesting < 128)
    (h : Relation.ReflTransGen Rearranges value value') : readTree source' = .ok tree := by
  obtain ⟨read, hread, htagged, hrepresents⟩ := exists_denotes_of_readTree htree
  obtain rfl := hread.denotes.eq hsource
  obtain ⟨htagged', hrepresents'⟩ :=
    (Layout.represents_iff_of_rearranges h tree).1 ⟨htagged, hrepresents⟩
  exact readTree_of_represents ⟨hsource', Nat.le_of_lt_succ hnesting⟩ htagged' hrepresents'

/-- A kind written in escapes, kinds after fields, a member that no hash has, and no keys. -/
theorem readTree_of_rearranges_of_hash :
    readTree "\x7b\"type\":\"return\",\"argument\":\x7b\"type\":\"hash_lit\",\"keys\":[]\x7d\x7d" =
        .ok (.ret (.hash [] [])) ∧
      readTree
          "\x7b\"argument\":\x7b\"x\":1, \"typ\\u0065\":\"hash_lit\"\x7d,\"type\":\"return\"\x7d" =
        .ok (.ret (.hash [] [])) := by
  have htree : readTree
      "\x7b\"type\":\"return\",\"argument\":\x7b\"type\":\"hash_lit\",\"keys\":[]\x7d\x7d" =
        .ok (.ret (.hash [] [])) := by cbv
  have hsource := Json.parse_eq_ok_iff.1 (show Json.parse (δ := Unit)
    "\x7b\"type\":\"return\",\"argument\":\x7b\"type\":\"hash_lit\",\"keys\":[]\x7d\x7d".toList =
      .ok (.obj [("type", .str "return"),
        ("argument", .obj [("type", .str "hash_lit"), ("keys", .arr [])])]) by cbv)
  have hsource' := Json.parse_eq_ok_iff.1 (show Json.parse (δ := Unit)
    "\x7b\"argument\":\x7b\"x\":1, \"typ\\u0065\":\"hash_lit\"\x7d,\"type\":\"return\"\x7d".toList =
      .ok (.obj [("argument", .obj [("x", .int 1), ("type", .str "hash_lit")]),
        ("type", .str "return")]) by cbv)
  have hinside {argument argument' : Json.Value} (h : Layout.Extends .node argument argument') :
      Layout.Extends .node (.obj [("type", .str "return"), ("argument", argument)])
        (.obj [("type", .str "return"), ("argument", argument')]) :=
    .inMember [("type", .str "return")] [] (Layout.required "argument" .node)
      ⟨.str "return", rfl, .name .ret⟩ (List.mem_singleton_self _) h
  have hhash : Layout.GivesKind [("type", .str "hash_lit")] .hash :=
    ⟨.str "hash_lit", rfl, .name .hash⟩
  refine ⟨htree, readTree_of_rearranges htree hsource.denotes hsource'.denotes (by decide) ?_⟩
  refine .head (.reordered (.inMember [_] [] "argument" (.members (.swap _ _ [])))) ?_
  refine .head (.omitted (hinside (.blankMember (Layout.optional "keys" .nodes) hhash
    (List.mem_cons_self ..) rfl rfl rfl))) ?_
  refine .head (.written (hinside (.unknown "x" (.int 1) hhash (by decide)))) ?_
  exact .single (.reordered (.members (.swap _ _ [])))

/-- A second member for the kind is refused, although no field of a node has that name, and in a
node stored as a list the null in front of a name cannot be left out. -/
theorem readTree_of_second_kind_of_short_list :
    readTree "\x7b\"type\":\"nil\"\x7d" = .ok .nil ∧
      (∀ tree, readTree "\x7b\"type\":\"nil\",\"type\":\"nil\"\x7d" ≠ .ok tree) ∧
        readTree "[\"call\",null,\"f\"]" = .ok (.call none "f" [] [] none none) ∧
          ∀ tree, readTree "[\"call\",\"f\"]" ≠ .ok tree := by
  have hkind : readTree "\x7b\"type\":\"nil\",\"type\":\"nil\"\x7d" =
      .error (.invalid (.duplicateField "type") (some ⟨1, 20⟩)) := by cbv
  have hlist : readTree "[\"call\",\"f\"]" =
      .error (.invalid (.mismatch (.str "f") .node) none) := by cbv
  refine ⟨by cbv, fun tree => by simp [hkind], by cbv, fun tree => by simp [hlist]⟩

end RubyPress
