import RubyPress.Layout.Encode
import RubyPress.Layout.Read
import RubyPress.Proofs.Json.Nesting
import RubyPress.Proofs.Tree.Children

/-!
# Stored trees

A stored node is an object that leaves out some of its fields. `Stores` says what such an object
may look like for given contents of the fields: every field either stands in its place or is one
that may miss. Reading gives the contents back whatever is left out, and so a tree is read back from
its stored form, up to the limit of nesting and not beyond it.
-/

namespace RubyPress

open Json (Value Exact Reads bracketDepth)

namespace Layout

/-- A value holds the content of a field, and its text will show it exactly. -/
structure Holds (type : FieldType) (value : Value) (content : type.Content) : Prop where
  exact : Exact value
  decode_eq : decode value type = .ok content

inductive Stores : (fields : List Field) → Record fields → List (String × Value) → Prop where
  | done : Stores [] () []
  | present {field : Field} {fields : List Field} {content : field.type.Content}
      {record : Record fields} {value : Value} {members : List (String × Value)}
      (hvalue : Holds field.type value content) (hmembers : Stores fields record members) :
      Stores (field :: fields) (content, record) ((field.name, value) :: members)
  | missing {field : Field} {fields : List Field} {content : field.type.Content}
      {record : Record fields} {members : List (String × Value)}
      (hmissing : field.missing? = some content) (hmembers : Stores fields record members) :
      Stores (field :: fields) (content, record) members

theorem memberOffers_eq (members : List (String × Value)) :
    memberOffers members = members.map fun (key, value) => (key, ⟨value, decode value⟩) := by
  induction members with
  | nil => rfl
  | cons entry members ih =>
      obtain ⟨key, value⟩ := entry
      rw [memberOffers, ih, List.map_cons]

theorem Stores.mem_names {fields : List Field} {record : Record fields}
    {members : List (String × Value)} (h : Stores fields record members) :
    ∀ entry ∈ members, entry.1 ∈ fields.map Field.name := by
  induction h with
  | done => simp
  | present hvalue hmembers ih => grind
  | missing hmissing hmembers ih => grind

theorem Stores.offers_ne {fields : List Field} {record : Record fields}
    {members : List (String × Value)} (h : Stores fields record members) {name : String}
    (hname : name ∉ fields.map Field.name) :
    ∀ entry ∈ memberOffers members, entry.1 ≠ name := by
  rw [memberOffers_eq]
  intro entry hentry
  obtain ⟨member, hmember, rfl⟩ := List.mem_map.1 hentry
  rintro rfl
  exact hname (h.mem_names member hmember)

theorem fill_of_ne {key : String} {offer : Offer} {field : Field} {fields : List Field}
    {slot : Option field.type.Content} {slots : Slots fields} (h : field.name ≠ key) :
    Slots.fill key offer (field :: fields) (slot, slots) =
      (Slots.fill key offer fields slots).map fun slots => (slot, slots) := by
  simp only [Slots.fill, if_neg h]
  cases Slots.fill key offer fields slots <;> rfl

theorem fill_self {offer : Offer} {field : Field} {fields : List Field} {slots : Slots fields}
    {content : field.type.Content} (h : offer.read field.type = .ok content) :
    Slots.fill field.name offer (field :: fields) (none, slots) = .ok (some content, slots) := by
  simp only [Slots.fill, if_pos, h]
  rfl

theorem Stores.exact {fields : List Field} {record : Record fields}
    {members : List (String × Value)} (h : Stores fields record members) :
    ∀ entry ∈ members, Exact entry.2 := by
  induction h with
  | done => simp
  | present hvalue hmembers ih => exact List.forall_mem_cons.2 ⟨hvalue.exact, ih⟩
  | missing hmissing hmembers ih => exact ih

theorem fillAll_cons {field : Field} {fields : List Field} {slot : Option field.type.Content}
    {slots : Slots fields} {members : List (String × Offer)}
    (h : ∀ entry ∈ members, entry.1 ≠ field.name) :
    fillAll (field :: fields) (slot, slots) members =
      (fillAll fields slots members).map fun slots => (slot, slots) := by
  induction members generalizing slots with
  | nil => rfl
  | cons entry members ih =>
      obtain ⟨key, offer⟩ := entry
      rw [List.forall_mem_cons] at h
      rw [fillAll, fillAll]
      split
      · exact ih h.2
      · rw [fill_of_ne (Ne.symm h.1)]
        cases Slots.fill key offer fields slots with
        | error error => rfl
        | ok filled => exact ih h.2

theorem Stores.fillAll {fields : List Field} {record : Record fields}
    {members : List (String × Value)} (h : Stores fields record members)
    (hnames : (tagName :: fields.map Field.name).Nodup) :
    ∃ slots, Layout.fillAll fields (.blank fields) (memberOffers members) = .ok slots ∧
      Slots.complete fields slots = .ok record := by
  induction h with
  | done => exact ⟨(), rfl, rfl⟩
  | @present field fields content record value members hvalue hmembers ih =>
      simp only [List.map_cons, List.nodup_cons, List.mem_cons, not_or] at hnames
      obtain ⟨⟨htag, htagRest⟩, hfield, hrest⟩ := hnames
      obtain ⟨slots, hfill, hcomplete⟩ := ih (List.nodup_cons.2 ⟨htagRest, hrest⟩)
      refine ⟨(some content, slots), ?_, ?_⟩
      · rw [memberOffers, Layout.fillAll, if_neg (Ne.symm htag), Slots.blank, fill_self hvalue.decode_eq]
        show Layout.fillAll (field :: fields) (some content, Slots.blank fields) _ = _
        rw [fillAll_cons (hmembers.offers_ne hfield), hfill]
        rfl
      · simp only [Slots.complete, Option.some_or, hcomplete]
        rfl
  | @missing field fields content record members hmissing hmembers ih =>
      simp only [List.map_cons, List.nodup_cons, List.mem_cons, not_or] at hnames
      obtain ⟨⟨htag, htagRest⟩, hfield, hrest⟩ := hnames
      obtain ⟨slots, hfill, hcomplete⟩ := ih (List.nodup_cons.2 ⟨htagRest, hrest⟩)
      refine ⟨(none, slots), ?_, ?_⟩
      · rw [Slots.blank, fillAll_cons (hmembers.offers_ne hfield), hfill]
        rfl
      · simp only [Slots.complete, Option.none_or, hmissing, hcomplete]
        rfl

theorem findKind_found {kind : Kind} {members : List (String × Offer)}
    (h : ∀ entry ∈ members, entry.1 ≠ tagName) : findKind (some kind) members = .ok kind := by
  induction members with
  | nil => rfl
  | cons entry members ih =>
      obtain ⟨key, offer⟩ := entry
      rw [List.forall_mem_cons] at h
      rw [findKind, if_neg h.1, ih h.2]

theorem nodup_names (kind : Kind) : (tagName :: (fields kind).map Field.name).Nodup := by
  cases kind <;> decide

theorem Stores.decode_stored {kind : Kind} {record : Record (fields kind)}
    {members : List (String × Value)} (h : Stores (fields kind) record members) :
    decode (stored kind members) .node = .ok (assemble kind record) := by
  obtain ⟨slots, hfill, hcomplete⟩ := h.fillAll (nodup_names kind)
  have htype : "type" = tagName := rfl
  have htag := h.offers_ne (List.nodup_cons.1 (nodup_names kind)).1
  have hkind : findKind none (memberOffers (("type", .str kind.name) :: members)) = .ok kind := by
    have hname : kindOf (.str kind.name) = .ok kind := by
      rw [kindOf, Kind.ofName?_name]
    rw [memberOffers, findKind, if_pos htype]
    show (kindOf (.str kind.name) >>= fun kind => findKind (some kind) (memberOffers members)) = _
    rw [hname]
    exact findKind_found htag
  have hfillAll : Layout.fillAll (fields kind) (.blank (fields kind))
      (memberOffers (("type", .str kind.name) :: members)) = .ok slots := by
    rw [memberOffers, Layout.fillAll, if_pos htype, hfill]
  show nodeOfMembers (memberOffers (("type", .str kind.name) :: members)) = _
  rw [nodeOfMembers, hkind]
  show (Layout.fillAll (fields kind) _ _ >>= _) = _
  rw [hfillAll]
  show (Slots.complete (fields kind) slots >>= _) = _
  rw [hcomplete]
  rfl

theorem exact_strings (names : List String) : Exact (.arr (strings names)) := by
  refine .arr fun element hmem => ?_
  obtain ⟨name, -, rfl⟩ := List.mem_map.1 hmem
  exact .str name

theorem texts_strings (names : List String) : texts (.arr (strings names)) = .ok names := by
  rw [texts]
  induction names with
  | nil => rfl
  | cons name names ih =>
      rw [strings, List.map_cons, List.mapM_cons]
      show (List.mapM text (strings names) >>= fun others => .ok (name :: others)) = _
      rw [ih]
      rfl

theorem holds_texts (names : List String) : Holds .texts (.arr (strings names)) names :=
  ⟨exact_strings names, texts_strings names⟩

theorem exact_path (path : ConstPath) : Exact (encodePath path) := by
  refine .obj ?_
  rw [List.forall_mem_singleton]
  exact exact_strings path.segments

theorem path_encodePath (path : ConstPath) : Layout.path (encodePath path) = .ok path := by
  show ConstPath.mk <$> (texts (.arr (strings path.segments)) >>= fun names => .ok names) = _
  rw [texts_strings]
  rfl

theorem holds_path (path : ConstPath) : Holds .path (encodePath path) path :=
  ⟨exact_path path, path_encodePath path⟩

theorem holds_optionalPath (path : ConstPath) :
    Holds .optionalPath (encodePath path) (some path) := by
  refine ⟨exact_path path, ?_⟩
  show some <$> Layout.path (encodePath path) = _
  rw [path_encodePath]
  rfl

theorem holds_integer (value : Int64) : Holds .integer (.int value.toInt) value := by
  have hlower := Int64.minValue_le_toInt value
  have hupper := Int64.toInt_le value
  refine ⟨.int ⟨hlower, ?_⟩, ?_⟩
  · exact hupper.trans (by decide)
  · show Layout.integer (.int value.toInt) = _
    rw [Layout.integer, if_pos ⟨hlower, hupper⟩, Int64.ofInt_toInt]

theorem exists_encode_eq_stored (node : Node) :
    ∃ members, encode node = stored node.kind members := by
  cases node <;> exact ⟨_, rfl⟩

theorem Holds.optionalNode {node : Node} (h : Holds .node (encode node) node) :
    Holds .optionalNode (encode node) (some node) := by
  obtain ⟨members, hmembers⟩ := exists_encode_eq_stored node
  refine ⟨h.exact, ?_⟩
  have hdecode := h.decode_eq
  rw [hmembers] at hdecode ⊢
  show some <$> decode (stored node.kind members) .node = _
  rw [hdecode]
  rfl

theorem holds_nodes {nodes : List Node} (h : ∀ node ∈ nodes, Holds .node (encode node) node) :
    Holds .nodes (.arr (encodeAll nodes)) nodes := by
  induction nodes with
  | nil => exact ⟨.arr (by simp [encodeAll]), rfl⟩
  | cons node nodes ih =>
      rw [List.forall_mem_cons] at h
      obtain ⟨hexact, hdecode⟩ := ih h.2
      cases hexact with
      | arr helements =>
          refine ⟨.arr (List.forall_mem_cons.2 ⟨h.1.exact, helements⟩), ?_⟩
          have hothers : (offers (encodeAll nodes)).mapM (fun offer => offer.read .node) =
              .ok nodes := hdecode
          show (offers (encodeAll (node :: nodes))).mapM (fun offer => offer.read .node) = _
          rw [encodeAll, offers, List.mapM_cons]
          show (decode (encode node) .node >>= fun first =>
            (offers (encodeAll nodes)).mapM (fun offer => offer.read .node) >>= fun others =>
              .ok (first :: others)) = _
          rw [h.1.decode_eq, hothers]
          rfl

section Members

variable {fields : List Field} {record : Record fields} {members : List (String × Value)}
  {name : String}

theorem Stores.text {value : String} (h : Stores fields record members) :
    Stores (required name .text :: fields) (value, record) ((name, .str value) :: members) :=
  .present ⟨.str value, rfl⟩ h

theorem Stores.node {node : Node} (hnode : Holds .node (encode node) node)
    (h : Stores fields record members) :
    Stores (required name .node :: fields) (node, record) ((name, encode node) :: members) :=
  .present hnode h

theorem Stores.nodes {mayMiss : Bool} {nodes : List Node}
    (hnodes : ∀ node ∈ nodes, Holds .node (encode node) node)
    (h : Stores fields record members) :
    Stores (⟨name, .nodes, mayMiss⟩ :: fields) (nodes, record)
      ((name, .arr (encodeAll nodes)) :: members) :=
  .present (holds_nodes hnodes) h

theorem Stores.whenPresent {part : Option Node}
    (hpart : ∀ node ∈ part, Holds .node (encode node) node)
    (h : Stores fields record members) :
    Stores (optional name .optionalNode :: fields) (part, record)
      (Layout.whenPresent name (encodeOption part) ++ members) := by
  cases part with
  | none => exact .missing rfl h
  | some node => exact .present (hpart node rfl).optionalNode h

theorem Stores.whenFilledNodes {nodes : List Node}
    (hnodes : ∀ node ∈ nodes, Holds .node (encode node) node)
    (h : Stores fields record members) :
    Stores (optional name .nodes :: fields) (nodes, record)
      (whenFilled name (encodeAll nodes) ++ members) := by
  cases nodes with
  | nil => exact .missing rfl h
  | cons node nodes => exact .present (holds_nodes hnodes) h

theorem Stores.whenFilledTexts {names : List String}
    (h : Stores fields record members) :
    Stores (optional name .texts :: fields) (names, record)
      (whenFilled name (strings names) ++ members) := by
  cases names with
  | nil => exact .missing rfl h
  | cons first names => exact .present (holds_texts (first :: names)) h

theorem Stores.whenPresentPath {path : Option ConstPath}
    (h : Stores fields record members) :
    Stores (optional name .optionalPath :: fields) (path, record)
      (Layout.whenPresent name (path.map encodePath) ++ members) := by
  cases path with
  | none => exact .missing rfl h
  | some path => exact .present (holds_optionalPath path) h

end Members

/-- What a node stores are the contents of its fields, if its children are stored well. -/
theorem exists_stores (node : Node)
    (ih : ∀ child ∈ node.children, Holds .node (encode child) child) :
    ∃ (record : Record (Layout.fields node.kind)) (members : List (String × Value)),
      Stores (Layout.fields node.kind) record members ∧ encode node = stored node.kind members ∧
        assemble node.kind record = node := by
  -- The members follow the fields of the kind one by one, and so does each term below.
  cases node with
  | call receiver method args params body forward =>
      simp only [Node.children, List.forall_mem_append, Option.mem_toList] at ih
      obtain ⟨⟨⟨hreceiver, hargs⟩, hbody⟩, hforward⟩ := ih
      refine ⟨(receiver, method, args, params, body, forward, ()), _, .whenPresent hreceiver (.text
        (.whenFilledNodes hargs (.whenFilledTexts (.whenPresent hbody (.whenPresent hforward
          .done))))), ?_, rfl⟩
      simp only [encode, List.append_nil, List.append_assoc, List.cons_append, List.nil_append]
      rfl
  | definition method params body =>
      simp only [Node.children, List.forall_mem_singleton] at ih
      refine ⟨(method, params, body, ()), _, .text (.whenFilledTexts (.node ih .done)), ?_, rfl⟩
      simp only [encode, List.cons_append, List.nil_append]
      rfl
  | ifElse test thenBranch elseBranch | unlessElse test thenBranch elseBranch =>
      simp only [Node.children, List.forall_mem_cons, Option.mem_toList] at ih
      obtain ⟨htest, hthen, helse⟩ := ih
      refine ⟨(test, thenBranch, elseBranch, ()), _,
        .node htest (.node hthen (.whenPresent helse .done)), ?_, rfl⟩
      simp only [encode, List.append_nil, List.cons_append, List.nil_append]
      rfl
  | caseWhen pivot clauses whens elseClause =>
      simp only [Node.children, List.forall_mem_append, List.forall_mem_cons,
        Option.mem_toList] at ih
      obtain ⟨⟨⟨hpivot, hclauses⟩, hwhens⟩, helse⟩ := ih
      refine ⟨(pivot, clauses, whens, elseClause, ()), _,
        .node hpivot (.nodes hclauses (.nodes hwhens (.whenPresent helse .done))), ?_, rfl⟩
      simp only [encode, List.append_nil, List.cons_append, List.nil_append]
      rfl
  | ret argument =>
      exact ⟨(argument, ()), _, .node (ih argument (by simp [Node.children])) .done, rfl, rfl⟩
  | yielding args =>
      refine ⟨(args, ()), _, .whenFilledNodes ih .done, ?_, rfl⟩
      simp only [encode, List.append_nil]
      rfl
  | boolean value => exact ⟨(value, ()), _, .present ⟨.bool value, rfl⟩ .done, rfl, rfl⟩
  | classDef path superclass body =>
      have hbody := ih body (by simp [Node.children])
      refine ⟨(path, superclass, body, ()), _,
        .present (holds_path path) (.whenPresentPath (.node hbody .done)), ?_, rfl⟩
      simp only [encode, List.cons_append, List.nil_append]
      rfl
  | moduleDef path body =>
      have hbody := ih body (by simp [Node.children])
      exact ⟨(path, body, ()), _, .present (holds_path path) (.node hbody .done), rfl, rfl⟩
  | selfRef => exact ⟨(), _, .done, rfl, rfl⟩
  | logicalAnd lhs rhs | logicalOr lhs rhs =>
      have hlhs := ih lhs (by simp [Node.children])
      have hrhs := ih rhs (by simp [Node.children])
      exact ⟨(lhs, rhs, ()), _, .node hlhs (.node hrhs .done), rfl, rfl⟩
  | localRead name | instanceRead name => exact ⟨(name, ()), _, .text .done, rfl, rfl⟩
  | localWrite name rhs | instanceWrite name rhs =>
      have hrhs := ih rhs (by simp [Node.children])
      exact ⟨(name, rhs, ()), _, .text (.node hrhs .done), rfl, rfl⟩
  | constRead base name =>
      simp only [Node.children, Option.mem_toList] at ih
      exact ⟨(base, name, ()), _, .whenPresent ih (.text .done), rfl, rfl⟩
  | constWrite path rhs =>
      have hrhs := ih rhs (by simp [Node.children])
      exact ⟨(path, rhs, ()), _, .present (holds_texts path) (.node hrhs .done), rfl, rfl⟩
  | string value | symbol value => exact ⟨(value, ()), _, .text .done, rfl, rfl⟩
  | integer value => exact ⟨(value, ()), _, .present (holds_integer value) .done, rfl, rfl⟩
  | array elements => exact ⟨(elements, ()), _, .nodes ih .done, rfl, rfl⟩
  | hash keys values =>
      simp only [Node.children, List.forall_mem_append] at ih
      exact ⟨(keys, values, ()), _, .nodes ih.1 (.nodes ih.2 .done), rfl, rfl⟩
  | interpolatedString parts | interpolatedSymbol parts =>
      exact ⟨(parts, ()), _, .nodes ih .done, rfl, rfl⟩
  | including args => exact ⟨(args, ()), _, .nodes ih .done, rfl, rfl⟩
  | nil => exact ⟨(), _, .done, rfl, rfl⟩
  | block statements => exact ⟨(statements, ()), _, .nodes ih .done, rfl, rfl⟩
  | unmapped construct => exact ⟨(construct, ()), _, .text .done, rfl, rfl⟩

/-- **Every node is read back from the value that stores it.** -/
theorem holds_encode (node : Node) : Holds .node (encode node) node := by
  induction node using Node.induction_children with
  | step node ih =>
      obtain ⟨record, members, hstores, hencode, hassemble⟩ := exists_stores node ih
      rw [hencode]
      refine ⟨.obj (List.forall_mem_cons.2 ⟨.str _, hstores.exact⟩), ?_⟩
      rw [hstores.decode_stored, hassemble]

/-! ### The outermost node -/

theorem outerMember_tag (kind : Kind) (rest : List Char) :
    outerMember [] tagName (':' :: Json.print (.str kind.name) ++ rest) =
      .ok (.str kind.name, rest) := by
  have hvalue : Json.valueWith (δ := DataError) none (Json.printString kind.name ++ rest) =
      .ok (.str kind.name, rest) := Json.valueWith_string kind.name rest
  have hscalar : Json.scalar (δ := DataError) (Json.printString kind.name ++ rest) =
      .ok (.str kind.name, rest) := hvalue
  show (Json.scalar (Json.printString kind.name ++ rest) >>= _) = _
  rw [hscalar]
  simp only [bind, Except.bind, Kind.ofName?_name]

theorem reads_outerMember {value : Value} (hvalue : Exact value) {key : String}
    (hkey : key ≠ tagName) (seen : List String) {rest : List Char}
    (hrest : Text.Stops Json.carriesOn rest) :
    Reads (value.nesting ≤ Json.maxNesting - 1)
      (outerMember seen key (':' :: Json.print value ++ rest)) value rest := by
  have houter : outerMember seen key (':' :: Json.print value ++ rest) =
      Json.value (Json.maxNesting - 1) (Json.print value ++ rest) := by
    rw [outerMember, if_neg hkey]
    rfl
  rw [houter]
  exact Json.value_print hvalue _ hrest

theorem outerValue_object (text : List Char) : outerValue ('\x7b' :: text) = (do
    let (members, rest) ← Json.object outerMember text
    if members.any fun (key, _) => key = tagName then .ok (.obj members, rest)
    else .error (.refusal rest (.missingField tagName))) :=
  rfl

/-- The outermost node is read as the value that stores it, if that is nested within the limit. -/
theorem reads_outerValue (node : Node) :
    Reads ((encode node).nesting ≤ Json.maxNesting) (outerValue (Json.print (encode node)))
      (encode node) [] := by
  obtain ⟨record, members, hstores, hencode, -⟩ := exists_stores node fun child _ => holds_encode child
  have htag := (List.nodup_cons.1 (nodup_names node.kind)).1
  have hobject : Reads
      (∀ entry ∈ (tagName, .str node.kind.name) :: members,
        entry.2.nesting ≤ Json.maxNesting - 1)
      (Json.object outerMember ([','].intercalate (((tagName, .str node.kind.name) ::
        members).map Json.printMember) ++ ['\x7d']))
      ((tagName, .str node.kind.name) :: members) [] := by
    refine Json.object_print ?_ ?_ []
    · intro rest _
      exact .of_eq_ok (Nat.zero_le _) (outerMember_tag node.kind rest)
    · intro entry hmem seen rest hrest
      refine reads_outerMember (hstores.exact entry hmem) ?_ seen hrest
      intro heq
      exact htag (heq ▸ hstores.mem_names entry hmem)
  have hnesting : (∀ entry ∈ (tagName, .str node.kind.name) :: members,
      entry.2.nesting ≤ Json.maxNesting - 1) ↔ (encode node).nesting ≤ Json.maxNesting := by
    rw [hencode, stored, Value.nesting, ← Json.nestingMembers_le_iff]
    exact Nat.le_sub_iff_add_le (by decide)
  have hprint : Json.print (encode node) = '\x7b' :: ([','].intercalate
      (((tagName, .str node.kind.name) :: members).map Json.printMember) ++ ['\x7d']) := by
    rw [hencode, stored, Json.print, Json.printMembers_eq]
    rfl
  rw [hprint, outerValue_object]
  refine Reads.of_iff ⟨fun hfits => ?_, fun hnot => ?_⟩ hnesting
  · rw [hobject.1 hfits, hencode]
    rfl
  · obtain ⟨left, hleft⟩ := hobject.2 hnot
    exact ⟨left, by rw [hleft]; rfl⟩

end Layout

open Layout

theorem bracketDepth_store (tree : Node) : bracketDepth (store tree) = (encode tree).nesting :=
  Json.bracketDepth_compact (holds_encode tree).exact

/-- **A tree is read back from its stored form** if its text has at most 127 brackets open at once,
and otherwise it is refused for its nesting. -/
theorem readTree_store (tree : Node) :
    (bracketDepth (store tree) ≤ 127 → readTree (store tree) = .ok tree) ∧
      (127 < bracketDepth (store tree) →
        ∃ position, readTree (store tree) = .error (.malformed .nestingLimit position)) := by
  have htext : (store tree).toList = Json.print (encode tree) := String.toList_ofList
  obtain ⟨hfits, hdeep⟩ := reads_outerValue tree
  rw [bracketDepth_store]
  constructor
  · intro hle
    simp only [readTree, htext, hfits hle, node, (holds_encode tree).decode_eq]
    rfl
  · intro hlt
    obtain ⟨left, hleft⟩ := hdeep (Nat.not_le.2 hlt)
    exact ⟨_, by simp only [readTree, htext, hleft]; rfl⟩

/-- Around `nil`, 63 blocks are within the limit; around an empty block they open one bracket too
many. -/
theorem readTree_store_blocks :
    readTree (store ((fun tree => Node.block [tree])^[63] .nil)) =
        .ok ((fun tree => Node.block [tree])^[63] .nil) ∧
      ∃ position, readTree (store ((fun tree => Node.block [tree])^[63] (.block []))) =
        .error (.malformed .nestingLimit position) := by
  refine ⟨(readTree_store _).1 ?_, (readTree_store _).2 ?_⟩
  · rw [bracketDepth_store]
    decide +kernel
  · rw [bracketDepth_store]
    decide +kernel

end RubyPress
