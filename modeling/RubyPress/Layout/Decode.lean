import RubyPress.Layout.Error

/-!
From JSON values to nodes. A node is an object whose member `type` names its kind, or a list
that starts with the kind; its other members, or elements, are its fields. The decoder is one
fold over the value: every member comes with a reader of its own value, and all rules are about
such members.
-/

namespace RubyPress.Layout

open Json (Value)

/-- A value that a field may take, with what it reads as for each type of field. -/
structure Offer where
  value : Value
  read : (type : FieldType) → Except DataError type.Content

def tagName : String := "type"

/-- The kind a tag stands for: its name, or its index. -/
def kindOf : Value → Except DataError Kind
  | .str name =>
    match Kind.ofName? name with
    | some kind => .ok kind
    | none => .error (.unknownKind name)
  | .int (.ofNat index) =>
    match Kind.ofIndex? index with
    | some kind => .ok kind
    | none => .error (.kindIndex index)
  | other => .error (.mismatch other .tag)

def findKind (found : Option Kind) : List (String × Offer) → Except DataError Kind
  | [] =>
    match found with
    | some kind => .ok kind
    | none => .error (.missingField tagName)
  | (key, offer) :: rest =>
    if key = tagName then
      match found with
      | some _ => .error (.duplicateField tagName)
      | none => do findKind (some (← kindOf offer.value)) rest
    else findKind found rest

/-- The contents read so far of a list of fields. -/
@[reducible]
def Slots : List Field → Type
  | [] => Unit
  | field :: rest => Option field.type.Content × Slots rest

namespace Slots

def blank : (fields : List Field) → Slots fields
  | [] => ()
  | _ :: rest => (none, blank rest)

/-- Reads a member into the slot of its name; a member that no field has is passed over. -/
def fill (key : String) (offer : Offer) :
    (fields : List Field) → Slots fields → Except DataError (Slots fields)
  | [], () => .ok ()
  | field :: rest, (slot, slots) =>
    if field.name = key then
      match slot with
      | some _ => .error (.duplicateField key)
      | none => do return (some (← offer.read field.type), slots)
    else do return (slot, ← fill key offer rest slots)

/-- The record of the slots, where fields that may miss stand for themselves. -/
def complete : (fields : List Field) → Slots fields → Except DataError (Record fields)
  | [], () => .ok ()
  | field :: rest, (slot, slots) =>
    match slot.or field.missing? with
    | some content => do return (content, ← complete rest slots)
    | none => .error (.missingField field.name)

end Slots

def fillAll (fields : List Field) (slots : Slots fields) :
    List (String × Offer) → Except DataError (Slots fields)
  | [] => .ok slots
  | (key, offer) :: rest =>
    if key = tagName then fillAll fields slots rest
    else do fillAll fields (← slots.fill key offer) rest

def nodeOfMembers (members : List (String × Offer)) : Except DataError Node := do
  let kind ← findKind none members
  let slots ← fillAll (fields kind) (.blank (fields kind)) members
  return assemble kind (← slots.complete)

/-- The fields of a node from the elements of a list, from the field with the given index on. -/
def recordOfElements (kind : Kind) (total : Nat) (index : Nat) :
    (fields : List Field) → List Offer → Except DataError (Record fields)
  | [], [] => .ok ()
  | [], _ :: _ => .error (.tooLong total index)
  | field :: rest, offer :: offers => do
    let content ← offer.read field.type
    return (content, ← recordOfElements kind total (index + 1) rest offers)
  | field :: rest, [] =>
    match field.missing? with
    | some content => do return (content, ← recordOfElements kind total (index + 1) rest [])
    | none => .error (.nodeTooShort kind index)

def nodeOfElements : List Offer → Except DataError Node
  | [] => .error (.missingField tagName)
  | tag :: offers => do
    let kind ← kindOf tag.value
    return assemble kind (← recordOfElements kind offers.length 0 (fields kind) offers)

def text : Value → Except DataError String
  | .str value => .ok value
  | other => .error (.mismatch other .text)

def texts : Value → Except DataError (List String)
  | .arr values => values.mapM text
  | other => .error (.mismatch other .sequence)

def segments (found : Option (List String)) :
    List (String × Value) → Except DataError (List String)
  | [] =>
    match found with
    | some names => .ok names
    | none => .error (.missingField "segments")
  | (key, value) :: rest =>
    if key = "segments" then
      match found with
      | some _ => .error (.duplicateField key)
      | none => do segments (some (← texts value)) rest
    else segments found rest

def path : Value → Except DataError ConstPath
  | .obj members => ConstPath.mk <$> segments none members
  | .arr [] => .error .pathTooShort
  | .arr (first :: rest) => do
    let names ← texts first
    if rest.isEmpty then return ⟨names⟩ else .error (.tooLong (rest.length + 1) 1)
  | other => .error (.mismatch other .path)

def flag : Value → Except DataError Bool
  | .bool value => .ok value
  | other => .error (.mismatch other .flag)

def integer : Value → Except DataError Int64
  | .int value =>
    if Int64.minValue.toInt ≤ value ∧ value ≤ Int64.maxValue.toInt then .ok (Int64.ofInt value)
    else .error (.integerRange value)
  | other => .error (.mismatch other .integer)

def unlessNull {α : Type} (value : Value) (read : Except DataError α) :
    Except DataError (Option α) :=
  match value with
  | .null => .ok none
  | _ => some <$> read

/-- What a value reads as in a field, given what it reads as where a node or a list of nodes is
called for. -/
def contentOf (value : Value) (node : Unit → Except DataError Node)
    (nodes : Unit → Except DataError (List Node)) :
    (type : FieldType) → Except DataError type.Content
  | .node => node ()
  | .optionalNode => unlessNull value (node ())
  | .nodes => nodes ()
  | .text => text value
  | .texts => texts value
  | .path => path value
  | .optionalPath => unlessNull value (path value)
  | .flag => flag value
  | .integer => integer value

mutual

def decode : Value → (type : FieldType) → Except DataError type.Content
  | .obj members =>
    contentOf (.obj members) (fun _ => nodeOfMembers (memberOffers members))
      (fun _ => .error (.mismatch (.obj members) .sequence))
  | .arr elements =>
    contentOf (.arr elements) (fun _ => nodeOfElements (offers elements))
      (fun _ => (offers elements).mapM fun offer => offer.read .node)
  | value =>
    contentOf value (fun _ => .error (.mismatch value .node))
      (fun _ => .error (.mismatch value .sequence))

def offers : List Value → List Offer
  | [] => []
  | value :: rest => ⟨value, decode value⟩ :: offers rest

def memberOffers : List (String × Value) → List (String × Offer)
  | [] => []
  | (key, value) :: rest => (key, ⟨value, decode value⟩) :: memberOffers rest

end

def node (value : Value) : Except DataError Node := decode value .node

end RubyPress.Layout
