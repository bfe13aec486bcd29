/-!
TOML values and documents. A document grows by headers and by keys with values; each table
remembers how it came to be, which decides what may still be added to it.
-/

namespace RubyPress.Toml

inductive Value where
  | string (value : String)
  | integer (value : Int)
  | real (literal : String)
  | boolean (value : Bool)
  /-- A date, a time, or both. -/
  | moment (literal : String)
  | array (elements : List Value)
  | table (entries : List (String × Value))

/-- How a table came to be. -/
inductive Origin where
  /-- By a header of its own. -/
  | header
  /-- As a parent in the header of another table. -/
  | implied
  /-- By a dotted key. -/
  | dotted
  deriving DecidableEq

inductive Item where
  | value (value : Value)
  | table (origin : Origin) (entries : List (String × Item))
  /-- The tables under a repeated double-bracket header. -/
  | tables (elements : List (List (String × Item)))

abbrev Entries := List (String × Item)

namespace Entries

def find? (key : String) (entries : Entries) : Option Item := List.lookup key entries

def replace (key : String) (item : Item) (entries : Entries) : Entries :=
  entries.map fun (found, old) => if found = key then (found, item) else (found, old)

/-- Adds an item under a dotted key. The tables on the way have to be new or made by dotted keys;
only on the way to those may they be parents of headers. -/
def insert (key : String) (item : Item) : List String → Entries → Option Entries
  | [], entries => if (entries.find? key).isSome then none else some (entries ++ [(key, item)])
  | step :: path, entries =>
    match entries.find? step with
    | none => do
      let child ← insert key item path []
      return entries ++ [(step, .table .dotted child)]
    | some (.table origin child) =>
      if origin = .header ∨ (path = [] ∧ origin ≠ .dotted) then none
      else do
        let child ← insert key item path child
        return entries.replace step (.table origin child)
    | some (.tables elements) =>
      if path = [] then none
      else do
        let child ← insert key item path (elements.getLast?.getD [])
        return entries.replace step (.tables (elements.dropLast ++ [child]))
    | some (.value _) => none

/-- Changes the table at the end of a path of headers, where parents that do not exist are
implied and the last of several tables counts. -/
def change (update : Entries → Option Entries) : List String → Entries → Option Entries
  | [], entries => update entries
  | step :: path, entries =>
    match entries.find? step with
    | none => do
      let child ← change update path []
      return entries ++ [(step, .table .implied child)]
    | some (.table origin child) => do
      let child ← change update path child
      return entries.replace step (.table origin child)
    | some (.tables elements) => do
      let child ← change update path (elements.getLast?.getD [])
      return entries.replace step (.tables (elements.dropLast ++ [child]))
    | some (.value _) => none

/-- Opens a table by its header, which may happen once. -/
def openTable (key : String) (entries : Entries) : Option Entries :=
  match entries.find? key with
  | none => some (entries ++ [(key, .table .header [])])
  | some (.table .implied child) => some (entries.replace key (.table .header child))
  | some _ => none

/-- Opens a further table under a double-bracket header. -/
def openElement (key : String) (entries : Entries) : Option Entries :=
  match entries.find? key with
  | none => some (entries ++ [(key, .tables [[]])])
  | some (.tables elements) => some (entries.replace key (.tables (elements ++ [[]])))
  | some _ => none

end Entries

mutual

def Item.toValue : Item → Value
  | .value value => value
  | .table _ entries => .table (entryValues entries)
  | .tables elements => .array (elementValues elements)

def entryValues : List (String × Item) → List (String × Value)
  | [] => []
  | (key, item) :: rest => (key, item.toValue) :: entryValues rest

def elementValues : List (List (String × Item)) → List Value
  | [] => []
  | entries :: rest => .table (entryValues entries) :: elementValues rest

end

end RubyPress.Toml
