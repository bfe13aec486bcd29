/-!
Replacement names for methods, by owner and method. A table is a list of entries without
repeated keys; setting a key keeps the place of its entry.
-/

namespace RubyPress

structure AliasKey where
  owner : String
  method : String
  deriving DecidableEq

namespace AliasTable

def lookup (key : AliasKey) : List (AliasKey × String) → Option String
  | [] => none
  | (found, value) :: rest => if found = key then some value else lookup key rest

def put (key : AliasKey) (value : String) :
    List (AliasKey × String) → List (AliasKey × String)
  | [] => [(key, value)]
  | (found, old) :: rest =>
    if found = key then (key, value) :: rest else (found, old) :: put key value rest

/-- The entries after an insertion, with the value that was there before. -/
def exchange (key : AliasKey) (value : String) :
    List (AliasKey × String) → Option String × List (AliasKey × String)
  | [] => (none, [(key, value)])
  | (found, old) :: rest =>
    if found = key then (some old, (key, value) :: rest)
    else
      let (previous, others) := exchange key value rest
      (previous, (found, old) :: others)

theorem exchange_eq (key : AliasKey) (value : String) (entries : List (AliasKey × String)) :
    exchange key value entries = (lookup key entries, put key value entries) := by
  induction entries with
  | nil => rfl
  | cons entry rest ih =>
    by_cases hkey : entry.1 = key
    · simp [exchange, lookup, put, hkey]
    · simp [exchange, lookup, put, hkey, ih]

theorem lookup_put (key other : AliasKey) (value : String) (entries : List (AliasKey × String)) :
    lookup other (put key value entries) =
      if key = other then some value else lookup other entries := by
  induction entries with
  | nil => simp [put, lookup]
  | cons entry rest ih =>
    obtain ⟨found, old⟩ := entry
    by_cases hkey : found = key <;> by_cases hother : key = other <;> grind [put, lookup]

theorem keys_put (key : AliasKey) (value : String) (entries : List (AliasKey × String)) :
    (put key value entries).map Prod.fst =
      if key ∈ entries.map Prod.fst then entries.map Prod.fst
      else entries.map Prod.fst ++ [key] := by
  induction entries with
  | nil => simp [put]
  | cons entry rest ih =>
    obtain ⟨found, old⟩ := entry
    by_cases hkey : found = key
    · simp [put, hkey]
    · have hne : ¬key = found := fun h => hkey h.symm
      simp only [put, hkey, if_false, List.map_cons, ih, List.mem_cons, hne, false_or]
      split <;> simp

theorem nodup_keys_put (key : AliasKey) (value : String) {entries : List (AliasKey × String)}
    (h : (entries.map Prod.fst).Nodup) : ((put key value entries).map Prod.fst).Nodup := by
  rw [keys_put]
  split
  · exact h
  · rename_i hmem
    rw [List.nodup_append]
    refine ⟨h, by simp, ?_⟩
    intro found hfound last hlast
    rw [List.mem_singleton.1 hlast]
    exact fun heq => hmem (heq ▸ hfound)

end AliasTable

structure AliasTable where
  entries : List (AliasKey × String)
  nodup_keys : (entries.map Prod.fst).Nodup
  deriving DecidableEq

namespace AliasTable

/-- The table every writer starts with. -/
def initial : AliasTable :=
  ⟨[(⟨"Kernel", "p"⟩, "p"), (⟨"Object", "dup"⟩, "dup")], by decide⟩

instance : Inhabited AliasTable := ⟨initial⟩

def get? (table : AliasTable) (key : AliasKey) : Option String :=
  lookup key table.entries

def set (table : AliasTable) (key : AliasKey) (value : String) : AliasTable :=
  ⟨put key value table.entries, nodup_keys_put key value table.nodup_keys⟩

/-- Inserts or overwrites an entry and gives back the value it had. -/
def replace (table : AliasTable) (key : AliasKey) (value : String) :
    Option String × AliasTable :=
  ((exchange key value table.entries).1,
    ⟨(exchange key value table.entries).2, by
      rw [exchange_eq]
      exact nodup_keys_put key value table.nodup_keys⟩)

def size (table : AliasTable) : Nat := table.entries.length

def isEmpty (table : AliasTable) : Bool := table.entries.isEmpty

def toList (table : AliasTable) : List (AliasKey × String) := table.entries

theorem get?_set (table : AliasTable) (key other : AliasKey) (value : String) :
    (table.set key value).get? other = if key = other then some value else table.get? other :=
  lookup_put key other value table.entries

theorem replace_eq (table : AliasTable) (key : AliasKey) (value : String) :
    table.replace key value = (table.get? key, table.set key value) := by
  simp only [replace, get?, set, exchange_eq]

end AliasTable

end RubyPress
