import RubyPress.Alias
import Mathlib.Data.Finset.Card
import Mathlib.Data.List.Nodup

/-!
# Replaying assignments

A table is the seeds with assignments made over them. The assignments, the latest first, determine
everything that can be asked of the table: the value of a key is the one it was last given, and the
keys are those that were ever given one, together with the seeds.
-/

namespace RubyPress.AliasTable

variable {table : AliasTable} {key : AliasKey} {value : String}

/-- Assignments to the keys of one table, the latest first. -/
abbrev Assignments := List (AliasKey × String)

def seeds : Assignments :=
  [(⟨"Kernel", "p"⟩, "p"), (⟨"Object", "dup"⟩, "dup")]

def Assignments.keys (assignments : Assignments) : Finset AliasKey :=
  (assignments.map Prod.fst).toFinset

/-- What a key stands for: what it was last given or else what it is seeded with. -/
def Assignments.current (assignments : Assignments) (key : AliasKey) : Option String :=
  (assignments.lookup key).or (seeds.lookup key)

@[simp] theorem Assignments.mem_keys {assignments : Assignments} :
    key ∈ assignments.keys ↔ key ∈ assignments.map Prod.fst := by
  simp only [Assignments.keys, List.mem_toFinset]

theorem Assignments.lookup_cons (assigned : AliasKey) (value : String) (earlier : Assignments)
    (key : AliasKey) :
    List.lookup key ((assigned, value) :: earlier) =
      if assigned = key then some value else earlier.lookup key := by
  by_cases hkey : assigned = key
  · simp [hkey]
  · have hbeq : (key == assigned) = false := beq_false_of_ne (Ne.symm hkey)
    simp [List.lookup_cons, hkey, hbeq]

theorem Assignments.current_cons (assigned : AliasKey) (value : String) (earlier : Assignments)
    (key : AliasKey) :
    Assignments.current ((assigned, value) :: earlier) key =
      if assigned = key then some value else earlier.current key := by
  rw [Assignments.current, Assignments.lookup_cons]
  split <;> rfl

theorem lookup_eq (key : AliasKey) (entries : Assignments) :
    lookup key entries = entries.lookup key := by
  induction entries with
  | nil => rfl
  | cons entry rest ih =>
      obtain ⟨found, value⟩ := entry
      rw [lookup, ih, Assignments.lookup_cons]

theorem lookup_eq_some_iff {entries : Assignments} (hnodup : (entries.map Prod.fst).Nodup) :
    lookup key entries = some value ↔ (key, value) ∈ entries := by
  induction entries with
  | nil => simp [lookup]
  | cons entry rest ih =>
      obtain ⟨found, old⟩ := entry
      obtain ⟨hfresh, hrest⟩ := List.nodup_cons.1 hnodup
      by_cases hkey : found = key
      · -- Only the head can answer here: the key does not occur a second time.
        subst hkey
        have hnot : (found, value) ∉ rest :=
          fun hmem => hfresh (List.mem_map.2 ⟨_, hmem, rfl⟩)
        simp [lookup, hnot, eq_comm]
      · simp [lookup, hkey, Ne.symm hkey, ih hrest]

theorem mem_toList : (key, value) ∈ table.toList ↔ table.get? key = some value :=
  (lookup_eq_some_iff table.nodup_keys).symm

def replay : Assignments → AliasTable
  | [] => initial
  | (key, value) :: earlier => (replay earlier).set key value

theorem get?_replay (assignments : Assignments) (key : AliasKey) :
    (replay assignments).get? key = assignments.current key := by
  induction assignments with
  | nil =>
      calc
        initial.get? key = seeds.lookup key := lookup_eq key seeds
        _ = Assignments.current [] key := (Option.none_or ..).symm
  | cons assignment earlier ih =>
      obtain ⟨found, value⟩ := assignment
      rw [replay, get?_set, ih, Assignments.current_cons]

theorem mem_keys_replay (assignments : Assignments) :
    key ∈ (replay assignments).toList.map Prod.fst ↔
      key ∈ assignments.keys ∨ key ∈ seeds.keys := by
  induction assignments with
  | nil => simp [replay, toList, initial, seeds]
  | cons assignment earlier ih =>
      obtain ⟨found, value⟩ := assignment
      simp only [toList, Assignments.mem_keys] at ih ⊢
      simp only [replay, set, keys_put, List.map_cons, List.mem_cons]
      split <;> grind

theorem size_replay (assignments : Assignments) :
    (replay assignments).size =
      assignments.keys.card + (seeds.keys \ assignments.keys).card := by
  have hkeys : Assignments.keys (replay assignments).toList = assignments.keys ∪ seeds.keys := by
    ext key
    rw [Finset.mem_union, Assignments.mem_keys, mem_keys_replay]
  calc
    (replay assignments).size = ((replay assignments).toList.map Prod.fst).length :=
      (List.length_map ..).symm
    _ = (Assignments.keys (replay assignments).toList).card :=
      (List.toFinset_card_of_nodup (replay assignments).nodup_keys).symm
    _ = (assignments.keys ∪ seeds.keys).card := by rw [hkeys]
    _ = assignments.keys.card + (seeds.keys \ assignments.keys).card := by
      rw [← Finset.union_sdiff_self_eq_union, Finset.card_union_of_disjoint Finset.disjoint_sdiff]

theorem two_le_size_replay (assignments : Assignments) : 2 ≤ (replay assignments).size := by
  have hseeds : seeds.keys.card = 2 := by decide
  have hle : seeds.keys.card ≤ (seeds.keys \ assignments.keys).card + assignments.keys.card :=
    Finset.card_le_card_sdiff_add_card
  rw [size_replay]
  omega

theorem isEmpty_replay (assignments : Assignments) : (replay assignments).isEmpty = false := by
  have hsize := two_le_size_replay assignments
  rw [isEmpty, List.isEmpty_eq_false_iff, ← List.length_pos_iff]
  exact Nat.lt_of_lt_of_le Nat.zero_lt_two hsize

end RubyPress.AliasTable
