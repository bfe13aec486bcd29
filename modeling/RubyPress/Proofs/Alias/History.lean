import RubyPress.Proofs.Alias.Replay

/-!
# Runs over several tables

Tables are created new or as copies of others, and calls are made on them in any order. What a call
answers is told by the history of operations alone: the assignments made on its table and, for a
copy, those made on the table it was copied from before the copying, and so on. The list of tables
after a history is the list of those replays, which every operation preserves. Nothing that happens
to other tables is among the assignments of a table, so the tables are independent.
-/

namespace RubyPress.Aliases

open AliasTable

inductive Call where
  | set (key : AliasKey) (value : String)
  | get (key : AliasKey)
  | size
  | isEmpty
  | list
  deriving DecidableEq

/-- An operation on a list of tables, which are named by their places in it. -/
inductive Operation where
  | new
  | default
  | clone (source : Nat)
  | call (table : Nat) (call : Call)
  deriving DecidableEq

inductive Answer where
  | place (table : Nat)
  | value (found : Option String)
  | count (size : Nat)
  | truth (holds : Bool)
  | entries (listed : List (AliasKey × String))
  deriving DecidableEq

def Call.run (table : AliasTable) : Call → Answer × AliasTable
  | .set key value =>
    let (previous, changed) := table.replace key value
    (.value previous, changed)
  | .get key => (.value (table.get? key), table)
  | .size => (.count table.size, table)
  | .isEmpty => (.truth table.isEmpty, table)
  | .list => (.entries table.toList, table)

/-- One operation. There is no answer when the table it names does not exist. -/
def step (tables : List AliasTable) : Operation → Option (Answer × List AliasTable)
  | .new => some (.place tables.length, tables ++ [.initial])
  | .default => some (.place tables.length, tables ++ [default])
  | .clone source => do
    let table ← tables[source]?
    return (.place tables.length, tables ++ [table])
  | .call index call => do
    let table ← tables[index]?
    let (answer, changed) := call.run table
    return (answer, tables.set index changed)

/-- The answers to the operations in turn, and the tables after the last. -/
def run (tables : List AliasTable) : List Operation → Option (List Answer × List AliasTable)
  | [] => some ([], tables)
  | operation :: rest => do
    let (answer, next) ← step tables operation
    let (answers, final) ← run next rest
    return (answer :: answers, final)

/-! ### What a history says

Histories have the latest operation first.
-/

def Operation.creates : Operation → Bool
  | .call .. => false
  | _ => true

def created (past : List Operation) : Nat := past.countP Operation.creates

def Call.assigned : Call → Assignments
  | .set key value => [(key, value)]
  | _ => []

/-- The assignments a table has seen, those of the tables it was copied from included. -/
def assignments : List Operation → Nat → Assignments
  | [], _ => []
  | .new :: past, table | .default :: past, table =>
    if table = created past then [] else assignments past table
  | .clone source :: past, table =>
    if table = created past then assignments past source else assignments past table
  | .call index call :: past, table =>
    if table = index then call.assigned ++ assignments past table else assignments past table

/-- The answers to a call on a table that has seen the assignments. -/
inductive Call.Fits (seen : Assignments) : Call → Answer → Prop where
  | set (key : AliasKey) (value : String) : Fits seen (.set key value) (.value (seen.current key))
  | get (key : AliasKey) : Fits seen (.get key) (.value (seen.current key))
  | size (count : Nat) (hcount : count = seen.keys.card + (seeds.keys \ seen.keys).card)
      (htwo : 2 ≤ count) : Fits seen .size (.count count)
  | isEmpty : Fits seen .isEmpty (.truth false)
  | list (listed : List (AliasKey × String)) (honce : (listed.map Prod.fst).Nodup)
      (hlisted : ∀ key value, (key, value) ∈ listed ↔ seen.current key = some value) :
      Fits seen .list (.entries listed)

inductive Operation.Fits (past : List Operation) : Operation → Answer → Prop where
  | new : Fits past .new (.place (created past))
  | default : Fits past .default (.place (created past))
  | clone (source : Nat) : Fits past (.clone source) (.place (created past))
  | call {table : Nat} {call : Call} {answer : Answer}
      (hfits : call.Fits (assignments past table) answer) : Fits past (.call table call) answer

/-- Every answer fits the operations that come before it. -/
inductive Explained : List Operation → List Operation → List Answer → Prop where
  | nil (past : List Operation) : Explained past [] []
  | cons {past rest : List Operation} {operation : Operation} {answer : Answer}
      {answers : List Answer} (hfits : operation.Fits past answer)
      (hrest : Explained (operation :: past) rest answers) :
      Explained past (operation :: rest) (answer :: answers)

def Operation.InRange (count : Nat) : Operation → Prop
  | .new | .default => True
  | .clone source => source < count
  | .call table _ => table < count

/-- Every operation names a table that has been created before it. -/
def Valid : List Operation → List Operation → Prop
  | _, [] => True
  | past, operation :: rest => operation.InRange (created past) ∧ Valid (operation :: past) rest

instance Operation.decidableInRange (count : Nat) :
    (operation : Operation) → Decidable (operation.InRange count)
  | .new | .default => .isTrue trivial
  | .clone source => inferInstanceAs (Decidable (source < count))
  | .call table _ => inferInstanceAs (Decidable (table < count))

instance decidableValid : (past operations : List Operation) → Decidable (Valid past operations)
  | _, [] => .isTrue trivial
  | past, operation :: rest =>
    @instDecidableAnd _ _ (Operation.decidableInRange (created past) operation)
      (decidableValid (operation :: past) rest)

variable {past operations others : List Operation} {operation : Operation}
variable {tables next later : List AliasTable} {answer : Answer} {answers : List Answer}
variable {table : Nat}

theorem step_call {index : Nat} {found : AliasTable} (call : Call)
    (h : tables[index]? = some found) :
    step tables (.call index call) =
      some ((call.run found).1, tables.set index (call.run found).2) := by
  rw [step, h]
  rfl

/-- A step puts one table at the end, or it is a call on one of the tables there are. -/
theorem step_cases (h : step tables operation = some (answer, next)) :
    (∃ added, next = tables ++ [added]) ∨
      ∃ index call found, operation = .call index call ∧ tables[index]? = some found ∧
        answer = (call.run found).1 ∧ next = tables.set index (call.run found).2 := by
  cases operation with
  | new =>
      cases h
      exact .inl ⟨_, rfl⟩
  | default =>
      cases h
      exact .inl ⟨_, rfl⟩
  | clone source =>
      obtain ⟨copied, -, h⟩ := Option.bind_eq_some_iff.1 h
      cases h
      exact .inl ⟨copied, rfl⟩
  | call index call =>
      obtain ⟨found, hfound, h⟩ := Option.bind_eq_some_iff.1 h
      cases h
      exact .inr ⟨index, call, found, rfl, hfound, rfl, rfl⟩

/-- The tables a history leads to. -/
def tablesAfter (past : List Operation) : List AliasTable :=
  (List.range (created past)).map fun table => replay (assignments past table)

@[simp] theorem created_cons (operation : Operation) (past : List Operation) :
    created (operation :: past) = created past + if operation.creates then 1 else 0 :=
  List.countP_cons ..

@[simp] theorem length_tablesAfter (past : List Operation) :
    (tablesAfter past).length = created past := by
  simp only [tablesAfter, List.length_map, List.length_range]

theorem getElem?_tablesAfter (h : table < created past) :
    (tablesAfter past)[table]? = some (replay (assignments past table)) := by
  simp [tablesAfter, h]

/-- A creation puts one table at the end. The others have seen nothing more. -/
theorem tablesAfter_creation (hcreates : operation.creates)
    (hothers : ∀ table < created past,
      assignments (operation :: past) table = assignments past table) :
    tablesAfter (operation :: past) =
      tablesAfter past ++ [replay (assignments (operation :: past) (created past))] := by
  have hcreated : created (operation :: past) = created past + 1 := by simp [hcreates]
  rw [tablesAfter, hcreated, List.range_succ, List.map_append, List.map_singleton]
  congr 1
  apply List.map_congr_left
  intro table htable
  rw [hothers table (List.mem_range.1 htable)]

theorem tablesAfter_call (index : Nat) (call : Call) (past : List Operation) :
    tablesAfter (.call index call :: past) =
      (tablesAfter past).set index (replay (call.assigned ++ assignments past index)) := by
  have hcreated : created (.call index call :: past) = created past := by
    simp [Operation.creates]
  apply List.ext_getElem?
  intro table
  by_cases hlt : table < created past
  · rw [getElem?_tablesAfter (hcreated ▸ hlt), List.getElem?_set, length_tablesAfter,
      getElem?_tablesAfter hlt, assignments]
    by_cases hindex : table = index
    · subst hindex
      simp [hlt]
    · simp [hindex, Ne.symm hindex]
  · rw [List.getElem?_eq_none, List.getElem?_eq_none]
    · simpa using hlt
    · simpa [hcreated] using hlt

/-- A call on a table that has seen the assignments has a fitting answer. Afterwards the table has
seen the assignment of the call as well. -/
theorem Call.run_replay (call : Call) (seen : Assignments) :
    call.Fits seen (call.run (replay seen)).1 ∧
      (call.run (replay seen)).2 = replay (call.assigned ++ seen) := by
  cases call with
  | set key value =>
      simp only [Call.run, replace_eq, get?_replay]
      exact ⟨.set key value, rfl⟩
  | get key =>
      simp only [Call.run, get?_replay]
      exact ⟨.get key, rfl⟩
  | size => exact ⟨.size _ (size_replay seen) (two_le_size_replay seen), rfl⟩
  | isEmpty =>
      simp only [Call.run, isEmpty_replay]
      exact ⟨.isEmpty, rfl⟩
  | list =>
      refine ⟨.list _ (replay seen).nodup_keys fun key value => ?_, rfl⟩
      rw [← get?_replay]
      exact mem_toList

/-- One operation leads from the tables of a history to those of the history it extends. -/
theorem step_tablesAfter (h : operation.InRange (created past)) :
    ∃ answer, step (tablesAfter past) operation = some (answer, tablesAfter (operation :: past)) ∧
      operation.Fits past answer := by
  have hlength : (tablesAfter past).length = created past := length_tablesAfter past
  cases operation with
  | new =>
      refine ⟨.place (created past), ?_, .new⟩
      have hothers : ∀ table < created past,
          assignments (.new :: past) table = assignments past table :=
        fun table htable => if_neg htable.ne
      rw [tablesAfter_creation rfl hothers, step, hlength]
      simp [assignments, replay]
  | default =>
      refine ⟨.place (created past), ?_, .default⟩
      have hothers : ∀ table < created past,
          assignments (.default :: past) table = assignments past table :=
        fun table htable => if_neg htable.ne
      rw [tablesAfter_creation rfl hothers, step, hlength]
      simp [assignments, replay, default]
  | clone source =>
      refine ⟨.place (created past), ?_, .clone source⟩
      have hothers : ∀ table < created past,
          assignments (.clone source :: past) table = assignments past table :=
        fun table htable => if_neg htable.ne
      rw [tablesAfter_creation rfl hothers, step, hlength, getElem?_tablesAfter h]
      simp [assignments]
  | call index call =>
      obtain ⟨hfits, hchanged⟩ := call.run_replay (assignments past index)
      refine ⟨_, ?_, .call hfits⟩
      rw [tablesAfter_call, ← hchanged]
      exact step_call call (getElem?_tablesAfter h)

theorem run_tablesAfter (h : Valid past operations) :
    ∃ answers, run (tablesAfter past) operations =
        some (answers, tablesAfter (operations.reverse ++ past)) ∧
      Explained past operations answers := by
  induction operations generalizing past with
  | nil => exact ⟨[], rfl, .nil past⟩
  | cons operation rest ih =>
      obtain ⟨hrange, hrest⟩ := h
      obtain ⟨answer, hstep, hfits⟩ := step_tablesAfter hrange
      obtain ⟨answers, hrun, hexplained⟩ := ih hrest
      refine ⟨answer :: answers, ?_, .cons hfits hexplained⟩
      rw [run, hstep]
      simp [hrun]

theorem step_keeps (h : step tables operation = some (answer, next)) (htable : table < tables.length)
    (hset : ∀ key value, operation ≠ .call table (.set key value)) :
    next[table]? = tables[table]? := by
  obtain ⟨added, rfl⟩ | ⟨index, call, found, rfl, hfound, -, rfl⟩ := step_cases h
  · exact List.getElem?_append_left htable
  · by_cases hindex : index = table
    · subst hindex
      -- Only an assignment changes the table it is called on.
      have hsame : (call.run found).2 = found := by
        cases call with
        | set key value => exact absurd rfl (hset key value)
        | _ => rfl
      rw [hsame, List.getElem?_set_self htable, hfound]
    · exact List.getElem?_set_ne hindex

theorem length_le_of_step (h : step tables operation = some (answer, next)) :
    tables.length ≤ next.length := by
  obtain ⟨added, rfl⟩ | ⟨index, call, found, -, -, -, rfl⟩ := step_cases h
  · simp
  · simp

theorem run_keeps (h : run tables others = some (answers, later)) (htable : table < tables.length)
    (hset : ∀ key value, .call table (.set key value) ∉ others) :
    later[table]? = tables[table]? := by
  induction others generalizing tables answers with
  | nil =>
      cases h
      rfl
  | cons operation rest ih =>
      obtain ⟨⟨answer, next⟩, hstep, h⟩ := Option.bind_eq_some_iff.1 h
      obtain ⟨⟨restAnswers, final⟩, hrun, h⟩ := Option.bind_eq_some_iff.1 h
      cases h
      calc
        later[table]? = next[table]? :=
          ih hrun (htable.trans_le (length_le_of_step hstep))
            fun key value hmem => hset key value (List.mem_cons_of_mem _ hmem)
        _ = tables[table]? :=
          step_keeps hstep htable fun key value heq =>
            hset key value (heq ▸ List.mem_cons_self)

theorem call_keeps (h : run tables others = some (answers, later)) (htable : table < tables.length)
    (hset : ∀ key value, .call table (.set key value) ∉ others) (call : Call) :
    ∃ answer, (step tables (.call table call)).map Prod.fst = some answer ∧
      (step later (.call table call)).map Prod.fst = some answer := by
  have hbefore : tables[table]? = some tables[table] := List.getElem?_eq_getElem htable
  have hafter : later[table]? = some tables[table] := (run_keeps h htable hset).trans hbefore
  refine ⟨(call.run tables[table]).1, ?_, ?_⟩
  · rw [step_call call hbefore, Option.map_some]
  · rw [step_call call hafter, Option.map_some]

/-- As long as a table is not assigned to, whatever is done with others, it stays as it is and every
call on it is answered as before. -/
def Independent (tables : List AliasTable) : Prop :=
  ∀ others answers later, run tables others = some (answers, later) →
    ∀ table < tables.length, (∀ key value, .call table (.set key value) ∉ others) →
      later[table]? = tables[table]? ∧
        ∀ call, ∃ answer, (step tables (.call table call)).map Prod.fst = some answer ∧
          (step later (.call table call)).map Prod.fst = some answer

theorem independent (tables : List AliasTable) : Independent tables := by
  intro others answers later hlater table htable hset
  exact ⟨run_keeps hlater htable hset, call_keeps hlater htable hset⟩

/-- Tables are finite maps that do not depend on each other. A run over tables that exist has all
its answers, and every answer fits the history before it. -/
theorem tables_follow_history (operations : List Operation) (valid : Valid [] operations) :
    ∃ answers tables, run [] operations = some (answers, tables) ∧
      tables.length = created operations ∧ Explained [] operations answers ∧
      Independent tables := by
  obtain ⟨answers, hrun, hexplained⟩ := run_tablesAfter valid
  refine ⟨answers, _, hrun, ?_, hexplained, independent _⟩
  rw [length_tablesAfter, List.append_nil, created, created, List.countP_reverse]

/-- A copy is taken between two assignments, and has a seed of its own overwritten. -/
def copying : List Operation :=
  [.new, .call 0 (.set ⟨"Kernel", "puts"⟩ "p"), .clone 0, .call 0 (.set ⟨"Kernel", "puts"⟩ "pp"),
    .call 1 (.get ⟨"Kernel", "puts"⟩), .call 1 (.set ⟨"Object", "dup"⟩ "clone"),
    .call 0 (.get ⟨"Object", "dup"⟩), .call 0 (.get ⟨"Object", "p"⟩), .call 1 .size,
    .call 0 .isEmpty, .call 1 .list]

theorem tables_follow_history_of_copying :
    Valid [] copying ∧ ∃ answers tables, run [] copying = some (answers, tables) ∧
      answers = [.place 0, .value none, .place 1, .value (some "p"), .value (some "p"),
        .value (some "dup"), .value (some "dup"), .value none, .count 3, .truth false,
        .entries [(⟨"Kernel", "p"⟩, "p"), (⟨"Object", "dup"⟩, "clone"),
          (⟨"Kernel", "puts"⟩, "p")]] ∧
      tables.length = 2 ∧ Explained [] copying answers ∧ Independent tables := by
  have hvalid : Valid [] copying := by decide
  obtain ⟨answers, tables, hrun, hlength, hexplained, hindependent⟩ :=
    tables_follow_history copying hvalid
  refine ⟨hvalid, answers, tables, hrun, ?_, hlength, hexplained, hindependent⟩
  have hanswers : some answers = (run [] copying).map Prod.fst := by rw [hrun, Option.map_some]
  exact Option.some.inj (hanswers.trans (by decide))

end RubyPress.Aliases
