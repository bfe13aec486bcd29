import Mathlib.Tactic

/-!
# Locals before use

A trace is what happens to locals while a program is gone through in some order: where they are read
and where they are assigned, with the bodies of methods and blocks kept together. Whether a name is
a local is decided by what stands in front of it, so a trace is fine if every read finds its name
assigned before, or among the parameters around it. A method starts from nothing but its parameters,
a block adds its own to what is known around it.

Two orders of the same program give two traces. One may replace the other if it asks for no more and
assigns no less, and this can be shown part by part.
-/

namespace RubyPress.Ruby

inductive Trace where
  | text (content : List Char)
  | read (name : String)
  | write (name : String)
  /-- An assignment that reads its own target. -/
  | update (name : String)
  | seq (first second : Trace)
  | method (params : List String) (body : Trace)
  | closure (params : List String) (body : Trace)

namespace Trace

def sequence (traces : List Trace) : Trace := traces.foldr seq (text [])

/-- The locals that are assigned, those of methods apart. -/
def assigned : Trace → List String
  | write name | update name => [name]
  | seq first second => first.assigned ++ second.assigned
  | closure _ body => body.assigned
  | text _ | read _ | method .. => []

/-- Every local is assigned before it is read, if the given ones are known at the start. -/
def Defined : Trace → List String → Prop
  | text _, _ | write _, _ => True
  | read name, known | update name, known => name ∈ known
  | seq first second, known => first.Defined known ∧ second.Defined (known ++ first.assigned)
  | method params body, _ => body.Defined params
  | closure params body, known => body.Defined (known ++ params)

instance decidableDefined : (trace : Trace) → (known : List String) →
    Decidable (trace.Defined known)
  | text _, _ | write _, _ => inferInstanceAs (Decidable True)
  | read name, known | update name, known => inferInstanceAs (Decidable (name ∈ known))
  | seq first second, known =>
    let _ := decidableDefined first known
    let _ := decidableDefined second (known ++ first.assigned)
    inferInstanceAs (Decidable (_ ∧ _))
  | method params body, _ => decidableDefined body params
  | closure params body, known => decidableDefined body (known ++ params)

/-- The locals that must be known at the start. -/
def needs : Trace → List String
  | read name | update name => [name]
  | seq first second => first.needs ++ second.needs.filter (· ∉ first.assigned)
  | closure params body => body.needs.filter (· ∉ params)
  | text _ | write _ | method .. => []

/-- The text that a trace was taken from. -/
def spelling : Trace → List Char
  | text content => content
  | read name | write name | update name => name.toList
  | seq first second => first.spelling ++ second.spelling
  | method _ body | closure _ body => body.spelling

variable {trace other : Trace} {known more : List String}

theorem append_subset_append {α : Type} {first second third fourth : List α}
    (hfirst : first ⊆ third) (hsecond : second ⊆ fourth) :
    first ++ second ⊆ third ++ fourth :=
  List.append_subset.2 ⟨List.subset_append_of_subset_left _ hfirst,
    List.subset_append_of_subset_right _ hsecond⟩

theorem Defined.mono (h : trace.Defined known) (hmore : known ⊆ more) : trace.Defined more := by
  induction trace generalizing known more with
  | text | write => trivial
  | read | update => exact hmore h
  | seq first second ihfirst ihsecond =>
      exact ⟨ihfirst h.1 hmore, ihsecond h.2 (append_subset_append hmore fun _ h => h)⟩
  | method => exact h
  | closure params body ih => exact ih h (append_subset_append hmore fun _ h => h)

theorem Defined.restrict (h : trace.Defined more) (hneeds : trace.needs ⊆ known) :
    trace.Defined known := by
  induction trace generalizing known more with
  | text | write => trivial
  | read | update => exact hneeds (List.mem_singleton_self _)
  | seq first second ihfirst ihsecond =>
      rw [needs, List.append_subset] at hneeds
      -- A name that the second part needs comes from the first part or from before.
      refine ⟨ihfirst h.1 hneeds.1, ihsecond h.2 fun name hname => ?_⟩
      by_cases hassigned : name ∈ first.assigned
      · exact List.mem_append_right _ hassigned
      · exact List.mem_append_left _ (hneeds.2 (by simp [hname, hassigned]))
  | method => exact h
  | closure params body ih =>
      refine ih h fun name hname => ?_
      by_cases hparam : name ∈ params
      · exact List.mem_append_right _ hparam
      · exact List.mem_append_left _ (hneeds (by simp [needs, hname, hparam]))

@[simp]
theorem sequence_nil : sequence [] = text [] := rfl

@[simp]
theorem sequence_cons (traces : List Trace) :
    sequence (trace :: traces) = seq trace (sequence traces) := rfl

@[simp]
theorem assigned_sequence_append (first second : List Trace) :
    (sequence (first ++ second)).assigned =
      (sequence first).assigned ++ (sequence second).assigned := by
  induction first with
  | nil => rfl
  | cons trace first ih =>
      rw [List.cons_append, sequence_cons, assigned, ih, sequence_cons, assigned, List.append_assoc]

@[simp]
theorem defined_sequence_append (first second : List Trace) :
    (sequence (first ++ second)).Defined known ↔ (sequence first).Defined known ∧
      (sequence second).Defined (known ++ (sequence first).assigned) := by
  induction first generalizing known with
  | nil => simp [assigned, Defined]
  | cons trace first ih =>
      simp only [List.cons_append, sequence_cons, Defined, ih, assigned, List.append_assoc,
        and_assoc]

theorem spelling_sequence (traces : List Trace) :
    (sequence traces).spelling = traces.flatMap spelling := by
  induction traces with
  | nil => rfl
  | cons trace traces ih => rw [sequence_cons, spelling, ih, List.flatMap_cons]

theorem assigned_sequence (traces : List Trace) :
    (sequence traces).assigned = traces.flatMap assigned := by
  induction traces with
  | nil => rfl
  | cons trace traces ih => rw [sequence_cons, assigned, ih, List.flatMap_cons]

theorem assigned_reads (names : List String) : (sequence (names.map read)).assigned = [] := by
  simp [assigned_sequence, assigned]

theorem subset_of_defined_reads {names : List String}
    (h : (sequence (names.map read)).Defined known) : names ⊆ known := by
  induction names generalizing known with
  | nil => exact List.nil_subset _
  | cons name names ih =>
      rw [List.map_cons, sequence_cons, Defined, assigned, List.append_nil] at h
      exact List.cons_subset.2 ⟨h.1, ih h.2⟩

/-! ### Replacing traces -/

/-- The other trace asks for no more locals than the first and assigns no fewer. -/
structure Refines (trace other : Trace) : Prop where
  defined : ∀ known, trace.Defined known → other.Defined known
  assigned : trace.assigned ⊆ other.assigned

namespace Refines

variable {first second : List Trace} {third fourth : List Trace}

theorem refl : Refines trace trace := ⟨fun _ h => h, fun _ h => h⟩

theorem trans {third : Trace} (hfirst : Refines trace other) (hsecond : Refines other third) :
    Refines trace third :=
  ⟨fun known h => hsecond.defined known (hfirst.defined known h),
    fun _ h => hsecond.assigned (hfirst.assigned h)⟩

/-- What assigns nothing may be left out. -/
theorem omitted {content : List Char} (h : trace.assigned = []) : Refines trace (text content) :=
  ⟨fun _ _ => trivial, h ▸ List.nil_subset _⟩

theorem method (params : List String) (h : Refines trace other) :
    Refines (.method params trace) (.method params other) :=
  ⟨fun _ => h.defined params, List.nil_subset _⟩

theorem closure (params : List String) (h : Refines trace other) :
    Refines (.closure params trace) (.closure params other) :=
  ⟨fun known => h.defined (known ++ params), h.assigned⟩

theorem append (hfirst : Refines (sequence first) (sequence third))
    (hsecond : Refines (sequence second) (sequence fourth)) :
    Refines (sequence (first ++ second)) (sequence (third ++ fourth)) where
  defined known h := by
    rw [defined_sequence_append] at h ⊢
    refine ⟨hfirst.defined known h.1, (hsecond.defined _ h.2).mono ?_⟩
    exact append_subset_append (fun _ h => h) hfirst.assigned
  assigned := by
    rw [assigned_sequence_append, assigned_sequence_append]
    exact append_subset_append hfirst.assigned hsecond.assigned

theorem wrap (h : Refines trace other) : Refines trace (sequence [other]) :=
  ⟨fun known hdefined => ⟨h.defined known hdefined, trivial⟩,
    List.subset_append_of_subset_left _ h.assigned⟩

theorem unwrap (h : Refines trace other) : Refines (sequence [trace]) other :=
  ⟨fun known hdefined => h.defined known hdefined.1,
    List.append_subset.2 ⟨h.assigned, List.nil_subset _⟩⟩

theorem cons (hfirst : Refines trace other)
    (hsecond : Refines (sequence second) (sequence fourth)) :
    Refines (sequence (trace :: second)) (sequence (other :: fourth)) :=
  append hfirst.unwrap.wrap hsecond

theorem map {α : Type} {items : List α} {f g : α → Trace}
    (h : ∀ item ∈ items, Refines (f item) (g item)) :
    Refines (sequence (items.map f)) (sequence (items.map g)) := by
  induction items with
  | nil => exact refl
  | cons item items ih =>
      rw [List.forall_mem_cons] at h
      exact cons h.1 (ih h.2)

theorem flatMap {α : Type} {items : List α} {f g : α → List Trace}
    (h : ∀ item ∈ items, Refines (sequence (f item)) (sequence (g item))) :
    Refines (sequence (items.flatMap f)) (sequence (items.flatMap g)) := by
  induction items with
  | nil => exact refl
  | cons item items ih =>
      rw [List.forall_mem_cons] at h
      exact append h.1 (ih h.2)

theorem zipWith {α β γ : Type} {left : List α} {right : List β} {f : α → β → List Trace}
    {g : α → β → List γ} {emit : γ → Trace} {p : γ → Prop}
    (hp : ∀ item ∈ (List.zipWith g left right).flatten, p item)
    (h : ∀ a b, (∀ item ∈ g a b, p item) →
      Refines (sequence (f a b)) (sequence ((g a b).map emit))) :
    Refines (sequence (List.zipWith f left right).flatten)
      (sequence ((List.zipWith g left right).flatten.map emit)) := by
  rw [List.map_flatten, List.map_zipWith]
  simp only [← List.map_uncurry_zip_eq_zipWith] at hp ⊢
  refine flatMap fun pair hpair => h pair.1 pair.2 fun item hitem => hp item ?_
  exact List.mem_flatten_of_mem (List.mem_map_of_mem hpair) hitem

theorem before_write (name : String) (h : Refines trace other) :
    Refines (seq trace (write name)) (seq other (write name)) :=
  ⟨fun known hdefined => ⟨h.defined known hdefined.1, trivial⟩,
    append_subset_append h.assigned fun _ h => h⟩

/-- The target of an assignment may come before its value. -/
theorem target_first (name : String) (h : Refines trace (sequence second)) :
    Refines (seq trace (write name)) (sequence (write name :: second)) where
  defined known hdefined :=
    ⟨trivial, (h.defined known hdefined.1).mono (List.subset_append_left _ _)⟩
  assigned := List.append_subset.2
    ⟨List.subset_append_of_subset_right _ h.assigned, List.subset_append_left _ _⟩

theorem update_first (name : String) (h : Refines trace (sequence second)) :
    Refines (seq (seq (read name) trace) (write name)) (sequence (update name :: second)) where
  defined _ hdefined :=
    ⟨hdefined.1.1, (h.defined _ hdefined.1.2).mono (append_subset_append (fun _ h => h)
      (List.nil_subset _))⟩
  assigned := List.append_subset.2
    ⟨List.subset_append_of_subset_right _ h.assigned, List.subset_append_left _ _⟩

/-- A branch may come before its condition if its locals are known without it. -/
theorem branch_first {test branch condition statement : Trace} (htest : Refines test condition)
    (hbranch : Refines branch statement) :
    Refines (sequence (branch.needs.map .read ++ [test, branch]))
      (sequence [statement, condition]) where
  defined known h := by
    rw [defined_sequence_append, assigned_reads, List.append_nil] at h
    obtain ⟨hneeds, htestDefined, hbranchDefined, -⟩ := h
    -- The branch is defined behind the condition and needs nothing that only this assigns.
    have hstatement := hbranchDefined.restrict (subset_of_defined_reads hneeds)
    exact ⟨hbranch.defined known hstatement,
      (htest.defined known htestDefined).mono (List.subset_append_left _ _), trivial⟩
  assigned := by
    rw [assigned_sequence_append, assigned_reads]
    intro name hname
    simp only [sequence_cons, sequence_nil, Trace.assigned, List.nil_append, List.append_nil,
      List.mem_append] at hname ⊢
    exact hname.symm.imp (fun h => hbranch.assigned h) fun h => htest.assigned h

end Refines

end Trace

end RubyPress.Ruby
