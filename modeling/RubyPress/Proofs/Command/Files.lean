import RubyPress.FileTree
import RubyPress.Proofs.Success

/-!
# Files after a write

Writing puts one entry into a tree and leaves all others alone. The entry it puts there is a file,
and what was there before was no directory, so every way through the tree that was open stays open.
Hence a path leads to what has just been written to it.
-/

namespace RubyPress.FileTree

variable {tree : FileTree} {place other start : Location} {entry : Entry}

theorem lookup_filter_ne (entries : List (Location × Entry)) (h : other ≠ place) :
    (entries.filter fun (found, _) => found != place).lookup other = entries.lookup other := by
  induction entries with
  | nil => rfl
  | cons first entries ih =>
      obtain ⟨found, content⟩ := first
      by_cases hfound : found = place
      · have hother : (other == found) = false := by simpa [hfound] using h
        rw [List.filter_cons_of_neg (by simp [hfound]), List.lookup_cons, hother, ih]
      · rw [List.filter_cons_of_pos (by simp [hfound]), List.lookup_cons, List.lookup_cons, ih]

theorem entry?_set_self (h : place ≠ []) : entry? (tree.set place entry) place = some entry := by
  unfold entry?
  rw [if_neg h, set, List.lookup_cons_self]

theorem entry?_set_of_ne (h : other ≠ place) :
    entry? (tree.set place entry) other = tree.entry? other := by
  have hbeq : (other == place) = false := by simpa using h
  unfold entry?
  rw [set, List.lookup_cons, hbeq, lookup_filter_ne _ h]

theorem follow_cons_eq_ok {step : Step} {steps : List Step} :
    tree.follow start (step :: steps) = .ok other ↔ tree.entry? start = some .directory ∧
      match step with
      | .up => tree.follow start.dropLast steps = .ok other
      | .into name => (tree.entry? (start ++ [name])).isSome ∧
          tree.follow (start ++ [name]) steps = .ok other := by
  cases step with
  | up =>
      rw [follow]
      cases tree.entry? start with
      | none => simp
      | some found => cases found <;> simp
  | into name =>
      rw [follow]
      cases tree.entry? start with
      | none => simp
      | some found =>
          cases found with
          | file => simp
          | directory =>
              by_cases hname : (tree.entry? (start ++ [name])).isSome <;> simp [hname]

theorem follow_append_eq_ok {first second : List Step} {middle : Location}
    (hfirst : tree.follow start first = .ok middle)
    (hsecond : tree.follow middle second = .ok other) :
    tree.follow start (first ++ second) = .ok other := by
  induction first generalizing start with
  | nil =>
      obtain rfl := Except.ok.inj hfirst
      exact hsecond
  | cons step first ih =>
      rw [List.cons_append, follow_cons_eq_ok]
      obtain ⟨hstart, hstep⟩ := follow_cons_eq_ok.1 hfirst
      refine ⟨hstart, ?_⟩
      cases step with
      | up => exact ih hstep
      | into name => exact ⟨hstep.1, ih hstep.2⟩

/-- A new entry blocks no way, unless it takes the place of a directory. -/
theorem follow_set (hplace : place ≠ []) (hentry : tree.entry? place ≠ some .directory)
    {steps : List Step} (h : tree.follow start steps = .ok other) :
    (tree.set place entry).follow start steps = .ok other := by
  have hdirectory {found : Location} (hfound : tree.entry? found = some .directory) :
      entry? (tree.set place entry) found = some .directory := by
    have hne : found ≠ place := fun heq => hentry (heq ▸ hfound)
    rwa [entry?_set_of_ne hne]
  induction steps generalizing start with
  | nil => exact h
  | cons step steps ih =>
      obtain ⟨hstart, hstep⟩ := follow_cons_eq_ok.1 h
      refine follow_cons_eq_ok.2 ⟨hdirectory hstart, ?_⟩
      cases step with
      | up => exact ih hstep
      | into name =>
          refine ⟨?_, ih hstep.2⟩
          by_cases heq : start ++ [name] = place
          · rw [heq, entry?_set_self hplace]
            rfl
          · rw [entry?_set_of_ne heq]
            exact hstep.1

variable {directory : Location} {path : RawText} {text : String}

/-- A file with this name, in the directory above it, can be created or replaced at the path. -/
structure Accepts (tree : FileTree) (directory : Location) (path : RawText) (above : Location)
    (file : RawText) : Prop where
  valid : checkPath path = .ok ()
  ending : endingOf path = .name
  last : (stepsOf path).getLast? = some (.into file)
  leads : tree.follow (startOf directory path) (stepsOf path).dropLast = .ok above
  isDirectory : tree.entry? above = some .directory
  isFree : tree.entry? (above ++ [file]) ≠ some .directory

/-- A path that ends in dots leads to a directory or through a file, and is refused. -/
theorem follow_dots_ne_ok (start : Location) (steps : List Step) :
    (do
      let found ← tree.follow start steps
      match tree.entry? found with
      | some (.file _) => .error .notDirectory
      | _ => .error .isDirectory : Except FileError Location) ≠ .ok place := by
  intro hok
  obtain ⟨found, -, hfound⟩ := bind_eq_ok.1 hok
  split at hfound <;> cases hfound

theorem exists_accepts (h : tree.target directory path = .ok place) :
    ∃ above file, Accepts tree directory path above file ∧ place = above ++ [file] := by
  unfold target at h
  obtain ⟨_, hvalid, h⟩ := bind_eq_ok.1 h
  simp only at h
  split at h
  · exact absurd h (follow_dots_ne_ok _ _)
  · exact absurd h (follow_dots_ne_ok _ _)
  · exact absurd h (follow_dots_ne_ok _ _)
  · next ending _ file hlast hending =>
      obtain ⟨above, hleads, h⟩ := bind_eq_ok.1 h
      split at h
      · next hdirectory =>
          rw [ite_eq_iff'] at h
          by_cases hrefused : endingOf path = .slash ∨
              tree.entry? (above ++ [file]) = some .directory
          · cases h.1 hrefused
          · obtain rfl := Except.ok.inj (h.2 hrefused)
            rw [not_or] at hrefused
            have hname : endingOf path = .name := by
              cases hcase : endingOf path with
              | name => rfl
              | slash => exact absurd hcase hrefused.1
              | dots => exact absurd hcase hending
            exact ⟨above, file, ⟨hvalid, hname, hlast, hleads, hdirectory, hrefused.2⟩, rfl⟩
      · cases h
      · cases h

theorem follow_set_self {above : Location} {file : RawText}
    (h : Accepts tree directory path above file) :
    (tree.set (above ++ [file]) entry).follow (startOf directory path) (stepsOf path) =
      .ok (above ++ [file]) := by
  have hplace : above ++ [file] ≠ [] := by simp
  have hne : above ≠ above ++ [file] := by simp
  have hsteps : stepsOf path = (stepsOf path).dropLast ++ [.into file] :=
    (List.dropLast_append_getLast? _ h.last).symm
  rw [hsteps]
  refine follow_append_eq_ok (follow_set hplace h.isFree h.leads) ?_
  refine follow_cons_eq_ok.2 ⟨?_, ?_, rfl⟩
  · rw [entry?_set_of_ne hne, h.isDirectory]
  · rw [entry?_set_self hplace]
    rfl

/-- A text is written where there is a place for it that does not refuse it. -/
theorem writeText_eq_ok {after : FileTree} :
    tree.writeText directory path text = .ok after ↔
      ∃ place, tree.target directory path = .ok place ∧ tree.refusal place text = none ∧
        tree.set place (.file (.text text)) = after := by
  unfold writeText
  rw [bind_eq_ok]
  refine exists_congr fun place => and_congr_right fun _ => ?_
  cases tree.refusal place text <;> simp [pure, Except.pure]

/-- **A write is read back, and changes nothing else.** -/
theorem readText_writeText {after : FileTree} (h : tree.writeText directory path text = .ok after) :
    ∃ place, tree.target directory path = .ok place ∧
      after.readText directory path = .ok text ∧
      ∀ other, other ≠ place → after.entry? other = tree.entry? other := by
  obtain ⟨place, htarget, -, rfl⟩ := writeText_eq_ok.1 h
  obtain ⟨above, file, haccepts, rfl⟩ := exists_accepts htarget
  refine ⟨_, htarget, ?_, fun other hother => entry?_set_of_ne hother⟩
  refine bind_eq_ok.2 ⟨(), haccepts.valid, bind_eq_ok.2 ⟨_, follow_set_self haccepts, ?_⟩⟩
  rw [entry?_set_self (by simp)]
  simp only [haccepts.ending, if_true]
  rfl

end RubyPress.FileTree
