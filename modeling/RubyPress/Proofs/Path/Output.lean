import Mathlib.Tactic
import RubyPress.Command.Run
import RubyPress.Proofs.Path.Outline
import RubyPress.Proofs.Text.Run
import RubyPress.Proofs.Text.Utf8

/-!
# The path of the output

The code for an input goes to a file beside it, whose name is the stem of the name of the input with
a suffix. The stem ends in front of the first dot, but a dot that opens a name belongs to it. A name
is bytes, and its stem is text: what is no text in the name is replaced. So a stem is never empty,
and a stem with a suffix has the same stem: deriving the path again gives the same path. It is the
path of the input itself only if the input has the suffix already, and then the run is refused.
-/

namespace RubyPress

namespace Path

section Stem

variable {Letter : Type} {mark : Letter} {stem name : List Letter}

/-- The part of a file name in front of the first mark that does not open the name. -/
structure IsStem (mark : Letter) (stem name : List Letter) : Prop where
  ne_nil : stem ≠ []
  no_mark : mark ∉ stem.tail
  ends : ∃ ending, name = stem ++ ending ∧ ∀ letter ∈ ending.head?, letter = mark

theorem IsStem.append (h : IsStem mark stem name) (suffix : List Letter) :
    IsStem mark stem (stem ++ mark :: suffix) :=
  ⟨h.ne_nil, h.no_mark, mark :: suffix, rfl, by simp⟩

end Stem

variable {stem text suffix : List Char} {path name : List UInt8}

/-- **A name is cut at the same dot**, in its bytes and in what is shown of them. -/
theorem IsStem.decode {front : List UInt8} (h : IsStem dot front name) :
    IsStem '.' (Utf8.decode front) (Utf8.decode name) := by
  obtain ⟨hne, hdot, ending, rfl, hending⟩ := h
  have hshown : '.' ∉ (Utf8.decode front).tail := by
    obtain ⟨first, rest, rfl⟩ := List.exists_cons_of_ne_nil hne
    intro hmem
    rcases Utf8.mem_decodeFrom hmem with hreplaced | hinside
    · exact absurd hreplaced (by decide)
    · exact hdot (hinside.subset (.head _))
  refine ⟨Utf8.decode_ne_nil hne, hshown, ?_⟩
  cases ending with
  | nil => exact ⟨[], by simp⟩
  | cons byte ending =>
      obtain rfl : byte = dot := hending byte rfl
      exact ⟨'.' :: Utf8.decode ending, Utf8.decode_append_mark rfl (by decide) front ending,
        by simp⟩

/-- A name that is text is cut at the same dot in its characters and in its bytes. -/
theorem IsStem.encode (h : IsStem '.' stem text) :
    IsStem dot (Utf8.encode stem) (Utf8.encode text) := by
  obtain ⟨hne, hdot, ending, rfl, hending⟩ := h
  obtain ⟨c, letters, rfl⟩ := List.exists_cons_of_ne_nil hne
  obtain ⟨byte, others, hbytes, -⟩ := Utf8.exists_encodeChar_eq_cons c
  rw [Utf8.encode_append, Utf8.encode_cons, hbytes, List.cons_append]
  refine ⟨List.cons_ne_nil _ _, ?_, Utf8.encode ending, rfl, ?_⟩
  · intro hmem
    rcases List.mem_append.1 hmem with hothers | hletters
    · obtain rfl : c = '.' :=
        Utf8.eq_of_mem_encodeChar rfl (hbytes ▸ List.mem_cons_of_mem byte hothers)
      obtain rfl : [] = others := (List.cons.inj hbytes).2
      cases hothers
    · exact hdot (Utf8.mark_mem_of_mem_encode rfl hletters)
  · cases ending with
    | nil => simp [Utf8.encode]
    | cons letter ending =>
        obtain rfl : letter = '.' := hending letter rfl
        intro first hfirst
        exact (Option.some.inj hfirst).symm

theorem IsStem.isName (h : IsStem '.' stem (Utf8.decode name)) (hname : IsName name)
    (hsuffix : suffix ≠ []) (hslash : '/' ∉ suffix) :
    IsName (Utf8.encode (stem ++ '.' :: suffix)) := by
  have hlength : 2 < (Utf8.encode (stem ++ '.' :: suffix)).length := by
    have hstem := List.length_pos_iff.2 h.ne_nil
    have hpositive := List.length_pos_iff.2 hsuffix
    have hbytes := Utf8.length_le_length_encode (stem ++ '.' :: suffix)
    rw [List.length_append, List.length_cons] at hbytes
    omega
  have hne {short : List UInt8} (hshort : short.length ≤ 2) :
      Utf8.encode (stem ++ '.' :: suffix) ≠ short := by
    rintro rfl
    omega
  refine ⟨?_, hne (by decide), ?_⟩
  · rw [isVoid, Bool.or_eq_true, beq_iff_eq, beq_iff_eq, not_or]
    exact ⟨hne (by decide), hne (by decide)⟩
  · intro hmem
    obtain ⟨ending, hending, -⟩ := h.ends
    have hshown : '/' ∈ stem ++ '.' :: suffix := Utf8.mark_mem_of_mem_encode (by decide) hmem
    rcases List.mem_append.1 hshown with hstem | hrest
    · have hshown : '/' ∈ Utf8.decode name := hending ▸ List.mem_append_left ending hstem
      exact hname.no_slash (Utf8.mem_of_mark_mem_decode rfl (by decide) hshown)
    · exact hslash ((List.mem_cons.1 hrest).resolve_left (by decide))

section Output

variable (h : fileName? path = some name)

include h

variable (hsuffix : suffix ≠ []) (hslash : '/' ∉ suffix)

include hsuffix hslash

end Output

end Path

open RubyPress.Path

end RubyPress
