import Mathlib.Tactic
import RubyPress.Text.Raw

/-!
# Text in bytes

Text that is encoded is read back, whatever stands behind it. Bytes that are no text are shown with
replacements, and nothing is shown that is neither a replacement nor in the bytes. A mark that takes
one byte parts the bytes where it parts what is shown of them.
-/

namespace RubyPress.Utf8

variable {c mark : Char} {byte : UInt8} {text : List Char} {bytes front : List UInt8}

theorem encode_cons (c : Char) (text : List Char) :
    encode (c :: text) = String.utf8EncodeChar c ++ encode text :=
  List.flatMap_cons

theorem encode_append (text more : List Char) :
    encode (text ++ more) = encode text ++ encode more :=
  List.flatMap_append

theorem length_le_length_encode (text : List Char) : text.length ≤ (encode text).length := by
  induction text with
  | nil => exact Nat.le_refl 0
  | cons c text ih =>
      have hsize := c.utf8Size_pos
      rw [encode_cons, List.length_append, String.length_utf8EncodeChar, List.length_cons]
      omega

theorem first_encodeChar (c : Char) (rest : List UInt8) :
    first (String.utf8EncodeChar c ++ rest) = (c, c.utf8Size) := by
  rw [first, List.toByteArray_append, ByteArray.utf8DecodeChar?_utf8EncodeChar_append]

/-- What is read first is a character that is written there, or a replacement if there is none. -/
theorem first_cases (bytes : List UInt8) :
    (∃ c rest, bytes = String.utf8EncodeChar c ++ rest ∧ first bytes = (c, c.utf8Size)) ∨
      (∀ c, ¬String.utf8EncodeChar c <+: bytes) ∧
        first bytes = (replacement, faultSize bytes) := by
  cases hread : bytes.toByteArray.utf8DecodeChar? 0 with
  | some c =>
      obtain ⟨rest, hrest⟩ := ByteArray.exists_of_utf8DecodeChar?_eq_some hread
      have hdata := congrArg (·.data.toList) hrest
      exact .inl ⟨c, rest.data.toList, by simpa using hdata, by rw [first, hread]⟩
  | none =>
      refine .inr ⟨?_, by rw [first, hread]⟩
      rintro c ⟨rest, rfl⟩
      rw [List.toByteArray_append, ByteArray.utf8DecodeChar?_utf8EncodeChar_append] at hread
      cases hread

theorem decodeFrom_length_append (front rest : List UInt8) :
    decodeFrom front.length (front ++ rest) = decode rest := by
  induction front with
  | nil => rfl
  | cons byte front ih => rw [List.length_cons, List.cons_append, decodeFrom, ih]

theorem exists_encodeChar_eq_cons (c : Char) : ∃ byte others,
    String.utf8EncodeChar c = byte :: others ∧ others.length = c.utf8Size - 1 := by
  have hlength := String.length_utf8EncodeChar c
  have hne : String.utf8EncodeChar c ≠ [] := by
    intro hnil
    rw [hnil, List.length_nil] at hlength
    exact absurd hlength c.utf8Size_pos.ne
  obtain ⟨byte, others, hbytes⟩ := List.exists_cons_of_ne_nil hne
  rw [hbytes, List.length_cons] at hlength
  exact ⟨byte, others, hbytes, by omega⟩

theorem decode_encode_append (text : List Char) (rest : List UInt8) :
    decode (encode text ++ rest) = text ++ decode rest := by
  induction text with
  | nil => rfl
  | cons c text ih =>
      obtain ⟨byte, others, hbytes, hlength⟩ := exists_encodeChar_eq_cons c
      have hfirst := first_encodeChar c (encode text ++ rest)
      rw [hbytes, List.cons_append] at hfirst
      rw [encode_cons, hbytes, List.append_assoc, List.cons_append, decode, decodeFrom, hfirst,
        ← hlength, decodeFrom_length_append, ih, List.cons_append]

theorem decode_ne_nil (hne : bytes ≠ []) : decode bytes ≠ [] := by
  obtain ⟨byte, rest, rfl⟩ := List.exists_cons_of_ne_nil hne
  exact List.cons_ne_nil _ _

theorem mem_decodeFrom {skipped : Nat} (h : c ∈ decodeFrom skipped bytes) :
    c = replacement ∨ String.utf8EncodeChar c <:+: bytes := by
  induction bytes generalizing skipped with
  | nil => simp at h
  | cons byte rest ih =>
      have hlater {skipped : Nat} (h : c ∈ decodeFrom skipped rest) :
          c = replacement ∨ String.utf8EncodeChar c <:+: byte :: rest :=
        (ih h).imp_right fun hinfix => hinfix.trans (List.suffix_cons byte rest).isInfix
      cases skipped with
      | succ skipped => exact hlater h
      | zero =>
          rcases List.mem_cons.1 h with hfirst | h
          · rcases first_cases (byte :: rest) with ⟨d, others, hbytes, hd⟩ | ⟨-, hreplaced⟩
            · obtain rfl : c = d := by rw [hfirst, hd]
              exact .inr ⟨[], others, hbytes.symm⟩
            · exact .inl (by rw [hfirst, hreplaced])
          · exact hlater h

theorem mem_decode (h : c ∈ decode bytes) :
    c = replacement ∨ String.utf8EncodeChar c <:+: bytes :=
  mem_decodeFrom h

/-! ### Marks of one byte -/

/-- A stretch that is replaced ends in front of a mark. -/
theorem faultSize_append (hlow : byte < 0x80) (hne : front ≠ []) (rest : List UInt8) :
    faultSize (front ++ byte :: rest) = faultSize front ∧ faultSize front ≤ front.length := by
  have hbelow {bound : UInt8} (hbound : 0x80 ≤ bound) : ¬bound ≤ byte :=
    UInt8.not_le.2 (UInt8.lt_of_lt_of_le hlow hbound)
  have hcontinues : isContinuation byte = false := by
    simp [isContinuation, hbelow]
  have hsecond (lead : UInt8) : isSecond lead byte = false := by
    unfold isSecond
    split_ifs <;> simp [hbelow, hcontinues]
  obtain ⟨lead, front, rfl⟩ := List.exists_cons_of_ne_nil hne
  rcases front with _ | ⟨second, _ | ⟨third, front⟩⟩
  · simp [faultSize, hsecond]
  · by_cases hopens : isSecond lead second <;> simp [faultSize, hopens, hcontinues]
  · refine ⟨rfl, ?_⟩
    simp only [faultSize, List.length_cons]
    split_ifs <;> omega

section Mark

variable (hmark : String.utf8EncodeChar mark = [byte])

include hmark

/-- The byte of a mark is in no other character. -/
theorem eq_of_mem_encodeChar (h : byte ∈ String.utf8EncodeChar c) : c = mark := by
  obtain ⟨i, hi, hbyte⟩ := List.getElem_of_mem h
  have hstarts : byte.IsUTF8FirstByte := by
    simpa [hmark] using UInt8.isUTF8FirstByte_getElem_zero_utf8EncodeChar (c := mark)
  obtain rfl : i = 0 := by
    rwa [← @UInt8.isUTF8FirstByte_getElem_utf8EncodeChar c i hi, hbyte]
  obtain ⟨first, others, hbytes, -⟩ := exists_encodeChar_eq_cons c
  obtain rfl : first = byte := by simpa [hbytes] using hbyte
  have hread := first_encodeChar c []
  rw [List.append_nil, hbytes] at hread
  have hreadMark := first_encodeChar mark others
  rw [hmark, List.singleton_append] at hreadMark
  exact congrArg Prod.fst (hread.symm.trans hreadMark)

theorem mark_mem_of_mem_encode (h : byte ∈ encode text) : mark ∈ text := by
  obtain ⟨c, hc, hbyte⟩ := List.mem_flatMap.1 h
  exact eq_of_mem_encodeChar hmark hbyte ▸ hc

theorem mem_of_mark_mem_decode (hshown : mark ≠ replacement) (h : mark ∈ decode bytes) :
    byte ∈ bytes := by
  obtain hreplaced | hinfix := mem_decode h
  · exact absurd hreplaced hshown
  · exact hinfix.subset (hmark ▸ List.mem_singleton_self byte)

/-- No character reaches over a mark. -/
theorem encodeChar_prefix_of_append {rest : List UInt8} (hne : front ≠ [])
    (h : String.utf8EncodeChar c <+: front ++ byte :: rest) :
    String.utf8EncodeChar c <+: front := by
  rcases List.prefix_or_prefix_of_prefix h (List.prefix_append front (byte :: rest)) with
    hshort | ⟨more, hmore⟩
  · exact hshort
  · cases more with
    | nil => simp [← hmore]
    | cons next more =>
        rw [← hmore, List.prefix_append_right_inj, List.cons_prefix_cons] at h
        obtain rfl := h.1
        obtain rfl := eq_of_mem_encodeChar hmark (hmore ▸ by simp : next ∈ String.utf8EncodeChar c)
        rw [hmark] at hmore
        have hlength := congrArg List.length hmore
        have hfront := List.length_pos_iff.2 hne
        simp at hlength
        omega

theorem first_append (hlow : byte < 0x80) (hne : front ≠ []) (rest : List UInt8) :
    first (front ++ byte :: rest) = first front ∧ (first front).2 ≤ front.length := by
  obtain ⟨hfault, hsize⟩ := faultSize_append hlow hne rest
  rcases first_cases front with ⟨c, others, rfl, hread⟩ | ⟨hnone, hreplaced⟩
  · rw [hread, List.append_assoc, first_encodeChar, List.length_append,
      String.length_utf8EncodeChar]
    exact ⟨rfl, Nat.le_add_right _ _⟩
  · rcases first_cases (front ++ byte :: rest) with ⟨c, others, hlong, -⟩ | ⟨-, hlong⟩
    · exact absurd (encodeChar_prefix_of_append hmark hne ⟨others, hlong.symm⟩) (hnone c)
    · rw [hlong, hreplaced, hfault]
      exact ⟨rfl, hsize⟩

theorem decodeFrom_append (hlow : byte < 0x80) {skipped : Nat} (hskipped : skipped ≤ front.length)
    (rest : List UInt8) :
    decodeFrom skipped (front ++ byte :: rest) =
      decodeFrom skipped front ++ mark :: decode rest := by
  induction front generalizing skipped with
  | nil =>
      obtain rfl := Nat.le_zero.1 hskipped
      have hread := decode_encode_append [mark] rest
      simpa [encode, hmark, decode] using hread
  | cons head front ih =>
      cases skipped with
      | succ skipped => exact ih (Nat.le_of_succ_le_succ hskipped)
      | zero =>
          have hne := List.cons_ne_nil head front
          obtain ⟨hfirst, hsize⟩ := first_append hmark hlow hne rest
          rw [List.cons_append] at hfirst
          rw [List.cons_append, decodeFrom, hfirst, ih (by simpa using hsize), decodeFrom,
            List.cons_append]

/-- **A mark parts what is shown where it parts the bytes**, whether they are text or not. -/
theorem decode_append_mark (hlow : byte < 0x80) (front rest : List UInt8) :
    decode (front ++ byte :: rest) = decode front ++ mark :: decode rest :=
  decodeFrom_append hmark hlow (Nat.zero_le _) rest

end Mark

example : decode [0x61, 0xF0, 0x9F, 0x98, 0x2E, 0xFF, 0x80] =
    ['a', replacement, '.', replacement, replacement] := by decide

end RubyPress.Utf8
