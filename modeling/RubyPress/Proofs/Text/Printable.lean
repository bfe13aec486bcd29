import RubyPress.Proofs.Text.Run
import RubyPress.Text.DoubleQuoted

/-!
# Printable text

The inside of a literal is written in printable ASCII whatever its value is.
-/

namespace RubyPress.Text

/-- The characters of ASCII that are no control characters. -/
def isPrintable (c : Char) : Bool := 0x20 ≤ c.toNat && c.toNat < 0x7f

theorem isPrintable_of_isAlphanum {c : Char} (h : c.isAlphanum) : isPrintable c := by
  have hranges : ((decide ('A'.val ≤ c.val ∧ c.val ≤ 'Z'.val) ||
      'a'.val ≤ c.val && c.val ≤ 'z'.val) || '0'.val ≤ c.val && c.val ≤ '9'.val) = true := h
  simp only [Bool.or_eq_true, Bool.and_eq_true, decide_eq_true_eq,
    UInt32.le_iff_toNat_le] at hranges
  simp only [isPrintable, Char.toNat, Bool.and_eq_true, decide_eq_true_eq]
  have table : 'A'.val.toNat = 65 ∧ 'Z'.val.toNat = 90 ∧ 'a'.val.toNat = 97 ∧ 'z'.val.toNat = 122 ∧
      '0'.val.toNat = 48 ∧ '9'.val.toNat = 57 := by decide
  omega

theorem isPrintable_of_mem_numericEscape (code : Nat) :
    ∀ c ∈ DoubleQuoted.numericEscape code, isPrintable c := by
  have hhex (width : Nat) : ∀ c ∈ Hex.fixed .capital width code, isPrintable c :=
    fun c hc => isPrintable_of_isAlphanum (isAlphanum_of_mem_fixed hc)
  have hbraces (width : Nat) :
      ∀ c ∈ '\x7b' :: Hex.fixed .capital width code ++ ['\x7d'], isPrintable c := by
    simp only [List.cons_append, List.forall_mem_cons, List.forall_mem_append]
    exact ⟨by decide, hhex width, by decide⟩
  have hescape {letter : Char} (hletter : isPrintable letter) {rest : List Char}
      (hrest : ∀ c ∈ rest, isPrintable c) : ∀ c ∈ '\\' :: letter :: rest, isPrintable c := by
    simp only [List.forall_mem_cons]
    exact ⟨by decide, hletter, hrest⟩
  unfold DoubleQuoted.numericEscape
  split_ifs
  · exact hescape (by decide) (hhex 2)
  · exact hescape (by decide) (hhex 4)
  · exact hescape (by decide) (hbraces 5)
  · exact hescape (by decide) (hbraces 6)

theorem isPrintable_of_escapeLetter? {c letter : Char}
    (h : DoubleQuoted.escapeLetter? c = some letter) : isPrintable letter := by
  unfold DoubleQuoted.escapeLetter? at h
  split at h <;> first | exact Option.some.inj h ▸ (by decide) | cases h

theorem isPrintable_of_mem_escapeChar {c d : Char} {following : List Char}
    (h : d ∈ DoubleQuoted.escapeChar c following) : isPrintable d := by
  have hbackslash : isPrintable '\\' := by decide
  have hsign : isPrintable '#' := by decide
  unfold DoubleQuoted.escapeChar at h
  split at h
  · next letter hletter =>
      have hprintable := isPrintable_of_escapeLetter? hletter
      simp only [List.mem_cons, List.not_mem_nil, or_false] at h
      rcases h with rfl | rfl
      · exact hbackslash
      · exact hprintable
  · split_ifs at h with _ _ hcode
    · simp only [List.mem_cons, List.not_mem_nil, or_false] at h
      rcases h with rfl | rfl
      · exact hbackslash
      · exact hsign
    · rw [List.mem_singleton.1 h]
      exact hsign
    · rw [List.mem_singleton.1 h, isPrintable, Bool.and_eq_true, decide_eq_true_eq,
        decide_eq_true_eq]
      exact hcode
    · exact isPrintable_of_mem_numericEscape _ d h

theorem isPrintable_of_mem_escape {value : List Char} {c : Char}
    (h : c ∈ DoubleQuoted.escape value) : isPrintable c := by
  induction value with
  | nil => cases h
  | cons d value ih =>
      rw [DoubleQuoted.escape, List.mem_append] at h
      rcases h with h | h
      · exact isPrintable_of_mem_escapeChar h
      · exact ih h

theorem isPrintable_of_mem_quote {value : String} {c : Char}
    (h : c ∈ DoubleQuoted.quote value) : isPrintable c := by
  have hquote : isPrintable '"' := by decide
  simp only [DoubleQuoted.quote, List.cons_append, List.mem_cons, List.mem_append,
    List.not_mem_nil, or_false] at h
  rcases h with rfl | h | rfl
  · exact hquote
  · exact isPrintable_of_mem_escape h
  · exact hquote

end RubyPress.Text
