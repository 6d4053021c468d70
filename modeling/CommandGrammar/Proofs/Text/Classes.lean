import CommandGrammar.Proofs.Text.Trimming

set_option autoImplicit false
set_option relaxedAutoImplicit false

namespace CommandGrammar.Text

theorem toNat_of_isDigit {c : Char} (h : c.isDigit = true) : 0x30 ≤ c.toNat ∧ c.toNat ≤ 0x39 := by
  simp only [Char.isDigit, decide_eq_true_eq, Bool.and_eq_true, ge_iff_le,
    UInt32.le_iff_toNat_le] at h
  exact h

theorem toNat_of_isNameStart {c : Char} (h : isNameStart c = true) :
    0x41 ≤ c.toNat ∧ c.toNat ≤ 0x7A := by
  rcases Bool.or_eq_true_iff.mp h with hletter | hline
  · rcases Bool.or_eq_true_iff.mp hletter with hupper | hlower
    · have hbounds : 65 ≤ c.toNat ∧ c.toNat ≤ 90 := of_decide_eq_true hupper
      omega
    · obtain ⟨hlow, hhigh⟩ := Bool.and_eq_true_iff.mp hlower
      have hbounds : 97 ≤ c.toNat ∧ c.toNat ≤ 122 :=
        ⟨of_decide_eq_true hlow, of_decide_eq_true hhigh⟩
      omega
  · rw [eq_of_beq hline]
    decide

theorem toNat_of_isNameChar {c : Char} (h : isNameChar c = true) :
    0x30 ≤ c.toNat ∧ c.toNat ≤ 0x7A := by
  rcases Bool.or_eq_true_iff.mp h with h | h
  · have hbounds := toNat_of_isNameStart h
    omega
  · have hbounds := toNat_of_isDigit h
    omega

theorem isNameStart_of_isDigit {c : Char} (h : c.isDigit = true) : isNameStart c = false := by
  by_contra hstart
  have hlow := (toNat_of_isNameStart (Bool.not_eq_false _ ▸ hstart)).1
  have hhigh := (toNat_of_isDigit h).2
  omega

theorem isBlank_of_isNameChar {c : Char} (h : isNameChar c = true) : isBlank c = false := by
  obtain ⟨hlow, hhigh⟩ := toNat_of_isNameChar h
  simp [isBlank, Ranges.contains]
  omega

theorem isNameChar_of_isStateChar {c : Char} (h : isStateChar c = true) : isNameChar c = true := by
  rcases Bool.or_eq_true_iff.mp h with h | h
  · have hletter : c.isAlpha = true := Bool.or_eq_true_iff.mpr (.inl h)
    simp [isNameChar, isNameStart, hletter]
  · simp [isNameChar, isNameStart, h]

theorem isNameChar_of_isIdentifierChar {c : Char} (h : isIdentifierChar c = true) :
    isNameChar c = true := by
  rcases Bool.or_eq_true_iff.mp h with h | h
  · have hletter : c.isAlpha = true := Bool.or_eq_true_iff.mpr (.inr h)
    simp [isNameChar, isNameStart, hletter]
  · simp [isNameChar, isNameStart, h]

theorem isBlank_of_mem_isName {name : List Char} (h : isName name = true) :
    ∀ c ∈ name, isBlank c = false :=
  fun c hc => isBlank_of_isNameChar (isNameChar_of_mem_isName h c hc)

theorem isBlank_of_mem_stateName {name : List Char} (h : isWord isStateChar name = true) :
    ∀ c ∈ name, isBlank c = false :=
  fun c hc => isBlank_of_isNameChar (isNameChar_of_isStateChar ((isWord_iff.mp h).2 c hc))

theorem isBlank_of_mem_identifier {name : List Char} (h : isWord isIdentifierChar name = true) :
    ∀ c ∈ name, isBlank c = false :=
  fun c hc => isBlank_of_isNameChar (isNameChar_of_isIdentifierChar ((isWord_iff.mp h).2 c hc))

theorem ne_of_isNameChar {c d : Char} (hc : isNameChar c = true) (hd : isNameChar d = false) :
    c ≠ d := by
  rintro rfl
  rw [hc] at hd
  cases hd

theorem not_mem_of_isName {name : List Char} (h : isName name = true) {c : Char}
    (hc : isNameChar c = false) : c ∉ name :=
  fun hm => ne_of_isNameChar (isNameChar_of_mem_isName h c hm) hc rfl

theorem ne_nil_of_isName {name : List Char} (h : isName name = true) : name ≠ [] := by
  rintro rfl
  cases h

section Stop

variable {p : Char → Bool} {word rest : List Char}

theorem takeWhile_word_append (hword : ∀ c ∈ word, p c = true)
    (stop : ∀ c ∈ rest.head?, p c = false) : (word ++ rest).takeWhile p = word := by
  rw [List.takeWhile_append_of_pos hword]
  cases rest with
  | nil => simp
  | cons c rest => simp [stop c rfl]

theorem dropWhile_word_append (hword : ∀ c ∈ word, p c = true)
    (stop : ∀ c ∈ rest.head?, p c = false) : (word ++ rest).dropWhile p = rest := by
  rw [List.dropWhile_append_of_pos hword]
  cases rest with
  | nil => rfl
  | cons c rest => simp [stop c rfl]

end Stop

theorem stop_of_blanks {p : Char → Bool} (hp : ∀ c, p c = true → isNameChar c = true) {d : Char}
    (hd : p d = false) {gap : List Char} (hgap : Blanks gap) (rest : List Char) :
    ∀ c ∈ (gap ++ d :: rest).head?, p c = false := by
  cases gap with
  | nil =>
    rintro _ ⟨⟩
    exact hd
  | cons blank gap =>
    rintro _ ⟨⟩
    by_contra hc
    have hblank := isBlank_of_isNameChar (hp blank (by simpa using hc))
    rw [hgap blank List.mem_cons_self] at hblank
    cases hblank

end CommandGrammar.Text
