import CommandGrammar.Text.Utf8

set_option autoImplicit false
set_option relaxedAutoImplicit false

namespace CommandGrammar.Text.Utf8

theorem toNat_octet {n : Nat} (h : n < 256) : (UInt8.ofNat n).toNat = n :=
  UInt8.toNat_ofNat_of_lt' h

section FirstOctet

variable {n : Nat}

theorem ofFirst_of_two (low : 0xC2 ≤ n) (high : n < 0xE0) :
    Unfinished.ofFirst (UInt8.ofNat n) = some ⟨UInt8.ofNat n, 1, n - 0xC0, 0x80, 0xBF, 0⟩ := by
  have hn := toNat_octet (show n < 256 by omega)
  unfold Unfinished.ofFirst
  simp only [hn]
  rw [if_neg (by omega), if_pos high]

theorem ofFirst_of_three (low : 0xE0 ≤ n) (high : n < 0xF0) :
    Unfinished.ofFirst (UInt8.ofNat n) = some ⟨UInt8.ofNat n, 1, n - 0xE0,
      if n = 0xE0 then 0xA0 else 0x80, if n = 0xED then 0x9F else 0xBF, 1⟩ := by
  have hn := toNat_octet (show n < 256 by omega)
  unfold Unfinished.ofFirst
  simp only [hn]
  rw [if_neg (by omega), if_neg (by omega)]
  by_cases hlow : n = 0xE0
  · simp [hlow]
  · by_cases hsurrogate : n = 0xED
    · simp [hsurrogate]
    · simp [hlow, hsurrogate, high]

theorem ofFirst_of_four (low : 0xF0 ≤ n) (high : n < 0xF5) :
    Unfinished.ofFirst (UInt8.ofNat n) = some ⟨UInt8.ofNat n, 1, n - 0xF0,
      if n = 0xF0 then 0x90 else 0x80, if n = 0xF4 then 0x8F else 0xBF, 2⟩ := by
  have hn := toNat_octet (show n < 256 by omega)
  unfold Unfinished.ofFirst
  simp only [hn]
  rw [if_neg (by omega), if_neg (by omega), if_neg (by omega), if_neg (by omega), if_neg (by omega)]
  by_cases hlow : n = 0xF0
  · simp [hlow]
  · by_cases hlast : n = 0xF4
    · simp [hlast]
    · have hbetween : n < 0xF4 := by omega
      simp [hlow, hlast, hbetween]

end FirstOctet

section Octets

variable {n : Nat} {u : Unfinished} (position : Nat) (rest : List UInt8)

theorem decodeFrom_single (h : n < 0x80) : decodeFrom position none (UInt8.ofNat n :: rest) =
    (decodeFrom (position + 1) none rest).map (Char.ofNat n :: ·) := by
  have hn := toNat_octet (show n < 256 by omega)
  rw [decodeFrom, hn, if_pos h]

theorem decodeFrom_first (low : 0x80 ≤ n) (high : n < 256)
    (h : Unfinished.ofFirst (UInt8.ofNat n) = some u) :
    decodeFrom position none (UInt8.ofNat n :: rest) = decodeFrom (position + 1) (some u) rest := by
  have hn := toNat_octet high
  rw [decodeFrom, hn, if_neg (Nat.not_lt.mpr low), h]

theorem decodeFrom_more {more : Nat} (low : u.low ≤ n) (high : n ≤ u.high) (small : n < 256)
    (h : u.more = more + 1) : decodeFrom position (some u) (UInt8.ofNat n :: rest) =
      decodeFrom (position + 1)
        (some ⟨u.first, u.taken + 1, u.bits * 64 + (n - 0x80), 0x80, 0xBF, more⟩) rest := by
  have hn := toNat_octet small
  rw [decodeFrom, hn, if_pos (by simp [low, high]), h]

theorem decodeFrom_last (low : u.low ≤ n) (high : n ≤ u.high) (small : n < 256)
    (h : u.more = 0) : decodeFrom position (some u) (UInt8.ofNat n :: rest) =
      (decodeFrom (position + 1) none rest).map (Char.ofNat (u.bits * 64 + (n - 0x80)) :: ·) := by
  have hn := toNat_octet small
  rw [decodeFrom, hn, if_pos (by simp [low, high]), h]

theorem decodeFrom_two {first second : Nat} (hfirst : 0xC2 ≤ first ∧ first < 0xE0)
    (hsecond : 0x80 ≤ second ∧ second ≤ 0xBF) :
    decodeFrom position none (UInt8.ofNat first :: UInt8.ofNat second :: rest) =
      (decodeFrom (position + 2) none rest).map
        (Char.ofNat ((first - 0xC0) * 64 + (second - 0x80)) :: ·) := by
  rw [decodeFrom_first _ _ (by omega) (by omega) (ofFirst_of_two hfirst.1 hfirst.2),
    decodeFrom_last _ _ hsecond.1 hsecond.2 (by omega) rfl]

theorem decodeFrom_three {first second third : Nat} (hfirst : 0xE0 ≤ first ∧ first < 0xF0)
    (hsecond : 0x80 ≤ second ∧ second ≤ 0xBF) (hlow : first = 0xE0 → 0xA0 ≤ second)
    (hhigh : first = 0xED → second ≤ 0x9F) (hthird : 0x80 ≤ third ∧ third ≤ 0xBF) :
    decodeFrom position none
        (UInt8.ofNat first :: UInt8.ofNat second :: UInt8.ofNat third :: rest) =
      (decodeFrom (position + 3) none rest).map
        (Char.ofNat (((first - 0xE0) * 64 + (second - 0x80)) * 64 + (third - 0x80)) :: ·) := by
  have hleast : (if first = 0xE0 then 0xA0 else 0x80) ≤ second := by
    split
    · next he => exact hlow he
    · exact hsecond.1
  have hmost : second ≤ if first = 0xED then 0x9F else 0xBF := by
    split
    · next he => exact hhigh he
    · exact hsecond.2
  rw [decodeFrom_first _ _ (by omega) (by omega) (ofFirst_of_three hfirst.1 hfirst.2),
    decodeFrom_more _ _ hleast hmost (by omega) rfl,
    decodeFrom_last _ _ hthird.1 hthird.2 (by omega) rfl]

theorem decodeFrom_four {first second third fourth : Nat} (hfirst : 0xF0 ≤ first ∧ first < 0xF5)
    (hsecond : 0x80 ≤ second ∧ second ≤ 0xBF) (hlow : first = 0xF0 → 0x90 ≤ second)
    (hhigh : first = 0xF4 → second ≤ 0x8F) (hthird : 0x80 ≤ third ∧ third ≤ 0xBF)
    (hfourth : 0x80 ≤ fourth ∧ fourth ≤ 0xBF) :
    decodeFrom position none (UInt8.ofNat first :: UInt8.ofNat second :: UInt8.ofNat third ::
        UInt8.ofNat fourth :: rest) =
      (decodeFrom (position + 4) none rest).map (Char.ofNat
        ((((first - 0xF0) * 64 + (second - 0x80)) * 64 + (third - 0x80)) * 64 +
          (fourth - 0x80)) :: ·) := by
  have hleast : (if first = 0xF0 then 0x90 else 0x80) ≤ second := by
    split
    · next he => exact hlow he
    · exact hsecond.1
  have hmost : second ≤ if first = 0xF4 then 0x8F else 0xBF := by
    split
    · next he => exact hhigh he
    · exact hsecond.2
  rw [decodeFrom_first _ _ (by omega) (by omega) (ofFirst_of_four hfirst.1 hfirst.2),
    decodeFrom_more _ _ hleast hmost (by omega) rfl,
    decodeFrom_more _ _ hthird.1 hthird.2 (by omega) rfl,
    decodeFrom_last _ _ hfourth.1 hfourth.2 (by omega) rfl]

end Octets

theorem decodeFrom_utf8EncodeChar (c : Char) (position : Nat) (rest : List UInt8) :
    ∃ after, decodeFrom position none (String.utf8EncodeChar c ++ rest) =
      (decodeFrom after none rest).map (c :: ·) := by
  have hvalid : c.toNat < 0xD800 ∨ 0xDFFF < c.toNat ∧ c.toNat < 0x110000 := c.valid
  have hchar : Char.ofNat c.toNat = c := Char.ofNat_toNat c
  have hvalue : c.val.toNat = c.toNat := rfl
  unfold String.utf8EncodeChar
  simp only [hvalue]
  generalize c.toNat = v at hvalid hchar
  -- one to four octets, by the size of the number
  by_cases hone : v ≤ 127
  · refine ⟨position + 1, ?_⟩
    rw [if_pos hone, List.cons_append, List.nil_append, decodeFrom_single _ _ (by omega), hchar]
  rw [if_neg hone]
  by_cases htwo : v ≤ 2047
  · have hbits : (v / 64 % 32 + 192 - 0xC0) * 64 + (v % 64 + 128 - 0x80) = v := by omega
    refine ⟨position + 2, ?_⟩
    rw [if_pos htwo, List.cons_append, List.cons_append, List.nil_append,
      decodeFrom_two _ _ (by omega) (by omega), hbits, hchar]
  rw [if_neg htwo]
  by_cases hthree : v ≤ 65535
  · have hbits : ((v / 4096 % 16 + 224 - 0xE0) * 64 + (v / 64 % 64 + 128 - 0x80)) * 64 +
        (v % 64 + 128 - 0x80) = v := by omega
    refine ⟨position + 3, ?_⟩
    rw [if_pos hthree, List.cons_append, List.cons_append, List.cons_append, List.nil_append,
      decodeFrom_three _ _ (by omega) (by omega) (by omega) (by omega) (by omega), hbits, hchar]
  · have hbits : (((v / 262144 % 8 + 240 - 0xF0) * 64 + (v / 4096 % 64 + 128 - 0x80)) * 64 +
        (v / 64 % 64 + 128 - 0x80)) * 64 + (v % 64 + 128 - 0x80) = v := by omega
    refine ⟨position + 4, ?_⟩
    rw [if_neg hthree, List.cons_append, List.cons_append, List.cons_append, List.cons_append,
      List.nil_append,
      decodeFrom_four _ _ (by omega) (by omega) (by omega) (by omega) (by omega) (by omega), hbits,
      hchar]

theorem decode_encode (cs : List Char) : decode (encode cs) = .ok cs := by
  have hfrom : ∀ position, decodeFrom position none (encode cs) = .ok cs := by
    induction cs with
    | nil => exact fun _ => rfl
    | cons c cs ih =>
      intro position
      obtain ⟨after, hread⟩ := decodeFrom_utf8EncodeChar c position (encode cs)
      show decodeFrom position none (String.utf8EncodeChar c ++ encode cs) = .ok (c :: cs)
      rw [hread, ih after]
      rfl
  exact hfrom 0

end CommandGrammar.Text.Utf8
