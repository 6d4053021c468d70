import CommandGrammar.Proofs.Text.Segments

set_option autoImplicit false
set_option relaxedAutoImplicit false

namespace CommandGrammar.Text

def Blanks (cs : List Char) : Prop := ∀ c ∈ cs, isBlank c = true

instance (cs : List Char) : Decidable (Blanks cs) :=
  cs.decidableBAll (isBlank · = true)

def FlushStart (cs : List Char) : Prop := ∀ c ∈ cs.head?, isBlank c = false

def FlushEnd (cs : List Char) : Prop := ∀ c ∈ cs.getLast?, isBlank c = false

theorem blanks_nil : Blanks [] := by
  simp [Blanks]

theorem Blanks.not_mem {cs : List Char} (h : Blanks cs) {c : Char} (hc : isBlank c = false) :
    c ∉ cs := by
  intro hm
  rw [h c hm] at hc
  cases hc

theorem not_mem_of_isWord {p : Char → Bool} {word : List Char} (h : isWord p word = true) {c : Char}
    (hc : p c = false) : c ∉ word := by
  intro hm
  rw [(isWord_iff.mp h).2 c hm] at hc
  cases hc

theorem flushStart_append {cs : List Char} (hcs : cs ≠ []) (rest : List Char) :
    FlushStart (cs ++ rest) ↔ FlushStart cs := by
  obtain ⟨c, cs, rfl⟩ := List.exists_cons_of_ne_nil hcs
  simp [FlushStart]

theorem flushStart_of_append {cs rest : List Char} (h : FlushStart (cs ++ rest)) :
    FlushStart cs := by
  intro c hc
  apply h c
  rw [List.head?_append, Option.mem_def.mp hc]
  rfl

theorem flushEnd_append (front : List Char) {cs : List Char} (hcs : cs ≠ []) :
    FlushEnd (front ++ cs) ↔ FlushEnd cs := by
  simp [FlushEnd, List.getLast?_append, List.getLast?_eq_some_getLast hcs]

theorem flushStart_of_forall {cs : List Char} (h : ∀ c ∈ cs, isBlank c = false) :
    FlushStart cs :=
  fun c hc => h c (List.mem_of_mem_head? hc)

theorem flushEnd_of_forall {cs : List Char} (h : ∀ c ∈ cs, isBlank c = false) : FlushEnd cs :=
  fun c hc => h c (List.mem_of_mem_getLast? hc)

section Ends

variable {p : Char → Bool} {cs : List Char}

theorem dropWhile_of_head (h : ∀ c ∈ cs.head?, p c = false) : cs.dropWhile p = cs := by
  cases cs with
  | nil => rfl
  | cons c cs => simp [h c rfl]

theorem rdropWhile_of_last (h : ∀ c ∈ cs.getLast?, p c = false) : cs.rdropWhile p = cs := by
  rw [List.rdropWhile_eq_self_iff]
  intro hne
  simp [h _ (List.getLast?_eq_some_getLast hne)]

theorem trimWhile_append {margin : List Char} (hmargin : ∀ c ∈ margin, p c = true)
    (hstart : ∀ c ∈ cs.head?, p c = false) (hend : ∀ c ∈ cs.getLast?, p c = false) :
    trimWhile p (margin ++ cs) = cs := by
  rw [trimWhile_eq, List.dropWhile_append_of_pos hmargin, dropWhile_of_head hstart,
    rdropWhile_of_last hend]

theorem rdropWhile_append_of_pos {margin : List Char} (hmargin : ∀ c ∈ margin, p c = true) :
    (cs ++ margin).rdropWhile p = cs.rdropWhile p := by
  have hreverse : ∀ c ∈ margin.reverse, p c = true := fun c hc => hmargin c (List.mem_reverse.mp hc)
  rw [List.rdropWhile, List.reverse_append, List.dropWhile_append_of_pos hreverse,
    List.rdropWhile]

theorem exists_rdropWhile_append (p : Char → Bool) (cs : List Char) :
    ∃ margin, (∀ c ∈ margin, p c = true) ∧ cs = cs.rdropWhile p ++ margin :=
  ⟨cs.rtakeWhile p, fun _ hc => List.mem_rtakeWhile_imp hc,
    List.rdropWhile_append_rtakeWhile.symm⟩

/-- A text is the other one between two margins, of characters that satisfy `p`, and has no margin
of its own. -/
structure Trimmed (p : Char → Bool) (text bare : List Char) : Prop where
  margins : ∃ before after, (∀ c ∈ before, p c = true) ∧ (∀ c ∈ after, p c = true) ∧
    text = before ++ (bare ++ after)
  start : ∀ c ∈ bare.head?, p c = false
  ending : ∀ c ∈ bare.getLast?, p c = false

theorem trimmed_trimWhile (p : Char → Bool) (text : List Char) :
    Trimmed p text (trimWhile p text) where
  margins := by
    obtain ⟨after, hafter, htext⟩ := exists_rdropWhile_append p (text.dropWhile p)
    refine ⟨text.takeWhile p, after, fun c hc => List.mem_takeWhile_imp hc, hafter, ?_⟩
    rw [trimWhile_eq, ← htext, List.takeWhile_append_dropWhile]
  start := by
    intro c hc
    obtain ⟨after, htext⟩ := List.rdropWhile_prefix p (text.dropWhile p)
    have hfirst : (text.dropWhile p).head? = some c := by
      rw [← htext, List.head?_append]
      exact Option.or_eq_some_iff.mpr (.inl hc)
    simpa [hfirst] using List.head?_dropWhile_not p text
  ending := by
    intro c hc
    rw [trimWhile, List.getLast?_reverse] at hc
    simpa [Option.mem_def.mp hc] using List.head?_dropWhile_not p (text.dropWhile p).reverse

theorem Trimmed.eq_trimWhile {text bare : List Char} (h : Trimmed p text bare) :
    bare = trimWhile p text := by
  obtain ⟨⟨before, after, hbefore, hafter, rfl⟩, hstart, hending⟩ := h
  rw [trimWhile_eq, List.dropWhile_append_of_pos hbefore]
  cases bare with
  | nil =>
    rw [List.nil_append, List.dropWhile_eq_nil_iff.mpr hafter]
    rfl
  | cons first rest =>
    have hhead : ∀ c ∈ (first :: rest ++ after).head?, p c = false := hstart
    rw [dropWhile_of_head hhead, rdropWhile_append_of_pos hafter, rdropWhile_of_last hending]

end Ends

theorem flushStart_trimStart (cs : List Char) : FlushStart (trimStart cs) := by
  intro c hc
  have h := List.head?_dropWhile_not isBlank cs
  change (trimStart cs).head? = some c at hc
  rw [trimStart] at hc
  rw [hc] at h
  exact h

theorem trimStart_append {margin : List Char} (h : Blanks margin) (cs : List Char) :
    trimStart (margin ++ cs) = trimStart cs :=
  List.dropWhile_append_of_pos h

theorem trimStart_of_flushStart {cs : List Char} (h : FlushStart cs) : trimStart cs = cs :=
  dropWhile_of_head h

theorem exists_margin (cs : List Char) : ∃ margin, Blanks margin ∧ cs = margin ++ trimStart cs :=
  ⟨cs.takeWhile isBlank, fun _ hc => List.mem_takeWhile_imp hc,
    List.takeWhile_append_dropWhile.symm⟩

theorem trimEnd_append {margin : List Char} (h : Blanks margin) (cs : List Char) :
    trimEnd (cs ++ margin) = trimEnd cs :=
  rdropWhile_append_of_pos h

theorem trimEnd_of_flushEnd {cs : List Char} (h : FlushEnd cs) : trimEnd cs = cs :=
  rdropWhile_of_last h

theorem exists_endMargin (cs : List Char) :
    ∃ margin, Blanks margin ∧ cs = trimEnd cs ++ margin :=
  exists_rdropWhile_append isBlank cs

theorem trim_append {margin : List Char} (h : Blanks margin) {cs : List Char}
    (hstart : FlushStart cs) (hend : FlushEnd cs) : trim (margin ++ cs) = cs :=
  trimWhile_append h hstart hend

theorem cutLast_of_not_mem {separator : Char} {cs : List Char} (h : separator ∉ cs) :
    cutLast separator cs = none := by
  induction cs with
  | nil => rfl
  | cons c cs ih =>
    rw [List.mem_cons, not_or] at h
    rw [cutLast, ih h.2]
    simp [Ne.symm h.1]

theorem cutLast_append {separator : Char} (before : List Char) {after : List Char}
    (h : separator ∉ after) :
    cutLast separator (before ++ separator :: after) = some (before, after) := by
  induction before with
  | nil => simp [cutLast, cutLast_of_not_mem h]
  | cons c before ih => rw [List.cons_append, cutLast, ih]

def HasArrow (cs : List Char) : Prop := ['-', '>'] <:+: cs

theorem hasArrow_cons_iff {c : Char} {cs : List Char} :
    HasArrow (c :: cs) ↔ (c = '-' ∧ cs.head? = some '>') ∨ HasArrow cs := by
  unfold HasArrow
  rw [List.infix_cons_iff, List.cons_prefix_cons]
  have hsecond : ['>'] <+: cs ↔ cs.head? = some '>' := by
    cases cs with
    | nil => simp
    | cons d cs => simp [eq_comm]
  rw [hsecond, eq_comm]

theorem hasArrow_append_of_not_mem {front : List Char} (h : '-' ∉ front) (cs : List Char) :
    HasArrow (front ++ cs) ↔ HasArrow cs := by
  induction front with
  | nil => rw [List.nil_append]
  | cons c front ih =>
    rw [List.mem_cons, not_or] at h
    rw [List.cons_append, hasArrow_cons_iff, ih h.2]
    simp [Ne.symm h.1]

theorem not_hasArrow_of_not_mem {cs : List Char} (h : '-' ∉ cs) : ¬HasArrow cs :=
  fun harrow => h (harrow.subset List.mem_cons_self)

theorem not_hasArrow_append {front back : List Char} (hfront : ¬HasArrow front)
    (hback : '>' ∉ back) : ¬HasArrow (front ++ back) := by
  induction front with
  | nil => exact fun harrow => hback (harrow.subset (List.mem_cons_of_mem _ List.mem_cons_self))
  | cons c front ih =>
    rw [hasArrow_cons_iff, not_or] at hfront
    rw [List.cons_append, hasArrow_cons_iff, not_or]
    refine ⟨?_, ih hfront.2⟩
    rintro ⟨hc, hhead⟩
    cases front with
    | nil => exact hback (List.mem_of_mem_head? hhead)
    | cons d front => exact hfront.1 ⟨hc, hhead⟩

theorem hasArrow_append_arrow (before after : List Char) :
    HasArrow (before ++ '-' :: '>' :: after) :=
  ⟨before, after, by simp⟩

end CommandGrammar.Text
