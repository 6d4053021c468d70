import CommandGrammar.Proofs.Text.Segments

set_option autoImplicit false
set_option relaxedAutoImplicit false

namespace CommandGrammar.Text

/-- A pattern: `P found rest` says that `found` is an occurrence where `rest` follows it. -/
abbrev Pattern := List Char → List Char → Prop

namespace Pattern

variable (P : Pattern)

def OccursAt (text : List Char) : Prop :=
  ∃ found rest, P found rest ∧ text = found ++ rest

def StartsWith (d : Char) : Prop :=
  ∀ found rest, P found rest → found.head? = some d

structure Definite : Prop where
  ne_nil : ∀ found rest, P found rest → found ≠ []
  unique : ∀ found rest found' rest', P found rest → P found' rest' →
    found ++ rest = found' ++ rest' → found = found'

def either (P Q : Pattern) : Pattern := fun found rest => P found rest ∨ Q found rest

variable {P} {Q : Pattern}

theorem occursAt_either {text : List Char} :
    (either P Q).OccursAt text ↔ P.OccursAt text ∨ Q.OccursAt text := by
  unfold OccursAt either
  simp only [or_and_right, exists_or]

theorem Definite.either {d e : Char} (hP : P.Definite) (hQ : Q.Definite) (startP : P.StartsWith d)
    (startQ : Q.StartsWith e) (hne : d ≠ e) : (either P Q).Definite where
  ne_nil := by
    rintro found rest (h | h)
    · exact hP.ne_nil found rest h
    · exact hQ.ne_nil found rest h
  unique := by
    have apart : ∀ found rest found' rest', P found rest → Q found' rest' →
        found ++ rest ≠ found' ++ rest' := by
      intro found rest found' rest' h h' htext
      obtain ⟨tail, rfl⟩ := List.head?_eq_some_iff.mp (startP found rest h)
      obtain ⟨tail', rfl⟩ := List.head?_eq_some_iff.mp (startQ found' rest' h')
      exact hne (List.cons.inj htext).1
    rintro found rest found' rest' (h | h) (h' | h') htext
    · exact hP.unique _ _ _ _ h h' htext
    · exact absurd htext (apart _ _ _ _ h h')
    · exact absurd htext.symm (apart _ _ _ _ h' h)
    · exact hQ.unique _ _ _ _ h h' htext

theorem StartsWith.not_occursAt_cons {d : Char} (h : P.StartsWith d) {c : Char} (hc : c ≠ d)
    (rest : List Char) : ¬P.OccursAt (c :: rest) := by
  rintro ⟨found, after, hfound, htext⟩
  obtain ⟨tail, rfl⟩ := List.head?_eq_some_iff.mp (h found after hfound)
  exact hc (List.cons.inj htext).1

end Pattern

/-- What a scan comes upon: a character that it passes, or an occurrence. -/
inductive Segment where
  | passed (c : Char)
  | found (occurrence : List Char)
  deriving DecidableEq, Repr

namespace Segment

def replaced (change : List Char → List Char) : Segment → List Char
  | passed c => [c]
  | found occurrence => change occurrence

def source : Segment → List Char := replaced id

def occurrence? : Segment → Option (List Char)
  | passed _ => none
  | found occurrence => some occurrence

end Segment

/-- The text is scanned for the pattern, and these segments are come upon. -/
inductive Scan (P : Pattern) : List Char → List Segment → Prop where
  | done : Scan P [] []
  | found {occurrence rest : List Char} {segments : List Segment} : P occurrence rest →
      Scan P rest segments → Scan P (occurrence ++ rest) (.found occurrence :: segments)
  | passed {c : Char} {rest : List Char} {segments : List Segment} : ¬P.OccursAt (c :: rest) →
      Scan P rest segments → Scan P (c :: rest) (.passed c :: segments)

/-- Replacing all occurrences that a scan finds makes the one text of the other. -/
def ReplacesAll (P : Pattern) (change : List Char → List Char) (text result : List Char) : Prop :=
  ∃ segments, Scan P text segments ∧ result = segments.flatMap (Segment.replaced change)

namespace Scan

variable {P : Pattern}

theorem flatMap_source {text : List Char} {segments : List Segment} (h : Scan P text segments) :
    segments.flatMap Segment.source = text := by
  induction h with
  | done => rfl
  | found _ _ ih => rw [List.flatMap_cons, ih]; rfl
  | passed _ _ ih => rw [List.flatMap_cons, ih]; rfl

theorem passed_append {d : Char} (hstart : P.StartsWith d) {front : List Char} (hfront : d ∉ front)
    {rest : List Char} {segments : List Segment} (h : Scan P rest segments) :
    Scan P (front ++ rest) (front.map .passed ++ segments) := by
  induction front with
  | nil => exact h
  | cons c front ih =>
    rw [List.mem_cons, not_or] at hfront
    exact .passed (hstart.not_occursAt_cons (Ne.symm hfront.1) _) (ih hfront.2)

theorem cases_text {text : List Char} {segments : List Segment} (h : Scan P text segments) :
    (text = [] ∧ segments = []) ∨
    (∃ occurrence rest others, P occurrence rest ∧ text = occurrence ++ rest ∧
      Scan P rest others ∧ segments = .found occurrence :: others) ∨
    (∃ c rest others, ¬P.OccursAt (c :: rest) ∧ text = c :: rest ∧ Scan P rest others ∧
      segments = .passed c :: others) := by
  cases h with
  | done => exact .inl ⟨rfl, rfl⟩
  | found hP hrest => exact .inr (.inl ⟨_, _, _, hP, rfl, hrest, rfl⟩)
  | passed hnone hrest => exact .inr (.inr ⟨_, _, _, hnone, rfl, hrest, rfl⟩)

theorem unique (definite : P.Definite) {text : List Char} {segments other : List Segment}
    (h : Scan P text segments) (h' : Scan P text other) : other = segments := by
  induction h generalizing other with
  | done =>
    obtain ⟨-, rfl⟩ | ⟨occurrence, rest, _, hP, htext, -⟩ | ⟨c, rest, _, -, htext, -⟩ :=
      h'.cases_text
    · rfl
    · exact absurd (List.append_eq_nil_iff.mp htext.symm).1 (definite.ne_nil _ _ hP)
    · cases htext
  | @found occurrence rest segments hP _ ih =>
    obtain ⟨htext, -⟩ | ⟨occurrence', rest', others, hP', htext, hrest, rfl⟩ |
      ⟨c, rest', _, hnone, htext, -⟩ := h'.cases_text
    · exact absurd (List.append_eq_nil_iff.mp htext).1 (definite.ne_nil _ _ hP)
    · obtain rfl := definite.unique _ _ _ _ hP hP' htext
      rw [← List.append_cancel_left htext] at hrest
      rw [ih hrest]
    · exact absurd ⟨occurrence, rest, hP, htext.symm⟩ hnone
  | @passed c rest segments hnone _ ih =>
    obtain ⟨htext, -⟩ | ⟨occurrence, rest', _, hP, htext, -⟩ |
      ⟨c', rest', others, -, htext, hrest, rfl⟩ := h'.cases_text
    · cases htext
    · exact absurd ⟨occurrence, rest', hP, htext⟩ hnone
    · cases htext
      rw [ih hrest]

end Scan

theorem ReplacesAll.unique {P : Pattern} (definite : P.Definite) {change : List Char → List Char}
    {text result other : List Char} (h : ReplacesAll P change text result)
    (h' : ReplacesAll P change text other) : other = result := by
  obtain ⟨segments, hscan, rfl⟩ := h
  obtain ⟨segments', hscan', rfl⟩ := h'
  rw [hscan.unique definite hscan']

def Pattern.exactly (sought : List Char) : Pattern := fun found _ => found = sought

theorem Pattern.definite_exactly {sought : List Char} (h : sought ≠ []) :
    (Pattern.exactly sought).Definite where
  ne_nil := by
    rintro _ _ rfl
    exact h
  unique := by
    rintro _ _ _ _ rfl rfl -
    rfl

theorem Pattern.occursAt_exactly_cons_iff {d c : Char} {rest : List Char} :
    (Pattern.exactly [d]).OccursAt (c :: rest) ↔ c = d := by
  constructor
  · rintro ⟨_, after, rfl, htext⟩
    exact (List.cons.inj htext).1
  · rintro rfl
    exact ⟨[c], rest, rfl, rfl⟩

def charSegment (d c : Char) : Segment :=
  if c = d then .found [d] else .passed c

theorem scan_char (d : Char) (text : List Char) :
    Scan (.exactly [d]) text (text.map (charSegment d)) := by
  induction text with
  | nil => exact .done
  | cons c text ih =>
    rw [List.map_cons, charSegment]
    split
    · next hc =>
      subst hc
      have hfound : Pattern.exactly [c] [c] text := rfl
      exact .found hfound ih
    · next hc => exact .passed (Pattern.occursAt_exactly_cons_iff.not.mpr hc) ih

theorem replacesAll_char_iff {d : Char} {new text result : List Char} :
    ReplacesAll (.exactly [d]) (fun _ => new) text result ↔
      result = text.flatMap fun c => if c = d then new else [c] := by
  have hmade : ReplacesAll (.exactly [d]) (fun _ => new) text
      (text.flatMap fun c => if c = d then new else [c]) := by
    refine ⟨_, scan_char d text, ?_⟩
    rw [List.flatMap_map]
    congr 1
    funext c
    unfold charSegment
    split <;> rfl
  constructor
  · exact hmade.unique (Pattern.definite_exactly (List.cons_ne_nil d []))
  · rintro rfl
    exact hmade

end CommandGrammar.Text
