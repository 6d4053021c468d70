import CommandGrammar.Proofs.Call.Arguments
import CommandGrammar.Proofs.Text.Scan

set_option autoImplicit false
set_option relaxedAutoImplicit false

namespace CommandGrammar.Template

open Text

inductive IsCapture : Pattern where
  | capture {name rest : List Char} : isWord isIdentifierChar name = true →
      (∀ c ∈ rest.head?, isIdentifierChar c = false) → IsCapture ('$' :: name) rest

inductive IsQuotedWord : Pattern where
  | word {word rest : List Char} : isWord isQuotedWordChar word = true →
      IsQuotedWord ('"' :: (word ++ ['"'])) rest

/-- What a debug message shows by a conversion: a capture or a quoted word. -/
def IsShown : Pattern := Pattern.either IsCapture IsQuotedWord

theorem startsWith_isCapture : Pattern.StartsWith IsCapture '$' := by
  rintro _ _ ⟨⟩
  rfl

theorem startsWith_isQuotedWord : Pattern.StartsWith IsQuotedWord '"' := by
  rintro _ _ ⟨⟩
  rfl

theorem capture?_eq_some_iff {text name rest : List Char} :
    capture? text = some (name, rest) ↔ text = name ++ rest ∧ IsCapture ('$' :: name) rest := by
  constructor
  · intro h
    refine ⟨eq_of_capture? h, ?_⟩
    unfold capture? at h
    split at h
    · cases h
    · next c cs hname =>
      cases h
      refine .capture (hname ▸ isWord_takeWhile (by simp [hname])) ?_
      intro d hd
      have hstop := List.head?_dropWhile_not isIdentifierChar text
      rw [Option.mem_def.mp hd] at hstop
      exact hstop
  · rintro ⟨rfl, ⟨hname, hstop⟩⟩
    obtain ⟨hne, hall⟩ := isWord_iff.mp hname
    obtain ⟨c, cs, rfl⟩ := List.exists_cons_of_ne_nil hne
    unfold capture?
    rw [takeWhile_word_append hall hstop, dropWhile_word_append hall hstop]

theorem word?_eq_some_iff {text word rest : List Char} :
    word? text = some (word, rest) ↔
      text = word ++ '"' :: rest ∧ isWord isQuotedWordChar word = true := by
  constructor
  · intro h
    exact ⟨eq_of_word? h, isWord_of_word? h⟩
  · rintro ⟨rfl, hword⟩
    obtain ⟨hne, hall⟩ := isWord_iff.mp hword
    have hstop : ∀ c ∈ ('"' :: rest).head?, isQuotedWordChar c = false := by
      rintro _ ⟨⟩
      decide
    obtain ⟨c, cs, rfl⟩ := List.exists_cons_of_ne_nil hne
    unfold word?
    rw [takeWhile_word_append hall hstop, dropWhile_word_append hall hstop]
    rfl

theorem occursAt_capture_iff {text : List Char} :
    Pattern.OccursAt IsCapture ('$' :: text) ↔ ∃ found, capture? text = some found := by
  constructor
  · rintro ⟨_, rest, @⟨name, _, hname, hstop⟩, htext⟩
    have htail : text = name ++ rest := (List.cons.inj htext).2
    exact ⟨(name, rest), capture?_eq_some_iff.mpr ⟨htail, .capture hname hstop⟩⟩
  · rintro ⟨⟨name, rest⟩, h⟩
    obtain ⟨rfl, hcapture⟩ := capture?_eq_some_iff.mp h
    exact ⟨_, rest, hcapture, rfl⟩

theorem exists_capture?_iff {text : List Char} :
    (∃ found, capture? text = some found) ↔ ∃ c ∈ text.head?, isIdentifierChar c = true := by
  unfold capture?
  cases text with
  | nil => simp
  | cons c text => by_cases hc : isIdentifierChar c = true <;> simp [hc]

theorem occursAt_quotedWord_iff {text : List Char} :
    Pattern.OccursAt IsQuotedWord ('"' :: text) ↔ ∃ found, word? text = some found := by
  constructor
  · rintro ⟨_, rest, @⟨word, _, hword⟩, htext⟩
    have htail : text = word ++ '"' :: rest := by
      simpa using (List.cons.inj htext).2
    exact ⟨(word, rest), word?_eq_some_iff.mpr ⟨htail, hword⟩⟩
  · rintro ⟨⟨word, rest⟩, h⟩
    obtain ⟨rfl, hword⟩ := word?_eq_some_iff.mp h
    exact ⟨_, rest, .word hword, by simp⟩

theorem definite_isCapture : Pattern.Definite IsCapture where
  ne_nil := by
    rintro _ _ ⟨⟩
    exact List.cons_ne_nil _ _
  unique := by
    rintro _ rest _ rest' (@⟨name, _, hname, hstop⟩) (@⟨name', _, hname', hstop'⟩) htext
    have htail : name ++ rest = name' ++ rest' := (List.cons.inj htext).2
    have hfound := capture?_eq_some_iff.mpr ⟨htail, .capture hname' hstop'⟩
    rw [capture?_eq_some_iff.mpr ⟨rfl, .capture hname hstop⟩] at hfound
    cases hfound
    rfl

theorem definite_isQuotedWord : Pattern.Definite IsQuotedWord where
  ne_nil := by
    rintro _ _ ⟨⟩
    exact List.cons_ne_nil _ _
  unique := by
    rintro _ rest _ rest' (@⟨word, _, hword⟩) (@⟨word', _, hword'⟩) htext
    have htail : word ++ '"' :: rest = word' ++ '"' :: rest' := by
      simpa using (List.cons.inj htext).2
    have hfound := word?_eq_some_iff.mpr ⟨htail, hword'⟩
    rw [word?_eq_some_iff.mpr ⟨rfl, hword⟩] at hfound
    cases hfound
    rfl

theorem definite_isShown : Pattern.Definite IsShown :=
  definite_isCapture.either definite_isQuotedWord startsWith_isCapture startsWith_isQuotedWord
    (by decide)

def Piece.segment : Piece → Segment
  | plain c => .passed c
  | piece => .found piece.source

/-- A piece as a scan for captures comes upon it: a quoted word is passed. -/
def Piece.captureSegments : Piece → List Segment
  | capture name => [.found ('$' :: name)]
  | piece => piece.source.map .passed

/-- A dollar sign begins nothing but a capture, and a quotation mark nothing but a quoted word. -/
theorem not_occursAt_dollar {text : List Char} (h : capture? text = none) :
    ¬Pattern.OccursAt IsShown ('$' :: text) := by
  rw [IsShown, Pattern.occursAt_either, occursAt_capture_iff, h, not_or]
  exact ⟨by simp, startsWith_isQuotedWord.not_occursAt_cons (by decide) text⟩

theorem not_occursAt_mark {text : List Char} (h : word? text = none) :
    ¬Pattern.OccursAt IsShown ('"' :: text) := by
  rw [IsShown, Pattern.occursAt_either, occursAt_quotedWord_iff, h, not_or]
  exact ⟨startsWith_isCapture.not_occursAt_cons (by decide) text, by simp⟩

/-- The pieces of a template are what a scan for captures and quoted words finds. -/
theorem scan_pieces (text : List Char) : Scan IsShown text ((pieces text).map Piece.segment) := by
  fun_induction pieces text with
  | case1 => exact .done
  | case2 cs name rest h ih =>
    obtain ⟨rfl, hcapture⟩ := capture?_eq_some_iff.mp h
    exact .found (.inl hcapture) ih
  | case3 cs h ih => exact .passed (not_occursAt_dollar h) ih
  | case4 cs word rest h _ ih =>
    obtain ⟨rfl, hword⟩ := word?_eq_some_iff.mp h
    have htext : '"' :: (word ++ '"' :: rest) = '"' :: (word ++ ['"']) ++ rest := by simp
    rw [htext]
    exact .found (.inr (.word hword)) ih
  | case5 cs h _ ih => exact .passed (not_occursAt_mark h) ih
  | case6 c cs hdollar hmark ih =>
    refine .passed ?_ ih
    rw [IsShown, Pattern.occursAt_either, not_or]
    exact ⟨startsWith_isCapture.not_occursAt_cons hdollar cs,
      startsWith_isQuotedWord.not_occursAt_cons hmark cs⟩

theorem scan_captures (text : List Char) :
    Scan IsCapture text ((pieces text).flatMap Piece.captureSegments) := by
  fun_induction pieces text with
  | case1 => exact .done
  | case2 cs name rest h ih =>
    obtain ⟨rfl, hcapture⟩ := capture?_eq_some_iff.mp h
    exact .found hcapture ih
  | case3 cs h ih =>
    refine .passed ?_ ih
    rw [occursAt_capture_iff, h]
    simp
  | case4 cs word rest h _ ih =>
    obtain ⟨rfl, hword⟩ := word?_eq_some_iff.mp h
    -- no character of the word or of its marks begins a capture
    have hdollar : '$' ∉ (Piece.word word).source := by
      simp [Piece.source, not_mem_of_isWord hword (c := '$') (by decide)]
    have htext : '"' :: (word ++ '"' :: rest) = (Piece.word word).source ++ rest := by
      simp [Piece.source]
    rw [htext]
    exact Scan.passed_append startsWith_isCapture hdollar ih
  | case5 cs h _ ih => exact .passed (startsWith_isCapture.not_occursAt_cons (by decide) cs) ih
  | case6 c cs hdollar _ ih => exact .passed (startsWith_isCapture.not_occursAt_cons hdollar cs) ih

def accessorCall (accessor occurrence : List Char) : List Char :=
  accessor ++ '(' :: '"' :: (occurrence.tail ++ ['"', ')'])

theorem replacesAll_expanded (accessor text : List Char) :
    ReplacesAll IsCapture (accessorCall accessor) text (expanded accessor text) := by
  refine ⟨_, scan_captures text, ?_⟩
  rw [expanded, List.flatMap_assoc]
  congr 1
  funext piece
  cases piece with
  | plain c => rfl
  | capture name => simp [Piece.expand, Piece.captureSegments, Segment.replaced, accessorCall]
  | word word =>
    simp [Piece.expand, Piece.captureSegments, Segment.replaced, List.flatMap_map]

end CommandGrammar.Template
