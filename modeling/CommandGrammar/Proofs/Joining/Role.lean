import CommandGrammar.JoinedLine
import CommandGrammar.Proofs.Outcome
import CommandGrammar.Proofs.Text.Trimming

set_option autoImplicit false
set_option relaxedAutoImplicit false

namespace CommandGrammar

open Text

/-- A line that counts for nothing: blank throughout, or a comment. -/
inductive SkippedLine : String → Prop where
  | blank {text : String} : Blanks text.toList → SkippedLine text
  | comment {text : String} {margin rest : List Char} : Blanks margin →
      text.toList = margin ++ '#' :: rest → SkippedLine text

inductive ContinuationLine : String → Prop where
  | arrow {text : String} {margin rest : List Char} : Blanks margin →
      text.toList = margin ++ '-' :: '>' :: rest → ContinuationLine text

/-- A line that begins, blanks aside, with neither a number sign nor an arrow. -/
inductive OpeningLine : String → Prop where
  | visible {text : String} {margin rest : List Char} {c : Char} : Blanks margin →
      text.toList = margin ++ c :: rest → isBlank c = false → c ≠ '#' →
      (c = '-' → rest.head? ≠ some '>') → OpeningLine text

namespace JoinedLine

theorem Role.of_eq_skipped_iff {text : String} : Role.of text = .skipped ↔ SkippedLine text := by
  obtain ⟨margin, hmargin, htext⟩ := exists_margin text.toList
  constructor
  · intro h
    unfold Role.of at h
    split at h
    · next hnone =>
      rw [hnone, List.append_nil] at htext
      exact .blank (htext ▸ hmargin)
    · next rest hcomment =>
      rw [hcomment] at htext
      exact .comment hmargin htext
    · cases h
    · cases h
  · intro h
    unfold Role.of
    cases h with
    | blank h =>
      have hnone : trimStart text.toList = [] := by
        have htrim := trimStart_append h []
        rwa [List.append_nil] at htrim
      rw [hnone]
    | @comment margin rest h he =>
      have hcomment : trimStart text.toList = '#' :: rest := by
        rw [he, trimStart_append h]
        rfl
      rw [hcomment]
      rfl

theorem Role.of_eq_continuation_iff {text : String} :
    Role.of text = .continuation ↔ ContinuationLine text := by
  obtain ⟨margin, hmargin, htext⟩ := exists_margin text.toList
  constructor
  · intro h
    unfold Role.of at h
    split at h
    · cases h
    · cases h
    · next rest harrow =>
      rw [harrow] at htext
      exact .arrow hmargin htext
    · cases h
  · intro h
    obtain @⟨margin, rest, h, he⟩ := h
    have harrow : trimStart text.toList = '-' :: '>' :: rest := by
      rw [he, trimStart_append h]
      rfl
    unfold Role.of
    rw [harrow]
    rfl

theorem Role.of_eq_opening_iff {text : String} : Role.of text = .opening ↔ OpeningLine text := by
  obtain ⟨margin, hmargin, htext⟩ := exists_margin text.toList
  constructor
  · intro h
    unfold Role.of at h
    split at h
    · cases h
    · cases h
    · cases h
    · next hvisible hcomment harrow =>
      obtain ⟨c, rest, hfirst⟩ := List.exists_cons_of_ne_nil hvisible
      have hblank : isBlank c = false := by
        have hflush := flushStart_trimStart text.toList
        rw [hfirst] at hflush
        exact hflush c rfl
      rw [hfirst] at htext
      refine .visible hmargin htext hblank ?_ ?_
      · rintro rfl
        exact hcomment rest hfirst
      · rintro rfl hnext
        obtain ⟨others, rfl⟩ := List.head?_eq_some_iff.mp hnext
        exact harrow others hfirst
  · rintro @⟨margin, rest, c, hmargin, he, hblank, hsign, hdash⟩
    have hfirst : trimStart text.toList = c :: rest := by
      rw [he, trimStart_append hmargin]
      simp [trimStart, hblank]
    unfold Role.of
    rw [hfirst]
    split
    · next hnone => cases hnone
    · next hcomment => exact absurd (List.cons.inj hcomment).1 hsign
    · next others harrow =>
      obtain ⟨rfl, rfl⟩ := List.cons.inj harrow
      exact absurd rfl (hdash rfl)
    · rfl

theorem openingLine_iff {text : String} :
    OpeningLine text ↔ ¬SkippedLine text ∧ ¬ContinuationLine text := by
  rw [← Role.of_eq_opening_iff, ← Role.of_eq_skipped_iff, ← Role.of_eq_continuation_iff]
  cases Role.of text <;> simp

def FirstKept (texts : List String) (text : String) : Prop :=
  ∃ before after, texts = before ++ text :: after ∧ (∀ skipped ∈ before, SkippedLine skipped) ∧
    ¬SkippedLine text

theorem firstKept_cons_of_skipped {first text : String} {rest : List String}
    (h : SkippedLine first) : FirstKept (first :: rest) text ↔ FirstKept rest text := by
  constructor
  · rintro ⟨before, after, he, hbefore, hkept⟩
    cases before with
    | nil =>
      cases he
      exact absurd h hkept
    | cons skipped before =>
      cases he
      exact ⟨before, after, rfl, fun t ht => hbefore t (List.mem_cons_of_mem _ ht), hkept⟩
  · rintro ⟨before, after, rfl, hbefore, hkept⟩
    exact ⟨first :: before, after, rfl, List.forall_mem_cons.mpr ⟨h, hbefore⟩, hkept⟩

theorem firstKept_cons_of_kept {first text : String} {rest : List String}
    (h : ¬SkippedLine first) : FirstKept (first :: rest) text ↔ text = first := by
  constructor
  · rintro ⟨before, after, he, hbefore, -⟩
    cases before with
    | nil =>
      cases he
      rfl
    | cons skipped before =>
      cases he
      exact absurd (hbefore first List.mem_cons_self) h
  · rintro rfl
    exact ⟨[], rest, rfl, by simp, h⟩

section Steps

variable {text : String} (read : Nat) (pending : JoinedLine) (rest : List String)

theorem joinFrom_skipped (h : Role.of text = .skipped) (pending : Option JoinedLine) :
    joinFrom read pending (text :: rest) = joinFrom (read + 1) pending rest := by
  cases pending <;> simp [joinFrom, h]

theorem joinFrom_stray (h : Role.of text = .continuation) :
    joinFrom read none (text :: rest) = .error (strayFault text (read + 1)) := by
  simp [joinFrom, h]

theorem joinFrom_continued (h : Role.of text = .continuation) :
    joinFrom read (some pending) (text :: rest) =
      joinFrom (read + 1) (some ⟨pending.text ++ text, pending.line⟩) rest := by
  simp [joinFrom, h]

theorem joinFrom_first (h : Role.of text = .opening) :
    joinFrom read none (text :: rest) = joinFrom (read + 1) (some ⟨text, read + 1⟩) rest := by
  simp [joinFrom, h]

theorem joinFrom_next (h : Role.of text = .opening) :
    joinFrom read (some pending) (text :: rest) =
      (joinFrom (read + 1) (some ⟨text, read + 1⟩) rest).map (⟨pending, read + 1⟩ :: ·) := by
  simp [joinFrom, h]

end Steps

theorem joinFrom_some_isOk (read : Nat) (pending : JoinedLine) (texts : List String) :
    ∃ completions, joinFrom read (some pending) texts = .ok completions := by
  induction texts generalizing read pending with
  | nil => exact ⟨_, rfl⟩
  | cons text rest ih =>
    cases hrole : Role.of text with
    | skipped =>
      rw [joinFrom_skipped _ _ hrole]
      exact ih _ _
    | continuation =>
      rw [joinFrom_continued _ _ _ hrole]
      exact ih _ _
    | opening =>
      obtain ⟨others, hothers⟩ := ih (read + 1) ⟨text, read + 1⟩
      rw [joinFrom_next _ _ _ hrole]
      exact ⟨_, Outcome.map_eq_ok.mpr ⟨others, hothers, rfl⟩⟩

theorem joinFrom_none_isOk_iff (read : Nat) (texts : List String) :
    (∃ completions, joinFrom read none texts = .ok completions) ↔
      ∀ text, FirstKept texts text → ¬ContinuationLine text := by
  induction texts generalizing read with
  | nil =>
    constructor
    · rintro - text ⟨before, after, he, -⟩
      simp at he
    · intro _
      exact ⟨[], rfl⟩
  | cons first rest ih =>
    cases hrole : Role.of first with
    | skipped =>
      have hskipped := Role.of_eq_skipped_iff.mp hrole
      rw [joinFrom_skipped _ _ hrole]
      simpa only [firstKept_cons_of_skipped hskipped] using ih (read + 1)
    | continuation =>
      have hkept : ¬SkippedLine first := by
        rw [← Role.of_eq_skipped_iff, hrole]
        exact Role.noConfusion
      have harrow := Role.of_eq_continuation_iff.mp hrole
      rw [joinFrom_stray _ _ hrole]
      simp [firstKept_cons_of_kept hkept, harrow]
    | opening =>
      have hkept : ¬SkippedLine first := by
        rw [← Role.of_eq_skipped_iff, hrole]
        exact Role.noConfusion
      have harrow : ¬ContinuationLine first := by
        rw [← Role.of_eq_continuation_iff, hrole]
        exact Role.noConfusion
      -- from here on a line is held back, and nothing fails any more
      rw [joinFrom_first _ _ hrole]
      simp [firstKept_cons_of_kept hkept, harrow, joinFrom_some_isOk]

theorem join_isOk_iff (texts : List String) : (∃ lines, join texts = .ok lines) ↔
    ∀ text, FirstKept texts text → ¬ContinuationLine text := by
  rw [← joinFrom_none_isOk_iff 0]
  constructor
  · rintro ⟨lines, h⟩
    obtain ⟨completions, hc, -⟩ := Outcome.map_eq_ok.mp h
    exact ⟨completions, hc⟩
  · rintro ⟨completions, hc⟩
    exact ⟨_, Outcome.map_eq_ok.mpr ⟨completions, hc, rfl⟩⟩

end JoinedLine

end CommandGrammar
