import CommandGrammar.Proofs.Joining.Prefix

/-!
Joining joined lines again.

A joined line begins as its first physical line does, and what is appended to it begins with a blank
or with a dash. So no seam makes an arrow, not even behind a line that is a lone dash, and a joined
line is again a line that opens one. Lines that all open a joined line are joined each by itself.
-/

set_option autoImplicit false
set_option relaxedAutoImplicit false

namespace CommandGrammar

open Text

theorem ContinuationLine.head?_ne {text : String} (h : ContinuationLine text) :
    text.toList.head? ≠ some '>' := by
  obtain @⟨margin, rest, hmargin, he⟩ := h
  rw [he]
  cases margin with
  | nil => simp
  | cons c margin =>
    have hblank : isBlank c = true := hmargin c List.mem_cons_self
    rintro ⟨⟩
    revert hblank
    decide

theorem OpeningLine.append {text more : String} (h : OpeningLine text)
    (hmore : ContinuationLine more) : OpeningLine (text ++ more) := by
  obtain @⟨margin, rest, c, hmargin, he, hblank, hsign, hdash⟩ := h
  have htext : (text ++ more).toList = margin ++ c :: (rest ++ more.toList) := by
    rw [String.toList_append, he, List.append_assoc]
    rfl
  refine .visible hmargin htext hblank hsign ?_
  intro hc
  -- the character after the first visible one comes from beyond the seam only if nothing is left
  cases rest with
  | nil => exact hmore.head?_ne
  | cons d rest => exact hdash hc

theorem OpeningLine.append_join {text : String} (h : OpeningLine text) {more : List String}
    (hmore : ∀ line ∈ more, ContinuationLine line) : OpeningLine (text ++ String.join more) := by
  induction more generalizing text with
  | nil => simpa using h
  | cons first more ih =>
    rw [List.forall_mem_cons] at hmore
    rw [String.join_cons, ← String.append_assoc]
    exact ih (h.append hmore.1) hmore.2

namespace JoinedLine

theorem Group.openingLine_joined {group : Group} (counts : ¬SkippedLine group.head.text) :
    OpeningLine group.joined.text := by
  have hhead : OpeningLine group.head.text := openingLine_iff.mpr ⟨counts, group.opens⟩
  have hrest : ∀ more ∈ group.rest.map JoinedLine.text, ContinuationLine more :=
    List.forall_mem_map.mpr group.continues
  rw [Group.joined, Group.lines, List.map_cons, String.join_cons]
  exact hhead.append_join hrest

def numbered (texts : List String) : List JoinedLine :=
  (texts.zipIdx 1).map fun place => ⟨place.1, place.2⟩

theorem map_text_numbered (texts : List String) : (numbered texts).map text = texts := by
  rw [numbered, List.map_map]
  exact List.zipIdx_map_fst 1 texts

theorem openingLine_of_mem_join {texts : List String} {lines : List JoinedLine}
    (h : join texts = .ok lines) : ∀ line ∈ lines, OpeningLine line.text := by
  obtain ⟨groups, hdivided, rfl⟩ := join_eq_ok_iff.mp h
  rw [List.forall_mem_map]
  intro group hgroup
  obtain ⟨-, -, -, hcounts⟩ := mem_kept (hdivided.mem hgroup List.mem_cons_self)
  exact group.openingLine_joined hcounts

theorem kept_of_openingLines {texts : List String} (h : ∀ text ∈ texts, OpeningLine text) :
    kept texts = numbered texts := by
  have hcounts : ∀ place ∈ texts.zipIdx 1, decide (¬SkippedLine place.1) = true := by
    intro place hplace
    have htext := h place.1 (List.fst_mem_of_mem_zipIdx hplace)
    exact decide_eq_true (openingLine_iff.mp htext).1
  rw [kept, List.filter_eq_self.mpr hcounts, numbered]

theorem exists_divided_singly {lines : List JoinedLine}
    (h : ∀ line ∈ lines, OpeningLine line.text) :
    ∃ groups, Divided lines groups ∧ lines = groups.map Group.joined := by
  induction lines with
  | nil => exact ⟨[], rfl, rfl⟩
  | cons line lines ih =>
    rw [List.forall_mem_cons] at h
    obtain ⟨groups, hdivided, hjoined⟩ := ih h.2
    have hopens : ¬ContinuationLine line.text := (openingLine_iff.mp h.1).2
    refine ⟨⟨line, [], hopens, by simp⟩ :: groups, ?_, ?_⟩
    · exact congrArg (line :: ·) hdivided
    · rw [List.map_cons, ← hjoined]
      simp [Group.joined, Group.lines]

theorem join_eq_numbered_iff (texts : List String) :
    join texts = .ok (numbered texts) ↔ ∀ text ∈ texts, OpeningLine text := by
  constructor
  · intro h text htext
    rw [← map_text_numbered texts] at htext
    obtain ⟨line, hline, rfl⟩ := List.mem_map.mp htext
    exact openingLine_of_mem_join h line hline
  · intro h
    have hlines : ∀ line ∈ numbered texts, OpeningLine line.text := by
      rw [← List.forall_mem_map, map_text_numbered]
      exact h
    rw [join_eq_ok_iff, kept_of_openingLines h]
    exact exists_divided_singly hlines

/-- Joining is idempotent: no joined line is blank, a comment or a continuation, and joining the
joined lines gives the same lines again, numbered from one. -/
theorem joining_is_idempotent {texts : List String} {lines : List JoinedLine}
    (h : join texts = .ok lines) :
    (∀ line ∈ lines, ¬SkippedLine line.text ∧ ¬ContinuationLine line.text) ∧
      join (lines.map text) = .ok (numbered (lines.map text)) := by
  have hopening := openingLine_of_mem_join h
  refine ⟨fun line hline => openingLine_iff.mp (hopening line hline), ?_⟩
  rw [join_eq_numbered_iff, List.forall_mem_map]
  exact hopening

def dashedLines : List String :=
  ["# dashes", "-", "->", "", "\t-", "  -> >", "> '#'", "-> #"]

def joinedDashes : List JoinedLine := [⟨"-->", 2⟩, ⟨"\t-  -> >", 5⟩, ⟨"> '#'-> #", 7⟩]

theorem dashes_joined_again : join dashedLines = .ok joinedDashes ∧
    (∀ line ∈ joinedDashes, ¬SkippedLine line.text ∧ ¬ContinuationLine line.text) ∧
    join ["-->", "\t-  -> >", "> '#'-> #"] =
      .ok [⟨"-->", 1⟩, ⟨"\t-  -> >", 2⟩, ⟨"> '#'-> #", 3⟩] := by
  have hjoin : join dashedLines = .ok joinedDashes := by decide +kernel
  exact ⟨hjoin, joining_is_idempotent hjoin⟩

end JoinedLine

end CommandGrammar
