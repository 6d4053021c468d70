import CommandGrammar.Proofs.Grammar.Reading
import CommandGrammar.Proofs.Joining.Role

set_option autoImplicit false
set_option relaxedAutoImplicit false

namespace CommandGrammar

open Text

def JoinedLine.IsDeclaration (line : JoinedLine) : Prop :=
  ∃ name, Declares line.text.toList name

def JoinedLine.IsDefinition (line : JoinedLine) : Prop :=
  ∃ identifier tokens action, Defines line.text.toList identifier tokens action

/-- A line is in its place after others: a declaration anywhere, a definition after a
declaration. -/
def JoinedLine.InPlace (before : List JoinedLine) (line : JoinedLine) : Prop :=
  line.IsDeclaration ∨ (line.IsDefinition ∧ ∃ earlier ∈ before, earlier.IsDeclaration)

structure Accepted (source : String) : Prop where
  opening : ∀ text, JoinedLine.FirstKept (Text.lines source) text → ¬ContinuationLine text
  lines : ∀ joined, JoinedLine.join (Text.lines source) = .ok joined →
    ∀ before line after, joined = before ++ line :: after → line.InPlace before

namespace Grammar

/-- One line can be read if it is a declaration, or a definition while a state is current; and then
a state is current. -/
theorem step_isOk_iff {p : Progress} {line : JoinedLine} (newline : '\n' ∉ line.text.toList) :
    (∃ p', p.step line = .ok p') ↔
      line.IsDeclaration ∨ (line.IsDefinition ∧ p.current.isSome) := by
  constructor
  · rintro ⟨p', h⟩
    obtain ⟨name, hname, -⟩ | ⟨state, identifier, tokens, action, hstate, hdefines, -⟩ :=
      step_cases newline h
    · exact .inl ⟨name, hname⟩
    · exact .inr ⟨⟨identifier, tokens, action, hdefines⟩, by rw [hstate]; rfl⟩
  · rintro (⟨name, hname⟩ | ⟨⟨identifier, tokens, action, hdefines⟩, hstate⟩)
    · exact ⟨_, step_of_declares hname⟩
    · obtain ⟨state, hstate⟩ := Option.isSome_iff_exists.mp hstate
      exact ⟨_, step_of_defines newline hstate hdefines⟩

theorem current_isSome_of_step {p p' : Progress} {line : JoinedLine}
    (newline : '\n' ∉ line.text.toList) (h : p.step line = .ok p') : p'.current.isSome := by
  obtain ⟨name, -, rfl⟩ | ⟨state, _, _, _, hstate, -, rfl⟩ := step_cases newline h
  · rfl
  · dsimp only
    rw [hstate]
    rfl

theorem foldlM_step_isOk_iff {lines : List JoinedLine}
    (newline : ∀ line ∈ lines, '\n' ∉ line.text.toList) (p : Progress) :
    (∃ p', lines.foldlM Progress.step p = .ok p') ↔
      ∀ before line after, lines = before ++ line :: after → line.IsDeclaration ∨
        (line.IsDefinition ∧ (p.current.isSome ∨ ∃ earlier ∈ before, earlier.IsDeclaration)) := by
  induction lines generalizing p with
  | nil =>
    constructor
    · rintro - before line after he
      simp at he
    · intro _
      exact ⟨p, rfl⟩
  | cons first rest ih =>
    rw [List.forall_mem_cons] at newline
    constructor
    · rintro ⟨p', h⟩ before line after he
      obtain ⟨next, hnext, hrest⟩ := Outcome.bind_eq_ok.mp h
      have hfirst := (step_isOk_iff newline.1).mp ⟨next, hnext⟩
      cases before with
      | nil =>
        cases he
        exact hfirst.imp_right fun h => ⟨h.1, .inl h.2⟩
      | cons _ before =>
        cases he
        obtain h | ⟨h, -⟩ := (ih newline.2 next).mp ⟨p', hrest⟩ before line after rfl
        · exact .inl h
        · -- the first line declares a state, unless one was current before it
          refine .inr ⟨h, ?_⟩
          rcases hfirst with hfirst | ⟨-, hstate⟩
          · exact .inr ⟨_, List.mem_cons_self, hfirst⟩
          · exact .inl hstate
    · intro h
      have hfirst : first.IsDeclaration ∨ (first.IsDefinition ∧ p.current.isSome) := by
        simpa using h [] first rest rfl
      obtain ⟨next, hnext⟩ := (step_isOk_iff newline.1).mpr hfirst
      -- from now on a state is current, so every definition is in its place
      have hstate := current_isSome_of_step newline.1 hnext
      obtain ⟨p', hrest⟩ := (ih newline.2 next).mpr fun before line after he =>
        (h (first :: before) line after (by rw [he]; rfl)).imp_right fun h => ⟨h.1, .inl hstate⟩
      exact ⟨p', Outcome.bind_eq_ok.mpr ⟨next, hnext, hrest⟩⟩

theorem ofLines_isOk_iff {lines : List JoinedLine}
    (newline : ∀ line ∈ lines, '\n' ∉ line.text.toList) :
    (∃ g, ofLines lines = .ok g) ↔
      ∀ before line after, lines = before ++ line :: after → line.InPlace before := by
  have hrun : (∃ p, lines.foldlM Progress.step .initial = .ok p) ↔
      ∀ before line after, lines = before ++ line :: after → line.InPlace before := by
    simpa [Progress.initial, JoinedLine.InPlace] using foldlM_step_isOk_iff newline .initial
  rw [← hrun]
  constructor
  · rintro ⟨g, h⟩
    obtain ⟨p, hp, -⟩ := Outcome.map_eq_ok.mp h
    exact ⟨p, hp⟩
  · rintro ⟨p, hp⟩
    exact ⟨p.grammar, Outcome.map_eq_ok.mpr ⟨p, hp, rfl⟩⟩

/-- A text can be read exactly if it belongs to the language; any other is refused with a fault. -/
theorem read_isOk_iff_accepted (source : String) :
    ((∃ g, read source = .ok g) ↔ Accepted source) ∧
      ((∃ fault, read source = .error fault) ↔ ¬Accepted source) := by
  have hiff : (∃ g, read source = .ok g) ↔ Accepted source := by
    have newline {lines : List JoinedLine}
        (h : JoinedLine.join (Text.lines source) = .ok lines) :
        ∀ line ∈ lines, '\n' ∉ line.text.toList :=
      newline_not_mem_of_mem_join (fun _ => newline_not_mem_of_mem_lines) h
    constructor
    · rintro ⟨g, h⟩
      obtain ⟨lines, hlines, h⟩ := Outcome.bind_eq_ok.mp h
      refine ⟨(JoinedLine.join_isOk_iff _).mp ⟨lines, hlines⟩, ?_⟩
      intro joined hjoined
      cases hlines.symm.trans hjoined
      exact (ofLines_isOk_iff (newline hlines)).mp ⟨g, h⟩
    · rintro ⟨hopening, hlines⟩
      obtain ⟨lines, hjoin⟩ := (JoinedLine.join_isOk_iff _).mpr hopening
      obtain ⟨g, h⟩ := (ofLines_isOk_iff (newline hjoin)).mpr (hlines lines hjoin)
      exact ⟨g, Outcome.bind_eq_ok.mpr ⟨lines, hjoin, h⟩⟩
  refine ⟨hiff, ?_⟩
  rw [← hiff]
  cases read source with
  | ok g => simp
  | error fault => simp

end Grammar

end CommandGrammar
