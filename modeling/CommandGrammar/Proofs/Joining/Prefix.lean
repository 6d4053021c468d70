import CommandGrammar.Proofs.Joining.Segmentation
import CommandGrammar.Proofs.Text.OneLine

set_option autoImplicit false
set_option relaxedAutoImplicit false

namespace CommandGrammar.JoinedLine

open Text

theorem mem_kept {texts : List String} {line : JoinedLine} (h : line ∈ kept texts) :
    ∃ i : Nat, line.line = i + 1 ∧ texts[i]? = some line.text ∧ ¬SkippedLine line.text := by
  obtain ⟨⟨text, place⟩, hplace, rfl⟩ := List.mem_map.mp h
  obtain ⟨hplace, hcounts⟩ := List.mem_filter.mp hplace
  obtain ⟨hfirst, htext⟩ := List.mk_mem_zipIdx_iff_le_and_getElem?_sub.mp hplace
  refine ⟨place - 1, ?_, htext, by simpa using hcounts⟩
  change (place : Int) = ((place - 1 : Nat) : Int) + 1
  omega

theorem pairwise_keptFrom (read : Nat) (texts : List String) :
    (keptFrom read texts).Pairwise fun line later => line.line < later.line := by
  induction texts generalizing read with
  | nil => exact .nil
  | cons text rest ih =>
    rw [keptFrom]
    split
    · exact ih (read + 1)
    · refine List.pairwise_cons.mpr ⟨?_, ih (read + 1)⟩
      intro later hlater
      have hbounds := mem_keptFrom hlater
      change (read : Int) + 1 < later.line
      omega

theorem kept_take_append (texts : List String) (count : Nat) :
    kept (texts.take count) ++ keptFrom (texts.take count).length (texts.drop count) =
      kept texts := by
  have hwhole := keptFrom_append 0 (texts.take count) (texts.drop count)
  rw [List.take_append_drop, Nat.zero_add] at hwhole
  rw [kept_eq_keptFrom, kept_eq_keptFrom, hwhole]

theorem kept_take (texts : List String) (count : Nat) :
    kept (texts.take count) = (kept texts).filter fun line => line.line ≤ (count : Int) := by
  have hfirst : ∀ line ∈ kept (texts.take count), line.line ≤ count := by
    intro line hline
    rw [kept_eq_keptFrom] at hline
    have hbounds := mem_keptFrom hline
    have hlength := List.length_take_le count texts
    omega
  have hlater : ∀ line ∈ keptFrom (texts.take count).length (texts.drop count),
      ¬line.line ≤ count := by
    intro line hline
    have hbounds := mem_keptFrom hline
    have hlength : (texts.drop count).length ≠ 0 → (texts.take count).length = count := by
      rw [List.length_drop, List.length_take]
      omega
    omega
  rw [← kept_take_append texts count, List.filter_append,
    List.filter_eq_self.mpr (by simpa using hfirst),
    List.filter_eq_nil_iff.mpr (by simpa using hlater), List.append_nil]

section Cut

variable {texts : List String} {before after : List JoinedLine} {line : JoinedLine}

theorem numbers_around (h : kept texts = before ++ line :: after) :
    (∀ earlier ∈ before, earlier.line < line.line) ∧ ∀ later ∈ after, line.line < later.line := by
  have hordered := pairwise_keptFrom 0 texts
  rw [← kept_eq_keptFrom, h, List.pairwise_append, List.pairwise_cons] at hordered
  exact ⟨fun earlier he => hordered.2.2 earlier he line List.mem_cons_self, hordered.2.1.1⟩

variable {number : Nat}

theorem kept_take_before (h : kept texts = before ++ line :: after)
    (hnumber : line.line = number) : kept (texts.take (number - 1)) = before := by
  obtain ⟨hbefore, hafter⟩ := numbers_around h
  obtain ⟨place, hplace, -⟩ := mem_kept (h ▸ List.mem_append_right before List.mem_cons_self)
  have hcount : ((number - 1 : Nat) : Int) = line.line - 1 := by omega
  have hkeeps : ∀ earlier ∈ before, earlier.line ≤ line.line - 1 := by
    intro earlier hearlier
    have hsmaller := hbefore earlier hearlier
    omega
  have hdrops : ∀ later ∈ line :: after, ¬later.line ≤ line.line - 1 := by
    intro later hlater
    rcases List.mem_cons.mp hlater with rfl | hlater
    · omega
    · have hlarger := hafter later hlater
      omega
  rw [kept_take, h, hcount, List.filter_append, List.filter_eq_self.mpr (by simpa using hkeeps),
    List.filter_eq_nil_iff.mpr (by simpa using hdrops), List.append_nil]

theorem kept_take_through (h : kept texts = before ++ line :: after)
    (hnumber : line.line = number) : kept (texts.take number) = before ++ [line] := by
  obtain ⟨hbefore, hafter⟩ := numbers_around h
  have hkeeps : ∀ earlier ∈ before ++ [line], earlier.line ≤ line.line := by
    intro earlier hearlier
    rcases List.mem_append.mp hearlier with hearlier | hearlier
    · exact Int.le_of_lt (hbefore earlier hearlier)
    · exact Int.le_of_eq (congrArg JoinedLine.line (List.mem_singleton.mp hearlier))
  have hdrops : ∀ later ∈ after, ¬later.line ≤ line.line := by
    intro later hlater
    exact Int.not_le.mpr (hafter later hlater)
  rw [kept_take, h, ← hnumber, List.append_cons, List.filter_append,
    List.filter_eq_self.mpr (by simpa using hkeeps),
    List.filter_eq_nil_iff.mpr (by simpa using hdrops), List.append_nil]

end Cut

theorem kept_lines_joinLines {texts : List String} (h : ∀ text ∈ texts, OneLine text) :
    kept (lines (joinLines texts)) = kept texts := by
  cases texts with
  | nil => decide
  | cons text texts => rw [lines_joinLines h (List.cons_ne_nil text texts)]

theorem firstKept_of_mem_head? {read : Nat} {texts : List String} {line : JoinedLine}
    (h : line ∈ (keptFrom read texts).head?) : FirstKept texts line.text := by
  induction texts generalizing read with
  | nil => cases h
  | cons text rest ih =>
    rw [keptFrom] at h
    split at h
    · next hskipped =>
      exact (firstKept_cons_of_skipped (Role.of_eq_skipped_iff.mp hskipped)).mpr (ih h)
    · next hcounts =>
      cases h
      exact (firstKept_cons_of_kept fun hs => hcounts (Role.of_eq_skipped_iff.mpr hs)).mpr rfl

def Group.last (group : Group) : JoinedLine :=
  group.lines.getLast (List.cons_ne_nil group.head group.rest)

/-- The joined line that begins with physical line `first` ends with physical line `last`. A stray
continuation ends where it begins. -/
inductive EndsAt (lines : List JoinedLine) (first last : Int) : Prop where
  | group {groups : List Group} {group : Group} : Divided lines groups → group ∈ groups →
      group.head.line = first → group.last.line = last → EndsAt lines first last
  | stray {stray : JoinedLine} {rest : List JoinedLine} : lines = stray :: rest →
      ContinuationLine stray.text → stray.line = first → last = first → EndsAt lines first last

/-- A text is like another up to physical line `last`, and the first line that counts after it is
not a continuation. -/
structure Resumes (texts others : List String) (last : Nat) : Prop where
  agree : others.take last = texts.take last
  opens : ∀ next, FirstKept (others.drop last) next → ¬ContinuationLine next

theorem Resumes.kept_eq {texts others : List String} {last : Nat}
    (h : Resumes texts others last) : ∃ later, kept others = kept (texts.take last) ++ later ∧
      ∀ line ∈ later.head?, ¬ContinuationLine line.text := by
  refine ⟨keptFrom (others.take last).length (others.drop last), ?_, ?_⟩
  · rw [← h.agree]
    exact (kept_take_append others last).symm
  · intro line hline
    exact h.opens line.text (firstKept_of_mem_head? hline)

section Divided

variable {texts : List String} {before after : List Group} {group : Group}

theorem divided_cut (h : Divided (kept texts) (before ++ group :: after)) {number : Nat}
    (hnumber : group.head.line = number) :
    Divided (kept (texts.take (number - 1))) before := by
  rw [Divided, List.flatMap_append, List.flatMap_cons] at h
  exact kept_take_before h hnumber

theorem divided_resumed (h : Divided (kept texts) (before ++ group :: after)) {last : Nat}
    (hlast : group.last.line = last) {others : List String} (resumes : Resumes texts others last) :
    ∃ later, Divided (kept others) (before ++ group :: later) := by
  have hgroup : group.lines.dropLast ++ [group.last] = group.lines := List.dropLast_append_getLast _
  have hlines : kept texts = (before.flatMap Group.lines ++ group.lines.dropLast) ++
      group.last :: after.flatMap Group.lines := by
    rw [h, List.flatMap_append, List.flatMap_cons, ← hgroup]
    simp
  obtain ⟨rest, hothers, hopens⟩ := resumes.kept_eq
  rw [kept_take_through hlines hlast, List.append_assoc _ _ [group.last], hgroup] at hothers
  obtain ⟨later, hlater⟩ := exists_divided hopens
  refine ⟨later, ?_⟩
  rw [Divided, List.flatMap_append, List.flatMap_cons, hothers, hlater, List.append_assoc]

theorem group_unique (h : Divided (kept texts) (before ++ group :: after)) {other : Group}
    (member : other ∈ before ++ group :: after) {number : Nat}
    (hnumber : group.head.line = number) (hother : other.head.line = number) : other = group := by
  obtain ⟨before', after', hsplit⟩ := List.append_of_mem member
  have hbefore : before' = before :=
    (divided_cut h hnumber).unique (divided_cut (hsplit ▸ h) hother)
  rw [hbefore] at hsplit
  exact (List.cons.inj (List.append_cancel_left hsplit)).1.symm

end Divided

end CommandGrammar.JoinedLine
