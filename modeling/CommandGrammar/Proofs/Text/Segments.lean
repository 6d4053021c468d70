import CommandGrammar.Text.Blank
import CommandGrammar.Text.Cut
import CommandGrammar.Text.Lines
import CommandGrammar.Text.Word
import Mathlib.Data.List.DropRight
import Mathlib.Data.List.TakeWhile

set_option autoImplicit false
set_option relaxedAutoImplicit false

namespace CommandGrammar.Text

theorem isWord_iff {p : Char → Bool} {cs : List Char} :
    isWord p cs = true ↔ cs ≠ [] ∧ ∀ c ∈ cs, p c = true := by
  cases cs with
  | nil => simp [isWord]
  | cons c cs => simp [isWord]

theorem isWord_takeWhile {p : Char → Bool} {cs : List Char} (h : cs.takeWhile p ≠ []) :
    isWord p (cs.takeWhile p) = true :=
  isWord_iff.mpr ⟨h, fun _ hc => List.mem_takeWhile_imp hc⟩

theorem takeWhile_append_cons_of_neg {p : Char → Bool} {d : Char} (stop : p d = false)
    (cs rest : List Char) : (cs ++ d :: rest).takeWhile p = cs.takeWhile p := by
  induction cs with
  | nil => simp [stop]
  | cons c cs ih =>
    simp only [List.cons_append, List.takeWhile_cons]
    split
    · rw [ih]
    · rfl

theorem dropWhile_append_cons_of_neg {p : Char → Bool} {d : Char} (stop : p d = false)
    (cs rest : List Char) : (cs ++ d :: rest).dropWhile p = cs.dropWhile p ++ d :: rest := by
  induction cs with
  | nil => simp [stop]
  | cons c cs ih =>
    simp only [List.cons_append, List.dropWhile_cons]
    split
    · exact ih
    · rfl

theorem isNameChar_of_isNameStart {c : Char} (h : isNameStart c = true) : isNameChar c = true := by
  simp [isNameChar, h]

theorem isNameChar_of_mem_isName {cs : List Char} (h : isName cs = true) :
    ∀ c ∈ cs, isNameChar c = true := by
  cases cs with
  | nil => simp
  | cons c cs =>
    simp only [isName, Bool.and_eq_true, List.all_eq_true] at h
    intro d hd
    rcases List.mem_cons.mp hd with rfl | hd
    · exact isNameChar_of_isNameStart h.1
    · exact h.2 d hd

theorem newline_not_mem_of_isName {cs : List Char} (h : isName cs = true) : '\n' ∉ cs := by
  intro hm
  have hchar := isNameChar_of_mem_isName h '\n' hm
  revert hchar
  decide

theorem trimWhile_eq (p : Char → Bool) (cs : List Char) :
    trimWhile p cs = (cs.dropWhile p).rdropWhile p :=
  rfl

theorem trimEnd_subset (cs : List Char) : trimEnd cs ⊆ cs :=
  (List.rdropWhile_prefix isBlank cs).subset

theorem trimStart_subset (cs : List Char) : trimStart cs ⊆ cs :=
  (List.dropWhile_suffix isBlank).subset

theorem trim_subset (cs : List Char) : trim cs ⊆ cs :=
  List.Subset.trans (List.rdropWhile_prefix isBlank _).subset (trimStart_subset cs)

theorem trimMargin_subset (cs : List Char) : trimMargin cs ⊆ cs :=
  List.Subset.trans (List.rdropWhile_prefix isMargin _).subset
    (List.dropWhile_suffix isMargin).subset

theorem append_cons_inj_of_not_mem {d : Char} {before before' after after' : List Char}
    (h : d ∉ before) (h' : d ∉ before') (he : before ++ d :: after = before' ++ d :: after') :
    before = before' ∧ after = after' := by
  induction before generalizing before' with
  | nil =>
    cases before' with
    | nil => exact ⟨rfl, (List.cons.inj he).2⟩
    | cons c before' => exact absurd ((List.cons.inj he).1 ▸ List.mem_cons_self) h'
  | cons c before ih =>
    rw [List.mem_cons, not_or] at h
    cases before' with
    | nil => exact absurd (List.cons.inj he).1.symm h.1
    | cons c' before' =>
      rw [List.mem_cons, not_or] at h'
      obtain ⟨rfl, hrest⟩ := List.cons.inj he
      obtain ⟨rfl, hafter⟩ := ih h.2 h'.2 hrest
      exact ⟨rfl, hafter⟩

theorem eq_of_cutLast {separator : Char} {cs before after : List Char}
    (h : cutLast separator cs = some (before, after)) : cs = before ++ separator :: after := by
  induction cs generalizing before with
  | nil => simp [cutLast] at h
  | cons c cs ih =>
    rw [cutLast] at h
    split at h
    · next hcut =>
      cases h
      rw [ih hcut, List.cons_append]
    · split at h
      · next hc =>
        cases h
        rw [hc, List.nil_append]
      · cases h

theorem mem_splitOn {separator : Char} {cs segment : List Char}
    (h : segment ∈ cs.splitOn separator) : segment ⊆ cs ∧ separator ∉ segment := by
  rw [List.splitOn_eq_splitOnP] at h
  induction cs generalizing segment with
  | nil =>
    simp only [List.splitOnP_nil, List.mem_singleton] at h
    simp [h]
  | cons c cs ih =>
    rw [List.splitOnP_cons_eq_if_modifyHead] at h
    split at h
    · rcases List.mem_cons.mp h with rfl | h
      · simp
      · exact ⟨List.Subset.trans (ih h).1 (List.subset_cons_self c cs), (ih h).2⟩
    · next hc =>
      -- the character that is no separator goes to the front of the first text
      obtain ⟨first, others, hs⟩ :=
        List.exists_cons_of_ne_nil (List.splitOnP_ne_nil (· == separator) cs)
      rw [hs] at h ih
      rcases List.mem_cons.mp h with rfl | h
      · have hfirst := ih List.mem_cons_self
        refine ⟨List.cons_subset_cons c hfirst.1, ?_⟩
        simp only [List.mem_cons, not_or]
        exact ⟨fun he => hc (by simp [he]), hfirst.2⟩
      · have hother := ih (List.mem_cons_of_mem first h)
        exact ⟨List.Subset.trans hother.1 (List.subset_cons_self c cs), hother.2⟩

theorem newline_not_mem_of_mem_lines {text line : String} (h : line ∈ Text.lines text) :
    '\n' ∉ line.toList := by
  obtain ⟨segment, hs, rfl⟩ := List.mem_map.mp h
  rw [String.toList_ofList]
  exact (mem_splitOn hs).2

end CommandGrammar.Text
