import CommandGrammar.Files.Path
import CommandGrammar.Proofs.Text.Segments

set_option autoImplicit false
set_option relaxedAutoImplicit false

namespace CommandGrammar.Path

/-- A text that adds to the last name of a path: it holds no slash, and what it ends is neither `.`
nor `..`. -/
def Ending (text : String) : Prop := '/' ∉ text.toList ∧ 2 < text.length

instance (text : String) : Decidable (Ending text) :=
  inferInstanceAs (Decidable (_ ∧ _))

theorem Ending.append_ne {suffix : String} (h : Ending suffix) (text : String) :
    text ++ suffix ≠ ".." := by
  intro he
  have hlength := congrArg String.length he
  rw [String.length_append] at hlength
  have hlong := h.2
  change text.length + suffix.length = 2 at hlength
  omega

theorem splitOn_append (separator : Char) (text : List Char) :
    ∃ front last, ∀ suffix, separator ∉ suffix →
      (text ++ suffix).splitOn separator = front ++ [last ++ suffix] := by
  induction text with
  | nil => exact ⟨[], [], fun suffix h => List.splitOn_eq_singleton h⟩
  | cons c text ih =>
    obtain ⟨front, last, hsplit⟩ := ih
    by_cases hc : c = separator
    · refine ⟨[] :: front, last, fun suffix h => ?_⟩
      rw [List.cons_append, List.splitOn_cons_eq_if_modifyHead, if_pos (by simpa using hc),
        hsplit suffix h, List.cons_append]
    · have hne : ¬(c == separator) = true := by simpa using hc
      cases front with
      | nil =>
        refine ⟨[], c :: last, fun suffix h => ?_⟩
        rw [List.cons_append, List.splitOn_cons_eq_if_modifyHead, if_neg hne, hsplit suffix h]
        rfl
      | cons first front =>
        refine ⟨(c :: first) :: front, last, fun suffix h => ?_⟩
        rw [List.cons_append, List.splitOn_cons_eq_if_modifyHead, if_neg hne, hsplit suffix h]
        rfl

/-- All texts with the same beginning are paths in the same directory, under names with the same
beginning. -/
theorem exists_ofString_append (text : String) :
    ∃ root front last, ∀ suffix, Ending suffix →
      ofString (text ++ suffix) = ⟨root, front ++ [last ++ suffix]⟩ := by
  obtain ⟨front, last, hsplit⟩ := splitOn_append '/' text.toList
  refine ⟨rootOf (text.toList.takeWhile (· == '/')).length,
    (front.map String.ofList).filter fun name => name != "" && name != ".",
    String.ofList last, ?_⟩
  rintro suffix ⟨hslash, hlength⟩
  have hroot : (text ++ suffix).toList.takeWhile (· == '/') =
      text.toList.takeWhile (· == '/') := by
    obtain ⟨c, rest, hsuffix⟩ : ∃ c rest, suffix.toList = c :: rest := by
      apply List.exists_cons_of_length_pos
      rw [String.length_toList]
      omega
    have hc : c ≠ '/' := by
      rintro rfl
      exact hslash (hsuffix ▸ List.mem_cons_self)
    rw [String.toList_append, hsuffix]
    exact Text.takeWhile_append_cons_of_neg (by simpa using hc) text.toList rest
  have hname : String.ofList (last ++ suffix.toList) = String.ofList last ++ suffix := by
    rw [String.ofList_append, String.ofList_toList]
  have hlong : 2 < (String.ofList last ++ suffix).length := by
    rw [String.length_append]
    omega
  -- a name of this length is neither empty nor a dot, so it is not dropped
  have hkept : [String.ofList last ++ suffix].filter (fun name => name != "" && name != ".") =
      [String.ofList last ++ suffix] := by
    rw [List.filter_eq_self, List.forall_mem_singleton, Bool.and_eq_true, bne_iff_ne, bne_iff_ne]
    constructor
    · intro he
      simp [he] at hlong
    · intro he
      rw [he] at hlong
      exact absurd hlong (by decide)
  unfold ofString
  rw [hroot, String.toList_append, hsplit suffix.toList hslash, List.map_append, List.filter_append,
    List.map_singleton, hname, hkept]

theorem exists_join_append (directory : Path) (text : String) :
    ∃ root front last, ∀ suffix, Ending suffix →
      directory ++ ofString (text ++ suffix) = ⟨root, front ++ [last ++ suffix]⟩ := by
  obtain ⟨root, front, last, hpath⟩ := exists_ofString_append text
  by_cases hroot : root = ""
  · refine ⟨directory.root, directory.names ++ front, last, fun suffix h => ?_⟩
    rw [hpath suffix h, List.append_assoc]
    exact if_pos hroot
  · refine ⟨root, front, last, fun suffix h => ?_⟩
    rw [hpath suffix h]
    exact if_neg hroot

end CommandGrammar.Path
