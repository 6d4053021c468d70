import CommandGrammar.Proofs.Text.Segments
import CommandGrammar.Text.Quoted

set_option autoImplicit false
set_option relaxedAutoImplicit false

namespace CommandGrammar.Text

def OneLine (text : String) : Prop := '\n' ∉ text.toList

instance (text : String) : Decidable (OneLine text) :=
  inferInstanceAs (Decidable ('\n' ∉ text.toList))

theorem oneLine_append {first second : String} :
    OneLine (first ++ second) ↔ OneLine first ∧ OneLine second := by
  simp [OneLine, not_or]

theorem oneLine_ofList {cs : List Char} : OneLine (String.ofList cs) ↔ '\n' ∉ cs := by
  rw [OneLine, String.toList_ofList]

theorem oneLine_of_all {p : Char → Bool} (stop : p '\n' = false) {text : String}
    (h : ∀ c ∈ text.toList, p c = true) : OneLine text := by
  intro hm
  rw [h '\n' hm] at stop
  cases stop

theorem oneLine_intercalate {separator : String} (hseparator : OneLine separator)
    {texts : List String} (h : ∀ text ∈ texts, OneLine text) :
    OneLine (separator.intercalate texts) := by
  induction texts with
  | nil =>
    rw [String.intercalate_nil]
    decide
  | cons text texts ih =>
    have htext : OneLine text := h text List.mem_cons_self
    have hrest := ih fun t ht => h t (List.mem_cons_of_mem text ht)
    cases texts with
    | nil =>
      rw [String.intercalate_singleton]
      exact htext
    | cons next texts =>
      rw [String.intercalate_cons_cons, oneLine_append, oneLine_append]
      exact ⟨⟨htext, hseparator⟩, hrest⟩

theorem toList_decimal_ofNat (n : Nat) : (decimal (n : Int)).toList = Nat.toDigits 10 n := by
  change (Nat.repr n).toList = _
  rw [Nat.toList_repr]

theorem toList_decimal_negSucc (n : Nat) :
    (decimal (Int.negSucc n)).toList = '-' :: Nat.toDigits 10 (n + 1) := by
  change ("-" ++ Nat.repr (n + 1)).toList = _
  rw [String.toList_append, Nat.toList_repr]
  rfl

theorem isWord_toDigits (n : Nat) : isWord Char.isDigit (Nat.toDigits 10 n) = true := by
  refine isWord_iff.mpr ⟨?_, ?_⟩
  · exact List.ne_nil_of_length_pos Nat.length_toDigits_pos
  · intro c hc
    exact Nat.isDigit_of_mem_toDigits (by decide) (by decide) hc

theorem not_mem_toDigits {c : Char} (h : c.isDigit = false) (n : Nat) : c ∉ Nat.toDigits 10 n := by
  intro hm
  rw [(isWord_iff.mp (isWord_toDigits n)).2 c hm] at h
  cases h

theorem oneLine_decimal (n : Int) : OneLine (decimal n) := by
  have hdigits : ∀ m, '\n' ∉ Nat.toDigits 10 m := not_mem_toDigits (by decide)
  cases n with
  | ofNat m =>
    rw [OneLine]
    exact fun hm => hdigits m (toList_decimal_ofNat m ▸ hm)
  | negSucc m =>
    rw [OneLine, toList_decimal_negSucc]
    intro hm
    rcases List.mem_cons.mp hm with he | hm
    · revert he
      decide
    · exact hdigits (m + 1) hm

section Ended

variable {α : Type} [BEq α] [LawfulBEq α]

/-- The parts of a list that are ended by a separator, without it. What comes after the last
separator is left out. -/
def ended (separator : α) (xs : List α) : List (List α) :=
  (xs.splitOn separator).dropLast

theorem splitOn_flatMap {separator : α} {parts : List (List α)}
    (h : ∀ part ∈ parts, separator ∉ part) :
    (parts.flatMap (· ++ [separator])).splitOn separator = parts ++ [[]] := by
  induction parts with
  | nil => simp
  | cons part parts ih =>
    have hrest := ih fun p hp => h p (List.mem_cons_of_mem part hp)
    rw [List.flatMap_cons, List.append_assoc, List.singleton_append,
      List.splitOn_append_cons_self_of_not_mem (h part List.mem_cons_self), hrest,
      List.cons_append]

theorem ended_flatMap {separator : α} {parts : List (List α)}
    (h : ∀ part ∈ parts, separator ∉ part) :
    ended separator (parts.flatMap (· ++ [separator])) = parts := by
  rw [ended, splitOn_flatMap h, List.dropLast_concat]

end Ended

theorem toList_endLines (lines : List String) :
    (endLines lines).toList = (lines.map String.toList).flatMap (· ++ ['\n']) := by
  unfold endLines
  rw [String.toList_join, List.flatMap_map, List.flatMap_map]
  congr 1
  funext line
  rw [String.toList_append]
  rfl

theorem newline_not_mem_of_mem_map {lines : List String} (h : ∀ line ∈ lines, OneLine line) :
    ∀ part ∈ lines.map String.toList, '\n' ∉ part := by
  intro part hpart
  obtain ⟨line, hline, rfl⟩ := List.mem_map.mp hpart
  exact h line hline

theorem ended_endLines {lines : List String} (h : ∀ line ∈ lines, OneLine line) :
    ended '\n' (endLines lines).toList = lines.map String.toList := by
  rw [toList_endLines]
  exact ended_flatMap (newline_not_mem_of_mem_map h)

theorem lines_endLines {texts : List String} (h : ∀ text ∈ texts, OneLine text) :
    lines (endLines texts) = texts ++ [""] := by
  have hback : (texts.map String.toList).map String.ofList = texts := by
    simp [List.map_map, Function.comp_def]
  rw [lines, toList_endLines, splitOn_flatMap (newline_not_mem_of_mem_map h), List.map_append,
    hback]
  rfl

theorem lines_joinLines {texts : List String} (h : ∀ text ∈ texts, OneLine text)
    (some : texts ≠ []) : lines (joinLines texts) = texts := by
  have hback : (texts.map String.toList).map String.ofList = texts := by
    simp [List.map_map, Function.comp_def]
  have hjoined : (joinLines texts).toList = ['\n'].intercalate (texts.map String.toList) :=
    String.toList_intercalate
  have hparts : texts.map String.toList ≠ [] := by simpa using some
  rw [lines, hjoined, List.splitOn_intercalate '\n' (newline_not_mem_of_mem_map h) hparts, hback]

end CommandGrammar.Text
