import CommandGrammar.Proofs.Header.Reader
import CommandGrammar.Proofs.Text.Scan

/-!
Escaping for a literal.

A literal is read up to the first quotation mark that no backslash stands before, where a backslash
that was itself escaped does not count. What is escaped for a literal is read back whatever follows
the literal. Escaping can be done by two replacements, of the backslashes and then of the quotation
marks: the second puts in backslashes, which the first must not come upon.
-/

set_option autoImplicit false
set_option relaxedAutoImplicit false

namespace CommandGrammar.Header

open Text

/-- A text after an opening mark, what the literal shows, and what follows its closing mark. A
backslash takes the next character with it. -/
inductive LiteralBody : List Char → List Char → List Char → Prop where
  | closed {rest : List Char} : LiteralBody ('"' :: rest) [] rest
  | plain {c : Char} {text shown rest : List Char} : c ≠ '\\' → c ≠ '"' →
      LiteralBody text shown rest → LiteralBody (c :: text) (c :: shown) rest
  | escaped {c d : Char} {text shown rest : List Char} : unescaped? c = some d →
      LiteralBody text shown rest → LiteralBody ('\\' :: c :: text) (d :: shown) rest

/-- The text begins with a literal that shows `shown`, and goes on with `rest`. -/
def BeginsWithLiteral (text shown rest : String) : Prop :=
  ∃ body, text.toList = '"' :: body ∧ LiteralBody body shown.toList rest.toList

theorem literal?_eq_some_iff {text shown rest : List Char} :
    literal? text = some (shown, rest) ↔ LiteralBody text shown rest := by
  constructor
  · intro h
    fun_induction literal? text generalizing shown with
    | case1 => cases h
    | case2 after =>
      cases h
      exact .closed
    | case3 c after ih =>
      obtain ⟨d, hd, h⟩ := Option.bind_eq_some_iff.mp h
      obtain ⟨⟨others, last⟩, hfound, h⟩ := Option.map_eq_some_iff.mp h
      cases h
      exact .escaped hd (ih hfound)
    | case4 c after hmark hslash ih =>
      obtain ⟨⟨others, last⟩, hfound, h⟩ := Option.map_eq_some_iff.mp h
      cases h
      refine .plain ?_ hmark (ih hfound)
      -- a backslash that ends the text takes nothing with it, and no mark comes after it
      rintro rfl
      cases after with
      | nil => cases hfound
      | cons d after => exact hslash d after rfl rfl
  · intro h
    induction h with
    | closed => rfl
    | @plain c text shown rest hslash hmark _ ih =>
      rw [literal?, ih]
      · rfl
      · exact hmark
      · intro d after he
        exact absurd he hslash
    | escaped hd _ ih =>
      rw [literal?, hd, ih]
      rfl

theorem beginsWithLiteral_literal_iff {text rest shown tail : String} :
    BeginsWithLiteral (literal text ++ rest) shown tail ↔ shown = text ∧ tail = rest := by
  have htext : (literal text ++ rest).toList =
      '"' :: (text.toList.flatMap escapeChar ++ '"' :: rest.toList) := by
    unfold literal escape
    simp only [String.toList_append, String.toList_ofList, List.append_assoc]
    rfl
  have hread := literal?_closed text.toList rest.toList
  constructor
  · rintro ⟨body, hopens, hbody⟩
    obtain ⟨-, rfl⟩ := List.cons.inj (htext.symm.trans hopens)
    rw [literal?_eq_some_iff.mpr hbody] at hread
    obtain ⟨hshown, htail⟩ := Prod.mk.inj (Option.some.inj hread)
    exact ⟨String.toList_inj.mp hshown, String.toList_inj.mp htail⟩
  · rintro ⟨rfl, rfl⟩
    exact ⟨_, htext, literal?_eq_some_iff.mp hread⟩

theorem replaced_iff_eq_escape {text result : String} :
    (∃ between, ReplacesAll (.exactly ['\\']) (fun _ => ['\\', '\\']) text.toList between ∧
      ReplacesAll (.exactly ['"']) (fun _ => ['\\', '"']) between result.toList) ↔
      result = escape text := by
  simp only [replacesAll_char_iff, exists_eq_left, List.flatMap_assoc]
  have hchar : (fun c => (if c = '\\' then ['\\', '\\'] else [c]).flatMap fun d =>
      if d = '"' then ['\\', '"'] else [d]) = escapeChar := by
    funext c
    by_cases hslash : c = '\\'
    · subst hslash
      rfl
    · by_cases hmark : c = '"' <;> simp [escapeChar, hslash, hmark]
  rw [hchar, escape, String.ext_iff, String.toList_ofList]

theorem escape_append (text more : String) :
    escape (text ++ more) = escape text ++ escape more := by
  unfold escape
  rw [String.toList_append, List.flatMap_append, String.ofList_append]

theorem escape_injective : Function.Injective escape := by
  intro text other h
  have hother : BeginsWithLiteral (literal other ++ "") text "" := by
    rw [literal, ← h]
    exact beginsWithLiteral_literal_iff.mpr ⟨rfl, rfl⟩
  exact (beginsWithLiteral_literal_iff.mp hother).1

/-- Escaping is exact. A literal is read in one way whatever follows it: it ends at its own closing
mark and shows the text that it was made for. Escaping comes to replacing the backslashes and then
the quotation marks, goes piece by piece, and keeps different texts apart. -/
theorem escaping_is_exact :
    (∀ text rest shown tail : String,
      BeginsWithLiteral (literal text ++ rest) shown tail ↔ shown = text ∧ tail = rest) ∧
    (∀ text result : String,
      (∃ between, ReplacesAll (.exactly ['\\']) (fun _ => ['\\', '\\']) text.toList between ∧
        ReplacesAll (.exactly ['"']) (fun _ => ['\\', '"']) between result.toList) ↔
        result = escape text) ∧
    (∀ text more : String, escape (text ++ more) = escape text ++ escape more) ∧
    Function.Injective escape :=
  ⟨fun _ _ _ _ => beginsWithLiteral_literal_iff, fun _ _ => replaced_iff_eq_escape, escape_append,
    escape_injective⟩

end CommandGrammar.Header
