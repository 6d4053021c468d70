import CommandGrammar.Header.Literal
import CommandGrammar.Proofs.Text.OneLine
import Mathlib.Data.List.Basic

set_option autoImplicit false
set_option relaxedAutoImplicit false

namespace CommandGrammar.Header

open Text

def inside? {α : Type} [BEq α] (opening closing xs : List α) : Option (List α) :=
  (opening.isPrefixOf? xs).bind closing.isSuffixOf?

def after? (opening : String) (text : List Char) : Option (List Char) :=
  opening.toList.isPrefixOf? text

def before? (closing : String) (text : List Char) : Option (List Char) :=
  closing.toList.isSuffixOf? text

def between? (opening closing : String) (text : List Char) : Option (List Char) :=
  inside? opening.toList closing.toList text

def wordBefore? (p : Char → Bool) (mark : String) (text : List Char) :
    Option (List Char × List Char) :=
  (after? mark (text.dropWhile p)).map fun rest => (text.takeWhile p, rest)

def unescaped? : Char → Option Char
  | 'n' => some '\n'
  | '\\' => some '\\'
  | '"' => some '"'
  | _ => none

/-- The text of a literal after its opening mark, and what follows its closing mark. -/
def literal? : List Char → Option (List Char × List Char)
  | [] => none
  | '"' :: rest => some ([], rest)
  | '\\' :: c :: rest =>
    (unescaped? c).bind fun shown =>
      (literal? rest).map fun found => (shown :: found.1, found.2)
  | c :: rest => (literal? rest).map fun found => (c :: found.1, found.2)

def natural? (text : List Char) : Option Nat :=
  if isWord Char.isDigit text then some (Nat.ofDigitChars 10 text 0) else none

def number? : List Char → Option Int
  | '-' :: digits => (natural? digits).map fun n => -(n : Int)
  | digits => (natural? digits).map fun n => (n : Int)

theorem inside?_append {α : Type} [BEq α] [LawfulBEq α] (opening closing xs : List α) :
    inside? opening closing (opening ++ (xs ++ closing)) = some xs := by
  have hrest : opening.isPrefixOf? (opening ++ (xs ++ closing)) = some (xs ++ closing) :=
    List.isPrefixOf?_eq_some_iff_append_eq.mpr rfl
  have hparts : closing.isSuffixOf? (xs ++ closing) = some xs :=
    List.isSuffixOf?_eq_some_iff_append_eq.mpr rfl
  rw [inside?, hrest, Option.bind_some, hparts]

theorem after?_append (opening : String) (rest : List Char) :
    after? opening (opening.toList ++ rest) = some rest :=
  List.isPrefixOf?_eq_some_iff_append_eq.mpr rfl

theorem ne_of_after?_eq_none {opening : String} {text : List Char} (h : after? opening text = none)
    (rest : List Char) : text ≠ opening.toList ++ rest := by
  rintro rfl
  rw [after?_append] at h
  cases h

theorem before?_append (closing : String) (rest : List Char) :
    before? closing (rest ++ closing.toList) = some rest :=
  List.isSuffixOf?_eq_some_iff_append_eq.mpr rfl

theorem between?_append (opening closing : String) (text : List Char) :
    between? opening closing (opening.toList ++ (text ++ closing.toList)) = some text :=
  inside?_append opening.toList closing.toList text

theorem mapM_map_eq_some {α β γ : Type} (read : β → Option γ) {write : α → β} {result : α → γ}
    {xs : List α} (h : ∀ x ∈ xs, read (write x) = some (result x)) :
    (xs.map write).mapM read = some (xs.map result) := by
  induction xs with
  | nil => rfl
  | cons x xs ih =>
    have hrest := ih fun y hy => h y (List.mem_cons_of_mem x hy)
    rw [List.map_cons, List.mapM_cons, h x List.mem_cons_self, hrest]
    rfl

theorem wordBefore?_append {p : Char → Bool} (mark : String)
    (stop : mark.toList.head?.map p = some false) {word : List Char} (hword : isWord p word = true)
    (rest : List Char) :
    wordBefore? p mark (word ++ (mark.toList ++ rest)) = some (word, rest) := by
  have hall : ∀ c ∈ word, p c = true := (isWord_iff.mp hword).2
  obtain ⟨d, hd, hp⟩ := Option.map_eq_some_iff.mp stop
  obtain ⟨tail, htail⟩ := List.head?_eq_some_iff.mp hd
  have hafter : after? mark (d :: tail ++ rest) = some rest := htail ▸ after?_append mark rest
  unfold wordBefore?
  rw [List.takeWhile_append_of_pos hall, List.dropWhile_append_of_pos hall, htail,
    List.cons_append, List.takeWhile_cons, List.dropWhile_cons, hp]
  simp only [Bool.false_eq_true, if_false, List.append_nil]
  rw [← List.cons_append, hafter, Option.map_some]

theorem literal?_escape (text tail : List Char) :
    literal? (text.flatMap escapeChar ++ tail) =
      (literal? tail).map fun found => (text ++ found.1, found.2) := by
  induction text with
  | nil => simp
  | cons c text ih =>
    rw [List.flatMap_cons, List.append_assoc]
    have hcons : (literal? (text.flatMap escapeChar ++ tail)).map
        (fun found => (c :: found.1, found.2)) =
        (literal? tail).map fun found => (c :: text ++ found.1, found.2) := by
      rw [ih, Option.map_map]
      rfl
    by_cases hslash : c = '\\'
    · subst hslash
      exact hcons
    · by_cases hmark : c = '"'
      · subst hmark
        exact hcons
      · have hplain : escapeChar c = [c] := by simp [escapeChar, hslash, hmark]
        rw [hplain, List.singleton_append, literal?]
        · exact hcons
        · exact hmark
        · intro d rest he
          exact absurd he hslash

theorem literal?_closed (text rest : List Char) :
    literal? (text.flatMap escapeChar ++ '"' :: rest) = some (text, rest) := by
  rw [literal?_escape, literal?, Option.map_some, List.append_nil]

theorem natural?_toDigits (n : Nat) : natural? (Nat.toDigits 10 n) = some n := by
  rw [natural?, if_pos (isWord_toDigits n), Nat.ofDigitChars_toDigits (by decide) (by decide)]

theorem number?_decimal (n : Int) : number? (decimal n).toList = some n := by
  cases n with
  | ofNat m =>
    have hsign : '-' ∉ Nat.toDigits 10 m := not_mem_toDigits (by decide) m
    have hdigits := toList_decimal_ofNat m
    rw [Int.ofNat_eq_natCast, hdigits]
    unfold number?
    split
    · next digits he => exact absurd (he ▸ List.mem_cons_self) hsign
    · rw [natural?_toDigits]
      rfl
  | negSucc m =>
    rw [toList_decimal_negSucc, number?, natural?_toDigits]
    rfl

end CommandGrammar.Header
