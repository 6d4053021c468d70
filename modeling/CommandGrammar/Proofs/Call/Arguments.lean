import CommandGrammar.Proofs.Call.Invocation
import CommandGrammar.Proofs.Text.Classes
import CommandGrammar.Proofs.Text.OneLine

set_option autoImplicit false
set_option relaxedAutoImplicit false

namespace CommandGrammar

open Text Template

/-- An argument of a call: a capture, a quoted text, or an integer. -/
inductive Argument where
  | capture (name : List Char)
  | quoted (content : List Char)
  | integer (negative : Bool) (digits : List Char)
  deriving DecidableEq, Repr

namespace Argument

def excluded : List Char := ['"', '\\', ',', '(', ')', '$', '\n']

def WellFormed : Argument → Prop
  | capture name => isWord isIdentifierChar name = true
  | quoted content => ∀ c ∈ content, c ∉ excluded
  | integer _ digits => isWord Char.isDigit digits = true

instance : (argument : Argument) → Decidable argument.WellFormed
  | capture name => inferInstanceAs (Decidable (isWord isIdentifierChar name = true))
  | quoted content => content.decidableBAll (· ∉ excluded)
  | integer _ digits => inferInstanceAs (Decidable (isWord Char.isDigit digits = true))

def source : Argument → List Char
  | capture name => '$' :: name
  | quoted content => '"' :: (content ++ ['"'])
  | integer negative digits => if negative then '-' :: digits else digits

/-- An argument as it stands in the call: a capture becomes an accessor call. -/
def substituted (accessor : List Char) : Argument → List Char
  | capture name => accessor ++ '(' :: '"' :: (name ++ ['"', ')'])
  | argument => argument.source

/-- Whether the debug message shows the argument by a conversion: a capture, or a quoted word. -/
def isShown : Argument → Bool
  | capture _ => true
  | quoted content => isWord isQuotedWordChar content
  | integer _ _ => false

def pieces : Argument → List Piece
  | capture name => [.capture name]
  | quoted content =>
    if isWord isQuotedWordChar content then [.word content]
    else (quoted content).source.map .plain
  | integer negative digits => (integer negative digits).source.map .plain

end Argument

def callText (name : List Char) (arguments : List Argument) : List Char :=
  name ++ '(' :: ([',', ' '].intercalate (arguments.map Argument.source) ++ [')'])

theorem pieces_append_of_plain {text : List Char} (dollar : '$' ∉ text) (mark : '"' ∉ text)
    (rest : List Char) :
    Template.pieces (text ++ rest) = text.map .plain ++ Template.pieces rest := by
  induction text with
  | nil => rfl
  | cons c text ih =>
    rw [List.mem_cons, not_or] at dollar mark
    rw [List.cons_append, Template.pieces, if_neg (Ne.symm dollar.1), if_neg (Ne.symm mark.1),
      ih dollar.2 mark.2, List.map_cons, List.cons_append]

theorem pieces_nil : Template.pieces [] = [] := by
  rw [Template.pieces]

theorem pieces_of_plain {text : List Char} (dollar : '$' ∉ text) (mark : '"' ∉ text) :
    Template.pieces text = text.map .plain := by
  have h := pieces_append_of_plain dollar mark []
  rwa [List.append_nil, pieces_nil, List.append_nil] at h

theorem pieces_mark : Template.pieces ['"'] = [.plain '"'] := by
  rw [Template.pieces, if_neg (by decide), if_pos rfl]
  split
  · next hword => cases hword
  · rw [pieces_nil]

theorem capture?_of_isWord {name : List Char} (h : isWord isIdentifierChar name = true) :
    capture? name = some (name, []) := by
  obtain ⟨hne, hall⟩ := isWord_iff.mp h
  obtain ⟨c, cs, rfl⟩ := List.exists_cons_of_ne_nil hne
  unfold capture?
  rw [List.takeWhile_eq_self_iff.mpr hall, List.dropWhile_eq_nil_iff.mpr hall]

theorem pieces_capture {name : List Char} (h : isWord isIdentifierChar name = true) :
    Template.pieces ('$' :: name) = [.capture name] := by
  have hcapture := capture?_of_isWord h
  rw [Template.pieces, if_pos rfl]
  split
  · next hfound =>
    rw [hcapture] at hfound
    cases hfound
    rw [pieces_nil]
  · next hnone =>
    rw [hcapture] at hnone
    cases hnone

theorem word?_of_isWord {content : List Char} (h : isWord isQuotedWordChar content = true) :
    word? (content ++ ['"']) = some (content, []) := by
  obtain ⟨hne, hall⟩ := isWord_iff.mp h
  have stop : ∀ c ∈ ['"'].head?, isQuotedWordChar c = false := by
    rintro _ ⟨⟩
    decide
  obtain ⟨c, cs, rfl⟩ := List.exists_cons_of_ne_nil hne
  unfold word?
  rw [takeWhile_word_append hall stop, dropWhile_word_append hall stop]
  rfl

theorem isWord_of_word? {text word rest : List Char} (h : word? text = some (word, rest)) :
    isWord isQuotedWordChar word = true := by
  unfold word? at h
  split at h
  · next hword _ =>
    cases h
    rw [← hword]
    exact isWord_takeWhile (by simp [hword])
  · cases h

theorem takeWhile_mark {text : List Char} (mark : '"' ∉ text) (rest : List Char) :
    (text ++ '"' :: rest).takeWhile (· != '"') = text := by
  refine takeWhile_word_append (fun c hc => ?_) (by simp)
  have hne : c ≠ '"' := by
    rintro rfl
    exact mark hc
  simpa using hne

theorem word?_eq_none {content : List Char} (mark : '"' ∉ content)
    (h : ¬isWord isQuotedWordChar content = true) : word? (content ++ ['"']) = none := by
  cases hfound : word? (content ++ ['"']) with
  | none => rfl
  | some found =>
    obtain ⟨word, rest⟩ := found
    have hword := isWord_of_word? hfound
    have hmark : '"' ∉ word := not_mem_of_isWord hword (by decide)
    have hcontent := takeWhile_mark mark []
    rw [eq_of_word? hfound, takeWhile_mark hmark] at hcontent
    exact absurd (hcontent ▸ hword) h

theorem pieces_quoted {content : List Char} (h : ∀ c ∈ content, c ∉ Argument.excluded) :
    Template.pieces ('"' :: (content ++ ['"'])) = (Argument.quoted content).pieces := by
  have hdollar : '$' ∉ content := fun hm => h _ hm (by decide)
  have hmark : '"' ∉ content := fun hm => h _ hm (by decide)
  rw [Template.pieces, if_neg (by decide), if_pos rfl, Argument.pieces]
  by_cases hword : isWord isQuotedWordChar content = true
  · have hfound := word?_of_isWord hword
    rw [if_pos hword]
    split
    · next hother =>
      rw [hfound] at hother
      cases hother
      rw [pieces_nil]
    · next hnone =>
      rw [hfound] at hnone
      cases hnone
  · have hnone := word?_eq_none hmark hword
    rw [if_neg hword]
    split
    · next hother =>
      rw [hnone] at hother
      cases hother
    · rw [pieces_append_of_plain hdollar hmark, pieces_mark]
      simp [Argument.source]

theorem flatMap_intercalate {α β : Type} (f : α → List β) (separator : List α)
    (parts : List (List α)) : (separator.intercalate parts).flatMap f =
      (separator.flatMap f).intercalate (parts.map (·.flatMap f)) := by
  induction parts with
  | nil => rfl
  | cons part parts ih =>
    cases parts with
    | nil => simp
    | cons next parts =>
      rw [List.intercalate_cons_cons, List.map_cons, List.map_cons, List.intercalate_cons_cons,
        List.flatMap_append, List.flatMap_append, ih, List.map_cons]

theorem intercalate_map_cons_cons {α β : Type} (comma blank : α) (f : β → List α)
    (first second : β) (rest : List β) :
    [comma, blank].intercalate ((first :: second :: rest).map f) =
      f first ++ comma :: blank :: [comma, blank].intercalate ((second :: rest).map f) := by
  rw [List.map_cons, List.map_cons, List.intercalate_cons_cons, List.append_assoc]
  rfl

namespace Argument

variable {argument : Argument}

theorem pieces_source (wf : argument.WellFormed) :
    Template.pieces argument.source = argument.pieces := by
  cases argument with
  | capture name => exact pieces_capture wf
  | quoted content => exact pieces_quoted wf
  | integer negative digits =>
    have hdollar : '$' ∉ digits := not_mem_of_isWord wf (by decide)
    have hmark : '"' ∉ digits := not_mem_of_isWord wf (by decide)
    cases negative with
    | false => exact pieces_of_plain hdollar hmark
    | true =>
      have hsigned : '$' ∉ '-' :: digits := by simp [hdollar]
      have hunmarked : '"' ∉ '-' :: digits := by simp [hmark]
      exact pieces_of_plain hsigned hunmarked

theorem pieces_sources {arguments : List Argument} (wf : ∀ a ∈ arguments, a.WellFormed) :
    Template.pieces ([',', ' '].intercalate (arguments.map source)) =
      [.plain ',', .plain ' '].intercalate (arguments.map pieces) := by
  induction arguments with
  | nil => exact pieces_nil
  | cons first rest ih =>
    rw [List.forall_mem_cons] at wf
    cases rest with
    | nil => simpa using pieces_source wf.1
    | cons second rest =>
      have hcomma : isDelimiter ',' = true := by decide
      have hblank : isDelimiter ' ' = true := by decide
      rw [intercalate_map_cons_cons, intercalate_map_cons_cons, pieces_append_delimiter hcomma,
        ← List.nil_append (' ' :: _), pieces_append_delimiter hblank, ih wf.2, pieces_nil,
        pieces_source wf.1]
      rfl

theorem flatMap_expand_pieces (accessor : List Char) (argument : Argument) :
    argument.pieces.flatMap (Piece.expand accessor) = argument.substituted accessor := by
  have hplain : ∀ text : List Char,
      (text.map Piece.plain).flatMap (Piece.expand accessor) = text := by
    intro text
    simp [List.flatMap_map, Piece.expand, Piece.source]
  cases argument with
  | capture name => simp [pieces, substituted, Piece.expand]
  | quoted content =>
    by_cases hword : isWord isQuotedWordChar content = true
    · rw [pieces, if_pos hword]
      simp [substituted, source, Piece.expand, Piece.source]
    · rw [pieces, if_neg hword]
      exact hplain _
  | integer negative digits => exact hplain _

theorem expanded_sources {arguments : List Argument} (wf : ∀ a ∈ arguments, a.WellFormed)
    (accessor : List Char) : expanded accessor ([',', ' '].intercalate (arguments.map source)) =
      [',', ' '].intercalate (arguments.map (substituted accessor)) := by
  rw [expanded, pieces_sources wf, flatMap_intercalate, List.map_map]
  simp only [Function.comp_def, flatMap_expand_pieces]
  rfl

end Argument

theorem pieces_callText {name : List Char} (hname : isName name = true)
    {arguments : List Argument} (wf : ∀ a ∈ arguments, a.WellFormed) :
    Template.pieces (callText name arguments) = name.map .plain ++ .plain '(' ::
      ([.plain ',', .plain ' '].intercalate (arguments.map Argument.pieces) ++ [.plain ')']) := by
  have hdollar : '$' ∉ name := not_mem_of_isName hname (by decide)
  have hmark : '"' ∉ name := not_mem_of_isName hname (by decide)
  rw [callText, pieces_append_delimiter isDelimiter_openBracket,
    pieces_append_delimiter isDelimiter_closeBracket, Argument.pieces_sources wf, pieces_nil,
    pieces_of_plain hdollar hmark]

/-- A text that can be told from others in a list: it holds no comma, and has no margin. -/
structure Separable (text : List Char) : Prop where
  ne_nil : text ≠ []
  comma : ',' ∉ text
  first : ∀ c ∈ text.head?, isMargin c = false
  last : ∀ c ∈ text.getLast?, isMargin c = false

def expressions (text : List Char) : List (List Char) :=
  if text.isEmpty then [] else (text.splitOn ',').map trimMargin

namespace Separable

theorem trimMargin_append {margin text : List Char} (h : Separable text)
    (hmargin : ∀ c ∈ margin, isMargin c = true) : trimMargin (margin ++ text) = text :=
  trimWhile_append hmargin h.first h.last

theorem intercalate {first : List Char} {rest : List (List Char)} (hfirst : Separable first)
    (hrest : ∀ text ∈ rest, Separable text) :
    [',', ' '].intercalate (first :: rest) ≠ [] ∧
      (∀ c ∈ ([',', ' '].intercalate (first :: rest)).head?, isMargin c = false) ∧
      ∀ c ∈ ([',', ' '].intercalate (first :: rest)).getLast?, isMargin c = false := by
  induction rest generalizing first with
  | nil =>
    rw [List.intercalate_singleton]
    exact ⟨hfirst.ne_nil, hfirst.first, hfirst.last⟩
  | cons second rest ih =>
    rw [List.forall_mem_cons] at hrest
    obtain ⟨hne, -, hlast⟩ := ih hrest.1 hrest.2
    obtain ⟨c, cs, rfl⟩ := List.exists_cons_of_ne_nil hfirst.ne_nil
    rw [List.intercalate_cons_cons]
    refine ⟨by simp, hfirst.first, ?_⟩
    rwa [List.getLast?_append_of_ne_nil _ hne]

theorem map_trimMargin_splitOn {margin first : List Char} {rest : List (List Char)}
    (hmargin : ∀ c ∈ margin, isMargin c = true) (hfirst : Separable first)
    (hrest : ∀ text ∈ rest, Separable text) :
    ((margin ++ [',', ' '].intercalate (first :: rest)).splitOn ',').map trimMargin =
      first :: rest := by
  have hcomma : ',' ∉ margin ++ first := by
    rw [List.mem_append, not_or]
    refine ⟨fun hm => ?_, hfirst.comma⟩
    have h := hmargin ',' hm
    revert h
    decide
  induction rest generalizing margin first with
  | nil =>
    rw [List.intercalate_singleton, List.splitOn_eq_singleton hcomma, List.map_singleton,
      hfirst.trimMargin_append hmargin]
  | cons second rest ih =>
    rw [List.forall_mem_cons] at hrest
    have hblank : ∀ c ∈ [' '], isMargin c = true := List.forall_mem_singleton.mpr (by decide)
    have htail := ih hblank hrest.1 hrest.2 (by simpa using hrest.1.comma)
    have hsplit : margin ++ [',', ' '].intercalate (first :: second :: rest) =
        (margin ++ first) ++ ',' :: ([' '] ++ [',', ' '].intercalate (second :: rest)) := by
      simp [List.intercalate_cons_cons]
    rw [hsplit, List.splitOn_append_cons_self_of_not_mem hcomma, List.map_cons, htail,
      hfirst.trimMargin_append hmargin]

end Separable

theorem expressions_intercalate {texts : List (List Char)} (h : ∀ text ∈ texts, Separable text) :
    expressions (trimMargin ([',', ' '].intercalate texts)) = texts := by
  cases texts with
  | nil => rfl
  | cons first rest =>
    rw [List.forall_mem_cons] at h
    obtain ⟨hne, hfirst, hlast⟩ := Separable.intercalate h.1 h.2
    have hnone : ∀ c ∈ ([] : List Char), isMargin c = true := by simp
    have htrim : trimMargin ([',', ' '].intercalate (first :: rest)) =
        [',', ' '].intercalate (first :: rest) := trimWhile_append hnone hfirst hlast
    have hback := Separable.map_trimMargin_splitOn hnone h.1 h.2
    rw [htrim, expressions, List.isEmpty_eq_false_iff.mpr hne]
    exact hback

theorem isMargin_of_isNameChar {c : Char} (h : isNameChar c = true) : isMargin c = false := by
  obtain ⟨hlow, hhigh⟩ := toNat_of_isNameChar h
  rw [isMargin, isBlank_of_isNameChar h]
  simp [Ranges.contains]
  omega

theorem isNameChar_of_isDigit {c : Char} (h : c.isDigit = true) : isNameChar c = true := by
  simp [isNameChar, h]

theorem Argument.separable_substituted {argument : Argument} (wf : argument.WellFormed)
    {accessor : List Char} (haccessor : isName accessor = true) :
    Separable (argument.substituted accessor) := by
  cases argument with
  | capture name =>
    obtain ⟨c, cs, rfl⟩ := List.exists_cons_of_ne_nil (ne_nil_of_isName haccessor)
    have hchar := isNameChar_of_mem_isName haccessor
    have hcomma : ',' ∉ c :: cs := not_mem_of_isName haccessor (by decide)
    have hname : ',' ∉ name := not_mem_of_isWord wf (by decide)
    have hclosed : (c :: cs) ++ '(' :: '"' :: (name ++ ['"', ')']) =
        ((c :: cs) ++ '(' :: '"' :: (name ++ ['"'])) ++ [')'] := by simp
    refine ⟨by simp [substituted], ?_, ?_, ?_⟩
    · rw [List.mem_cons, not_or] at hcomma
      simp [substituted, hcomma, hname]
    · rintro _ ⟨⟩
      exact isMargin_of_isNameChar (hchar c List.mem_cons_self)
    · rw [substituted, hclosed, List.getLast?_concat]
      rintro _ ⟨⟩
      decide
  | quoted content =>
    have hcomma : ',' ∉ content := fun hm => wf _ hm (by decide)
    have hclosed : (quoted content).substituted accessor = ('"' :: content) ++ ['"'] := rfl
    rw [hclosed]
    refine ⟨by simp, by simp [hcomma], ?_, ?_⟩
    · rintro _ ⟨⟩
      decide
    · rw [List.getLast?_concat]
      rintro _ ⟨⟩
      decide
  | integer negative digits =>
    obtain ⟨hne, hall⟩ := isWord_iff.mp wf
    have hmargin : ∀ c ∈ digits, isMargin c = false :=
      fun c hc => isMargin_of_isNameChar (isNameChar_of_isDigit (hall c hc))
    have hcomma : ',' ∉ digits := not_mem_of_isWord wf (by decide)
    cases negative with
    | false =>
      exact ⟨hne, hcomma, fun c hc => hmargin c (List.mem_of_mem_head? hc),
        fun c hc => hmargin c (List.mem_of_mem_getLast? hc)⟩
    | true =>
      have hsigned : (integer true digits).substituted accessor = ['-'] ++ digits := rfl
      rw [hsigned]
      refine ⟨by simp, by simp [hcomma], ?_, ?_⟩
      · rintro _ ⟨⟩
        decide
      · rw [List.getLast?_append_of_ne_nil _ hne]
        exact fun c hc => hmargin c (List.mem_of_mem_getLast? hc)

theorem expressions_of_invocation (conv : Convention)
    (haccessor : isName conv.accessor.toList = true) {name : List Char}
    (hname : isName name = true) {arguments : List Argument}
    (wf : ∀ a ∈ arguments, a.WellFormed) :
    ∃ invocation, conv.invocation (String.ofList (callText name arguments)) = .ok invocation ∧
      expressions invocation.arguments.toList =
        arguments.map (Argument.substituted conv.accessor.toList) := by
  have hgap : ∀ c ∈ ([] : List Char), isBlank c = true := by simp
  have hinvocation := @Convention.invocation_eq_ok conv name []
    ([',', ' '].intercalate (arguments.map Argument.source)) hname hgap
  rw [List.nil_append, List.append_nil, Argument.expanded_sources wf] at hinvocation
  refine ⟨_, hinvocation, ?_⟩
  rw [String.toList_ofList, expressions_intercalate]
  intro text htext
  obtain ⟨argument, hargument, rfl⟩ := List.mem_map.mp htext
  exact Argument.separable_substituted (wf argument hargument) haccessor

end CommandGrammar
