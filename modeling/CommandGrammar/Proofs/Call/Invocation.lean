import CommandGrammar.Call.Template
import CommandGrammar.Proofs.Grammar.WellFormed

set_option autoImplicit false
set_option relaxedAutoImplicit false

namespace CommandGrammar

open Text

namespace Template

def isDelimiter (d : Char) : Bool :=
  !isQuotedWordChar d && d != '"' && d != '$'

theorem isDelimiter_iff {d : Char} : isDelimiter d = true ↔
    isQuotedWordChar d = false ∧ d ≠ '"' ∧ d ≠ '$' := by
  simp [isDelimiter, and_assoc]

theorem isIdentifierChar_of_isDelimiter {d : Char} (h : isDelimiter d = true) :
    isIdentifierChar d = false := by
  have hword := (isDelimiter_iff.mp h).1
  simp only [isQuotedWordChar, Bool.or_eq_false_iff] at hword
  exact hword.1

theorem capture?_append {d : Char} (hd : isDelimiter d = true) (cs rest : List Char) :
    capture? (cs ++ d :: rest) =
      (capture? cs).map fun found => (found.1, found.2 ++ d :: rest) := by
  have hstop := isIdentifierChar_of_isDelimiter hd
  unfold capture?
  rw [takeWhile_append_cons_of_neg hstop, dropWhile_append_cons_of_neg hstop]
  split <;> rfl

theorem word?_append {d : Char} (hd : isDelimiter d = true) (cs rest : List Char) :
    word? (cs ++ d :: rest) = (word? cs).map fun found => (found.1, found.2 ++ d :: rest) := by
  obtain ⟨hstop, hquote, -⟩ := isDelimiter_iff.mp hd
  unfold word?
  rw [takeWhile_append_cons_of_neg hstop, dropWhile_append_cons_of_neg hstop]
  cases cs.takeWhile isQuotedWordChar with
  | nil => rfl
  | cons c word =>
    cases cs.dropWhile isQuotedWordChar with
    | nil =>
      -- only the delimiter could close the word, and it is no quotation mark
      rw [List.nil_append]
      split
      · next heq => exact absurd (List.cons.inj heq).1 hquote
      · rfl
    | cons e tail =>
      by_cases he : e = '"'
      · subst he
        rfl
      · simp [he]

theorem pieces_append_delimiter {d : Char} (hd : isDelimiter d = true) (cs rest : List Char) :
    pieces (cs ++ d :: rest) = pieces cs ++ .plain d :: pieces rest := by
  obtain ⟨-, hquote, hdollar⟩ := isDelimiter_iff.mp hd
  -- a capture or a word ends before the delimiter, so both texts are read in step up to it
  fun_induction pieces cs with
  | case1 => rw [List.nil_append, pieces, if_neg hdollar, if_neg hquote, List.nil_append]
  | case2 cs name after h ih =>
    rw [List.cons_append, pieces, if_pos rfl]
    have hfound := capture?_append hd cs rest
    rw [h] at hfound
    split
    · next hother =>
      rw [hfound] at hother
      cases hother
      rw [ih, List.cons_append]
    · next hnone => simp [hfound] at hnone
  | case3 cs h ih =>
    rw [List.cons_append, pieces, if_pos rfl]
    have hfound := capture?_append hd cs rest
    rw [h] at hfound
    split
    · next hsome => simp [hfound] at hsome
    · rw [ih, List.cons_append]
  | case4 cs word after h hne ih =>
    rw [List.cons_append, pieces, if_neg hne, if_pos rfl]
    have hfound := word?_append hd cs rest
    rw [h] at hfound
    split
    · next hother =>
      rw [hfound] at hother
      cases hother
      rw [ih, List.cons_append]
    · next hnone => simp [hfound] at hnone
  | case5 cs h hne ih =>
    rw [List.cons_append, pieces, if_neg hne, if_pos rfl]
    have hfound := word?_append hd cs rest
    rw [h] at hfound
    split
    · next hsome => simp [hfound] at hsome
    · rw [ih, List.cons_append]
  | case6 c cs hne hq ih =>
    rw [List.cons_append, pieces, if_neg hne, if_neg hq, ih, List.cons_append]

def expanded (accessor text : List Char) : List Char :=
  (pieces text).flatMap (Piece.expand accessor)

theorem expanded_append_delimiter {d : Char} (hd : isDelimiter d = true)
    (accessor cs rest : List Char) :
    expanded accessor (cs ++ d :: rest) = expanded accessor cs ++ d :: expanded accessor rest := by
  simp [expanded, pieces_append_delimiter hd, Piece.expand, Piece.source]

theorem expanded_of_not_mem (accessor : List Char) {text : List Char} (h : '$' ∉ text) :
    expanded accessor text = text := by
  unfold expanded
  fun_induction pieces text with
  | case1 => rfl
  | case2 cs name rest hcapture _ => exact absurd List.mem_cons_self h
  | case3 cs hcapture _ => exact absurd List.mem_cons_self h
  | case4 cs word rest hword _ ih =>
    have hcs : cs = word ++ '"' :: rest := eq_of_word? hword
    have hrest : '$' ∉ rest := by
      intro hm
      apply h
      rw [hcs]
      simp [hm]
    rw [List.flatMap_cons, ih hrest, hcs]
    simp [Piece.expand, Piece.source]
  | case5 cs hword _ ih =>
    rw [List.flatMap_cons, ih fun hm => h (List.mem_cons_of_mem _ hm)]
    rfl
  | case6 c cs _ _ ih =>
    rw [List.flatMap_cons, ih fun hm => h (List.mem_cons_of_mem _ hm)]
    rfl

theorem mem_expanded {accessor text : List Char} {c : Char} (h : c ∈ expanded accessor text) :
    c ∈ text ∨ c ∈ accessor ∨ c ∈ ['(', '"', ')'] := by
  obtain ⟨piece, hpiece, hc⟩ := List.mem_flatMap.mp h
  have hsource : ∀ d ∈ piece.source, d ∈ text := by
    intro d hd
    rw [← flatMap_source_pieces text]
    exact List.mem_flatMap.mpr ⟨piece, hpiece, hd⟩
  cases piece with
  | plain d => exact .inl (hsource c hc)
  | word w => exact .inl (hsource c hc)
  | capture name =>
    have hname : ∀ d ∈ name, d ∈ text := fun d hd => hsource d (List.mem_cons_of_mem _ hd)
    simp only [Piece.expand, List.mem_append, List.mem_cons, List.not_mem_nil, or_false] at hc
    rcases hc with (hc | rfl | rfl | hc) | rfl | rfl
    · exact .inr (.inl hc)
    · simp
    · simp
    · exact .inl (hname c hc)
    · simp
    · simp

end Template

namespace Invocation

/-- The text of a call: a name that holds no opening bracket, and the arguments in brackets. One
line feed may follow. -/
structure Form (text name arguments : List Char) : Prop where
  named : name ≠ []
  bracket : '(' ∉ name
  closed : ∃ ending, (ending = [] ∨ ending = ['\n']) ∧
    text = name ++ '(' :: (arguments ++ ')' :: ending)

def IsCall (text : String) : Prop := ∃ name arguments, Form text.toList name arguments

theorem beforeClosing?_eq_some_iff {text arguments : List Char} :
    beforeClosing? text = some arguments ↔
      ∃ ending, (ending = [] ∨ ending = ['\n']) ∧ text = arguments ++ ')' :: ending := by
  unfold beforeClosing?
  constructor
  · intro h
    split at h
    · next rest hreverse =>
      cases h
      refine ⟨[], .inl rfl, ?_⟩
      rw [← List.reverse_reverse text, hreverse, List.reverse_cons]
    · next rest hreverse =>
      cases h
      refine ⟨['\n'], .inr rfl, ?_⟩
      rw [← List.reverse_reverse text, hreverse]
      simp
    · cases h
  · rintro ⟨ending, rfl | rfl, rfl⟩ <;> simp

/-- An expression is taken apart exactly if it is a call, and then as the call says. -/
theorem of?_eq_some_iff {text : List Char} {invocation : Invocation} :
    of? text = some invocation ↔ ∃ name arguments, Form text name arguments ∧
      invocation = ⟨String.ofList name, String.ofList (trimMargin arguments)⟩ := by
  unfold of?
  constructor
  · intro h
    split at h
    · next c name bracket rest hname hrest =>
      obtain ⟨arguments, harguments, rfl⟩ := Option.map_eq_some_iff.mp h
      obtain ⟨ending, hending, rfl⟩ := beforeClosing?_eq_some_iff.mp harguments
      have hbracket : bracket = '(' := by
        simpa [hrest] using List.head?_dropWhile_not (· != '(') text
      subst hbracket
      refine ⟨c :: name, arguments, ⟨by simp, ?_, ending, hending, ?_⟩, rfl⟩
      · rw [← hname]
        intro hm
        simpa using List.mem_takeWhile_imp hm
      · rw [← hname, ← hrest, List.takeWhile_append_dropWhile]
    · cases h
  · rintro ⟨name, arguments, ⟨hnamed, hbracket, ending, hending, rfl⟩, rfl⟩
    have hplain : ∀ c ∈ name, (c != '(') = true := by
      intro c hc
      have hne : c ≠ '(' := fun he => hbracket (he ▸ hc)
      simpa using hne
    have harguments : beforeClosing? (arguments ++ ')' :: ending) = some arguments :=
      beforeClosing?_eq_some_iff.mpr ⟨ending, hending, rfl⟩
    obtain ⟨c, name, rfl⟩ := List.exists_cons_of_ne_nil hnamed
    rw [List.takeWhile_append_of_pos hplain, List.dropWhile_append_of_pos hplain]
    simp [harguments]

end Invocation

theorem isDelimiter_openBracket : Template.isDelimiter '(' = true := by decide

theorem isDelimiter_closeBracket : Template.isDelimiter ')' = true := by decide

namespace Convention

theorem invocation_eq_ok (conv : Convention) {name gap arguments : List Char}
    (hname : isName name = true) (hgap : ∀ c ∈ gap, isBlank c = true) :
    conv.invocation (String.ofList (name ++ (gap ++ '(' :: (arguments ++ [')'])))) =
      .ok ⟨String.ofList (name ++ gap),
        String.ofList (trimMargin (Template.expanded conv.accessor.toList arguments))⟩ := by
  have hplain : ∀ d, isNameChar d = false → isBlank d = false → d ∉ name ++ gap := by
    intro d hd hb hm
    rcases List.mem_append.mp hm with hm | hm
    · rw [isNameChar_of_mem_isName hname d hm] at hd
      cases hd
    · rw [hgap d hm] at hb
      cases hb
  have hexpanded : Template.expanded conv.accessor.toList
      (name ++ (gap ++ '(' :: (arguments ++ [')']))) =
      (name ++ gap) ++ '(' :: (Template.expanded conv.accessor.toList arguments ++ [')']) := by
    rw [← List.append_assoc, Template.expanded_append_delimiter isDelimiter_openBracket,
      Template.expanded_append_delimiter isDelimiter_closeBracket,
      Template.expanded_of_not_mem _ (hplain '$' (by decide) (by decide)),
      Template.expanded_of_not_mem _ List.not_mem_nil]
  have hnamed : name ++ gap ≠ [] := by
    rintro hnil
    rw [(List.append_eq_nil_iff.mp hnil).1] at hname
    cases hname
  have hform : Invocation.Form (conv.substitute (String.ofList
      (name ++ (gap ++ '(' :: (arguments ++ [')']))))).toList (name ++ gap)
      (Template.expanded conv.accessor.toList arguments) := by
    refine ⟨hnamed, hplain '(' (by decide) (by decide), [], .inl rfl, ?_⟩
    rw [substitute, String.toList_ofList, String.toList_ofList]
    exact hexpanded
  unfold invocation
  simp only [Invocation.of?_eq_some_iff.mpr ⟨_, _, hform, rfl⟩]

theorem exists_invocation_iff (conv : Convention) (template : String) :
    (∃ invocation, conv.invocation template = .ok invocation) ↔
      Invocation.IsCall (conv.substitute template) := by
  unfold invocation Invocation.IsCall
  dsimp only
  constructor
  · rintro ⟨found, h⟩
    split at h
    · next hof =>
      obtain ⟨name, arguments, hform, -⟩ := Invocation.of?_eq_some_iff.mp hof
      exact ⟨name, arguments, hform⟩
    · cases h
  · rintro ⟨name, arguments, hform⟩
    rw [Invocation.of?_eq_some_iff.mpr ⟨name, arguments, hform, rfl⟩]
    exact ⟨_, rfl⟩

theorem invocation_eq_error (conv : Convention) {template : String}
    (h : ¬Invocation.IsCall (conv.substitute template)) :
    conv.invocation template = .error ⟨conv.substitute template⟩ := by
  rw [← exists_invocation_iff, not_exists] at h
  unfold invocation at h ⊢
  dsimp only at h ⊢
  split
  · next found hof =>
    rw [hof] at h
    exact absurd rfl (h found)
  · rfl

theorem invocation_isOk (conv : Convention) {template : String}
    (h : TemplateForm template.toList) :
    ∃ invocation, conv.invocation template = .ok invocation := by
  generalize hcs : template.toList = cs at h
  cases h with
  | call hname hgap _ _ =>
    rw [← String.ofList_toList (s := template), hcs]
    exact ⟨_, conv.invocation_eq_ok hname hgap⟩

end Convention

end CommandGrammar
