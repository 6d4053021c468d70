import CommandGrammar.Proofs.Grammar.WellFormed
import CommandGrammar.Proofs.Text.Classes

set_option autoImplicit false
set_option relaxedAutoImplicit false

namespace CommandGrammar

open Text

/-- A declaration of a state: `state NAME:` from the first column on, and blanks after it. -/
inductive Declares : List Char → String → Prop where
  | state {name : String} {margin : List Char} : isWord isStateChar name.toList = true →
      Blanks margin → Declares ("state ".toList ++ (name.toList ++ ':' :: margin)) name

def Captures (text : List Char) : Prop :=
  ∃ name gap rest, isWord isIdentifierChar name = true ∧ Blanks gap ∧
    text = name ++ (gap ++ '=' :: rest)

/-- The left side of a definition: the identifier, if it begins with one, and the tokens. -/
inductive LeftForm : List Char → Option String → List Char → Prop where
  | captured {margin gap space segment : List Char} {name : String} : Blanks margin →
      isWord isIdentifierChar name.toList = true → Blanks gap → Blanks space →
      FlushStart segment →
      LeftForm (margin ++ (name.toList ++ (gap ++ '=' :: (space ++ segment)))) (some name) segment
  | plain {margin segment : List Char} : Blanks margin → FlushStart segment →
      ¬Captures segment → LeftForm (margin ++ segment) none segment

/-- The tokens of a definition: one or more, with commas between them, once all blanks are gone. -/
structure TokensForm (segment : List Char) (tokens : List String) : Prop where
  nonempty : tokens ≠ []
  each : ∀ token ∈ tokens, TokenForm token.toList
  text : (segment.filter fun c => !isBlank c) = [','].intercalate (tokens.map String.toList)

/-- The trimmed right side of a definition: nothing, a state, or a call with or without a state to
return to. -/
inductive ActionForm : List Char → Action → Prop where
  | stay : ActionForm [] .stay
  | transition {target : String} : isWord isStateChar target.toList = true →
      ActionForm target.toList (.transition target)
  | call {gap : List Char} {template : String} : Blanks gap → TemplateForm template.toList →
      ActionForm ("call ".toList ++ (gap ++ template.toList)) (.call ⟨template, none⟩)
  | callReturning {gap before after : List Char} {template state : String} : Blanks gap →
      TemplateForm template.toList → Blanks before → Blanks after →
      isWord isStateChar state.toList = true →
      ActionForm
        ("call ".toList ++ (gap ++ (template.toList ++ (before ++ ';' :: (after ++ state.toList)))))
        (.call ⟨template, some state⟩)

/-- A definition: the left side, the first arrow, and the right side. -/
inductive Defines : List Char → Option String → List String → Action → Prop where
  | arrow {left segment right : List Char} {identifier : Option String} {tokens : List String}
      {action : Action} : ¬HasArrow left → LeftForm left identifier segment →
      TokensForm segment tokens → ActionForm (trim right) action →
      Defines (left ++ '-' :: '>' :: right) identifier tokens action

theorem exists_toList (cs : List Char) : ∃ text : String, text.toList = cs :=
  ⟨String.ofList cs, String.toList_ofList⟩

theorem isPrefixOf?_append (front rest : List Char) : List.isPrefixOf? front (front ++ rest) =
    some rest :=
  List.isPrefixOf?_eq_some_iff_append_eq.mpr rfl

theorem declares_of_declaredState? {line name : List Char} (h : declaredState? line = some name) :
    Declares line (String.ofList name) := by
  have hword := isWord_of_declaredState h
  unfold declaredState? at h
  split at h
  · cases h
  · next rest hstate =>
    dsimp only at h
    split at h
    · next tail hcolon =>
      split at h
      · next htail =>
        cases h
        have hname := String.toList_ofList (l := rest.takeWhile isStateChar)
        have hline : line = "state ".toList ++
            ((String.ofList (rest.takeWhile isStateChar)).toList ++ ':' :: tail) := by
          rw [hname, ← hcolon, List.takeWhile_append_dropWhile]
          exact (List.isPrefixOf?_eq_some_iff_append_eq.mp hstate).symm
        simp only [Bool.and_eq_true, List.all_eq_true] at htail
        rw [hline]
        exact .state (by rwa [hname]) htail.2
      · cases h
    · cases h

theorem declaredState?_of_declares {line : List Char} {name : String} (h : Declares line name) :
    declaredState? line = some name.toList := by
  obtain @⟨_, margin, hword, hmargin⟩ := h
  have stop : ∀ c ∈ (':' :: margin).head?, isStateChar c = false := by
    rintro _ ⟨⟩
    decide
  obtain ⟨hne, hall⟩ := isWord_iff.mp hword
  have hblank : margin.all isBlank = true := List.all_eq_true.mpr hmargin
  unfold declaredState?
  rw [isPrefixOf?_append]
  dsimp only
  rw [takeWhile_word_append hall stop, dropWhile_word_append hall stop]
  simp only [hblank, List.isEmpty_eq_false_iff.mpr hne, Bool.not_false, Bool.and_self, if_true]

theorem Declares.not_hasArrow {line : List Char} {name : String} (h : Declares line name) :
    ¬HasArrow line := by
  cases h with
  | @state _ margin hword hmargin =>
    apply not_hasArrow_of_not_mem
    have hname : '-' ∉ name.toList := not_mem_of_isWord hword (by decide)
    have hend : '-' ∉ margin := hmargin.not_mem (by decide)
    simp [hname, hend]

namespace DefinitionParts

theorem identifier?_append {name gap : List Char} (hname : isWord isIdentifierChar name = true)
    (hgap : Blanks gap) (tail : List Char) :
    identifier? (name ++ (gap ++ '=' :: tail)) = some (name, trimStart tail) := by
  have stop := stop_of_blanks (fun _ => isNameChar_of_isIdentifierChar) (d := '=') (by decide)
    hgap tail
  obtain ⟨hne, hall⟩ := isWord_iff.mp hname
  have hsign : trimStart (gap ++ '=' :: tail) = '=' :: tail := by
    rw [trimStart_append hgap]
    rfl
  unfold identifier?
  rw [takeWhile_word_append hall stop, dropWhile_word_append hall stop, hsign]
  simp [hne]

theorem parts_of_identifier? {text name rest : List Char}
    (h : identifier? text = some (name, rest)) : isWord isIdentifierChar name = true ∧
      ∃ gap tail, Blanks gap ∧ text = name ++ (gap ++ '=' :: tail) ∧ rest = trimStart tail := by
  refine ⟨(identifier?_parts h).1, ?_⟩
  unfold identifier? at h
  dsimp only at h
  split at h
  · next tail hsign =>
    split at h
    · cases h
    · cases h
      obtain ⟨gap, hgap, hrest⟩ := exists_margin (text.dropWhile isIdentifierChar)
      refine ⟨gap, tail, hgap, ?_, rfl⟩
      rw [← hsign, ← hrest, List.takeWhile_append_dropWhile]
  · cases h

theorem identifier?_eq_none {text : List Char} (h : ¬Captures text) : identifier? text = none := by
  cases hfound : identifier? text with
  | none => rfl
  | some found =>
    obtain ⟨hname, gap, tail, hgap, htext, -⟩ := parts_of_identifier? hfound
    exact absurd ⟨_, gap, tail, hname, hgap, htext⟩ h

theorem isOneLine_of_not_mem {text : List Char} (h : '\n' ∉ text) : isOneLine text = true := by
  have htrim : '\n' ∉ trim text := fun hm => h (trim_subset text hm)
  simp [isOneLine, htrim]

theorem not_hasArrow_of_cutArrow {text before after : List Char} (line : '\n' ∉ text)
    (h : cutArrow text = some (before, after)) : ¬HasArrow before := by
  induction text generalizing before with
  | nil => cases h
  | cons c cs ih =>
    rw [List.mem_cons, not_or] at line
    have htail : isOneLine cs.tail = true :=
      isOneLine_of_not_mem fun hm => line.2 (List.mem_of_mem_tail hm)
    rw [cutArrow, htail] at h
    split at h
    · cases h
      exact not_hasArrow_of_not_mem List.not_mem_nil
    · next hno =>
      rw [if_neg (Ne.symm line.1)] at h
      obtain ⟨⟨before', after'⟩, hcut, he⟩ := Option.map_eq_some_iff.mp h
      cases he
      rw [hasArrow_cons_iff, not_or]
      refine ⟨?_, ih line.2 hcut⟩
      -- an arrow made of this character and the next would have been cut at
      rintro ⟨rfl, hhead⟩
      apply hno
      rw [eq_of_cutArrow hcut, List.head?_append, hhead]
      rfl

theorem cutArrow_append {before after : List Char} (harrow : ¬HasArrow before)
    (line : '\n' ∉ before ++ '-' :: '>' :: after) :
    cutArrow (before ++ '-' :: '>' :: after) = some (before, after) := by
  induction before with
  | nil =>
    have hafter : isOneLine after = true := isOneLine_of_not_mem fun hm => line (by simp [hm])
    simp [cutArrow, hafter]
  | cons c before ih =>
    rw [List.cons_append, List.mem_cons, not_or] at line
    rw [hasArrow_cons_iff, not_or] at harrow
    have hno : ¬(c = '-' ∧ (before ++ '-' :: '>' :: after).head? = some '>') := by
      rintro ⟨hc, hhead⟩
      apply harrow.1
      refine ⟨hc, ?_⟩
      cases before with
      | nil => simp at hhead
      | cons d before => exact hhead
    rw [List.cons_append, cutArrow, if_neg, if_neg (Ne.symm line.1), ih harrow.2 line.2]
    · rfl
    · simp only [Bool.and_eq_true, decide_eq_true_eq, beq_iff_eq]
      exact fun h => hno h.1

theorem not_hasArrow_of_cutArrow_eq_none {text : List Char} (line : '\n' ∉ text)
    (h : cutArrow text = none) : ¬HasArrow text := by
  induction text with
  | nil => exact not_hasArrow_of_not_mem List.not_mem_nil
  | cons c cs ih =>
    rw [List.mem_cons, not_or] at line
    have htail : isOneLine cs.tail = true :=
      isOneLine_of_not_mem fun hm => line.2 (List.mem_of_mem_tail hm)
    rw [cutArrow, htail] at h
    split at h
    · cases h
    · next hno =>
      rw [if_neg (Ne.symm line.1), Option.map_eq_none_iff] at h
      rw [hasArrow_cons_iff, not_or]
      refine ⟨?_, ih line.2 h⟩
      rintro ⟨rfl, hhead⟩
      apply hno
      rw [hhead]
      rfl

def name? (parts : DefinitionParts) : Option String :=
  parts.identifier.map String.ofList

theorem of?_of_captured {line name rest : List Char}
    (h : identifier? (trimStart line) = some (name, rest)) :
    of? line = (cutArrow rest).map fun parts =>
      ⟨some name, parts.1, columnOf line rest, trim parts.2,
        columnOf line (trimStart parts.2)⟩ := by
  simp only [of?, h]

theorem of?_of_plain {line : List Char} (h : identifier? (trimStart line) = none) :
    of? line = (cutArrow (trimStart line)).map fun parts =>
      ⟨none, parts.1, columnOf line (trimStart line), trim parts.2,
        columnOf line (trimStart parts.2)⟩ := by
  simp only [of?, h]

/-- What is read of a line before its tokens when it begins with an identifier: no dash is in it,
and it is the front of a left side with any tokens. -/
theorem exists_front_of_captured {line name rest : List Char}
    (h : identifier? (trimStart line) = some (name, rest)) :
    ∃ front, line = front ++ rest ∧ '-' ∉ front ∧ FlushStart rest ∧
      ∀ segment, FlushStart segment →
        LeftForm (front ++ segment) (some (String.ofList name)) segment := by
  obtain ⟨margin, hmargin, hline⟩ := exists_margin line
  obtain ⟨hname, gap, tail, hgap, hbody, htrim⟩ := parts_of_identifier? h
  obtain ⟨space, hspace, htail⟩ := exists_margin tail
  refine ⟨margin ++ (name ++ (gap ++ '=' :: space)), ?_, ?_, ?_, ?_⟩
  · rw [hline, hbody, htail, ← htrim]
    simp
  · have h₁ : '-' ∉ margin := hmargin.not_mem (by decide)
    have h₂ : '-' ∉ name := not_mem_of_isWord hname (by decide)
    have h₃ : '-' ∉ gap := hgap.not_mem (by decide)
    have h₄ : '-' ∉ space := hspace.not_mem (by decide)
    simp [h₁, h₂, h₃, h₄]
  · rw [htrim]
    exact flushStart_trimStart tail
  · intro segment hflush
    obtain ⟨name, rfl⟩ := exists_toList name
    rw [String.ofList_toList]
    have hform := LeftForm.captured hmargin hname hgap hspace hflush
    simpa using hform

theorem leftForm_of_captured {line name rest before right : List Char}
    (h : identifier? (trimStart line) = some (name, rest))
    (hrest : rest = before ++ '-' :: '>' :: right) (harrow : ¬HasArrow before) :
    ∃ left, line = left ++ '-' :: '>' :: right ∧ ¬HasArrow left ∧
      LeftForm left (some (String.ofList name)) before := by
  obtain ⟨front, hline, hdash, hflush, hform⟩ := exists_front_of_captured h
  have hbefore : FlushStart before := by
    apply flushStart_of_append
    rw [← hrest]
    exact hflush
  refine ⟨front ++ before, ?_, ?_, hform before hbefore⟩
  · rw [hline, hrest, List.append_assoc]
  · rwa [hasArrow_append_of_not_mem hdash]

theorem leftForm_of_plain {line before right : List Char}
    (h : identifier? (trimStart line) = none)
    (hbody : trimStart line = before ++ '-' :: '>' :: right) (harrow : ¬HasArrow before) :
    ∃ left, line = left ++ '-' :: '>' :: right ∧ ¬HasArrow left ∧ LeftForm left none before := by
  obtain ⟨margin, hmargin, hline⟩ := exists_margin line
  have hflush : FlushStart before := by
    apply flushStart_of_append
    rw [← hbody]
    exact flushStart_trimStart line
  have hplain : ¬Captures before := by
    rintro ⟨name, gap, rest, hname, hgap, rfl⟩
    rw [hbody, List.append_assoc, List.append_assoc, List.cons_append,
      identifier?_append hname hgap] at h
    cases h
  have hdash : '-' ∉ margin := hmargin.not_mem (by decide)
  refine ⟨margin ++ before, ?_, ?_, .plain hmargin hflush hplain⟩
  · rw [List.append_assoc, ← hbody]
    exact hline
  · rwa [hasArrow_append_of_not_mem hdash]

theorem form_of_of? {line : List Char} {parts : DefinitionParts} (newline : '\n' ∉ line)
    (h : of? line = some parts) :
    ∃ left right, line = left ++ '-' :: '>' :: right ∧ ¬HasArrow left ∧
      LeftForm left parts.name? parts.tokens ∧ parts.action = trim right ∧
      parts.tokensColumn = columnOf line (parts.tokens ++ '-' :: '>' :: right) ∧
      parts.actionColumn = columnOf line (trimStart right) := by
  have hbody : '\n' ∉ trimStart line := fun hm => newline (trimStart_subset line hm)
  cases hfound : identifier? (trimStart line) with
  | none =>
    rw [of?_of_plain hfound] at h
    obtain ⟨⟨before, right⟩, hcut, rfl⟩ := Option.map_eq_some_iff.mp h
    have harrow := not_hasArrow_of_cutArrow hbody hcut
    have hsplit := eq_of_cutArrow hcut
    obtain ⟨left, hline, hleft, hform⟩ := leftForm_of_plain hfound hsplit harrow
    exact ⟨left, right, hline, hleft, hform, rfl, congrArg (columnOf line) hsplit, rfl⟩
  | some found =>
    obtain ⟨name, rest⟩ := found
    rw [of?_of_captured hfound] at h
    obtain ⟨⟨before, right⟩, hcut, rfl⟩ := Option.map_eq_some_iff.mp h
    have hrest : '\n' ∉ rest := fun hm => hbody ((identifier?_parts hfound).2 hm)
    have harrow := not_hasArrow_of_cutArrow hrest hcut
    have hsplit := eq_of_cutArrow hcut
    obtain ⟨left, hline, hleft, hform⟩ := leftForm_of_captured hfound hsplit harrow
    exact ⟨left, right, hline, hleft, hform, rfl, congrArg (columnOf line) hsplit, rfl⟩

theorem not_hasArrow_of_of?_eq_none {line : List Char} (newline : '\n' ∉ line)
    (h : of? line = none) : ¬HasArrow line := by
  cases hfound : identifier? (trimStart line) with
  | none =>
    obtain ⟨margin, hmargin, hline⟩ := exists_margin line
    have hdash : '-' ∉ margin := hmargin.not_mem (by decide)
    have hbody : '\n' ∉ trimStart line := fun hm => newline (trimStart_subset line hm)
    rw [of?_of_plain hfound, Option.map_eq_none_iff] at h
    rw [hline, hasArrow_append_of_not_mem hdash]
    exact not_hasArrow_of_cutArrow_eq_none hbody h
  | some found =>
    obtain ⟨name, rest⟩ := found
    obtain ⟨front, hline, hdash, -⟩ := exists_front_of_captured hfound
    have hrest : '\n' ∉ rest := fun hm => newline (hline ▸ List.mem_append_right front hm)
    rw [of?_of_captured hfound, Option.map_eq_none_iff] at h
    rw [hline, hasArrow_append_of_not_mem hdash]
    exact not_hasArrow_of_cutArrow_eq_none hrest h

theorem captures_of_captures_append {segment right : List Char}
    (h : Captures (segment ++ '-' :: '>' :: right)) : Captures segment := by
  obtain ⟨name, gap, rest, hname, hgap, he⟩ := h
  have hdash : '-' ∉ name ++ (gap ++ ['=']) := by
    have hn : '-' ∉ name := not_mem_of_isWord hname (by decide)
    have hg : '-' ∉ gap := hgap.not_mem (by decide)
    simp [hn, hg]
  have hfront : segment ++ '-' :: '>' :: right = (name ++ (gap ++ ['='])) ++ rest := by
    rw [he]
    simp
  obtain ⟨between, hsegment, harrow⟩ | ⟨between, hlong, -⟩ := List.append_eq_append_iff.mp hfront
  · -- the arrow would begin before the sign
    cases between with
    | nil => exact ⟨name, gap, [], hname, hgap, by simpa using hsegment.symm⟩
    | cons c between =>
      have hc : '-' = c := (List.cons.inj harrow).1
      have hm : c ∈ name ++ (gap ++ ['=']) :=
        hsegment ▸ List.mem_append_right segment List.mem_cons_self
      exact absurd (hc ▸ hm) hdash
  · exact ⟨name, gap, between, hname, hgap, by rw [hlong]; simp⟩

theorem flushStart_arrow {segment : List Char} (h : FlushStart segment) (right : List Char) :
    FlushStart (segment ++ '-' :: '>' :: right) := by
  cases segment with
  | nil =>
    rintro _ ⟨⟩
    decide
  | cons c segment => exact h

theorem of?_of_form {left right segment : List Char} {identifier : Option String}
    (newline : '\n' ∉ left ++ '-' :: '>' :: right) (harrow : ¬HasArrow left)
    (hform : LeftForm left identifier segment) :
    ∃ parts, of? (left ++ '-' :: '>' :: right) = some parts ∧ parts.name? = identifier ∧
      parts.tokens = segment ∧ parts.action = trim right := by
  have hsplit : '\n' ∉ left ∧ '\n' ∉ '-' :: '>' :: right := by
    rwa [List.mem_append, not_or] at newline
  cases hform with
  | @captured margin gap space _ name hmargin hname hgap hspace hflush =>
    -- the identifier is taken off first, and the line is cut at the first arrow behind it
    have hstart : FlushStart name.toList := flushStart_of_forall (isBlank_of_mem_identifier hname)
    have hbody : trimStart (margin ++ (name.toList ++ (gap ++ '=' :: (space ++ segment))) ++
        '-' :: '>' :: right) =
        name.toList ++ (gap ++ '=' :: (space ++ (segment ++ '-' :: '>' :: right))) := by
      rw [List.append_assoc, trimStart_append hmargin, trimStart_of_flushStart]
      · simp
      · rw [List.append_assoc, flushStart_append (isWord_iff.mp hname).1]
        exact hstart
    have hfound := identifier?_append hname hgap (space ++ (segment ++ '-' :: '>' :: right))
    rw [← hbody, trimStart_append hspace, trimStart_of_flushStart (flushStart_arrow hflush _)]
      at hfound
    have hsegment : ¬HasArrow segment ∧ '\n' ∉ segment := by
      refine ⟨fun h => harrow ?_, fun h => hsplit.1 (by simp [h])⟩
      exact h.trans ⟨margin ++ (name.toList ++ (gap ++ '=' :: space)), [], by simp⟩
    have hcut : cutArrow (segment ++ '-' :: '>' :: right) = some (segment, right) :=
      cutArrow_append hsegment.1 (by rw [List.mem_append, not_or]; exact ⟨hsegment.2, hsplit.2⟩)
    refine ⟨_, by rw [of?_of_captured hfound, hcut]; rfl, ?_, rfl, rfl⟩
    exact congrArg some String.ofList_toList
  | @plain margin _ hmargin hflush hplain =>
    have hbody : trimStart (margin ++ segment ++ '-' :: '>' :: right) =
        segment ++ '-' :: '>' :: right := by
      rw [List.append_assoc, trimStart_append hmargin,
        trimStart_of_flushStart (flushStart_arrow hflush _)]
    -- what follows the arrow does not make an identifier of the text before it
    have hnone : identifier? (segment ++ '-' :: '>' :: right) = none := by
      apply identifier?_eq_none
      exact fun h => hplain (captures_of_captures_append h)
    have hsegment : ¬HasArrow segment ∧ '\n' ∉ segment :=
      ⟨fun h => harrow (h.trans (List.suffix_append margin segment).isInfix),
        fun h => hsplit.1 (List.mem_append_right margin h)⟩
    have hcut : cutArrow (segment ++ '-' :: '>' :: right) = some (segment, right) :=
      cutArrow_append hsegment.1 (by rw [List.mem_append, not_or]; exact ⟨hsegment.2, hsplit.2⟩)
    rw [← hbody] at hnone
    rw [of?_of_plain hnone, hbody, hcut]
    exact ⟨_, rfl, rfl, rfl, rfl⟩

end DefinitionParts

end CommandGrammar
