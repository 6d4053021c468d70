import CommandGrammar.Proofs.Grammar.FirstFault
import CommandGrammar.Proofs.Grammar.Reading
import CommandGrammar.Proofs.Joining.Idempotent

/-!
What the caret of a diagnostic points at.

A fault quotes the whole joined line that it names, and its column is that of the part that is at
fault: the stray arrow, the tokens in front of the first arrow, or the action behind it. A line that
is at fault as a whole is pointed at by its first column. So the caret always stands below a
character of the quoted line.
-/

set_option autoImplicit false
set_option relaxedAutoImplicit false

namespace CommandGrammar

open Text

/-- A line is cut where the tokens of its definition begin: behind the margin, and behind the
identifier and its equality sign if there are any. The tokens reach up to the first arrow. -/
inductive TokensAt : List Char → List Char → List Char → Prop where
  | arrow {before segment right : List Char} {identifier : Option String} :
      ¬HasArrow (before ++ segment) → LeftForm (before ++ segment) identifier segment →
      TokensAt before segment (segment ++ '-' :: '>' :: right)

/-- A line is cut where the action of its definition begins: behind the first arrow and the blanks
after it. The action reaches up to the blanks at the end. -/
inductive ActionAt : List Char → List Char → List Char → Prop where
  | arrow {left gap action margin : List Char} : ¬HasArrow left → Blanks gap →
      FlushStart action → FlushEnd action → Blanks margin →
      ActionAt (left ++ '-' :: '>' :: gap) action (action ++ margin)

/-- What a cause points at in a joined line: the text of the line in front of the caret, and the
text from the caret on. -/
inductive PointsAt : Cause → List Char → List Char → Prop where
  | malformedDefinition {line : List Char} : line ≠ [] → ¬HasArrow line →
      (∀ name, ¬Declares line name) → PointsAt .malformedDefinition [] line
  | definitionOutsideState {line : List Char} : HasArrow line →
      PointsAt .definitionOutsideState [] line
  | noTokens {before segment after : List Char} : TokensAt before segment after →
      Blanks segment → PointsAt .noTokens before after
  | malformedToken {before segment after : List Char} {token : String} :
      TokensAt before segment after →
      token.toList ∈ (segment.filter fun c => !isBlank c).splitOn ',' →
      ¬TokenForm token.toList → PointsAt (.malformedToken token) before after
  | malformedCall {before after : List Char} {action : String} :
      ActionAt before action.toList after → "call ".toList <+: action.toList →
      (∀ meaning, ¬ActionForm action.toList meaning) → PointsAt (.malformedCall action) before after
  | malformedAction {before after : List Char} {action : String} :
      ActionAt before action.toList after → ¬"call ".toList <+: action.toList →
      (∀ meaning, ¬ActionForm action.toList meaning) →
      PointsAt (.malformedAction action) before after

theorem PointsAt.ne_nil {cause : Cause} {before after : List Char}
    (h : PointsAt cause before after) : after ≠ [] := by
  -- an action that is nothing means staying, so none of the faulty ones is empty
  have hmeaningless : ∀ action : String, (∀ meaning, ¬ActionForm action.toList meaning) →
      action.toList ≠ [] := by
    intro action hnone hempty
    apply hnone .stay
    rw [hempty]
    exact .stay
  cases h with
  | malformedDefinition hline => exact hline
  | definitionOutsideState harrow =>
    exact fun hnil => not_hasArrow_of_not_mem List.not_mem_nil (hnil ▸ harrow)
  | noTokens htokens =>
    cases htokens
    exact List.append_ne_nil_of_right_ne_nil _ (List.cons_ne_nil _ _)
  | malformedToken htokens =>
    cases htokens
    exact List.append_ne_nil_of_right_ne_nil _ (List.cons_ne_nil _ _)
  | malformedCall haction _ hnone =>
    cases haction
    exact List.append_ne_nil_of_left_ne_nil (hmeaningless _ hnone) _
  | malformedAction haction _ hnone =>
    cases haction
    exact List.append_ne_nil_of_left_ne_nil (hmeaningless _ hnone) _

theorem LeftForm.exists_front {left segment : List Char} {identifier : Option String}
    (h : LeftForm left identifier segment) : ∃ front, left = front ++ segment := by
  cases h with
  | @captured margin gap space _ name =>
    exact ⟨margin ++ (name.toList ++ (gap ++ '=' :: space)), by simp⟩
  | @plain margin => exact ⟨margin, rfl⟩

namespace DefinitionParts

theorem columnOf_append (front rest : List Char) :
    columnOf (front ++ rest) rest = front.length + 1 := by
  simp [columnOf]

theorem tokensAt_of_of? {line : List Char} {parts : DefinitionParts} (newline : '\n' ∉ line)
    (h : of? line = some parts) : ∃ before after, line = before ++ after ∧
      parts.tokensColumn = before.length + 1 ∧ TokensAt before parts.tokens after := by
  obtain ⟨left, right, hline, harrow, hleft, -, hcolumn, -⟩ := form_of_of? newline h
  obtain ⟨before, rfl⟩ := hleft.exists_front
  rw [List.append_assoc] at hline
  refine ⟨before, parts.tokens ++ '-' :: '>' :: right, hline, ?_, .arrow harrow hleft⟩
  rw [hcolumn, hline, columnOf_append]

theorem actionAt_of_of? {line : List Char} {parts : DefinitionParts} (newline : '\n' ∉ line)
    (h : of? line = some parts) : ∃ before after, line = before ++ after ∧
      parts.actionColumn = before.length + 1 ∧ ActionAt before parts.action after := by
  obtain ⟨left, right, hline, harrow, -, haction, -, hcolumn⟩ := form_of_of? newline h
  -- what is right of the arrow is a gap, the action, and a margin
  obtain ⟨gap, hgap, hright⟩ := exists_margin right
  obtain ⟨margin, hmargin, htrimmed⟩ := exists_endMargin (trimStart right)
  have hflush := trimmed_trimWhile isBlank right
  have hcut : line = (left ++ '-' :: '>' :: gap) ++ trimStart right := by
    rw [hline, List.append_assoc]
    exact congrArg (left ++ '-' :: '>' :: ·) hright
  have hafter : trimStart right = parts.action ++ margin := by
    rw [haction]
    exact htrimmed
  refine ⟨left ++ '-' :: '>' :: gap, trimStart right, hcut, ?_, ?_⟩
  · rw [hcolumn, hcut, columnOf_append]
  · rw [hafter, haction]
    exact .arrow harrow hgap hflush.start hflush.ending hmargin

end DefinitionParts

theorem readTokens_eq_error {segment : List Char} {cause : Cause}
    (h : readTokens segment = .error cause) :
    (cause = .noTokens ∧ Blanks segment) ∨
      ∃ token : String, cause = .malformedToken token ∧
        token.toList ∈ (segment.filter fun c => !isBlank c).splitOn ',' ∧
        ¬TokenForm token.toList := by
  unfold readTokens at h
  split at h
  · next hnone =>
    cases h
    refine .inl ⟨rfl, ?_⟩
    intro c hc
    simpa using List.filter_eq_nil_iff.mp hnone c hc
  · obtain ⟨piece, hpiece, hfails⟩ := Outcome.exists_mem_of_mapM_eq_error h
    have hform : ¬TokenForm piece := by
      intro hform
      rw [readToken_of_tokenForm hform] at hfails
      cases hfails
    have hcause : .malformedToken (String.ofList piece) = cause := by
      unfold readToken at hfails
      split at hfails
      · cases hfails
      · exact Except.error.inj hfails
    refine .inr ⟨String.ofList piece, hcause.symm, ?_, ?_⟩
    · rwa [String.toList_ofList]
    · rwa [String.toList_ofList]

theorem readAction_eq_error {text : List Char} {cause : Cause}
    (h : readAction text = .error cause) : (∀ meaning, ¬ActionForm text meaning) ∧
      ((cause = .malformedCall (String.ofList text) ∧ "call ".toList <+: text) ∨
        (cause = .malformedAction (String.ofList text) ∧ ¬"call ".toList <+: text)) := by
  constructor
  · intro meaning hform
    rw [readAction_of_actionForm hform] at h
    cases h
  · unfold readAction at h
    split at h
    · cases h
    · split at h
      · next rest hcall =>
        dsimp only at h
        split at h
        · cases h
        · have hprefix := List.isPrefixOf?_eq_some_iff_append_eq.mp hcall
          exact .inl ⟨(Except.error.inj h).symm, rest, hprefix⟩
      · next hnone =>
        split at h
        · cases h
        · refine .inr ⟨(Except.error.inj h).symm, ?_⟩
          rintro ⟨rest, rfl⟩
          rw [isPrefixOf?_append] at hnone
          cases hnone

theorem pointsAt_of_readTokens {before segment after : List Char} {cause : Cause}
    (htokens : TokensAt before segment after) (h : readTokens segment = .error cause) :
    PointsAt cause before after := by
  obtain ⟨rfl, hblank⟩ | ⟨token, rfl, htoken, hform⟩ := readTokens_eq_error h
  · exact .noTokens htokens hblank
  · exact .malformedToken htokens htoken hform

theorem pointsAt_of_readAction {before text after : List Char} {cause : Cause}
    (haction : ActionAt before text after) (h : readAction text = .error cause) :
    PointsAt cause before after := by
  obtain ⟨action, rfl⟩ := exists_toList text
  obtain ⟨hnone, ⟨hcause, hcall⟩ | ⟨hcause, hcall⟩⟩ := readAction_eq_error h
  · rw [String.ofList_toList] at hcause
    rw [hcause]
    exact .malformedCall haction hcall hnone
  · rw [String.ofList_toList] at hcause
    rw [hcause]
    exact .malformedAction haction hcall hnone

theorem Statement.of?_eq_none {line : String} (h : Statement.of? line = none) :
    (∀ name, ¬Declares line.toList name) ∧ DefinitionParts.of? line.toList = none := by
  have hnone : ∀ name, ¬Declares line.toList name := by
    intro name hdeclares
    rw [Statement.of?_of_declares hdeclares] at h
    cases h
  rw [Statement.of?_of_not_declares hnone, Option.map_eq_none_iff] at h
  exact ⟨hnone, h⟩

def JoinedLine.FaultPointed (line : JoinedLine) (fault : Fault) : Prop :=
  ∃ cause before after, line.text.toList = before ++ after ∧
    fault = line.fault cause (before.length + 1) ∧ PointsAt cause before after

namespace Grammar

theorem faultPointed_of_rules {line : JoinedLine} {parts : DefinitionParts} {fault : Fault}
    (newline : '\n' ∉ line.text.toList) (hparts : DefinitionParts.of? line.text.toList = some parts)
    (h : parts.rules line = .error fault) : line.FaultPointed fault := by
  rcases Outcome.bind_eq_error.mp h with htokens | ⟨tokens, -, h⟩
  · obtain ⟨cause, hcause, rfl⟩ := Outcome.mapError_eq_error.mp htokens
    obtain ⟨before, after, hline, hcolumn, hat⟩ := DefinitionParts.tokensAt_of_of? newline hparts
    refine ⟨cause, before, after, hline, ?_, pointsAt_of_readTokens hat hcause⟩
    rw [hcolumn]
  · rcases Outcome.bind_eq_error.mp h with haction | ⟨action, -, h⟩
    · obtain ⟨cause, hcause, rfl⟩ := Outcome.mapError_eq_error.mp haction
      obtain ⟨before, after, hline, hcolumn, hat⟩ := DefinitionParts.actionAt_of_of? newline hparts
      refine ⟨cause, before, after, hline, ?_, pointsAt_of_readAction hat hcause⟩
      rw [hcolumn]
    · cases h

theorem faultPointed_of_step {p : Progress} {line : JoinedLine} {fault : Fault}
    (newline : '\n' ∉ line.text.toList) (nonempty : line.text.toList ≠ [])
    (h : p.step line = .error fault) : line.FaultPointed fault := by
  unfold Progress.step at h
  split at h
  · cases h
  · next parts hstatement =>
    have hparts := Statement.of?_eq_definition hstatement
    split at h
    · cases h
      obtain ⟨left, right, hline, -⟩ := DefinitionParts.form_of_of? newline hparts
      have harrow : HasArrow line.text.toList := by
        rw [hline]
        exact hasArrow_append_arrow left right
      exact ⟨_, [], _, rfl, rfl, .definitionOutsideState harrow⟩
    · rcases Outcome.bind_eq_error.mp h with hrules | ⟨rules, -, h⟩
      · exact faultPointed_of_rules newline hparts hrules
      · cases h
  · next hstatement =>
    cases h
    obtain ⟨hdeclares, hparts⟩ := Statement.of?_eq_none hstatement
    have harrow := DefinitionParts.not_hasArrow_of_of?_eq_none newline hparts
    exact ⟨_, [], _, rfl, rfl, .malformedDefinition nonempty harrow hdeclares⟩

/-- What a diagnostic shows, cut at the caret: the whole joined line that begins with physical line
`first`, or a continuation that no line comes before, as it stands, cut at its arrow. -/
inductive Shows (source : String) (first : Nat) :
    Cause → String → List Char → List Char → Prop where
  | physical {text : String} {others : List JoinedLine} {margin rest : List Char} :
      (lines source)[first - 1]? = some text →
      JoinedLine.kept (lines source) = ⟨text, first⟩ :: others → Blanks margin →
      Shows source first .strayContinuation text margin ('-' :: '>' :: rest)
  | joined {cause : Cause} {groups : List JoinedLine.Group} {group : JoinedLine.Group}
      {before after : List Char} : JoinedLine.Divided (JoinedLine.kept (lines source)) groups →
      group ∈ groups → group.head.line = first → PointsAt cause before after →
      Shows source first cause group.joined.text before after

theorem Shows.ne_nil {source snippet : String} {first : Nat} {cause : Cause}
    {before after : List Char} (h : Shows source first cause snippet before after) :
    after ≠ [] := by
  cases h with
  | physical => exact List.cons_ne_nil _ _
  | joined _ _ _ hpoints => exact hpoints.ne_nil

/-- What holds of a fault, the physical line `first` that it names, the line that it shows and its
column: the message is made up of them, and the caret stands below the character at which the part
of the line begins that is at fault. -/
structure PointsInto (source : String) (fault : Fault) (first : Nat) (snippet : String)
    (column : Nat) : Prop where
  names : fault.line = first
  message : fault.diagnostic.body = "line " ++ decimal first ++ ": " ++ fault.cause.description ++
    "\n" ++ snippet ++ "\n" ++ String.ofList (List.replicate (column - 1) ' ') ++ "^"
  suffix : fault.diagnostic.render = fault.diagnostic.body ++ " (line " ++ decimal first ++ ")"
  within : 1 ≤ column ∧ column ≤ snippet.length
  points : Shows source first fault.cause snippet (snippet.toList.take (column - 1))
    (snippet.toList.drop (column - 1))

theorem body_of_fault (line : JoinedLine) (cause : Cause) (column : Nat) :
    (line.fault cause column).diagnostic.body =
      "line " ++ decimal line.line ++ ": " ++ cause.description ++ "\n" ++ line.text ++ "\n" ++
        String.ofList (List.replicate (column - 1) ' ') ++ "^" := by
  have hcolumn : ((column : Int) - 1).toNat = column - 1 := by omega
  have hcaret : String.ofList (List.replicate (column - 1) ' ' ++ ['^']) =
      String.ofList (List.replicate (column - 1) ' ') ++ "^" := String.ofList_append
  simp only [JoinedLine.fault, Fault.diagnostic, Diagnostic.body, Excerpt.render, joinLines,
    String.intercalate_cons_cons, String.intercalate_singleton, hcolumn, hcaret,
    String.append_assoc]

theorem pointsInto_of_shows {source : String} {line : JoinedLine} {first : Nat} {cause : Cause}
    {before after : List Char} (hfirst : line.line = first)
    (htext : line.text.toList = before ++ after)
    (h : Shows source first cause line.text before after) :
    PointsInto source (line.fault cause (before.length + 1)) first line.text
      (before.length + 1) where
  names := hfirst
  message := by
    rw [body_of_fault, hfirst]
    rfl
  suffix := by
    rw [← hfirst]
    rfl
  within := by
    have hafter : 0 < after.length := List.length_pos_of_ne_nil h.ne_nil
    have hlength : line.text.length = before.length + after.length := by
      rw [← String.length_toList, htext, List.length_append]
    omega
  points := by
    rw [Nat.add_sub_cancel, htext, List.take_left, List.drop_left]
    exact h

theorem joined_of_divided {source : String} {groups : List JoinedLine.Group}
    {group : JoinedLine.Group}
    (hdivided : JoinedLine.Divided (JoinedLine.kept (lines source)) groups)
    (hmember : group ∈ groups) :
    '\n' ∉ group.joined.text.toList ∧ group.joined.text.toList ≠ [] := by
  have hjoin := JoinedLine.join_eq_ok_iff.mpr ⟨groups, hdivided, rfl⟩
  have hjoined : group.joined ∈ groups.map JoinedLine.Group.joined := List.mem_map_of_mem hmember
  constructor
  · exact newline_not_mem_of_mem_join (fun _ => newline_not_mem_of_mem_lines) hjoin _ hjoined
  · obtain @⟨margin, rest, c, -, htext, -⟩ := JoinedLine.openingLine_of_mem_join hjoin _ hjoined
    rw [htext]
    simp

theorem pointsInto_of_stray {source : String} {stray : JoinedLine} {others : List JoinedLine}
    (hkept : JoinedLine.kept (lines source) = stray :: others)
    (h : ContinuationLine stray.text) :
    ∃ first snippet column,
      PointsInto source (JoinedLine.strayFault stray.text stray.line) first snippet column := by
  have hmember : stray ∈ JoinedLine.kept (lines source) := by
    rw [hkept]
    exact List.mem_cons_self
  obtain ⟨place, hplace, hphysical, -⟩ := JoinedLine.mem_kept hmember
  have hfirst : stray.line = (place + 1 : Nat) := hplace
  cases h with
  | @arrow margin rest hmargin htext =>
    have hstop : ∀ c ∈ ('-' :: '>' :: rest).head?, isBlank c = false := by
      rintro _ ⟨⟩
      decide
    have hindent : stray.text.toList.takeWhile isBlank = margin := by
      rw [htext]
      exact takeWhile_word_append hmargin hstop
    have hfault : JoinedLine.strayFault stray.text stray.line =
        stray.fault .strayContinuation (margin.length + 1) := by
      unfold JoinedLine.strayFault
      rw [hindent]
      rfl
    have hfront : JoinedLine.kept (lines source) =
        ⟨stray.text, (place + 1 : Nat)⟩ :: others := by
      rw [hkept, ← hfirst]
    have hshows : Shows source (place + 1) .strayContinuation stray.text margin
        ('-' :: '>' :: rest) := .physical hphysical hfront hmargin
    rw [hfault]
    exact ⟨_, _, _, pointsInto_of_shows hfirst htext hshows⟩

theorem pointsInto_of_step {source : String} {groups : List JoinedLine.Group}
    {group : JoinedLine.Group} {p : Progress} {fault : Fault}
    (hdivided : JoinedLine.Divided (JoinedLine.kept (lines source)) groups)
    (hmember : group ∈ groups) (h : p.step group.joined = .error fault) :
    ∃ first snippet column, PointsInto source fault first snippet column := by
  obtain ⟨hnewline, hnonempty⟩ := joined_of_divided hdivided hmember
  obtain ⟨cause, before, after, htext, rfl, hpoints⟩ := faultPointed_of_step hnewline hnonempty h
  obtain ⟨first, hfirst, -⟩ := place_of_mem (hdivided.mem hmember List.mem_cons_self)
  have hshows := Shows.joined hdivided hmember hfirst hpoints
  exact ⟨first, _, _, pointsInto_of_shows hfirst htext hshows⟩

/-- Every diagnostic about a text that cannot be read points into that text. -/
theorem diagnostics_point_into_source {source : String} {fault : Fault}
    (h : read source = .error fault) :
    ∃ first snippet column, PointsInto source fault first snippet column := by
  rcases read_eq_error_cases h with ⟨stray, rest, hkept, harrow, rfl⟩ |
    ⟨before, group, after, hdivided, reached, -, hfault⟩
  · exact pointsInto_of_stray hkept harrow
  · have hmember : group ∈ before ++ group :: after :=
      List.mem_append_right before List.mem_cons_self
    exact pointsInto_of_step hdivided hmember hfault

/-- The caret for the two arrows stands below the action, which reaches over the second arrow. -/
theorem two_arrows_pointed_at : twoArrowsFault.diagnostic.body =
      "line 2: malformed action 'INITIAL  -> OPEN' (expected STATE or 'call ...')\n" ++
        "  'coin' -> INITIAL  -> OPEN\n            ^" ∧
    ∃ first snippet column, PointsInto twoArrowsSource twoArrowsFault first snippet column :=
  ⟨by decide +kernel, diagnostics_point_into_source (by decide +kernel)⟩

end Grammar

end CommandGrammar
