import CommandGrammar.Proofs.Grammar.Forms

set_option autoImplicit false
set_option relaxedAutoImplicit false

namespace CommandGrammar

open Text

theorem TokenForm.ne_nil {token : List Char} (h : TokenForm token) : token ≠ [] := by
  cases h with
  | className h => exact ne_nil_of_isName h
  | literal => exact List.cons_ne_nil _ _

theorem TokenForm.comma_not_mem {token : List Char} (h : TokenForm token) : ',' ∉ token := by
  cases h with
  | className h => exact not_mem_of_isName h (by decide)
  | @literal body _ hbody =>
    have hcomma : ',' ∉ body := fun hm => (hbody ',' hm).2.1 rfl
    simp [hcomma]

theorem TokenForm.isBlank_eq_false {token : List Char} (h : TokenForm token) :
    ∀ c ∈ token, isBlank c = false := by
  cases h with
  | className h => exact isBlank_of_mem_isName h
  | @literal body _ hbody =>
    intro c hc
    rw [List.mem_cons, List.mem_append, List.mem_singleton] at hc
    rcases hc with rfl | hc | rfl
    · decide
    · exact (hbody c hc).2.2
    · decide

theorem isLiteralToken_of_body {body : List Char} (hne : body ≠ [])
    (hbody : ∀ c ∈ body, c ≠ '\'') : isLiteralToken ('\'' :: (body ++ ['\''])) = true := by
  have hword : isWord (· != '\'') body = true :=
    isWord_iff.mpr ⟨hne, fun c hc => by simpa using hbody c hc⟩
  simp [isLiteralToken, hword]

theorem readToken_of_tokenForm {token : List Char} (h : TokenForm token) :
    readToken token = .ok (String.ofList token) := by
  unfold readToken
  cases h with
  | className h => rw [h, Bool.or_true, if_pos rfl]
  | literal hne hbody =>
    rw [isLiteralToken_of_body hne fun c hc => (hbody c hc).1, Bool.true_or, if_pos rfl]

theorem eq_ofList_of_readToken {piece : List Char} {token : String}
    (h : readToken piece = .ok token) : token.toList = piece := by
  unfold readToken at h
  split at h
  · cases h
    exact String.toList_ofList
  · cases h

theorem map_toList_of_readToken {pieces : List (List Char)} {tokens : List String}
    (h : List.Forall₂ (fun piece token => readToken piece = .ok token) pieces tokens) :
    tokens.map String.toList = pieces := by
  induction h with
  | nil => rfl
  | cons h _ ih => rw [List.map_cons, eq_ofList_of_readToken h, ih]

theorem readToken_of_tokenForms {tokens : List String}
    (h : ∀ token ∈ tokens, TokenForm token.toList) :
    List.Forall₂ (fun piece token => readToken piece = .ok token) (tokens.map String.toList)
      tokens := by
  induction tokens with
  | nil => exact .nil
  | cons token tokens ih =>
    rw [List.forall_mem_cons] at h
    refine .cons ?_ (ih h.2)
    rw [readToken_of_tokenForm h.1, String.ofList_toList]

theorem splitOn_of_text {segment : List Char} {tokens : List String}
    (h : TokensForm segment tokens) :
    (segment.filter fun c => !isBlank c).splitOn ',' = tokens.map String.toList := by
  rw [h.text]
  apply List.splitOn_intercalate
  · intro text htext
    obtain ⟨token, htoken, rfl⟩ := List.mem_map.mp htext
    exact (h.each token htoken).comma_not_mem
  · simpa using h.nonempty

theorem readTokens_eq_ok_iff {segment : List Char} {tokens : List String} :
    readTokens segment = .ok tokens ↔ TokensForm segment tokens := by
  constructor
  · intro h
    have each := tokenForm_of_readTokens h
    unfold readTokens at h
    split at h
    · cases h
    · have hpieces := map_toList_of_readToken (Outcome.mapM_eq_ok.mp h)
      refine ⟨?_, each, ?_⟩
      · rintro rfl
        exact List.splitOn_ne_nil _ _ hpieces.symm
      · rw [hpieces, List.intercalate_splitOn]
  · intro h
    have hsplit := splitOn_of_text h
    unfold readTokens
    split
    · next hnil =>
      rw [hnil, List.splitOn_nil] at hsplit
      obtain ⟨token, htoken, hempty⟩ := List.mem_map.mp (hsplit ▸ List.mem_singleton_self [])
      exact absurd hempty (h.each token htoken).ne_nil
    · rw [hsplit]
      exact Outcome.mapM_eq_ok.mpr (readToken_of_tokenForms h.each)

theorem TemplateForm.flushStart {template : List Char} (h : TemplateForm template) :
    FlushStart template := by
  cases h with
  | call hname =>
    rw [flushStart_append (ne_nil_of_isName hname)]
    exact flushStart_of_forall (isBlank_of_mem_isName hname)

theorem TemplateForm.exists_closed {template : List Char} (h : TemplateForm template) :
    ∃ front, template = front ++ [')'] := by
  cases h with
  | @call name gap arguments => exact ⟨name ++ (gap ++ '(' :: arguments), by simp⟩

theorem TemplateForm.flushEnd {template : List Char} (h : TemplateForm template) :
    FlushEnd template := by
  obtain ⟨front, rfl⟩ := h.exists_closed
  rw [flushEnd_append front (List.cons_ne_nil _ _)]
  rintro _ ⟨⟩
  decide

theorem TemplateForm.ne_nil {template : List Char} (h : TemplateForm template) :
    template ≠ [] := by
  obtain ⟨front, rfl⟩ := h.exists_closed
  simp

theorem takeWhile_name {name : List Char} (hname : isName name = true) {gap : List Char}
    (hgap : Blanks gap) (rest : List Char) :
    (name ++ (gap ++ '(' :: rest)).takeWhile isNameChar = name ∧
      (name ++ (gap ++ '(' :: rest)).dropWhile isNameChar = gap ++ '(' :: rest := by
  have stop := stop_of_blanks (fun _ h => h) (d := '(') (by decide) hgap rest
  have hall := isNameChar_of_mem_isName hname
  exact ⟨takeWhile_word_append hall stop, dropWhile_word_append hall stop⟩

theorem isCallTemplate_of_templateForm {template : List Char} (h : TemplateForm template) :
    isCallTemplate template = true := by
  cases h with
  | @call name gap arguments hname hgap _ hline =>
    obtain ⟨htake, hdrop⟩ := takeWhile_name hname hgap (arguments ++ [')'])
    have hopen : trimStart (gap ++ '(' :: (arguments ++ [')'])) = '(' :: (arguments ++ [')']) := by
      rw [trimStart_append hgap]
      rfl
    unfold isCallTemplate
    rw [htake, hdrop, hopen, hname]
    simp [hline]

theorem splitReturnState_template {template : List Char} (h : TemplateForm template) :
    splitReturnState template = (template, none) := by
  obtain ⟨front, hclosed⟩ := h.exists_closed
  unfold splitReturnState
  split
  · next before after hcut =>
    rw [if_neg]
    intro hstate
    have hword := (Bool.and_eq_true_iff.mp hstate).2
    obtain ⟨hne, hall⟩ := isWord_iff.mp hword
    obtain ⟨margin, -, hafter⟩ := exists_margin after
    have hlast : ((before ++ ';' :: margin) ++ trimStart after).getLast? = some ')' := by
      rw [List.append_assoc, List.cons_append, ← hafter, ← eq_of_cutLast hcut, hclosed]
      simp
    rw [List.getLast?_append_of_ne_nil _ hne] at hlast
    have hstop := hall ')' (List.mem_of_getLast? hlast)
    revert hstop
    decide
  · rfl

theorem splitReturnState_returning {template before after state : List Char}
    (h : TemplateForm template) (hbefore : Blanks before) (hafter : Blanks after)
    (hstate : isWord isStateChar state = true) :
    splitReturnState (template ++ (before ++ ';' :: (after ++ state))) =
      (template, some state) := by
  have hmark : ';' ∉ after ++ state := by
    have h₁ : ';' ∉ after := hafter.not_mem (by decide)
    have h₂ : ';' ∉ state := not_mem_of_isWord hstate (by decide)
    simp [h₁, h₂]
  have htrim : trimStart (after ++ state) = state := by
    rw [trimStart_append hafter,
      trimStart_of_flushStart (flushStart_of_forall (isBlank_of_mem_stateName hstate))]
  have hne : (template ++ before).isEmpty = false :=
    List.isEmpty_eq_false_iff.mpr (by simp [h.ne_nil])
  unfold splitReturnState
  rw [← List.append_assoc, cutLast_append _ hmark]
  dsimp only
  rw [htrim, hne, hstate, trimEnd_append hbefore, trimEnd_of_flushEnd h.flushEnd]
  rfl

theorem form_of_splitReturnState {text template : List Char} {state : Option (List Char)}
    (h : splitReturnState text = (template, state)) :
    (text = template ∧ state = none) ∨
      ∃ before after name, state = some name ∧ Blanks before ∧ Blanks after ∧
        isWord isStateChar name = true ∧
        text = template ++ (before ++ ';' :: (after ++ name)) := by
  unfold splitReturnState at h
  split at h
  · next front back hcut =>
    split at h
    · next hstate =>
      cases h
      obtain ⟨before, hbefore, hfront⟩ := exists_endMargin front
      obtain ⟨after, hafter, hback⟩ := exists_margin back
      refine .inr ⟨before, after, _, rfl, hbefore, hafter, (Bool.and_eq_true_iff.mp hstate).2, ?_⟩
      rw [← hback, ← List.append_assoc, ← hfront]
      exact eq_of_cutLast hcut
    · cases h
      exact .inl ⟨rfl, rfl⟩
  · cases h
    exact .inl ⟨rfl, rfl⟩

theorem actionForm_of_call {gap text template : List Char} {state : Option (List Char)}
    (hgap : Blanks gap) (newline : '\n' ∉ text) (hsplit : splitReturnState text = (template, state))
    (htemplate : isCallTemplate template = true) :
    ActionForm ("call ".toList ++ (gap ++ text))
      (.call ⟨String.ofList template, state.map String.ofList⟩) := by
  have hline : '\n' ∉ template := by
    have hsub := (splitReturnState_parts text).1
    rw [hsplit] at hsub
    exact fun hm => newline (hsub hm)
  have hform := templateForm_of_isCallTemplate hline htemplate
  obtain ⟨template, rfl⟩ := exists_toList template
  rw [String.ofList_toList]
  obtain ⟨rfl, rfl⟩ | ⟨before, after, name, rfl, hbefore, hafter, hname, rfl⟩ :=
    form_of_splitReturnState hsplit
  · exact .call hgap hform
  · obtain ⟨name, rfl⟩ := exists_toList name
    rw [Option.map_some, String.ofList_toList]
    exact .callReturning hgap hform hbefore hafter hname

theorem actionForm_of_readAction {text : List Char} {action : Action} (newline : '\n' ∉ text)
    (h : readAction text = .ok action) : ActionForm text action := by
  unfold readAction at h
  split at h
  · next hempty =>
    cases h
    rw [List.isEmpty_iff.mp hempty]
    exact .stay
  · split at h
    · next rest hcall =>
      obtain ⟨gap, hgap, hrest⟩ := exists_margin rest
      have htext : text = "call ".toList ++ (gap ++ trimStart rest) := by
        rw [← hrest]
        exact (List.isPrefixOf?_eq_some_iff_append_eq.mp hcall).symm
      have hline : '\n' ∉ trimStart rest := fun hm => newline (by rw [htext]; simp [hm])
      dsimp only at h
      split at h
      · next htemplate =>
        cases h
        rw [htext]
        exact actionForm_of_call hgap hline rfl htemplate
      · cases h
    · split at h
      · next htarget =>
        cases h
        obtain ⟨target, rfl⟩ := exists_toList text
        rw [String.ofList_toList]
        exact .transition htarget
      · cases h

theorem readAction_call {gap text template : List Char} {state : Option (List Char)}
    (hgap : Blanks gap) (hstart : FlushStart text)
    (hsplit : splitReturnState text = (template, state)) (htemplate : TemplateForm template) :
    readAction ("call ".toList ++ (gap ++ text)) =
      .ok (.call ⟨String.ofList template, state.map String.ofList⟩) := by
  have htrim : trimStart (gap ++ text) = text := by
    rw [trimStart_append hgap, trimStart_of_flushStart hstart]
  have hne : ("call ".toList ++ (gap ++ text)).isEmpty = false := rfl
  unfold readAction
  rw [hne, isPrefixOf?_append]
  dsimp only
  rw [htrim, hsplit]
  dsimp only
  rw [isCallTemplate_of_templateForm htemplate]
  rfl

theorem readAction_transition {target : List Char} (h : isWord isStateChar target = true) :
    readAction target = .ok (.transition (String.ofList target)) := by
  have hne : target.isEmpty = false := List.isEmpty_eq_false_iff.mpr (isWord_iff.mp h).1
  unfold readAction
  rw [hne, h]
  split
  · contradiction
  · split
    · next rest hcall =>
      -- the small letters of the announcement are in no name of a state
      have htarget := List.isPrefixOf?_eq_some_iff_append_eq.mp hcall
      have hc : 'c' ∈ target := by
        rw [← htarget]
        exact List.mem_append_left rest (by decide)
      exact absurd hc (not_mem_of_isWord h (by decide))
    · rfl

theorem readAction_of_actionForm {text : List Char} {action : Action}
    (h : ActionForm text action) : readAction text = .ok action := by
  cases h with
  | stay => rfl
  | transition htarget => rw [readAction_transition htarget, String.ofList_toList]
  | call hgap htemplate =>
    rw [readAction_call hgap htemplate.flushStart (splitReturnState_template htemplate) htemplate,
      String.ofList_toList]
    rfl
  | @callReturning gap before after template state hgap htemplate hbefore hafter hstate =>
    have hstart : FlushStart (template.toList ++ (before ++ ';' :: (after ++ state.toList))) := by
      rw [flushStart_append htemplate.ne_nil]
      exact htemplate.flushStart
    have hsplit := splitReturnState_returning htemplate hbefore hafter hstate
    rw [readAction_call hgap hstart hsplit htemplate, Option.map_some, String.ofList_toList,
      String.ofList_toList]

theorem readAction_eq_ok_iff {text : List Char} {action : Action} (newline : '\n' ∉ text) :
    readAction text = .ok action ↔ ActionForm text action :=
  ⟨actionForm_of_readAction newline, readAction_of_actionForm⟩

theorem defines_iff {line : List Char} {identifier : Option String} {tokens : List String}
    {action : Action} (newline : '\n' ∉ line) : Defines line identifier tokens action ↔
      ∃ parts, DefinitionParts.of? line = some parts ∧ parts.name? = identifier ∧
        readTokens parts.tokens = .ok tokens ∧ readAction parts.action = .ok action := by
  constructor
  · intro h
    cases h with
    | arrow harrow hleft htokens haction =>
      obtain ⟨parts, hparts, hname, rfl, hright⟩ :=
        DefinitionParts.of?_of_form newline harrow hleft
      refine ⟨parts, hparts, hname, readTokens_eq_ok_iff.mpr htokens, ?_⟩
      rw [hright]
      exact readAction_of_actionForm haction
  · rintro ⟨parts, hparts, rfl, htokens, haction⟩
    have hform := (readAction_eq_ok_iff (definitionParts_parts hparts).2).mp haction
    obtain ⟨left, right, rfl, harrow, hleft, hright, -⟩ :=
      DefinitionParts.form_of_of? newline hparts
    rw [hright] at hform
    exact .arrow harrow hleft (readTokens_eq_ok_iff.mp htokens) hform

theorem not_declares_of_defines {line : List Char} {identifier : Option String}
    {tokens : List String} {action : Action} (h : Defines line identifier tokens action)
    (name : String) : ¬Declares line name := by
  intro hdeclares
  cases h with
  | arrow => exact hdeclares.not_hasArrow (hasArrow_append_arrow _ _)

namespace Statement

theorem of?_of_declares {line name : String} (h : Declares line.toList name) :
    Statement.of? line = some (.declaration name) := by
  unfold Statement.of?
  rw [declaredState?_of_declares h]
  dsimp only
  rw [String.ofList_toList]

theorem of?_of_not_declares {line : String} (h : ∀ name, ¬Declares line.toList name) :
    Statement.of? line = (DefinitionParts.of? line.toList).map .definition := by
  unfold Statement.of?
  split
  · next name hname => exact absurd (declares_of_declaredState? hname) (h _)
  · rfl

end Statement

namespace Grammar

def rulesOf (identifier : Option String) (tokens : List String) (action : Action) (line : Int) :
    List Rule :=
  tokens.map fun token => ⟨token, identifier, action, line⟩

theorem rules_eq_ok_iff {parts : DefinitionParts} {line : JoinedLine} {rules : List Rule} :
    parts.rules line = .ok rules ↔ ∃ tokens action, readTokens parts.tokens = .ok tokens ∧
      readAction parts.action = .ok action ∧
      rules = rulesOf parts.name? tokens action line.line := by
  unfold DefinitionParts.rules
  simp only [Outcome.bind_eq_ok, Outcome.mapError_eq_ok]
  constructor
  · rintro ⟨tokens, htokens, action, haction, h⟩
    cases h
    exact ⟨tokens, action, htokens, haction, rfl⟩
  · rintro ⟨tokens, action, htokens, haction, rfl⟩
    exact ⟨tokens, htokens, action, haction, rfl⟩

theorem step_of_declares {p : Progress} {line : JoinedLine} {name : String}
    (h : Declares line.text.toList name) :
    p.step line = .ok ⟨p.grammar.declare name line.line, some name⟩ := by
  unfold Progress.step
  rw [Statement.of?_of_declares h]

theorem step_of_defines {p : Progress} {line : JoinedLine} {state : String}
    {identifier : Option String} {tokens : List String} {action : Action}
    (newline : '\n' ∉ line.text.toList) (current : p.current = some state)
    (h : Defines line.text.toList identifier tokens action) :
    p.step line = .ok { p with
      grammar := p.grammar.addRules state (rulesOf identifier tokens action line.line) } := by
  obtain ⟨parts, hparts, rfl, htokens, haction⟩ := (defines_iff newline).mp h
  have hrules : parts.rules line = .ok (rulesOf parts.name? tokens action line.line) :=
    rules_eq_ok_iff.mpr ⟨tokens, action, htokens, haction, rfl⟩
  unfold Progress.step
  rw [Statement.of?_of_not_declares (not_declares_of_defines h), hparts]
  dsimp only [Option.map_some]
  rw [current]
  exact Outcome.bind_eq_ok.mpr ⟨_, hrules, rfl⟩

theorem step_cases {p p' : Progress} {line : JoinedLine} (newline : '\n' ∉ line.text.toList)
    (h : p.step line = .ok p') :
    (∃ name, Declares line.text.toList name ∧
      p' = ⟨p.grammar.declare name line.line, some name⟩) ∨
    ∃ state identifier tokens action, p.current = some state ∧
      Defines line.text.toList identifier tokens action ∧
      p' = { p with
        grammar := p.grammar.addRules state (rulesOf identifier tokens action line.line) } := by
  obtain ⟨state, hstatement, rfl⟩ | ⟨parts, state, rules, hstatement, hstate, hrules, rfl⟩ :=
    step_eq_ok_cases h
  · obtain ⟨name, hname, rfl⟩ := Statement.of?_eq_declaration hstatement
    exact .inl ⟨String.ofList name, declares_of_declaredState? hname, rfl⟩
  · obtain ⟨tokens, action, htokens, haction, rfl⟩ := rules_eq_ok_iff.mp hrules
    have hdefines := (defines_iff newline).mpr
      ⟨parts, Statement.of?_eq_definition hstatement, rfl, htokens, haction⟩
    exact .inr ⟨state, _, tokens, action, hstate, hdefines, rfl⟩

end Grammar

end CommandGrammar
