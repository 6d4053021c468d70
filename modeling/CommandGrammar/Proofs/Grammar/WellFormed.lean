import CommandGrammar.Grammar.Reader
import CommandGrammar.Proofs.OrderedMap
import CommandGrammar.Proofs.Outcome
import CommandGrammar.Proofs.Text.Segments

set_option autoImplicit false
set_option relaxedAutoImplicit false

namespace CommandGrammar

open Text

inductive TokenForm : List Char → Prop where
  | className {name : List Char} : isName name = true → TokenForm name
  | literal {body : List Char} : body ≠ [] →
      (∀ c ∈ body, c ≠ '\'' ∧ c ≠ ',' ∧ isBlank c = false) →
      TokenForm ('\'' :: (body ++ ['\'']))

/-- A template as a grammar writes it: a name, possibly blanks, and something in brackets, all on
one line. -/
inductive TemplateForm : List Char → Prop where
  | call {name gap arguments : List Char} : isName name = true → (∀ c ∈ gap, isBlank c = true) →
      '\n' ∉ gap → '\n' ∉ arguments → TemplateForm (name ++ (gap ++ '(' :: (arguments ++ [')'])))

/-- A call whose template is a call, and whose return state, if any, is the name of a state. -/
structure CallClause.WellFormed (clause : CallClause) : Prop where
  template : TemplateForm clause.template.toList
  returnState : ∀ state, clause.returnState = some state → isWord isStateChar state.toList = true

/-- An action as a grammar writes it; a number of a call is not written. -/
def Action.WellFormed : Action → Prop
  | stay => True
  | transition target => isWord isStateChar target.toList = true
  | call clause => clause.WellFormed
  | dispatch _ _ => False

structure Rule.WellFormed (rule : Rule) : Prop where
  token : TokenForm rule.token.toList
  identifier : ∀ name, rule.identifier = some name → isWord isIdentifierChar name.toList = true
  action : rule.action.WellFormed

structure Grammar.WellFormed (g : Grammar) : Prop where
  names : ∀ name ∈ g.stateNames, isWord isStateChar name.toList = true
  rules : ∀ entry ∈ g.states.entries, ∀ rule ∈ entry.2, rule.WellFormed

theorem isWord_of_declaredState {line name : List Char} (h : declaredState? line = some name) :
    isWord isStateChar name = true := by
  unfold declaredState? at h
  split at h
  · cases h
  · dsimp only at h
    split at h
    · split at h
      · next hname =>
        cases h
        simp only [Bool.and_eq_true, Bool.not_eq_true', List.isEmpty_eq_false_iff] at hname
        exact isWord_takeWhile hname.1
      · cases h
    · cases h

theorem tokenForm_of_readToken {segment : List Char} {token : String}
    (comma : ',' ∉ segment) (blank : ∀ c ∈ segment, isBlank c = false)
    (h : readToken segment = .ok token) : TokenForm token.toList := by
  unfold readToken at h
  split at h
  · next hform =>
    cases h
    rw [String.toList_ofList]
    rcases Bool.or_eq_true_iff.mp hform with hliteral | hname
    · -- the closing apostrophe is the last character, and the body is all between
      unfold isLiteralToken at hliteral
      split at hliteral
      · next cs =>
        simp only [Bool.and_eq_true, beq_iff_eq] at hliteral
        obtain ⟨hlast, hbody⟩ := hliteral
        obtain ⟨hne, happ⟩ := isWord_iff.mp hbody
        have hcs : cs = cs.dropLast ++ ['\''] := by
          rw [List.dropLast_append_getLast? '\'' hlast]
        rw [hcs]
        refine .literal hne fun c hc => ⟨by simpa using happ c hc, ?_, ?_⟩
        · rintro rfl
          exact comma (List.mem_cons_of_mem _ (List.dropLast_subset cs hc))
        · exact blank c (List.mem_cons_of_mem _ (List.dropLast_subset cs hc))
      · cases hliteral
    · exact .className hname
  · cases h

theorem tokenForm_of_readTokens {segment : List Char} {tokens : List String}
    (h : readTokens segment = .ok tokens) : ∀ token ∈ tokens, TokenForm token.toList := by
  unfold readTokens at h
  split at h
  · cases h
  · intro token htoken
    obtain ⟨piece, hpiece, hread⟩ := Outcome.exists_mem_of_mapM h htoken
    obtain ⟨hsub, hcomma⟩ := mem_splitOn hpiece
    refine tokenForm_of_readToken hcomma ?_ hread
    intro c hc
    simpa using (List.mem_filter.mp (hsub hc)).2

theorem templateForm_of_isCallTemplate {template : List Char} (line : '\n' ∉ template)
    (h : isCallTemplate template = true) : TemplateForm template := by
  unfold isCallTemplate at h
  obtain ⟨hname, hrest⟩ := Bool.and_eq_true_iff.mp h
  split at hrest
  · next rest hcall =>
    simp only [Bool.and_eq_true, beq_iff_eq] at hrest
    have hclosed : rest = rest.dropLast ++ [')'] := by
      rw [List.dropLast_append_getLast? ')' hrest.1]
    have hgap : template.dropWhile isNameChar =
        (template.dropWhile isNameChar).takeWhile isBlank ++ '(' :: rest := by
      rw [← hcall, trimStart, List.takeWhile_append_dropWhile]
    have htemplate : template = template.takeWhile isNameChar ++
        ((template.dropWhile isNameChar).takeWhile isBlank ++ '(' :: (rest.dropLast ++ [')'])) := by
      rw [← hclosed, ← hgap, List.takeWhile_append_dropWhile]
    have hpart : ∀ part : List Char, part ⊆ template → '\n' ∉ part := fun _ hp hn => line (hp hn)
    rw [htemplate]
    refine .call hname (fun c hc => List.mem_takeWhile_imp hc) (hpart _ ?_) (hpart _ ?_)
    · exact List.Subset.trans (List.takeWhile_subset _) (List.dropWhile_subset _)
    · rw [htemplate]
      intro c hc
      simp [hc]
  · cases hrest

/-- The template is part of the text, and what is read as a return state is the name of one. -/
theorem splitReturnState_parts (text : List Char) :
    (splitReturnState text).1 ⊆ text ∧
      ∀ name, (splitReturnState text).2 = some name → isWord isStateChar name = true := by
  unfold splitReturnState
  split
  · next before after hcut =>
    split
    · next hstate =>
      simp only [Bool.and_eq_true] at hstate
      refine ⟨List.Subset.trans (trimEnd_subset before) ?_, ?_⟩
      · rw [eq_of_cutLast hcut]
        exact List.subset_append_left _ _
      · intro name hname
        cases hname
        exact hstate.2
    · simp
  · simp

theorem wellFormed_of_readAction {text : List Char} {action : Action} (line : '\n' ∉ text)
    (h : readAction text = .ok action) : action.WellFormed := by
  unfold readAction at h
  split at h
  · cases h
    trivial
  · split at h
    · next rest hcall =>
      have hrest : text = "call ".toList ++ rest :=
        (List.isPrefixOf?_eq_some_iff_append_eq.mp hcall).symm
      have hline : '\n' ∉ trimStart rest := by
        intro hn
        apply line
        rw [hrest]
        exact List.mem_append_right _ (trimStart_subset rest hn)
      dsimp only at h
      split at h
      · next htemplate =>
        cases h
        have hsplit := splitReturnState_parts (trimStart rest)
        refine ⟨?_, ?_⟩
        · rw [String.toList_ofList]
          exact templateForm_of_isCallTemplate (fun hn => hline (hsplit.1 hn)) htemplate
        · intro state hstate
          obtain ⟨name, hname, rfl⟩ := Option.map_eq_some_iff.mp hstate
          rw [String.toList_ofList]
          exact hsplit.2 name hname
      · cases h
    · split at h
      · next htarget =>
        cases h
        simpa [Action.WellFormed] using htarget
      · cases h

theorem identifier?_parts {text name rest : List Char}
    (h : DefinitionParts.identifier? text = some (name, rest)) :
    isWord isIdentifierChar name = true ∧ rest ⊆ text := by
  unfold DefinitionParts.identifier? at h
  dsimp only at h
  split at h
  · next tail hequals =>
    split at h
    · cases h
    · next hne =>
      cases h
      refine ⟨isWord_takeWhile (by simpa using hne), List.Subset.trans (trimStart_subset tail) ?_⟩
      have htail : tail ⊆ trimStart (text.dropWhile isIdentifierChar) := by
        rw [hequals]
        exact List.subset_cons_self _ _
      exact List.Subset.trans htail
        (List.Subset.trans (trimStart_subset _) (List.dropWhile_subset _))
  · cases h

theorem eq_of_cutArrow {text before after : List Char}
    (h : DefinitionParts.cutArrow text = some (before, after)) :
    text = before ++ '-' :: '>' :: after := by
  induction text generalizing before with
  | nil => cases h
  | cons c cs ih =>
    rw [DefinitionParts.cutArrow] at h
    split at h
    · next harrow =>
      cases h
      simp only [Bool.and_eq_true, decide_eq_true_eq, beq_iff_eq] at harrow
      obtain ⟨⟨rfl, hhead⟩, -⟩ := harrow
      obtain ⟨rest, rfl⟩ := List.head?_eq_some_iff.mp hhead
      rfl
    · split at h
      · cases h
      · obtain ⟨⟨before', after'⟩, hcut, he⟩ := Option.map_eq_some_iff.mp h
        cases he
        rw [ih hcut, List.cons_append]

theorem isOneLine_of_cutArrow {text before after : List Char}
    (h : DefinitionParts.cutArrow text = some (before, after)) :
    DefinitionParts.isOneLine after = true := by
  induction text generalizing before with
  | nil => cases h
  | cons c cs ih =>
    rw [DefinitionParts.cutArrow] at h
    split at h
    · next harrow =>
      cases h
      exact (Bool.and_eq_true_iff.mp harrow).2
    · split at h
      · cases h
      · obtain ⟨⟨before', after'⟩, hcut, he⟩ := Option.map_eq_some_iff.mp h
        cases he
        exact ih hcut

theorem definitionParts_parts {line : List Char} {parts : DefinitionParts}
    (h : DefinitionParts.of? line = some parts) :
    (∀ name, parts.identifier = some name → isWord isIdentifierChar name = true) ∧
      '\n' ∉ parts.action := by
  -- both readings of the left side end with an arrow and one line after it
  have hcut : ∀ segment before after : List Char,
      DefinitionParts.cutArrow segment = some (before, after) → '\n' ∉ trim after := by
    intro segment before after hcut
    simpa [DefinitionParts.isOneLine] using isOneLine_of_cutArrow hcut
  unfold DefinitionParts.of? at h
  dsimp only at h
  split at h
  · next name rest hfound =>
    obtain ⟨⟨before, after⟩, hparts, rfl⟩ := Option.map_eq_some_iff.mp h
    refine ⟨?_, hcut _ _ _ hparts⟩
    intro name' hn
    cases hn
    exact (identifier?_parts hfound).1
  · obtain ⟨⟨before, after⟩, hparts, rfl⟩ := Option.map_eq_some_iff.mp h
    refine ⟨?_, hcut _ _ _ hparts⟩
    intro name' hn
    cases hn

theorem wellFormed_of_rules {parts : DefinitionParts} {line : JoinedLine} {rules : List Rule}
    (newline : '\n' ∉ parts.action)
    (identifier : ∀ name, parts.identifier = some name → isWord isIdentifierChar name = true)
    (h : parts.rules line = .ok rules) : ∀ rule ∈ rules, rule.WellFormed := by
  obtain ⟨tokens, htokens, h⟩ := Outcome.bind_eq_ok.mp h
  obtain ⟨action, haction, h⟩ := Outcome.bind_eq_ok.mp h
  cases h
  intro rule hrule
  obtain ⟨token, htoken, rfl⟩ := List.mem_map.mp hrule
  refine ⟨?_, ?_, ?_⟩
  · exact tokenForm_of_readTokens (Outcome.mapError_eq_ok.mp htokens) token htoken
  · intro name hname
    obtain ⟨cs, hcs, rfl⟩ := Option.map_eq_some_iff.mp hname
    rw [String.toList_ofList]
    exact identifier cs hcs
  · exact wellFormed_of_readAction newline (Outcome.mapError_eq_ok.mp haction)

theorem not_mem_of_mem_joinFrom {c : Char} {read : Nat} {pending : Option JoinedLine}
    {texts : List String} {completions : List JoinedLine.Completion}
    (physical : ∀ text ∈ texts, c ∉ text.toList)
    (held : ∀ line, pending = some line → c ∉ line.text.toList)
    (h : JoinedLine.joinFrom read pending texts = .ok completions) :
    ∀ completion ∈ completions, c ∉ completion.line.text.toList := by
  fun_induction JoinedLine.joinFrom read pending texts generalizing completions with
  | case1 => cases h; simp
  | case2 read pending =>
    cases h
    simpa using held pending rfl
  | case3 read pending text rest _ ih =>
    exact ih (fun t ht => physical t (List.mem_cons_of_mem text ht)) held h
  | case4 => cases h
  | case5 read text rest pending _ ih =>
    refine ih (fun t ht => physical t (List.mem_cons_of_mem text ht)) ?_ h
    rintro line ⟨⟩
    have htext := physical text List.mem_cons_self
    simpa using ⟨held pending rfl, htext⟩
  | case6 read text rest _ ih =>
    refine ih (fun t ht => physical t (List.mem_cons_of_mem text ht)) ?_ h
    rintro line ⟨⟩
    exact physical text List.mem_cons_self
  | case7 read text rest pending _ ih =>
    obtain ⟨others, hothers, rfl⟩ := Outcome.map_eq_ok.mp h
    intro completion hc
    rcases List.mem_cons.mp hc with rfl | hc
    · exact held pending rfl
    · refine ih (fun t ht => physical t (List.mem_cons_of_mem text ht)) ?_ hothers completion hc
      rintro line ⟨⟩
      exact physical text List.mem_cons_self

theorem newline_not_mem_of_mem_join {texts : List String} {lines : List JoinedLine}
    (physical : ∀ text ∈ texts, '\n' ∉ text.toList) (h : JoinedLine.join texts = .ok lines) :
    ∀ line ∈ lines, '\n' ∉ line.text.toList := by
  obtain ⟨completions, hc, rfl⟩ := Outcome.map_eq_ok.mp h
  intro line hline
  obtain ⟨completion, hm, rfl⟩ := List.mem_map.mp hline
  exact not_mem_of_mem_joinFrom physical (by simp) hc completion hm

namespace Statement

theorem of?_eq_declaration {line state : String}
    (h : Statement.of? line = some (.declaration state)) :
    ∃ name, declaredState? line.toList = some name ∧ state = String.ofList name := by
  unfold Statement.of? at h
  split at h
  · next name hname =>
    cases h
    exact ⟨name, hname, rfl⟩
  · obtain ⟨_, _, hdefinition⟩ := Option.map_eq_some_iff.mp h
    cases hdefinition

theorem of?_eq_definition {line : String} {parts : DefinitionParts}
    (h : Statement.of? line = some (.definition parts)) :
    DefinitionParts.of? line.toList = some parts := by
  unfold Statement.of? at h
  split at h
  · cases h
  · obtain ⟨_, hparts, hdefinition⟩ := Option.map_eq_some_iff.mp h
    cases hdefinition
    exact hparts

end Statement

namespace Grammar

theorem wellFormed_empty : (∅ : Grammar).WellFormed where
  names := by
    intro name h
    cases h
  rules := by
    intro entry h
    cases h

theorem WellFormed.declare {g : Grammar} (wf : g.WellFormed) {name : String}
    (hname : isWord isStateChar name.toList = true) (line : Int) :
    (g.declare name line).WellFormed := by
  unfold Grammar.declare
  split
  · exact wf
  · refine ⟨?_, ?_⟩
    · intro other hother
      simp only [stateNames, OrderedMap.keys_insert] at hother
      split at hother
      · exact wf.names other hother
      · rcases List.mem_append.mp hother with hother | hother
        · exact wf.names other hother
        · rw [List.mem_singleton.mp hother]
          exact hname
    · intro entry hentry rule hrule
      rcases OrderedMap.mem_put hentry with rfl | hentry
      · cases hrule
      · exact wf.rules entry hentry rule hrule

theorem WellFormed.addRules {g : Grammar} (wf : g.WellFormed) (state : String) {rules : List Rule}
    (hrules : ∀ rule ∈ rules, rule.WellFormed) : (g.addRules state rules).WellFormed := by
  refine ⟨?_, ?_⟩
  · intro name hname
    simp only [stateNames, Grammar.addRules, OrderedMap.keys_modify] at hname
    exact wf.names name hname
  · intro entry hentry rule hrule
    obtain ⟨old, hold, rfl⟩ := List.mem_map.mp hentry
    dsimp only at hrule
    split at hrule
    · rcases List.mem_append.mp hrule with hrule | hrule
      · exact wf.rules old hold rule hrule
      · exact hrules rule hrule
    · exact wf.rules old hold rule hrule

theorem step_eq_ok_cases {p p' : Progress} {line : JoinedLine} (h : p.step line = .ok p') :
    (∃ state, Statement.of? line.text = some (.declaration state) ∧
      p' = ⟨p.grammar.declare state line.line, some state⟩) ∨
    ∃ parts state rules, Statement.of? line.text = some (.definition parts) ∧
      p.current = some state ∧ parts.rules line = .ok rules ∧
      p' = { p with grammar := p.grammar.addRules state rules } := by
  unfold Progress.step at h
  split at h
  · next state hstatement =>
    cases h
    exact .inl ⟨state, hstatement, rfl⟩
  · next parts hstatement =>
    split at h
    · cases h
    · next state hstate =>
      obtain ⟨rules, hrules, h⟩ := Outcome.bind_eq_ok.mp h
      cases h
      exact .inr ⟨parts, state, rules, hstatement, hstate, hrules, rfl⟩
  · cases h

theorem wellFormed_of_step {p p' : Progress} {line : JoinedLine} (wf : p.grammar.WellFormed)
    (h : p.step line = .ok p') : p'.grammar.WellFormed := by
  obtain ⟨state, hstatement, rfl⟩ | ⟨parts, state, rules, hstatement, -, hrules, rfl⟩ :=
    step_eq_ok_cases h
  · obtain ⟨name, hname, rfl⟩ := Statement.of?_eq_declaration hstatement
    refine wf.declare ?_ line.line
    rw [String.toList_ofList]
    exact isWord_of_declaredState hname
  · obtain ⟨hidentifier, haction⟩ := definitionParts_parts (Statement.of?_eq_definition hstatement)
    exact wf.addRules state (wellFormed_of_rules haction hidentifier hrules)

theorem wellFormed_of_ofLines {lines : List JoinedLine} {g : Grammar} (h : ofLines lines = .ok g) :
    g.WellFormed := by
  obtain ⟨progress, hfold, rfl⟩ := Outcome.map_eq_ok.mp h
  refine Outcome.foldlM_keeps (P := fun p => p.grammar.WellFormed) ?_ wellFormed_empty hfold
  intro p line p' _ wf hstep
  exact wellFormed_of_step wf hstep

theorem wellFormed_of_read {source : String} {g : Grammar} (h : read source = .ok g) :
    g.WellFormed := by
  obtain ⟨lines, -, h⟩ := Outcome.bind_eq_ok.mp h
  exact wellFormed_of_ofLines h

end Grammar

end CommandGrammar
