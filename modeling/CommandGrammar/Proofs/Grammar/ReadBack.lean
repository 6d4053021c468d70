import CommandGrammar.Proofs.Grammar.Canonical
import CommandGrammar.Proofs.Joining.Idempotent

set_option autoImplicit false
set_option relaxedAutoImplicit false

namespace CommandGrammar

open Text

theorem oneLine_canonical {action : Action} (wf : action.WellFormed) :
    OneLine action.canonical := by
  cases action with
  | stay => exact List.not_mem_nil
  | transition target => exact Header.oneLine_of_isStateName wf
  | call clause =>
    obtain ⟨template, returnState⟩ := clause
    have htemplate : OneLine template := oneLine_of_templateForm wf.template
    have hcall : OneLine ("call " ++ template) := oneLine_append.mpr ⟨by decide, htemplate⟩
    cases returnState with
    | none => exact hcall
    | some state =>
      have hstate : OneLine state := Header.oneLine_of_isStateName (wf.returnState state rfl)
      exact oneLine_append.mpr ⟨oneLine_append.mpr ⟨hcall, by decide⟩, hstate⟩
  | dispatch => exact wf.elim

theorem TokenForm.exists_first {token : List Char} (h : TokenForm token) :
    ∃ c rest, token = c :: rest ∧ isBlank c = false ∧ c ≠ '#' ∧ c ≠ '-' := by
  cases h with
  | className h =>
    obtain ⟨c, rest, rfl⟩ := List.exists_cons_of_ne_nil (ne_nil_of_isName h)
    have hc := isNameChar_of_mem_isName h c List.mem_cons_self
    have hsign : c ≠ '#' := ne_of_isNameChar hc (by decide)
    have hdash : c ≠ '-' := ne_of_isNameChar hc (by decide)
    exact ⟨c, rest, rfl, isBlank_of_isNameChar hc, hsign, hdash⟩
  | literal => exact ⟨'\'', _, rfl, by decide, by decide, by decide⟩

namespace Rule

variable {rule : Rule}

theorem oneLine_canonicalIdentifier (wf : rule.WellFormed) : OneLine rule.canonicalIdentifier := by
  cases h : rule.identifier with
  | none =>
    rw [OneLine, canonicalIdentifier_of_none h]
    exact List.not_mem_nil
  | some name =>
    have hname : '\n' ∉ name.toList := not_mem_of_isWord (wf.identifier name h) (by decide)
    rw [OneLine, canonicalIdentifier_of_some h]
    simp [hname]

theorem oneLine_canonicalLine (wf : rule.WellFormed) : OneLine rule.canonicalLine := by
  have htoken : OneLine (String.ofList (spaced rule.token.toList)) := by
    rw [oneLine_ofList]
    intro hm
    rcases eq_blank_or_mem_of_mem_spaced _ _ hm with he | hm
    · revert he
      decide
    · exact oneLine_of_tokenForm wf.token hm
  have hmargin : OneLine "  " := by decide
  have harrow : OneLine " -> " := by decide
  simp only [canonicalLine, oneLine_append]
  exact ⟨⟨⟨⟨hmargin, oneLine_canonicalIdentifier wf⟩, htoken⟩, harrow⟩,
    oneLine_canonical wf.action⟩

theorem openingLine_canonicalLine (wf : rule.WellFormed) :
    OpeningLine rule.canonicalLine := by
  have hmargin : Blanks "  ".toList := by decide
  have htext := rule.toList_canonicalLine
  rw [leftSide] at htext
  cases h : rule.identifier with
  | none =>
    obtain ⟨c, rest, htoken, hblank, hsign, hdash⟩ := wf.token.exists_first
    have hhead := head?_spaced rule.token.toList
    rw [htoken, List.head?_cons, ← htoken] at hhead
    obtain ⟨others, hspaced⟩ := List.head?_eq_some_iff.mp hhead
    rw [canonicalIdentifier_of_none h, hspaced] at htext
    simp only [List.append_assoc, List.nil_append, List.cons_append] at htext
    exact .visible hmargin htext hblank hsign fun hc => absurd hc hdash
  | some name =>
    have hname := wf.identifier name h
    obtain ⟨c, rest, hcons⟩ := List.exists_cons_of_ne_nil (isWord_iff.mp hname).1
    have hc : isNameChar c = true :=
      isNameChar_of_isIdentifierChar ((isWord_iff.mp hname).2 c (by simp [hcons]))
    have hblank : isBlank c = false := isBlank_of_isNameChar hc
    have hsign : c ≠ '#' := ne_of_isNameChar hc (by decide)
    have hdash : c ≠ '-' := ne_of_isNameChar hc (by decide)
    rw [canonicalIdentifier_of_some h, hcons] at htext
    simp only [List.append_assoc, List.cons_append] at htext
    exact .visible hmargin htext hblank hsign fun hc => absurd hc hdash

end Rule

namespace Grammar

theorem declares_declarationLine {name : String} (h : isWord isStateChar name.toList = true) :
    Declares (declarationLine name).toList name := by
  have htext : (declarationLine name).toList =
      "state ".toList ++ (name.toList ++ ':' :: []) := by
    simp [declarationLine]
  rw [htext]
  exact .state h blanks_nil

theorem openingLine_declarationLine (name : String) : OpeningLine (declarationLine name) := by
  have htext : (declarationLine name).toList =
      [] ++ 's' :: ("tate ".toList ++ (name.toList ++ [':'])) := by
    simp [declarationLine]
  exact .visible blanks_nil htext (by decide) (by decide) fun hc => absurd hc (by decide)

theorem oneLine_declarationLine {name : String} (h : isWord isStateChar name.toList = true) :
    OneLine (declarationLine name) :=
  oneLine_append.mpr ⟨oneLine_append.mpr ⟨by decide, Header.oneLine_of_isStateName h⟩, by decide⟩

variable {g : Grammar}

theorem content_declare {name : String} (fresh : name ∉ g.stateNames) (line : Int) :
    (g.declare name line).content = g.content ++ [(name, [])] := by
  rw [declare_of_not_mem fresh, content, OrderedMap.entries_insert_of_not_mem fresh,
    List.map_append]
  rfl

theorem content_addRules {front : List (String × List Rule)} {state : String} {done : List Rule}
    (h : g.content = front ++ [(state, done)]) (rules : List Rule) :
    (g.addRules state rules).content =
      front ++ [(state, done ++ rules.map Rule.withoutLine)] := by
  have hnodup : state ∉ front.map Prod.fst := by
    have hkeys : (g.content.map Prod.fst).Nodup := by
      rw [map_fst_content]
      exact g.states.nodup
    rw [h, List.map_append] at hkeys
    exact fun hm => (List.nodup_append.mp hkeys).2.2 _ hm _ List.mem_cons_self rfl
  obtain ⟨first, last, hentries, rfl, hlast⟩ := List.map_eq_append_iff.mp h
  obtain ⟨⟨name, old⟩, rest, rfl, he, hrest⟩ := List.map_eq_cons_iff.mp hlast
  cases List.map_eq_nil_iff.mp hrest
  cases he
  have hothers : (first.map fun entry =>
      (entry.1, if entry.1 = name then entry.2 ++ rules else entry.2)) = first := by
    refine (List.map_congr_left fun entry hentry => ?_).trans (List.map_id first)
    have hne : entry.1 ≠ name := by
      rintro rfl
      exact hnodup (List.mem_map.mpr ⟨_, List.mem_map.mpr ⟨entry, hentry, rfl⟩, rfl⟩)
    rw [if_neg hne]
    rfl
  unfold content addRules OrderedMap.modify
  dsimp only
  rw [hentries, List.map_append, hothers]
  simp [entryContent]

theorem foldlM_rules {rules : List Rule} (wf : ∀ rule ∈ rules, rule.WellFormed)
    {lines : List JoinedLine} (texts : lines.map JoinedLine.text = rules.map Rule.canonicalLine)
    {p : Progress} {front : List (String × List Rule)} {state : String} {done : List Rule}
    (current : p.current = some state) (content : p.grammar.content = front ++ [(state, done)]) :
    ∃ p', lines.foldlM Progress.step p = .ok p' ∧
      p'.grammar.content = front ++ [(state, done ++ rules.map Rule.withoutLine)] := by
  induction rules generalizing lines p done with
  | nil =>
    cases List.map_eq_nil_iff.mp texts
    exact ⟨p, rfl, by simpa using content⟩
  | cons rule rules ih =>
    obtain ⟨line, lines, rfl, htext, hrest⟩ := List.map_eq_cons_iff.mp texts
    rw [List.forall_mem_cons] at wf
    have hdefines := Rule.defines_canonicalLine wf.1
    have hline := Rule.oneLine_canonicalLine wf.1
    rw [← htext] at hdefines hline
    have hnext := content_addRules content
      (rulesOf rule.identifier [rule.token] rule.action line.line)
    obtain ⟨p', hfold, hcontent⟩ := ih wf.2 hrest
      (p := ⟨p.grammar.addRules state _, p.current⟩) current hnext
    refine ⟨p', Outcome.bind_eq_ok.mpr ⟨_, step_of_defines hline current hdefines, hfold⟩, ?_⟩
    rw [hcontent, List.append_assoc]
    rfl

theorem foldlM_entries {entries : List (String × List Rule)}
    (names : ∀ entry ∈ entries, isWord isStateChar entry.1.toList = true)
    (rules : ∀ entry ∈ entries, ∀ rule ∈ entry.2, rule.WellFormed)
    {lines : List JoinedLine}
    (texts : lines.map JoinedLine.text = entries.flatMap entryLines) {p : Progress}
    (nodup : (p.grammar.stateNames ++ entries.map Prod.fst).Nodup) :
    ∃ p', lines.foldlM Progress.step p = .ok p' ∧
      p'.grammar.content = p.grammar.content ++ entries.map entryContent := by
  induction entries generalizing lines p with
  | nil =>
    cases List.map_eq_nil_iff.mp texts
    exact ⟨p, rfl, by simp⟩
  | cons entry entries ih =>
    obtain ⟨name, kept⟩ := entry
    rw [List.forall_mem_cons] at names rules
    obtain ⟨first, others, rfl, hfirst, hothers⟩ := List.map_eq_append_iff.mp texts
    obtain ⟨line, own, rfl, hline, hown⟩ := List.map_eq_cons_iff.mp hfirst
    have hdeclares := declares_declarationLine names.1
    rw [← hline] at hdeclares
    -- a name that comes again would not declare a state but go back to it
    have hfresh : name ∉ p.grammar.stateNames := fun hm =>
      (List.nodup_append.mp nodup).2.2 name hm name List.mem_cons_self rfl
    have hdeclared := content_declare hfresh line.line
    obtain ⟨next, hnext, hcontent⟩ := foldlM_rules rules.1 hown
      (p := ⟨p.grammar.declare name line.line, some name⟩) rfl hdeclared
    have hnames : next.grammar.stateNames = p.grammar.stateNames ++ [name] := by
      rw [← map_fst_content, hcontent, List.map_append, map_fst_content]
      rfl
    have hrest : (next.grammar.stateNames ++ entries.map Prod.fst).Nodup := by
      rw [hnames, ← List.append_cons]
      exact nodup
    obtain ⟨p', hp', hlast⟩ := ih names.2 rules.2 hothers hrest
    refine ⟨p', ?_, ?_⟩
    · rw [List.foldlM_append]
      refine Outcome.bind_eq_ok.mpr ⟨next, ?_, hp'⟩
      exact Outcome.bind_eq_ok.mpr ⟨_, step_of_declares hdeclares, hnext⟩
    · rw [hlast, hcontent, List.append_assoc]
      rfl

variable (wf : g.WellFormed)
include wf

theorem canonicalLine_of_mem {line : String} (h : line ∈ g.states.entries.flatMap entryLines) :
    OneLine line ∧ OpeningLine line := by
  obtain ⟨entry, hentry, hline⟩ := List.mem_flatMap.mp h
  rcases List.mem_cons.mp hline with rfl | hline
  · have hname := wf.names entry.1 (mem_stateNames hentry)
    exact ⟨oneLine_declarationLine hname, openingLine_declarationLine entry.1⟩
  · obtain ⟨rule, hrule, rfl⟩ := List.mem_map.mp hline
    have hwf := wf.rules entry hentry rule hrule
    exact ⟨Rule.oneLine_canonicalLine hwf, Rule.openingLine_canonicalLine hwf⟩

/-- What is read from the canonical text of a well-formed grammar is the grammar, up to the numbers
of lines. -/
theorem read_canonical : ∃ g', read g.canonical = .ok g' ∧ g'.withoutLines = g.withoutLines := by
  have hlines : Text.lines g.canonical = g.states.entries.flatMap entryLines ++ [""] :=
    lines_endLines fun line hline => (canonicalLine_of_mem wf hline).1
  have hlast : JoinedLine.Role.of "" = .skipped := rfl
  have hjoin : JoinedLine.join (Text.lines g.canonical) =
      .ok (JoinedLine.numbered (g.states.entries.flatMap entryLines)) := by
    rw [hlines, JoinedLine.join_append_skipped hlast]
    exact (JoinedLine.join_eq_numbered_iff _).mpr fun line hline =>
      (canonicalLine_of_mem wf hline).2
  have hnames : ∀ entry ∈ g.states.entries, isWord isStateChar entry.1.toList = true :=
    fun entry hentry => wf.names entry.1 (mem_stateNames hentry)
  have hnodup : (Progress.initial.grammar.stateNames ++ g.states.entries.map Prod.fst).Nodup :=
    g.states.nodup
  obtain ⟨p, hfold, hcontent⟩ :=
    foldlM_entries hnames wf.rules (JoinedLine.map_text_numbered _) hnodup
  refine ⟨p.grammar, ?_, withoutLines_eq_iff.mpr hcontent⟩
  exact Outcome.bind_eq_ok.mpr ⟨_, hjoin, Outcome.map_eq_ok.mpr ⟨p, hfold, rfl⟩⟩

end Grammar

end CommandGrammar
