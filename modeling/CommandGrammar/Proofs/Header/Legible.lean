import CommandGrammar.Proofs.Header.RoundTrip
import CommandGrammar.Proofs.Tables.Acceptance

set_option autoImplicit false
set_option relaxedAutoImplicit false

namespace CommandGrammar

open Text

theorem oneLine_of_tokenForm {token : String} (h : TokenForm token.toList) : OneLine token := by
  unfold OneLine
  generalize token.toList = cs at h
  cases h with
  | className hname => exact newline_not_mem_of_isName hname
  | literal _ hbody =>
    intro hm
    simp only [List.mem_cons, List.mem_append, List.not_mem_nil, or_false] at hm
    rcases hm with he | hm | he
    · cases he
    · have hblank := (hbody '\n' hm).2.2
      revert hblank
      decide
    · cases he

theorem oneLine_of_templateForm {template : String} (h : TemplateForm template.toList) :
    OneLine template := by
  unfold OneLine
  generalize template.toList = cs at h
  cases h with
  | call hname _ hgap harguments =>
    intro hm
    simp only [List.mem_append, List.mem_cons, List.not_mem_nil, or_false] at hm
    rcases hm with hm | hm | he | hm | he
    · exact newline_not_mem_of_isName hname hm
    · exact hgap hm
    · cases he
    · exact harguments hm
    · cases he

theorem Template.oneLine_printFormat {template : String} (h : OneLine template) :
    OneLine (printFormat template) := by
  rw [printFormat, oneLine_ofList]
  intro hm
  obtain ⟨piece, hpiece, hnewline⟩ := List.mem_flatMap.mp hm
  cases piece with
  | plain c =>
    have hc : '\n' ∈ (if c = '%' then ['%', '%'] else [c]) := hnewline
    split at hc
    · simp at hc
    · apply h
      rw [← flatMap_source_pieces template.toList]
      exact List.mem_flatMap.mpr ⟨.plain c, hpiece, hc⟩
  | capture name =>
    have hc : '\n' ∈ ['%', 's'] := hnewline
    simp at hc
  | word text =>
    have hc : '\n' ∈ ['%', 's'] := hnewline
    simp at hc

structure Convention.OneLine (conv : Convention) : Prop where
  context : ∀ argument ∈ conv.context, Text.OneLine argument
  accessor : Text.OneLine conv.accessor

theorem Invocation.oneLine_withContext {invocation : Invocation} (hname : OneLine invocation.name)
    (harguments : OneLine invocation.arguments) {context : List String}
    (hcontext : ∀ argument ∈ context, OneLine argument) :
    OneLine (invocation.withContext context) := by
  unfold withContext
  have hall : OneLine (", ".intercalate
      (context ++ if invocation.arguments = "" then [] else [invocation.arguments])) := by
    apply oneLine_intercalate (by decide)
    intro text htext
    rcases List.mem_append.mp htext with htext | htext
    · exact hcontext text htext
    · split at htext
      · cases htext
      · rw [List.mem_singleton.mp htext]
        exact harguments
  simp only [oneLine_append]
  exact ⟨⟨⟨hname, by decide⟩, hall⟩, by decide⟩

theorem Convention.OneLine.invocation {conv : Convention} (h : conv.OneLine) {template : String}
    (form : TemplateForm template.toList) {invocation : Invocation}
    (hinvocation : conv.invocation template = .ok invocation) :
    Text.OneLine invocation.name ∧ Text.OneLine invocation.arguments := by
  rw [← String.ofList_toList (s := template)] at hinvocation
  generalize template.toList = cs at form hinvocation
  cases form with
  | @call name gap arguments hname hblank hgap harguments =>
    rw [conv.invocation_eq_ok hname hblank] at hinvocation
    cases hinvocation
    rw [oneLine_ofList, oneLine_ofList]
    refine ⟨?_, ?_⟩
    · intro hm
      rcases List.mem_append.mp hm with hm | hm
      · exact newline_not_mem_of_isName hname hm
      · exact hgap hm
    · intro hm
      rcases Template.mem_expanded (trimMargin_subset _ hm) with hm | hm | hm
      · exact harguments hm
      · exact h.accessor hm
      · revert hm
        decide

theorem CallClause.WellFormed.oneLine_returnTarget {clause : CallClause} (wf : clause.WellFormed) :
    OneLine clause.returnTarget := by
  unfold CallClause.returnTarget
  split
  · decide
  · next state hstate =>
    split
    · decide
    · exact Header.oneLine_of_isStateName (wf.returnState state hstate)

theorem NumberedCall.legible_ofSite {conv : Convention} (hconv : conv.OneLine) {site : CallSite}
    (wf : site.clause.WellFormed) {id : Nat} {call : NumberedCall}
    (h : NumberedCall.ofSite conv site id = .ok call) : call.Legible := by
  obtain ⟨invocation, hinvocation, rfl⟩ := NumberedCall.ofSite_eq_ok.mp h
  obtain ⟨hname, harguments⟩ := hconv.invocation wf.template hinvocation
  exact {
    invocation := invocation.oneLine_withContext hname harguments hconv.context
    format := Template.oneLine_printFormat (oneLine_of_templateForm wf.template)
    arguments := harguments
    returnState := wf.oneLine_returnTarget }

theorem TableRow.patternOf_subset (token : String) :
    (TableRow.patternOf token).toList ⊆ token.toList := by
  unfold TableRow.patternOf
  split
  · next cs hliteral =>
    split
    · rw [String.toList_ofList, hliteral]
      exact List.cons_subset_cons _ (List.dropLast_subset cs)
    · exact List.Subset.refl _
  · exact List.Subset.refl _

namespace Grammar

variable {g : Grammar} {conv : Convention} {calls : List NumberedCall}

theorem legible_ofNumbered (wf : g.WellFormed) (closed : g.Closed) (id : Nat)
    {entry : String × List Rule} (hentry : entry ∈ g.states.entries) {rule : Rule}
    (hrule : rule ∈ entry.2) : (TableRow.ofNumbered entry.1 id rule).Legible := by
  have hform := wf.rules entry hentry rule hrule
  refine ⟨?_, ?_, ?_⟩
  · intro hm
    exact oneLine_of_tokenForm hform.token (TableRow.patternOf_subset rule.token hm)
  · change OneLine (rule.identifier.getD "")
    cases hidentifier : rule.identifier with
    | none => decide
    | some name =>
      exact oneLine_of_all (by decide) (isWord_iff.mp (hform.identifier name hidentifier)).2
  · change isWord isStateChar (rule.tableTarget entry.1 id).1.toList = true
    have htarget := closed.targets entry hentry rule hrule
    have hcall : isWord isStateChar callState.toList = true := by decide
    unfold Rule.tableTarget
    cases haction : rule.action with
    | stay => exact wf.names _ (mem_stateNames hentry)
    | transition target => exact wf.names _ (htarget target (by rw [haction]; rfl))
    | call clause => exact hcall
    | dispatch callId target => exact hcall

theorem keys_stateIds (closed : g.Closed) (calls : List NumberedCall) :
    (g.tablesWith calls).stateIds.keys = g.stateNames ++ [callState] := by
  rw [OrderedMap.keys, tablesWith, ParserTables.entries_numberStates (nodup_states closed),
    ParserTables.map_fst_zipIdx]

/-- The tables of a well-formed and closed grammar are legible, under a convention without line
feeds. -/
theorem legible_tablesWith (wf : g.WellFormed) (closed : g.Closed) (hconv : conv.OneLine)
    (hcalls : g.numberedCalls conv = .ok calls) : (g.tablesWith calls).Legible where
  keys := keys_stateIds closed calls
  states := by
    intro state hstate
    rcases List.mem_append.mp hstate with hstate | hstate
    · exact wf.names state hstate
    · rw [List.mem_singleton.mp hstate]
      decide
  names := by
    intro table htable
    apply wf.names
    rw [← g.map_fst_rowTables]
    exact List.mem_map.mpr ⟨table, htable, rfl⟩
  rows := by
    rintro ⟨state, rows⟩ htable row hrow
    obtain ⟨k, rules, hk, rfl⟩ := g.mem_rowTables_iff.mp htable
    obtain ⟨i, hi⟩ := List.mem_iff_getElem?.mp hrow
    rw [List.getElem?_mapIdx] at hi
    obtain ⟨rule, hrule, rfl⟩ := Option.map_eq_some_iff.mp hi
    exact legible_ofNumbered wf closed _ (List.mem_of_getElem? hk) (List.mem_of_getElem? hrule)
  calls := by
    intro call hcall
    obtain ⟨⟨site, id⟩, hsite, hentry⟩ := Outcome.exists_mem_of_mapM hcalls hcall
    obtain ⟨rules, hstate, hrule, haction⟩ :=
      mem_of_mem_callSites (List.mem_of_getElem? (List.mem_zipIdx_iff_getElem?.mp hsite))
    have hclause := (wf.rules _ hstate site.rule hrule).action
    rw [haction] at hclause
    exact NumberedCall.legible_ofSite hconv hclause hentry

end Grammar

end CommandGrammar
