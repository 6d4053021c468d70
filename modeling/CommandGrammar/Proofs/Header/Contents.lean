import CommandGrammar.Proofs.Header.Legible

set_option autoImplicit false
set_option relaxedAutoImplicit false

namespace CommandGrammar

open Text

def Grammar.tokens (g : Grammar) : List (String × List String) :=
  g.states.entries.map fun entry => (entry.1, entry.2.map Rule.token)

namespace Header

theorem restored_patternOf {token : String} (h : TokenForm token.toList) :
    restored (TableRow.patternOf token).toList = token := by
  generalize hcs : token.toList = cs at h
  have htoken : token = String.ofList cs := by rw [← hcs, String.ofList_toList]
  subst htoken
  unfold TableRow.patternOf restored
  rw [String.toList_ofList]
  cases h with
  | @className name hname =>
    cases cs with
    | nil => rfl
    | cons c name =>
      have hc : c ≠ '\'' := by
        rintro rfl
        revert hname
        simp [isName, isNameStart]
      simp [hc]
  | @literal body hne hbody =>
    -- the apostrophe that the pattern lost is put back
    simp

/-- What a row tells, with the token of the rule that it was made from. -/
def RowEntry.of (rule : Rule) (row : TableRow) : RowEntry :=
  ⟨rule.token, row.identifier, row.nextState, row.callId⟩

def RowEntry.row (entry : RowEntry) : TableRow :=
  ⟨TableRow.patternOf entry.token, entry.identifier, entry.nextState, entry.callId⟩

/-- Contents that tell all that is in tables but the places of the calls, and in which the tokens
are those of the resolved grammar. -/
structure Contents.Tells (contents : Contents) (r : Grammar) (t : ParserTables) : Prop where
  states : contents.states.map Prod.fst = t.states
  numbers : contents.states = t.stateIds.entries
  rows : (contents.tables.map fun table => (table.1, table.2.map RowEntry.row)) = t.tables
  tokens : (contents.tables.map fun table => (table.1, table.2.map RowEntry.token)) = r.tokens
  index : contents.index = t.tables.map fun table => (table.1, (table.2.length : Int))
  calls : contents.calls = t.calls.map CallEntry.ofCall

end Header

namespace Grammar

open Header

variable {g : Grammar} {calls : List NumberedCall}

def rowEntries (g : Grammar) : List (String × List RowEntry) :=
  g.states.entries.mapIdx fun k entry => (entry.1, entry.2.mapIdx fun i rule =>
    RowEntry.of rule (TableRow.ofNumbered entry.1 (g.callsBefore k i) rule))

theorem token_numbered (id : Nat) (rule : Rule) : (rule.numbered id).token = rule.token := by
  unfold Rule.numbered
  split
  · rfl
  · rfl

theorem getElem?_rowEntries {k : Nat} {state : String} {rows : List RowEntry} :
    g.rowEntries[k]? = some (state, rows) ↔ ∃ rules, g.states.entries[k]? = some (state, rules) ∧
      rows = rules.mapIdx fun i rule =>
        RowEntry.of rule (TableRow.ofNumbered state (g.callsBefore k i) rule) := by
  rw [rowEntries, List.getElem?_mapIdx, Option.map_eq_some_iff]
  constructor
  · rintro ⟨⟨name, rules⟩, hk, he⟩
    cases he
    exact ⟨rules, hk, rfl⟩
  · rintro ⟨rules, hk, rfl⟩
    exact ⟨(state, rules), hk, rfl⟩

theorem tables_ofTables (wf : g.WellFormed) (calls : List NumberedCall) :
    (Contents.ofTables (g.tablesWith calls)).tables = g.rowEntries := by
  change (g.rowTables.map fun table => (table.1, table.2.map RowEntry.ofRow)) = g.rowEntries
  rw [rowEntries, rowTables, Places.map_mapIdx]
  apply List.mapIdx_eq_mapIdx_iff.mpr
  intro k hk
  rw [Places.map_mapIdx, Prod.mk.injEq]
  refine ⟨rfl, List.mapIdx_eq_mapIdx_iff.mpr fun i hi => ?_⟩
  have hform := wf.rules _ (List.getElem_mem hk) _ (List.getElem_mem hi)
  unfold RowEntry.of RowEntry.ofRow
  rw [RowEntry.mk.injEq]
  exact ⟨restored_patternOf hform.token, rfl, rfl, rfl⟩

theorem map_row_rowEntries (g : Grammar) :
    (g.rowEntries.map fun table => (table.1, table.2.map RowEntry.row)) = g.rowTables := by
  rw [rowEntries, rowTables, Places.map_mapIdx]
  apply List.mapIdx_eq_mapIdx_iff.mpr
  intro k hk
  rw [Places.map_mapIdx]
  rfl

theorem map_token_rowEntries (g : Grammar) :
    (g.rowEntries.map fun table => (table.1, table.2.map RowEntry.token)) =
      g.numberCalls.tokens := by
  rw [tokens, rowEntries, entries_numberCalls, Places.map_mapIdx, Places.map_mapIdx]
  apply List.mapIdx_eq_mapIdx_iff.mpr
  intro k hk
  rw [Places.map_mapIdx, Places.map_mapIdx, Prod.mk.injEq]
  refine ⟨rfl, List.mapIdx_eq_mapIdx_iff.mpr fun i hi => ?_⟩
  exact (token_numbered _ _).symm

theorem tells_ofTables (wf : g.WellFormed) (closed : g.Closed) (calls : List NumberedCall) :
    (Contents.ofTables (g.tablesWith calls)).Tells g.numberCalls (g.tablesWith calls) where
  states := keys_stateIds closed calls
  numbers := rfl
  rows := by
    rw [tables_ofTables wf]
    exact g.map_row_rowEntries
  tokens := by
    rw [tables_ofTables wf]
    exact g.map_token_rowEntries
  index := rfl
  calls := rfl

theorem exists_rowEntry_of_call {conv : Convention} (hcalls : g.numberedCalls conv = .ok calls)
    {n : Nat} {call : NumberedCall} (hn : calls[n]? = some call) :
    ∃ (k i : Nat) (rows : List RowEntry) (identifier : String),
      g.rowEntries[k]? = some (call.state, rows) ∧
      rows[i]? = some ⟨call.token, identifier, callState, n⟩ := by
  obtain ⟨hlt, -⟩ := List.getElem?_eq_some_iff.mp hn
  rw [length_numberedCalls hcalls] at hlt
  obtain ⟨k, i, state, rules, rule, clause, hk, hi, haction, rfl⟩ :=
    exists_place_of_lt_length_callSites hlt
  obtain ⟨found, hfound, hsite⟩ := getElem?_numberedCalls hcalls (getElem?_callSites hk hi haction)
  rw [hn] at hfound
  cases hfound
  obtain ⟨invocation, _, rfl⟩ := NumberedCall.ofSite_eq_ok.mp hsite
  refine ⟨k, i, _, rule.identifier.getD "", getElem?_rowEntries.mpr ⟨rules, hk, rfl⟩, ?_⟩
  rw [List.getElem?_mapIdx, hi, Option.map_some]
  unfold RowEntry.of TableRow.ofNumbered Rule.tableTarget
  rw [haction]

theorem exists_call_of_rowEntry (wf : g.WellFormed) (closed : g.Closed) {conv : Convention}
    (hcalls : g.numberedCalls conv = .ok calls) {k i n : Nat} {state token identifier : String}
    {rows : List RowEntry} (hk : g.rowEntries[k]? = some (state, rows))
    (hi : rows[i]? = some ⟨token, identifier, callState, n⟩) :
    ∃ call, calls[n]? = some call ∧ call.state = state ∧ call.token = token := by
  obtain ⟨rules, hentry, rfl⟩ := getElem?_rowEntries.mp hk
  rw [List.getElem?_mapIdx] at hi
  obtain ⟨rule, hrule, he⟩ := Option.map_eq_some_iff.mp hi
  have hstate : (state, rules) ∈ g.states.entries := List.mem_of_getElem? hentry
  have hmem : rule ∈ rules := List.mem_of_getElem? hrule
  have htarget := closed.targets _ hstate rule hmem
  unfold RowEntry.of TableRow.ofNumbered Rule.tableTarget at he
  cases haction : rule.action with
  | stay =>
    rw [haction, RowEntry.mk.injEq] at he
    exact absurd he.2.2.1 (closed.ne_callState (mem_stateNames hstate))
  | transition target =>
    rw [haction, RowEntry.mk.injEq] at he
    have hdeclared : target ∈ g.stateNames := htarget target (by rw [haction]; rfl)
    exact absurd he.2.2.1 (closed.ne_callState hdeclared)
  | call clause =>
    rw [haction, RowEntry.mk.injEq] at he
    obtain ⟨htoken, -, -, hnumber⟩ := he
    obtain ⟨call, hcall, hsite⟩ :=
      getElem?_numberedCalls hcalls (getElem?_callSites hentry hrule haction)
    have hplace : g.callsBefore k i = n := Int.ofNat.inj hnumber
    obtain ⟨invocation, _, rfl⟩ := NumberedCall.ofSite_eq_ok.mp hsite
    exact ⟨_, hplace ▸ hcall, rfl, htoken⟩
  | dispatch id target => exact absurd haction (wf.undispatched _ hstate rule hmem id target)

theorem eq_of_ofCall {call call' : NumberedCall}
    (told : CallEntry.ofCall call = CallEntry.ofCall call') (state : call.state = call'.state)
    (token : call.token = call'.token) : call' = { call with line := call'.line } := by
  unfold CallEntry.ofCall at told
  rw [CallEntry.mk.injEq] at told
  obtain ⟨hid, hinvocation, hformat, harguments, hreturn⟩ := told
  cases call
  cases call'
  simp_all

theorem forall₂_calls {g' : Grammar} {calls' : List NumberedCall} (wf' : g'.WellFormed)
    (closed' : g'.Closed) {conv : Convention} (hcalls : g.numberedCalls conv = .ok calls)
    (hcalls' : g'.numberedCalls conv = .ok calls') (entries : g.rowEntries = g'.rowEntries)
    (told : calls.map CallEntry.ofCall = calls'.map CallEntry.ofCall) :
    List.Forall₂ (fun call call' => call' = { call with line := call'.line }) calls calls' := by
  have hlength : calls.length = calls'.length := by
    simpa using congrArg List.length told
  refine List.forall₂_iff_get.mpr ⟨hlength, ?_⟩
  intro n hn hn'
  have hcall : calls[n]? = some (calls.get ⟨n, hn⟩) := List.getElem?_eq_getElem hn
  have hcall' : calls'[n]? = some (calls'.get ⟨n, hn'⟩) := List.getElem?_eq_getElem hn'
  have htold : CallEntry.ofCall (calls.get ⟨n, hn⟩) = CallEntry.ofCall (calls'.get ⟨n, hn'⟩) := by
    have hplace := congrArg (fun list => list[n]?) told
    simpa only [List.getElem?_map, hcall, hcall', Option.map_some, Option.some.injEq] using hplace
  -- the entry that tells of the call in one grammar tells of the call with its number in the other
  obtain ⟨k, i, rows, identifier, hk, hi⟩ := exists_rowEntry_of_call hcalls hcall
  rw [entries] at hk
  obtain ⟨found, hfound, hstate, htoken⟩ := exists_call_of_rowEntry wf' closed' hcalls' hk hi
  rw [hcall'] at hfound
  cases hfound
  exact eq_of_ofCall htold hstate.symm htoken.symm

end Grammar

end CommandGrammar
