import CommandGrammar.Header.Files
import CommandGrammar.Proofs.Call.Invocation
import CommandGrammar.Proofs.Tables.Build
import CommandGrammar.Proofs.Tables.Consistency

set_option autoImplicit false
set_option relaxedAutoImplicit false

namespace CommandGrammar

namespace Grammar

variable {g : Grammar}

theorem nodup_states (closed : g.Closed) : (g.stateNames ++ [callState]).Nodup := by
  rw [List.nodup_append]
  refine ⟨g.states.nodup, by simp, ?_⟩
  intro name hname other hother he
  rw [List.mem_singleton.mp hother] at he
  exact closed.ne_callState hname he

theorem get?_stateIds (closed : g.Closed) (calls : List NumberedCall) {n : Nat} {state : String}
    (h : (g.stateNames ++ [callState])[n]? = some state) :
    (g.tablesWith calls).stateIds.get? state = some (n : Int) :=
  (ParserTables.get?_numberStates (nodup_states closed)).mpr ⟨n, h, rfl⟩

theorem mem_keys_stateIds (g : Grammar) (calls : List NumberedCall) {state : String}
    (h : state ∈ g.stateNames ++ [callState]) : state ∈ (g.tablesWith calls).stateIds.keys := by
  obtain ⟨id, hid⟩ := ParserTables.exists_get?_numberStates h
  exact (OrderedMap.mem_keys_iff _).mpr ⟨id, (OrderedMap.get?_eq_some_iff _).mp hid⟩

theorem mem_stateNames {entry : String × List Rule} (h : entry ∈ g.states.entries) :
    entry.1 ∈ g.stateNames :=
  List.mem_map.mpr ⟨entry, h, rfl⟩

theorem rowLeads_ofNumbered (closed : g.Closed) {calls : List NumberedCall}
    (hcalls : g.callSites.length ≤ calls.length) {k i : Nat} {state : String} {rules : List Rule}
    {rule : Rule} (undispatched : ∀ id target, rule.action ≠ .dispatch id target)
    (hk : g.states.entries[k]? = some (state, rules)) (hi : rules[i]? = some rule) :
    (g.tablesWith calls).RowLeads (TableRow.ofNumbered state (g.callsBefore k i) rule) := by
  have hentry : (state, rules) ∈ g.states.entries := List.mem_of_getElem? hk
  have hstate : state ∈ g.stateNames := mem_stateNames hentry
  have htarget := closed.targets _ hentry rule (List.mem_of_getElem? hi)
  unfold ParserTables.RowLeads TableRow.ofNumbered Rule.tableTarget
  cases haction : rule.action with
  | stay =>
    refine ⟨g.mem_keys_stateIds calls (List.mem_append_left _ hstate), ?_⟩
    intro hcall
    exact absurd hcall (closed.ne_callState hstate)
  | transition target =>
    have hmem : target ∈ g.stateNames := htarget target (by rw [haction]; rfl)
    refine ⟨g.mem_keys_stateIds calls (List.mem_append_left _ hmem), ?_⟩
    intro hcall
    exact absurd hcall (closed.ne_callState hmem)
  | call clause =>
    refine ⟨g.mem_keys_stateIds calls (List.mem_append_right _ List.mem_cons_self), ?_⟩
    intro _
    obtain ⟨hlt, -⟩ := List.getElem?_eq_some_iff.mp (getElem?_callSites hk hi haction)
    change 0 ≤ (g.callsBefore k i : Int) ∧ (g.callsBefore k i : Int) < calls.length
    omega
  | dispatch id target => exact absurd haction (undispatched id target)

/-- The tables of a closed grammar are consistent as soon as there is an entry for each call. -/
theorem consistent_tablesWith (closed : g.Closed) {calls : List NumberedCall}
    (undispatched : ∀ entry ∈ g.states.entries, ∀ rule ∈ entry.2, ∀ id target,
      rule.action ≠ .dispatch id target)
    (hcalls : g.callSites.length ≤ calls.length) : (g.tablesWith calls).Consistent where
  sentinel := List.getLast?_concat
  numbers := fun _ _ h => get?_stateIds closed calls h
  order := by
    rw [ParserTables.declaredStates]
    exact g.map_fst_rowTables.trans List.dropLast_concat.symm
  rows := by
    rintro ⟨state, rows⟩ htable row hrow
    obtain ⟨k, rules, hk, rfl⟩ := g.mem_rowTables_iff.mp htable
    obtain ⟨i, hi⟩ := List.mem_iff_getElem?.mp hrow
    rw [List.getElem?_mapIdx] at hi
    obtain ⟨rule, hrule, rfl⟩ := Option.map_eq_some_iff.mp hi
    refine rowLeads_ofNumbered closed hcalls ?_ hk hrule
    exact undispatched _ (List.mem_of_getElem? hk) rule (List.mem_of_getElem? hrule)

theorem WellFormed.undispatched (wf : g.WellFormed) : ∀ entry ∈ g.states.entries,
    ∀ rule ∈ entry.2, ∀ id target, rule.action ≠ .dispatch id target := by
  intro entry hentry rule hrule id target haction
  have h := (wf.rules entry hentry rule hrule).action
  rw [haction] at h
  exact h

theorem mem_of_mem_callSites {site : CallSite} (h : site ∈ g.callSites) :
    ∃ rules, (site.state, rules) ∈ g.states.entries ∧ site.rule ∈ rules ∧
      site.rule.action = .call site.clause := by
  obtain ⟨n, hn⟩ := List.mem_iff_getElem?.mp h
  obtain ⟨hlt, -⟩ := List.getElem?_eq_some_iff.mp hn
  obtain ⟨k, i, state, rules, rule, clause, hk, hi, haction, he⟩ :=
    exists_place_of_lt_length_callSites hlt
  have hsite := getElem?_callSites hk hi haction
  rw [he, hn] at hsite
  cases hsite
  exact ⟨rules, List.mem_of_getElem? hk, List.mem_of_getElem? hi, haction⟩

theorem WellFormed.exists_numberedCalls (wf : g.WellFormed) (conv : Convention) :
    ∃ calls, g.numberedCalls conv = .ok calls := by
  apply Outcome.exists_mapM
  rintro ⟨site, id⟩ hsite
  obtain ⟨rules, hentry, hrule, haction⟩ :=
    mem_of_mem_callSites (List.mem_of_getElem? (List.mem_zipIdx_iff_getElem?.mp hsite))
  have hclause := (wf.rules _ hentry site.rule hrule).action
  rw [haction] at hclause
  obtain ⟨invocation, hinvocation⟩ := conv.invocation_isOk hclause.template
  exact ⟨_, NumberedCall.ofSite_eq_ok.mpr ⟨invocation, hinvocation, rfl⟩⟩

theorem map_id_numberedCalls {conv : Convention} {calls : List NumberedCall}
    (h : g.numberedCalls conv = .ok calls) :
    calls.map NumberedCall.id = (List.range calls.length).map Int.ofNat := by
  apply List.ext_getElem?
  intro n
  rw [List.getElem?_map, List.getElem?_map]
  rcases Nat.lt_or_ge n calls.length with hn | hn
  · have hsite : n < g.callSites.length := by rwa [← length_numberedCalls h]
    obtain ⟨call, hcall, hentry⟩ := getElem?_numberedCalls h (List.getElem?_eq_getElem hsite)
    obtain ⟨invocation, _, rfl⟩ := NumberedCall.ofSite_eq_ok.mp hentry
    rw [hcall, List.getElem?_range hn]
    rfl
  · rw [List.getElem?_eq_none hn, List.getElem?_eq_none (by simpa using hn)]
    rfl

theorem exists_tables (wf : g.WellFormed) (closed : g.Closed) (conv : Convention) :
    ∃ calls, g.numberedCalls conv = .ok calls ∧
      g.resolve conv = .ok (g.numberCalls, calls) ∧
      ParserTables.build g.numberCalls calls = .ok (g.tablesWith calls) ∧
      (g.tablesWith calls).Consistent := by
  obtain ⟨calls, hcalls⟩ := wf.exists_numberedCalls conv
  refine ⟨calls, hcalls, resolve_eq_ok.mpr ⟨rfl, hcalls⟩, ?_, ?_⟩
  · rw [build_numberCalls, if_pos (map_id_numberedCalls hcalls)]
  · exact consistent_tablesWith closed wf.undispatched (length_numberedCalls hcalls).ge

end Grammar

namespace Header

variable {t : ParserTables}

theorem enums_of_consistent (h : t.Consistent) : enums t = .ok (Text.endLines (enumLines t)) := by
  rw [enums, t.check_eq_ok_iff.mpr h]
  rfl

theorem calls_of_consistent (h : t.Consistent) (options : Options) :
    calls options t = .ok (Text.endLines (callLines options t)) := by
  rw [calls, t.check_eq_ok_iff.mpr h]
  rfl

theorem tokens_of_consistent (h : t.Consistent) :
    tokens t = .ok (Text.endLines (tokenLines t)) := by
  rw [tokens, t.check_eq_ok_iff.mpr h]
  rfl

theorem files_of_consistent (h : t.Consistent) (options : Options) :
    files options t = .ok [
      ⟨options.namePrefix ++ "enums.h", Text.endLines (enumLines t)⟩,
      ⟨options.namePrefix ++ "call.h", Text.endLines (callLines options t)⟩,
      ⟨options.namePrefix ++ "tokens.h", Text.endLines (tokenLines t)⟩] := by
  rw [files, enums_of_consistent h, calls_of_consistent h options, tokens_of_consistent h]
  rfl

end Header

/-- A text that is read and passes the check is compiled to the end, whatever the convention and the
options: neither the calls, nor the tables, nor the headers can fail any more. -/
theorem headers_of_checked {source : String} {g : Grammar} {warnings : List Warning}
    (hread : Grammar.read source = .ok g) (hcheck : g.check = .ok warnings)
    (conv : Convention) (options : Header.Options) :
    ∃ r calls t enums dispatch tokens, g.resolve conv = .ok (r, calls) ∧
      ParserTables.build r calls = .ok t ∧ Header.enums t = .ok enums ∧
      Header.calls options t = .ok dispatch ∧ Header.tokens t = .ok tokens ∧
      Header.files options t = .ok [
        ⟨options.namePrefix ++ "enums.h", enums⟩,
        ⟨options.namePrefix ++ "call.h", dispatch⟩,
        ⟨options.namePrefix ++ "tokens.h", tokens⟩] := by
  obtain ⟨calls, _, hresolve, hbuild, hconsistent⟩ := Grammar.exists_tables
    (Grammar.wellFormed_of_read hread) (Grammar.closed_of_check hcheck) conv
  have henums := Header.enums_of_consistent hconsistent
  have hcalls := Header.calls_of_consistent hconsistent options
  have htokens := Header.tokens_of_consistent hconsistent
  refine ⟨_, _, _, _, _, _, hresolve, hbuild, henums, hcalls, htokens, ?_⟩
  rw [Header.files, henums, hcalls, htokens]
  rfl

/-- A text with a continuation, a capture, a quoted word and a call that returns to the default. -/
def turnstileSource : String :=
  "state INITIAL:\n 'coin', t -> OPEN\nstate OPEN:\n n = word\n -> call pass(\"a\", $n)\n end ->"

def turnstile : Grammar where
  states := ⟨[
    ("INITIAL", [
      ⟨"'coin'", none, .transition "OPEN", 2⟩,
      ⟨"t", none, .transition "OPEN", 2⟩]),
    ("OPEN", [
      ⟨"word", some "n", .call ⟨"pass(\"a\", $n)", none⟩, 4⟩,
      ⟨"end", none, .stay, 6⟩])], by decide⟩
  stateLines := ⟨[("INITIAL", 1), ("OPEN", 3)], by decide⟩

theorem read_turnstileSource : Grammar.read turnstileSource = .ok turnstile := by decide +kernel

theorem check_turnstile : turnstile.check = .ok [] := by decide

/-- The turnstile is compiled even with an accessor that holds brackets, a line feed and a dollar
sign. -/
theorem headers_of_turnstile : Grammar.read turnstileSource = .ok turnstile ∧
    turnstile.check = .ok [] ∧
    ∃ r calls t enums dispatch tokens, turnstile.resolve ⟨[], ")(\n$x"⟩ = .ok (r, calls) ∧
      ParserTables.build r calls = .ok t ∧ Header.enums t = .ok enums ∧
      Header.calls {} t = .ok dispatch ∧ Header.tokens t = .ok tokens ∧
      Header.files {} t = .ok [
        ⟨"GENERATED_enums.h", enums⟩, ⟨"GENERATED_call.h", dispatch⟩,
        ⟨"GENERATED_tokens.h", tokens⟩] :=
  ⟨read_turnstileSource, check_turnstile,
    headers_of_checked read_turnstileSource check_turnstile ⟨[], ")(\n$x"⟩ {}⟩

end CommandGrammar
