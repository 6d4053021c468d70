import CommandGrammar.Proofs.Machine.Basic
import CommandGrammar.Proofs.Tables.Acceptance

/-!
The tables of a grammar do what the grammar does.

A declared state and its number belong together. From states that belong together the grammar and
its tables offer the same, and on equal picks they make the same call and come to states that
belong together again. Both machines therefore keep together through every series of picks.
-/

set_option autoImplicit false
set_option relaxedAutoImplicit false

namespace CommandGrammar

namespace Grammar

variable {g : Grammar} {conv : Convention} {calls : List NumberedCall}

def Numbers (g : Grammar) (t : ParserTables) (state : String) (number : Int) : Prop :=
  state ∈ g.stateNames ∧ t.stateIds.get? state = some number

theorem exists_entry {state : String} (h : state ∈ g.stateNames) :
    ∃ (k : Nat) (rules : List Rule), g.states.entries[k]? = some (state, rules) ∧
      g.states.get? state = some rules := by
  obtain ⟨⟨name, rules⟩, hentry, rfl⟩ := List.mem_map.mp h
  obtain ⟨k, hk⟩ := List.mem_iff_getElem?.mp hentry
  exact ⟨k, rules, hk, (OrderedMap.get?_eq_some_iff _).mpr hentry⟩

theorem numbers_entry (closed : g.Closed) (calls : List NumberedCall) {k : Nat} {state : String}
    {rules : List Rule} (hk : g.states.entries[k]? = some (state, rules)) :
    g.Numbers (g.tablesWith calls) state k := by
  have hname : g.stateNames[k]? = some state := by
    rw [stateNames, OrderedMap.keys, List.getElem?_map, hk]
    rfl
  obtain ⟨hlt, -⟩ := List.getElem?_eq_some_iff.mp hname
  refine ⟨List.mem_of_getElem? hname, get?_stateIds closed calls ?_⟩
  rw [List.getElem?_append_left hlt]
  exact hname

theorem exists_numbers (closed : g.Closed) (calls : List NumberedCall) {state : String}
    (h : state ∈ g.stateNames) : ∃ number, g.Numbers (g.tablesWith calls) state number := by
  obtain ⟨k, _, hk, _⟩ := exists_entry h
  exact ⟨k, numbers_entry closed calls hk⟩

theorem Numbers.rules (closed : g.Closed) {state : String} {number : Int}
    (h : g.Numbers (g.tablesWith calls) state number) :
    ∃ (k : Nat) (rules : List Rule), g.states.entries[k]? = some (state, rules) ∧
      g.states.get? state = some rules ∧
      ParserTables.at? (g.tablesWith calls).tables number =
        some (state, rules.mapIdx fun i rule =>
          TableRow.ofNumbered state (g.callsBefore k i) rule) := by
  obtain ⟨k, rules, hk, hget⟩ := exists_entry h.1
  have hnumber := (numbers_entry closed calls hk).2
  rw [h.2] at hnumber
  cases hnumber
  exact ⟨k, rules, hk, hget, getElem?_rowTables hk⟩

theorem move_ofNumbered (wf : g.WellFormed) (closed : g.Closed)
    (hcalls : g.numberedCalls conv = .ok calls) {k i : Nat} {state : String} {rules : List Rule}
    {rule : Rule} (hk : g.states.entries[k]? = some (state, rules)) (hi : rules[i]? = some rule) :
    ∃ here there, rule.move conv state = some here ∧
      (g.tablesWith calls).move (TableRow.ofNumbered state (g.callsBefore k i) rule) = some there ∧
      here.call = there.call ∧ g.Numbers (g.tablesWith calls) here.next there.next := by
  have hentry : (state, rules) ∈ g.states.entries := List.mem_of_getElem? hk
  have hrule : rule ∈ rules := List.mem_of_getElem? hi
  have htarget := closed.targets _ hentry rule hrule
  unfold Rule.move ParserTables.move TableRow.ofNumbered Rule.tableTarget
  cases haction : rule.action with
  | stay =>
    have hstate : state ∈ g.stateNames := mem_stateNames hentry
    obtain ⟨number, hnumber⟩ := exists_numbers closed calls hstate
    refine ⟨⟨none, state⟩, ⟨none, number⟩, rfl, ?_, rfl, hnumber⟩
    dsimp only
    rw [if_neg (closed.ne_callState hstate), hnumber.2]
    rfl
  | transition target =>
    have hmem : target ∈ g.stateNames := htarget target (by rw [haction]; rfl)
    obtain ⟨number, hnumber⟩ := exists_numbers closed calls hmem
    refine ⟨⟨none, target⟩, ⟨none, number⟩, rfl, ?_, rfl, hnumber⟩
    dsimp only
    rw [if_neg (closed.ne_callState hmem), hnumber.2]
    rfl
  | call clause =>
    have hmem : clause.returnTarget ∈ g.stateNames := htarget _ (by rw [haction]; rfl)
    obtain ⟨number, hnumber⟩ := exists_numbers closed calls hmem
    -- the row holds the number of calls before the rule, and the entry there is that of the rule
    obtain ⟨call, hcall, hsite⟩ :=
      getElem?_numberedCalls hcalls (getElem?_callSites hk hi haction)
    obtain ⟨invocation, hinvocation, rfl⟩ := NumberedCall.ofSite_eq_ok.mp hsite
    refine ⟨⟨some (invocation.withContext conv.context), clause.returnTarget⟩,
      ⟨some (invocation.withContext conv.context), number⟩, ?_, ?_, rfl, hnumber⟩
    · dsimp only
      rw [Convention.callText, hinvocation]
      rfl
    · have hplace : ParserTables.at? (g.tablesWith calls).calls (g.callsBefore k i : Int) =
          some _ := hcall
      dsimp only
      rw [if_pos rfl, hplace, Option.bind_some]
      dsimp only
      rw [hnumber.2]
      rfl
  | dispatch id target => exact absurd haction (wf.undispatched _ hentry rule hrule id target)

/-- From a state and its number, the grammar and its tables make the same moves. -/
theorem follows_tablesWith (wf : g.WellFormed) (closed : g.Closed)
    (hcalls : g.numberedCalls conv = .ok calls) :
    (g.machine conv).Follows (g.tablesWith calls).machine (g.Numbers (g.tablesWith calls)) := by
  intro state number i h
  obtain ⟨k, rules, hk, hget, htable⟩ := h.rules closed
  rw [pick_machine hget, ParserTables.pick_machine htable, List.getElem?_mapIdx]
  cases hi : rules[i]? with
  | none => exact .none
  | some rule =>
    obtain ⟨here, there, hhere, hthere, hmove⟩ := move_ofNumbered wf closed hcalls hk hi
    rw [Option.map_some, Option.bind_some, Option.bind_some, hhere, hthere]
    exact .some hmove

theorem Numbers.matched (wf : g.WellFormed) (closed : g.Closed)
    (hcalls : g.numberedCalls conv = .ok calls) {state : String} {number : Int}
    (h : g.Numbers (g.tablesWith calls) state number) :
    (g.machine conv).Matched (g.tablesWith calls).machine state number := by
  obtain ⟨k, rules, hk, hget, htable⟩ := h.rules closed
  refine ⟨rules.map Rule.offer, offers_machine hget conv, ?_, ?_⟩
  · rw [ParserTables.offers_machine htable, Places.map_mapIdx]
    exact congrArg some (Places.mapIdx_const Rule.offer rules)
  · intro i
    rw [pick_machine hget, ParserTables.pick_machine htable, List.getElem?_mapIdx, List.length_map]
    cases hi : rules[i]? with
    | none =>
      have hge : rules.length ≤ i := List.getElem?_eq_none_iff.mp hi
      simp [hge]
    | some rule =>
      obtain ⟨hlt, -⟩ := List.getElem?_eq_some_iff.mp hi
      obtain ⟨here, there, hhere, hthere, -⟩ := move_ofNumbered wf closed hcalls hk hi
      simp [hhere, hthere, hlt]

end Grammar

/-- The tables of a checked grammar do what the grammar does: from every declared state, on every
series of picks, both make the same calls and come to a state and its number, where both offer the
same. -/
theorem tables_follow_grammar {source : String} {g : Grammar} {warnings : List Warning}
    (hread : Grammar.read source = .ok g) (hcheck : g.check = .ok warnings) (conv : Convention) :
    ∃ r calls t, g.resolve conv = .ok (r, calls) ∧ ParserTables.build r calls = .ok t ∧
      ∀ start ∈ g.stateNames, ∃ number, t.stateIds.get? start = some number ∧
        ∀ picks, Option.Rel
          (fun here there => here.1 = there.1 ∧ g.Numbers t here.2 there.2 ∧
            (g.machine conv).Matched t.machine here.2 there.2)
          ((g.machine conv).run start picks) (t.machine.run number picks) := by
  have wf := Grammar.wellFormed_of_read hread
  have closed := Grammar.closed_of_check hcheck
  obtain ⟨calls, hcalls, hresolve, hbuild, -⟩ := Grammar.exists_tables wf closed conv
  refine ⟨_, calls, _, hresolve, hbuild, ?_⟩
  intro start hstart
  obtain ⟨number, hnumber⟩ := Grammar.exists_numbers closed calls hstart
  refine ⟨number, hnumber.2, ?_⟩
  intro picks
  have hrun := (Grammar.follows_tablesWith wf closed hcalls).run picks hnumber
  refine Machine.rel_mono hrun ?_
  rintro here there ⟨hmade, hends⟩
  exact ⟨hmade, hends, hends.matched wf closed hcalls⟩

/-- The turnstile and its tables keep together. -/
theorem turnstile_tables_follow : Grammar.read turnstileSource = .ok turnstile ∧
    turnstile.check = .ok [] ∧
    ∃ r calls t, turnstile.resolve {} = .ok (r, calls) ∧ ParserTables.build r calls = .ok t ∧
      ∀ start ∈ ["INITIAL", "OPEN"], ∃ number, t.stateIds.get? start = some number ∧
        ∀ picks, Option.Rel
          (fun here there => here.1 = there.1 ∧ turnstile.Numbers t here.2 there.2 ∧
            (turnstile.machine {}).Matched t.machine here.2 there.2)
          ((turnstile.machine {}).run start picks) (t.machine.run number picks) :=
  ⟨read_turnstileSource, check_turnstile,
    tables_follow_grammar read_turnstileSource check_turnstile {}⟩

/-- Coming in, staying, and naming the visitor. -/
example : (turnstile.machine {}).run "INITIAL" [0, 1, 0] =
    some (["pass(&current_match, result, \"a\", get_string(\"n\"))"], "INITIAL") := by
  decide +kernel

end CommandGrammar
