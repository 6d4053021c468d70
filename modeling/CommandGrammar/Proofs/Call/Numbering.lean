import CommandGrammar.Call.Table
import CommandGrammar.Proofs.Grammar.Closed
import CommandGrammar.Proofs.OrderedMap
import CommandGrammar.Proofs.Places

/-!
The numbers of calls.

The rule at place `i` of the state at place `k` is reached after a certain number of calls, whatever
other rules stand between them. That number is what a call at this place gets, and the entry under
it in the table is the one written for this place. Every number below the size of the table is given
to some place.
-/

set_option autoImplicit false
set_option relaxedAutoImplicit false

namespace CommandGrammar

def CallSite.ofRule (state : String) (rule : Rule) : List CallSite :=
  match rule.action with
  | .call clause => [⟨state, rule, clause⟩]
  | _ => []

def CallSite.ofRules (state : String) (rules : List Rule) : List CallSite :=
  rules.flatMap (CallSite.ofRule state)

theorem CallSite.ofRules_cons (state : String) (rule : Rule) (rules : List Rule) :
    CallSite.ofRules state (rule :: rules) =
      CallSite.ofRule state rule ++ CallSite.ofRules state rules :=
  List.flatMap_cons

def CallSite.ofEntries (entries : List (String × List Rule)) : List CallSite :=
  entries.flatMap fun entry => CallSite.ofRules entry.1 entry.2

theorem CallSite.ofEntries_cons (entry : String × List Rule) (entries : List (String × List Rule)) :
    CallSite.ofEntries (entry :: entries) =
      CallSite.ofRules entry.1 entry.2 ++ CallSite.ofEntries entries :=
  List.flatMap_cons

/-- A rule with a number in place of its call; any other rule stays as it is. -/
def Rule.numbered (id : Nat) (rule : Rule) : Rule :=
  match rule.action with
  | .call clause => rule.setAction (.dispatch id clause.returnTarget)
  | _ => rule

theorem NumberedCall.ofSite_eq_ok {conv : Convention} {site : CallSite} {id : Nat}
    {call : NumberedCall} :
    NumberedCall.ofSite conv site id = .ok call ↔
      ∃ invocation, conv.invocation site.clause.template = .ok invocation ∧
        call = {
          id
          invocation := invocation.withContext conv.context
          format := Template.printFormat site.clause.template
          arguments := invocation.arguments
          returnState := site.clause.returnTarget
          state := site.state
          token := site.rule.token
          line := site.rule.line } := by
  unfold NumberedCall.ofSite
  rw [Outcome.bind_eq_ok]
  constructor
  · rintro ⟨invocation, hi, he⟩
    cases he
    exact ⟨invocation, hi, rfl⟩
  · rintro ⟨invocation, hi, rfl⟩
    exact ⟨invocation, hi, rfl⟩

namespace Grammar

/-- The number of calls before the rule at place `i` of the state at place `k`. -/
def callsBefore (g : Grammar) (k i : Nat) : Nat :=
  (CallSite.ofEntries (g.states.entries.take k)).length +
    match g.states.entries[k]? with
    | some (state, rules) => (CallSite.ofRules state (rules.take i)).length
    | none => 0

theorem callSites_eq (g : Grammar) : g.callSites = CallSite.ofEntries g.states.entries := by
  unfold callSites Grammar.rules CallSite.ofEntries CallSite.ofRules
  rw [List.filterMap_flatMap]
  congr 1
  funext entry
  rw [List.filterMap_map]
  induction entry.2 with
  | nil => rfl
  | cons rule rules ih =>
    rw [List.flatMap_cons, ← ih]
    cases h : rule.action <;> simp [CallSite.ofRule, h]

/-- A rule takes as many numbers as it has calls, and the next rule goes on after them. -/
theorem numberRules_cons (next : Nat) (state : String) (rule : Rule) (rules : List Rule) :
    numberRules next (rule :: rules) =
      ((numberRules (next + (CallSite.ofRule state rule).length) rules).1,
        rule.numbered next ::
          (numberRules (next + (CallSite.ofRule state rule).length) rules).2) := by
  rw [numberRules]
  cases h : rule.action <;> simp [CallSite.ofRule, Rule.numbered, h]

theorem numberRules_fst (next : Nat) (state : String) (rules : List Rule) :
    (numberRules next rules).1 = next + (CallSite.ofRules state rules).length := by
  induction rules generalizing next with
  | nil => rfl
  | cons rule rules ih =>
    rw [numberRules_cons next state, ih, CallSite.ofRules_cons, List.length_append, Nat.add_assoc]

theorem getElem?_numberRules (next : Nat) (state : String) (rules : List Rule) (i : Nat) :
    (numberRules next rules).2[i]? =
      rules[i]?.map (Rule.numbered (next + (CallSite.ofRules state (rules.take i)).length)) := by
  induction rules generalizing next i with
  | nil => simp [numberRules]
  | cons rule rules ih =>
    rw [numberRules_cons next state]
    cases i with
    | zero => simp [CallSite.ofRules]
    | succ i =>
      rw [List.getElem?_cons_succ, List.getElem?_cons_succ, ih, List.take_succ_cons,
        CallSite.ofRules_cons, List.length_append, Nat.add_assoc]

theorem threadEntries_numberRules_fst (next : Nat) (entries : List (String × List Rule)) :
    (OrderedMap.threadEntries (fun next _ rules => numberRules next rules) next entries).1 =
      next + (CallSite.ofEntries entries).length := by
  induction entries generalizing next with
  | nil => rfl
  | cons entry entries ih =>
    rw [CallSite.ofEntries_cons, List.length_append, ← Nat.add_assoc,
      ← numberRules_fst next entry.1, ← ih]
    rfl

/-- Numbering gives each call the number of calls before it, and leaves all else as it is. -/
theorem entries_numberCalls (g : Grammar) :
    g.numberCalls.states.entries = g.states.entries.mapIdx fun k entry =>
      (entry.1, entry.2.mapIdx fun i rule => rule.numbered (g.callsBefore k i)) := by
  apply List.ext_getElem?
  intro k
  rw [List.getElem?_mapIdx]
  refine (OrderedMap.getElem?_threadEntries _ 0 g.states.entries k).trans ?_
  rw [threadEntries_numberRules_fst, Nat.zero_add]
  cases h : g.states.entries[k]? with
  | none => rfl
  | some entry =>
    simp only [Option.map_some, Option.some.injEq, Prod.mk.injEq, true_and]
    apply List.ext_getElem?
    intro i
    rw [getElem?_numberRules _ entry.1, List.getElem?_mapIdx, callsBefore, h]

theorem stateNames_numberCalls (g : Grammar) : g.numberCalls.stateNames = g.stateNames :=
  OrderedMap.keys_thread _ 0 g.states

theorem getElem?_callSites {g : Grammar} {k i : Nat} {state : String} {rules : List Rule}
    {rule : Rule} {clause : CallClause} (hk : g.states.entries[k]? = some (state, rules))
    (hi : rules[i]? = some rule) (hcall : rule.action = .call clause) :
    g.callSites[g.callsBefore k i]? = some ⟨state, rule, clause⟩ := by
  have hsite : CallSite.ofRule state rule = [⟨state, rule, clause⟩] := by
    simp [CallSite.ofRule, hcall]
  have hrules : (CallSite.ofRules state rules)[(CallSite.ofRules state (rules.take i)).length]? =
      some ⟨state, rule, clause⟩ := by
    have h := Places.getElem?_flatMap_add (f := CallSite.ofRule state) (j := 0) hi (by simp [hsite])
    simpa [hsite, CallSite.ofRules] using h
  rw [callSites_eq, callsBefore, hk]
  obtain ⟨hlt, -⟩ := List.getElem?_eq_some_iff.mp hrules
  rw [CallSite.ofEntries, CallSite.ofEntries, Places.getElem?_flatMap_add hk hlt]
  exact hrules

theorem exists_place_of_lt_length_callSites {g : Grammar} {n : Nat}
    (h : n < g.callSites.length) :
    ∃ k i state rules rule clause, g.states.entries[k]? = some (state, rules) ∧
      rules[i]? = some rule ∧ rule.action = .call clause ∧ g.callsBefore k i = n := by
  rw [callSites_eq] at h
  obtain ⟨k, ⟨state, rules⟩, j, hk, hj, hn⟩ := Places.exists_place_of_lt_length_flatMap h
  obtain ⟨i, rule, l, hi, hl, hj'⟩ := Places.exists_place_of_lt_length_flatMap hj
  cases haction : rule.action with
  | call clause =>
    refine ⟨k, i, state, rules, rule, clause, hk, hi, haction, ?_⟩
    have hzero : l = 0 := by
      simpa [CallSite.ofRule, haction] using hl
    rw [callsBefore, hk, ← hn, ← hj', hzero]
    rfl
  | stay => simp [CallSite.ofRule, haction] at hl
  | transition target => simp [CallSite.ofRule, haction] at hl
  | dispatch id state => simp [CallSite.ofRule, haction] at hl

theorem getElem?_numberedCalls {g : Grammar} {conv : Convention} {calls : List NumberedCall}
    (h : g.numberedCalls conv = .ok calls) {n : Nat} {site : CallSite}
    (hsite : g.callSites[n]? = some site) :
    ∃ call, calls[n]? = some call ∧ NumberedCall.ofSite conv site n = .ok call :=
  Outcome.getElem?_of_mapM h (x := (site, n)) (by simp [List.getElem?_zipIdx, hsite])

theorem length_numberedCalls {g : Grammar} {conv : Convention} {calls : List NumberedCall}
    (h : g.numberedCalls conv = .ok calls) : calls.length = g.callSites.length := by
  rw [Outcome.length_of_mapM h, List.length_zipIdx]

theorem resolve_eq_ok {g r : Grammar} {conv : Convention} {calls : List NumberedCall} :
    g.resolve conv = .ok (r, calls) ↔ r = g.numberCalls ∧ g.numberedCalls conv = .ok calls := by
  unfold resolve
  rw [Outcome.bind_eq_ok]
  constructor
  · rintro ⟨found, hfound, he⟩
    cases he
    exact ⟨rfl, hfound⟩
  · rintro ⟨rfl, hcalls⟩
    exact ⟨calls, hcalls, rfl⟩

end Grammar

end CommandGrammar
