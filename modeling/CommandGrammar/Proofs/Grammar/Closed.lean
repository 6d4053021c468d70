import CommandGrammar.Grammar.Check
import CommandGrammar.Proofs.Outcome

set_option autoImplicit false
set_option relaxedAutoImplicit false

namespace CommandGrammar.Grammar

/-- No state has the reserved name, and every state that a rule names is declared. -/
structure Closed (g : Grammar) : Prop where
  reserved : callState ∉ g.stateNames
  targets : ∀ entry ∈ g.states.entries, ∀ rule ∈ entry.2, ∀ target,
    rule.action.target? = some target → target ∈ g.stateNames

theorem Closed.ne_callState {g : Grammar} (closed : g.Closed) {state : String}
    (h : state ∈ g.stateNames) : state ≠ callState := by
  rintro rfl
  exact closed.reserved h

theorem mem_rules_iff (g : Grammar) {state : String} {rule : Rule} :
    (state, rule) ∈ g.rules ↔ ∃ rules, (state, rules) ∈ g.states.entries ∧ rule ∈ rules := by
  simp only [rules, List.mem_flatMap, List.mem_map, Prod.mk.injEq, Prod.exists]
  constructor
  · rintro ⟨name, list, hentry, r, hr, rfl, rfl⟩
    exact ⟨list, hentry, hr⟩
  · rintro ⟨list, hentry, hr⟩
    exact ⟨state, list, hentry, rule, hr, rfl, rfl⟩

theorem contains_states_iff (g : Grammar) (state : String) :
    g.states.contains state = true ↔ state ∈ g.stateNames :=
  OrderedMap.contains_iff g.states state

theorem declare_of_mem {g : Grammar} {state : String} (h : state ∈ g.stateNames) (line : Int) :
    g.declare state line = g :=
  if_pos ((g.contains_states_iff state).mpr h)

theorem declare_of_not_mem {g : Grammar} {state : String} (h : state ∉ g.stateNames) (line : Int) :
    g.declare state line = ⟨g.states.insert state [], g.stateLines.insert state line⟩ :=
  if_neg fun hknown => h ((g.contains_states_iff state).mp hknown)

theorem checkReserved_eq_ok (g : Grammar) :
    g.checkReserved = .ok () ↔ callState ∉ g.stateNames := by
  unfold checkReserved
  split
  · next h =>
    have hdeclared : callState ∈ g.stateNames := (g.contains_states_iff callState).mp h
    constructor
    · intro hok
      obtain ⟨line, _, he⟩ := Outcome.bind_eq_ok.mp hok
      cases he
    · intro hfree
      exact absurd hdeclared hfree
  · next h =>
    constructor
    · intro _ hdeclared
      exact h ((g.contains_states_iff callState).mpr hdeclared)
    · intro _
      rfl

theorem checkTarget_eq_ok (g : Grammar) (state : String) (rule : Rule) :
    g.checkTarget state rule = .ok () ↔
      ∀ target, rule.action.target? = some target → target ∈ g.stateNames := by
  unfold checkTarget
  split
  · next h => simp [h]
  · next target h =>
    rw [h]
    split
    · next hdeclared =>
      simpa using (g.contains_states_iff target).mp hdeclared
    · next hundeclared =>
      simp only [reduceCtorEq, Option.some.injEq, forall_eq', false_iff]
      exact fun hdeclared => hundeclared ((g.contains_states_iff target).mpr hdeclared)

theorem closed_of_check {g : Grammar} {warnings : List Warning} (h : g.check = .ok warnings) :
    g.Closed := by
  obtain ⟨⟨⟩, hreserved, h⟩ := Outcome.bind_eq_ok.mp h
  obtain ⟨⟨⟩, htargets, _⟩ := Outcome.bind_eq_ok.mp h
  refine ⟨g.checkReserved_eq_ok.mp hreserved, ?_⟩
  intro entry hentry rule hrule
  have hmem : (entry.1, rule) ∈ g.rules := g.mem_rules_iff.mpr ⟨entry.2, hentry, hrule⟩
  exact (g.checkTarget_eq_ok entry.1 rule).mp (Outcome.forM_eq_ok.mp htargets _ hmem)

end CommandGrammar.Grammar
