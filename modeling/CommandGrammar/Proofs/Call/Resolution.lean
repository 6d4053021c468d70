import CommandGrammar.Grammar.Check
import CommandGrammar.Proofs.Call.Numbering

set_option autoImplicit false
set_option relaxedAutoImplicit false

namespace CommandGrammar

namespace Rule

variable (id : Nat) (rule : Rule)

theorem exists_numbered : ∃ action, rule.numbered id = rule.setAction action := by
  unfold numbered
  split
  · exact ⟨_, rfl⟩
  · exact ⟨rule.action, rfl⟩

theorem target?_numbered : (rule.numbered id).action.target? = rule.action.target? := by
  unfold numbered
  split
  · next clause hcall => rw [hcall]; rfl
  · rfl

theorem numbered_of_not_call {rule : Rule} (h : ∀ clause, rule.action ≠ .call clause) :
    rule.numbered id = rule := by
  unfold numbered
  split
  · next clause hcall => exact absurd hcall (h clause)
  · rfl

theorem action_numbered_ne_call (clause : CallClause) :
    (rule.numbered id).action ≠ .call clause := by
  unfold numbered
  split
  · simp [setAction]
  · next hother => exact hother clause

theorem numbered_numbered (id' : Nat) : (rule.numbered id).numbered id' = rule.numbered id :=
  numbered_of_not_call id' (rule.action_numbered_ne_call id)

end Rule

theorem CallSite.ofRule_numbered (state : String) (id : Nat) (rule : Rule) :
    CallSite.ofRule state (rule.numbered id) = [] := by
  unfold ofRule
  split
  · next clause hcall => exact absurd hcall (rule.action_numbered_ne_call id clause)
  · rfl

namespace Grammar

variable (g : Grammar)

def sizes : List (String × Nat) :=
  g.states.entries.map fun entry => (entry.1, entry.2.length)

theorem sizes_numberCalls : g.numberCalls.sizes = g.sizes := by
  unfold sizes
  rw [entries_numberCalls, Places.map_mapIdx]
  simp only [List.length_mapIdx]
  exact Places.mapIdx_const _ g.states.entries

theorem stateLines_numberCalls : g.numberCalls.stateLines = g.stateLines :=
  rfl

section Check

theorem emptyStates_eq : g.emptyStates = (g.sizes.filter fun size => size.2 == 0).map Prod.fst := by
  unfold emptyStates sizes
  rw [List.filter_map, List.map_map]
  congr 1
  apply List.filter_congr
  rintro ⟨state, rules⟩ _
  cases rules <;> rfl

theorem contains_numberCalls (state : String) :
    g.numberCalls.states.contains state = g.states.contains state := by
  have hnames := g.stateNames_numberCalls
  unfold OrderedMap.contains
  rw [stateNames, stateNames] at hnames
  rw [hnames]

theorem checkReserved_numberCalls : g.numberCalls.checkReserved = g.checkReserved := by
  unfold checkReserved
  rw [contains_numberCalls]
  rfl

theorem checkTarget_numberCalls (state : String) (rule : Rule) (id : Nat) :
    g.numberCalls.checkTarget state (rule.numbered id) = g.checkTarget state rule := by
  have htarget := rule.target?_numbered id
  obtain ⟨action, hnumbered⟩ := rule.exists_numbered id
  unfold checkTarget
  rw [htarget, hnumbered]
  simp only [contains_numberCalls]
  rfl

theorem forall₂_rules_numberCalls :
    List.Forall₂ (fun given found => ∃ id, found = (given.1, Rule.numbered id given.2))
      g.rules g.numberCalls.rules := by
  unfold rules
  rw [entries_numberCalls]
  refine List.rel_flatMap (Places.forall₂_mapIdx
    (R := fun given found => ∃ number : Nat → Nat, found = (given.1, given.2.mapIdx fun i rule =>
      Rule.numbered (number i) rule)) ?_ _) ?_
  · intro k entry
    exact ⟨g.callsBefore k, rfl⟩
  · rintro ⟨state, rules⟩ _ ⟨number, rfl⟩
    rw [List.forall₂_map_left_iff, List.forall₂_map_right_iff]
    apply Places.forall₂_mapIdx
    intro i rule
    exact ⟨number i, rfl⟩

theorem check_numberCalls : g.numberCalls.check = g.check := by
  have htargets :
      (g.numberCalls.rules.forM fun entry => g.numberCalls.checkTarget entry.1 entry.2) =
        g.rules.forM fun entry => g.checkTarget entry.1 entry.2 := by
    apply Outcome.forM_congr
    apply g.forall₂_rules_numberCalls.imp
    rintro ⟨state, rule⟩ _ ⟨id, rfl⟩
    exact g.checkTarget_numberCalls state rule id
  have hempty : g.numberCalls.emptyStates = g.emptyStates := by
    rw [emptyStates_eq, emptyStates_eq, sizes_numberCalls]
  unfold check
  rw [checkReserved_numberCalls, htargets, hempty]
  rfl

end Check

theorem callSites_numberCalls : g.numberCalls.callSites = [] := by
  rw [callSites_eq, entries_numberCalls, CallSite.ofEntries, List.flatMap_eq_nil_iff]
  intro entry hentry
  obtain ⟨k, _, rfl⟩ := List.mem_mapIdx.mp hentry
  rw [CallSite.ofRules, List.flatMap_eq_nil_iff]
  intro rule hrule
  obtain ⟨i, _, rfl⟩ := List.mem_mapIdx.mp hrule
  exact CallSite.ofRule_numbered _ _ _

theorem numberCalls_numberCalls : g.numberCalls.numberCalls = g.numberCalls := by
  have hstates : g.numberCalls.numberCalls.states = g.numberCalls.states := by
    apply OrderedMap.ext
    rw [entries_numberCalls, entries_numberCalls, List.mapIdx_mapIdx]
    simp only [Function.comp_def, List.mapIdx_mapIdx, Rule.numbered_numbered]
  exact congrArg (fun states => Grammar.mk states g.stateLines) hstates

theorem resolve_numberCalls (conv : Convention) :
    g.numberCalls.resolve conv = .ok (g.numberCalls, []) := by
  rw [resolve_eq_ok, numberCalls_numberCalls, numberedCalls, callSites_numberCalls]
  exact ⟨rfl, rfl⟩

end Grammar

/-- The check of a resolved grammar has the outcome of the check of the grammar itself, and a
resolved grammar is resolved to itself, with no calls, under any convention. -/
theorem check_of_resolved {g r : Grammar} {conv : Convention} {calls : List NumberedCall}
    (hresolve : g.resolve conv = .ok (r, calls)) :
    r.check = g.check ∧ ∀ conv', r.resolve conv' = .ok (r, []) := by
  obtain ⟨rfl, -⟩ := Grammar.resolve_eq_ok.mp hresolve
  exact ⟨g.check_numberCalls, g.resolve_numberCalls⟩

/-- A state with a number, a call and a transition, and a state without rules whose line is not
known. The call returns to a state that is not declared. -/
def strayReturn : Grammar where
  states := ⟨[
    ("START", [
      ⟨"'on'", none, .dispatch 7 "REST", 2⟩,
      ⟨"word", some "w", .call ⟨"f($w)", some ""⟩, 3⟩,
      ⟨"end", none, .transition "GONE", 4⟩]),
    ("REST", [])], by decide⟩
  stateLines := ⟨[("START", 1)], by decide⟩

def strayReturnCall : NumberedCall :=
  ⟨0, "f(&current_match, result, get_string(\"w\"))", "f(%s)", "get_string(\"w\")", "INITIAL",
    "START", "word", 3⟩

/-- The undeclared state is found behind the number of the call as it is behind the call. -/
theorem check_of_resolved_strayReturn :
    strayReturn.resolve {} = .ok (strayReturn.numberCalls, [strayReturnCall]) ∧
    strayReturn.check = .error (.fault ⟨.undeclaredState "START" "word" "INITIAL", 3, none⟩) ∧
    strayReturn.numberCalls.check = strayReturn.check ∧
    ∀ conv', strayReturn.numberCalls.resolve conv' = .ok (strayReturn.numberCalls, []) :=
  have hresolve : strayReturn.resolve {} = .ok (strayReturn.numberCalls, [strayReturnCall]) := by
    decide +kernel
  ⟨hresolve, by decide, check_of_resolved hresolve⟩

end CommandGrammar
