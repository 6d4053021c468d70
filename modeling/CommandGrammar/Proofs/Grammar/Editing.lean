import CommandGrammar.Failure
import CommandGrammar.Proofs.Call.Resolution
import CommandGrammar.Proofs.Recompilation

set_option autoImplicit false
set_option relaxedAutoImplicit false

namespace CommandGrammar

namespace Grammar

inductive Edit where
  | declare (name : String) (line : Int)
  | append (state : String) (rule : Rule)
  | setAction (state : String) (index : Nat) (action : Action)
  | resolve (conv : Convention)
  deriving DecidableEq

/-- The grammar after a change. A rule is appended to a declared state, an action is given to a rule
that is there, and calls are numbered if their table comes out. -/
def Edit.apply (g : Grammar) : Edit → Option Grammar
  | declare name line => some (g.declare name line)
  | append state rule =>
    if g.states.contains state then some (g.addRules state [rule]) else none
  | setAction state index action =>
    match g.states.get? state with
    | some rules => if index < rules.length then some (g.setAction state index action) else none
    | none => none
  | resolve conv =>
    match g.resolve conv with
    | .ok (resolved, _) => some resolved
    | .error _ => none

def Edit.Touches (state : String) : Edit → Prop
  | declare _ _ => False
  | append changed _ => changed = state
  | setAction changed _ _ => changed = state
  | resolve _ => True

def edit (g : Grammar) (edits : List Edit) : Option Grammar :=
  edits.foldlM Edit.apply g

theorem Edit.apply_cases {g g' : Grammar} {edit : Edit} (h : edit.apply g = some g') :
    (∃ name line, edit = .declare name line ∧ g' = g.declare name line) ∨
    (∃ state rule, edit = .append state rule ∧ state ∈ g.stateNames ∧
      g' = g.addRules state [rule]) ∨
    (∃ state rules index action, edit = .setAction state index action ∧
      g.states.get? state = some rules ∧ index < rules.length ∧
      g' = g.setAction state index action) ∨
    ∃ conv, edit = .resolve conv ∧ g' = g.numberCalls := by
  cases edit with
  | declare name line => exact .inl ⟨name, line, rfl, (Option.some.inj h).symm⟩
  | append state rule =>
    rw [apply] at h
    split at h
    · next hstate =>
      have hdeclared := (g.contains_states_iff state).mp hstate
      exact .inr (.inl ⟨state, rule, rfl, hdeclared, (Option.some.inj h).symm⟩)
    · cases h
  | setAction state index action =>
    rw [apply] at h
    split at h
    · next rules hrules =>
      split at h
      · next hindex =>
        exact .inr (.inr (.inl
          ⟨state, rules, index, action, rfl, hrules, hindex, (Option.some.inj h).symm⟩))
      · cases h
    · cases h
  | resolve conv =>
    rw [apply] at h
    split at h
    · next resolved calls hresolve =>
      obtain ⟨rfl, -⟩ := resolve_eq_ok.mp hresolve
      exact .inr (.inr (.inr ⟨conv, rfl, (Option.some.inj h).symm⟩))
    · cases h

/-- Every rule of the one list stands in the same place of the other, with all but its action. -/
def RulesKept (rules rules' : List Rule) : Prop :=
  ∀ (i : Nat) (rule : Rule), rules[i]? = some rule →
    ∃ action, rules'[i]? = some (rule.setAction action)

theorem RulesKept.refl (rules : List Rule) : RulesKept rules rules :=
  fun _ rule hrule => ⟨rule.action, hrule⟩

theorem RulesKept.trans {rules rules' rules'' : List Rule} (h : RulesKept rules rules')
    (h' : RulesKept rules' rules'') : RulesKept rules rules'' := by
  intro i rule hrule
  obtain ⟨action, hkept⟩ := h i rule hrule
  exact h' i (rule.setAction action) hkept

/-- The one grammar has the states of the other in their places, with their lines and their rules;
only actions of rules may differ. -/
structure Extends (g g' : Grammar) : Prop where
  names : g.stateNames <+: g'.stateNames
  lines : g.stateLines.entries <+: g'.stateLines.entries
  rules : ∀ state rules, g.states.get? state = some rules →
    ∃ rules', g'.states.get? state = some rules' ∧ RulesKept rules rules'

theorem Extends.refl (g : Grammar) : g.Extends g where
  names := List.prefix_rfl
  lines := List.prefix_rfl
  rules := fun _ rules hrules => ⟨rules, hrules, RulesKept.refl rules⟩

theorem Extends.trans {g g' g'' : Grammar} (h : g.Extends g') (h' : g'.Extends g'') :
    g.Extends g'' where
  names := h.names.trans h'.names
  lines := h.lines.trans h'.lines
  rules := by
    intro state rules hrules
    obtain ⟨rules', hrules', hkept⟩ := h.rules state rules hrules
    obtain ⟨rules'', hrules'', hkept'⟩ := h'.rules state rules' hrules'
    exact ⟨rules'', hrules'', hkept.trans hkept'⟩

section Steps

variable {g : Grammar}

theorem mem_stateNames_of_get? {state : String} {rules : List Rule}
    (h : g.states.get? state = some rules) : state ∈ g.stateNames :=
  mem_stateNames ((OrderedMap.get?_eq_some_iff _).mp h)

theorem stateNames_modify (g : Grammar) (state : String) (change : List Rule → List Rule) :
    (g.states.modify state change).keys = g.stateNames :=
  OrderedMap.keys_modify g.states state change

theorem coherent_declare (h : g.Coherent) (name : String) (line : Int) :
    (g.declare name line).Coherent := by
  by_cases hname : name ∈ g.stateNames
  · rwa [declare_of_mem hname]
  · have hline : name ∉ g.stateLines.keys := by rwa [h]
    rw [declare_of_not_mem hname]
    show (g.stateLines.insert name line).keys = (g.states.insert name []).keys
    rw [OrderedMap.keys_insert_of_not_mem hline, OrderedMap.keys_insert_of_not_mem hname, h]
    rfl

theorem extends_declare (h : g.Coherent) (name : String) (line : Int) :
    g.Extends (g.declare name line) := by
  by_cases hname : name ∈ g.stateNames
  · rw [declare_of_mem hname]
    exact Extends.refl g
  · -- the line is new as well, since the states and the lines are in step
    have hline : name ∉ g.stateLines.keys := by rwa [h]
    rw [declare_of_not_mem hname]
    constructor
    · show g.states.keys <+: (g.states.insert name []).keys
      rw [OrderedMap.keys_insert_of_not_mem hname]
      exact List.prefix_append _ _
    · show g.stateLines.entries <+: (g.stateLines.insert name line).entries
      rw [OrderedMap.entries_insert_of_not_mem hline]
      exact List.prefix_append _ _
    · intro state rules hrules
      have hne : state ≠ name := by
        rintro rfl
        exact hname (mem_stateNames_of_get? hrules)
      refine ⟨rules, ?_, RulesKept.refl rules⟩
      rw [OrderedMap.get?_insert, if_neg hne]
      exact hrules

theorem extends_modify (g : Grammar) (state : String) {change : List Rule → List Rule}
    (hkept : ∀ rules, RulesKept rules (change rules)) :
    g.Extends { g with states := g.states.modify state change } where
  names := ⟨[], (List.append_nil _).trans (stateNames_modify g state change).symm⟩
  lines := List.prefix_rfl
  rules := by
    intro other rules hrules
    by_cases hother : other = state
    · refine ⟨change rules, ?_, hkept rules⟩
      rw [OrderedMap.get?_modify, if_pos hother, hrules]
      rfl
    · refine ⟨rules, ?_, RulesKept.refl rules⟩
      rw [OrderedMap.get?_modify, if_neg hother]
      exact hrules

theorem rulesKept_append (rules added : List Rule) : RulesKept rules (rules ++ added) := by
  intro i rule hrule
  obtain ⟨hi, -⟩ := List.getElem?_eq_some_iff.mp hrule
  refine ⟨rule.action, ?_⟩
  rw [List.getElem?_append_left hi]
  exact hrule

theorem rulesKept_modify (rules : List Rule) (index : Nat) (action : Action) :
    RulesKept rules (rules.modify index (·.setAction action)) := by
  intro i rule hrule
  rw [List.getElem?_modify, hrule]
  by_cases hi : index = i
  · exact ⟨action, by simp [hi]⟩
  · exact ⟨rule.action, by simp [hi, Rule.setAction]⟩

theorem get?_numberCalls {state : String} {rules : List Rule}
    (h : g.states.get? state = some rules) : ∃ number : Nat → Nat,
      g.numberCalls.states.get? state =
        some (rules.mapIdx fun i rule => rule.numbered (number i)) := by
  obtain ⟨k, hk⟩ := List.mem_iff_getElem?.mp ((OrderedMap.get?_eq_some_iff _).mp h)
  refine ⟨g.callsBefore k, ?_⟩
  rw [OrderedMap.get?_eq_some_iff, entries_numberCalls]
  apply List.mem_iff_getElem?.mpr
  refine ⟨k, ?_⟩
  rw [List.getElem?_mapIdx, hk]
  rfl

theorem extends_numberCalls (g : Grammar) : g.Extends g.numberCalls where
  names := ⟨[], (List.append_nil _).trans (stateNames_numberCalls g).symm⟩
  lines := List.prefix_rfl
  rules := by
    intro state rules hrules
    obtain ⟨number, hnumbered⟩ := get?_numberCalls hrules
    refine ⟨_, hnumbered, ?_⟩
    intro i rule hrule
    obtain ⟨action, haction⟩ := rule.exists_numbered (number i)
    refine ⟨action, ?_⟩
    rw [List.getElem?_mapIdx, hrule, ← haction]
    rfl

end Steps

theorem coherent_of_apply {g g' : Grammar} {edit : Edit} (coherent : g.Coherent)
    (h : edit.apply g = some g') : g'.Coherent := by
  obtain ⟨name, line, -, rfl⟩ | ⟨state, rule, -, -, rfl⟩ |
    ⟨state, rules, index, action, -, -, -, rfl⟩ | ⟨conv, -, rfl⟩ := Edit.apply_cases h
  · exact coherent_declare coherent name line
  · exact coherent.trans (stateNames_modify g state _).symm
  · exact coherent.trans (stateNames_modify g state _).symm
  · exact coherent.trans (stateNames_numberCalls g).symm

theorem extends_of_apply {g g' : Grammar} {edit : Edit} (coherent : g.Coherent)
    (h : edit.apply g = some g') : g.Extends g' := by
  obtain ⟨name, line, -, rfl⟩ | ⟨state, rule, -, -, rfl⟩ |
    ⟨state, rules, index, action, -, -, -, rfl⟩ | ⟨conv, -, rfl⟩ := Edit.apply_cases h
  · exact extends_declare coherent name line
  · exact extends_modify g state fun rules => rulesKept_append rules [rule]
  · exact extends_modify g state fun rules => rulesKept_modify rules index action
  · exact extends_numberCalls g

theorem get?_of_apply {g g' : Grammar} {edit : Edit} {state : String}
    (declared : state ∈ g.stateNames) (spared : ¬edit.Touches state) (h : edit.apply g = some g') :
    g'.states.get? state = g.states.get? state := by
  obtain ⟨name, line, rfl, rfl⟩ | ⟨changed, rule, rfl, -, rfl⟩ |
    ⟨changed, rules, index, action, rfl, -, -, rfl⟩ | ⟨conv, rfl, rfl⟩ := Edit.apply_cases h
  · by_cases hname : name ∈ g.stateNames
    · rw [declare_of_mem hname]
    · have hne : state ≠ name := by
        rintro rfl
        exact hname declared
      rw [declare_of_not_mem hname]
      show (g.states.insert name []).get? state = g.states.get? state
      rw [OrderedMap.get?_insert, if_neg hne]
  · show (g.states.modify changed _).get? state = g.states.get? state
    rw [OrderedMap.get?_modify, if_neg (Ne.symm spared)]
  · show (g.states.modify changed _).get? state = g.states.get? state
    rw [OrderedMap.get?_modify, if_neg (Ne.symm spared)]
  · exact absurd trivial spared

theorem edit_cons {g g' : Grammar} {edit : Edit} {edits : List Edit} :
    g.edit (edit :: edits) = some g' ↔
      ∃ next, edit.apply g = some next ∧ next.edit edits = some g' :=
  Option.bind_eq_some_iff

theorem coherent_and_extends_of_edit {g g' : Grammar} {edits : List Edit} (coherent : g.Coherent)
    (h : g.edit edits = some g') : g'.Coherent ∧ g.Extends g' := by
  induction edits generalizing g with
  | nil =>
    cases h
    exact ⟨coherent, Extends.refl _⟩
  | cons edit edits ih =>
    obtain ⟨next, hnext, hrest⟩ := edit_cons.mp h
    obtain ⟨hcoherent, hextends⟩ := ih (coherent_of_apply coherent hnext) hrest
    exact ⟨hcoherent, (extends_of_apply coherent hnext).trans hextends⟩

theorem get?_of_edit {g g' : Grammar} {edits : List Edit} {state : String} (coherent : g.Coherent)
    (declared : state ∈ g.stateNames) (spared : ∀ edit ∈ edits, ¬edit.Touches state)
    (h : g.edit edits = some g') : g'.states.get? state = g.states.get? state := by
  induction edits generalizing g with
  | nil =>
    cases h
    rfl
  | cons edit edits ih =>
    obtain ⟨next, hnext, hrest⟩ := edit_cons.mp h
    obtain ⟨hspared, hothers⟩ := List.forall_mem_cons.mp spared
    have hdeclared : state ∈ next.stateNames :=
      (extends_of_apply coherent hnext).names.subset declared
    rw [ih (coherent_of_apply coherent hnext) hdeclared hothers hrest]
    exact get?_of_apply declared hspared hnext

theorem modify_append_cons {α : Type} (change : α → α) (before after : List α) (x : α) :
    (before ++ x :: after).modify before.length change = before ++ change x :: after := by
  induction before with
  | nil => rfl
  | cons first before ih =>
    rw [List.cons_append, List.length_cons, List.modify_succ_cons, ih, List.cons_append]

theorem edit_setAction {g : Grammar} {state : String} {before after : List Rule} {rule : Rule}
    (h : g.states.get? state = some (before ++ rule :: after)) (action : Action) :
    ∃ g', g.edit [.setAction state before.length action] = some g' ∧
      g'.states.get? state = some (before ++ { rule with action } :: after) := by
  have hindex : before.length < (before ++ rule :: after).length := by simp
  have happly : Edit.apply g (.setAction state before.length action) =
      some (g.setAction state before.length action) := by
    rw [Edit.apply, h]
    exact if_pos hindex
  refine ⟨_, edit_cons.mpr ⟨_, happly, rfl⟩, ?_⟩
  show (g.states.modify state fun rules =>
    rules.modify before.length (·.setAction action)).get? state = _
  rw [OrderedMap.get?_modify, if_pos rfl, h, Option.map_some, modify_append_cons]
  rfl

theorem fault_of_check_eq_error {g : Grammar} {e : CheckError} (coherent : g.Coherent)
    (h : g.check = .error e) : ∃ fault, e = .fault fault := by
  rcases Outcome.bind_eq_error.mp h with hreserved | ⟨_, -, h⟩
  · unfold checkReserved at hreserved
    split at hreserved
    · next hdeclared =>
      obtain ⟨line, hline⟩ := lineOf_isOk coherent ((g.contains_states_iff _).mp hdeclared)
      rw [hline] at hreserved
      exact ⟨_, (Except.error.inj hreserved).symm⟩
    · cases hreserved
  · rcases Outcome.bind_eq_error.mp h with htargets | ⟨_, -, hempty⟩
    · obtain ⟨⟨state, rule⟩, -, htarget⟩ := Outcome.exists_mem_of_forM_eq_error htargets
      have hundeclared : g.checkTarget state rule = .error e := htarget
      unfold checkTarget at hundeclared
      split at hundeclared
      · cases hundeclared
      · split at hundeclared
        · cases hundeclared
        · exact ⟨_, (Except.error.inj hundeclared).symm⟩
    · obtain ⟨state, hstate, hline⟩ := Outcome.exists_mem_of_mapM_eq_error hempty
      obtain ⟨line, hfound⟩ := lineOf_isOk coherent (mem_stateNames_of_mem_emptyStates hstate)
      rw [hfound] at hline
      cases hline

/-- A grammar to start from: one without states, or one that was read from a text. -/
inductive Start : Grammar → Prop where
  | empty : Start ∅
  | read {source : String} {g : Grammar} : read source = .ok g → Start g

theorem Start.coherent {g : Grammar} (h : Start g) : g.Coherent := by
  cases h with
  | empty => rfl
  | read hread => exact coherent_of_read hread

/-- What holds of a grammar `g` that has been built, and of what it has become, `g'`. -/
structure BuiltUp (g g' : Grammar) : Prop where
  nodup : g'.stateNames.Nodup
  coherent : g'.stateLines.keys = g'.stateNames
  grown : g.Extends g'
  check_class : ∀ e, g'.check = .error e → (Failure.check e).className = "SyntaxError"
  check_iff : (∃ warnings, g'.check = .ok warnings) ↔ g'.Closed

/-- A grammar that is built by changes stays coherent. Whatever further changes are made to it, its
states keep their places and their lines, and its rules their places and all but their actions; the
rules of a state that no change is made to stay as they are; an action is given to one rule alone;
and the check refuses it for a fault of the grammar or accepts it, and accepts it exactly if it is
closed. -/
theorem built_grammar_stays_coherent {start g g' : Grammar} {earlier later : List Edit}
    (hstart : Start start) (hearlier : start.edit earlier = some g)
    (hlater : g.edit later = some g') :
    BuiltUp g g' ∧
    (∀ state ∈ g.stateNames, (∀ edit ∈ later, ¬edit.Touches state) →
      g'.states.get? state = g.states.get? state) ∧
    ∀ state before rule after action, g'.states.get? state = some (before ++ rule :: after) →
      ∃ changed, g'.edit [.setAction state before.length action] = some changed ∧
        changed.states.get? state = some (before ++ { rule with action } :: after) := by
  have hcoherent : g.Coherent := (coherent_and_extends_of_edit hstart.coherent hearlier).1
  obtain ⟨hcoherent', hextends⟩ := coherent_and_extends_of_edit hcoherent hlater
  refine ⟨⟨g'.states.nodup, hcoherent', hextends, ?_, check_isOk_iff hcoherent'⟩, ?_, ?_⟩
  · intro e hcheck
    obtain ⟨fault, rfl⟩ := fault_of_check_eq_error hcoherent' hcheck
    rfl
  · intro state declared spared
    exact get?_of_edit hcoherent declared spared hlater
  · intro state before rule after action hrules
    exact edit_setAction hrules action

def numberedArrows : Grammar where
  states := ⟨[("A", [
    ⟨"'->'", some "x", .dispatch 0 "A", 3⟩,
    ⟨"y", some "x", .dispatch 1 "A", 3⟩]), ("B", [])], by decide⟩
  stateLines := ⟨[("A", 1), ("B", 7)], by decide⟩

/-- `numberedArrows` with a rule in the second state that leads nowhere. -/
def astrayArrows : Grammar where
  states := ⟨numberedArrows.states.entries.take 1 ++
    [("B", [⟨"end", none, .transition "GONE", 8⟩])], by decide⟩
  stateLines := numberedArrows.stateLines

/-- A second declaration of a state is passed over, and a change of the other state is found out by
the check. -/
theorem arrows_stay_coherent :
    arrows.edit [.resolve {}, .declare "B" 7, .declare "A" 9] = some numberedArrows ∧
    numberedArrows.edit [.append "B" ⟨"end", none, .stay, 8⟩,
      .setAction "B" 0 (.transition "GONE")] = some astrayArrows ∧
    BuiltUp numberedArrows astrayArrows ∧
    astrayArrows.states.get? "A" = numberedArrows.states.get? "A" ∧
    astrayArrows.check = .error (.fault ⟨.undeclaredState "B" "end" "GONE", 8, none⟩) := by
  have hearlier : arrows.edit [.resolve {}, .declare "B" 7, .declare "A" 9] =
      some numberedArrows := by decide +kernel
  have hlater : numberedArrows.edit [.append "B" ⟨"end", none, .stay, 8⟩,
      .setAction "B" 0 (.transition "GONE")] = some astrayArrows := by decide +kernel
  obtain ⟨hbuilt, hspared, -⟩ :=
    built_grammar_stays_coherent (.read read_arrowSource) hearlier hlater
  refine ⟨hearlier, hlater, hbuilt, hspared "A" (by decide) ?_, by decide⟩
  simp [Edit.Touches]

end Grammar

end CommandGrammar
