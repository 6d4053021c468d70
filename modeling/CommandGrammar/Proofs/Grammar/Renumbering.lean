import CommandGrammar.Grammar.Check
import CommandGrammar.Grammar.Reader
import CommandGrammar.Proofs.Joining.Kept
import CommandGrammar.Proofs.OrderedMap

set_option autoImplicit false
set_option relaxedAutoImplicit false

namespace CommandGrammar

variable (f : Int → Int)

def Rule.renumber (rule : Rule) : Rule :=
  { rule with line := f rule.line }

def Warning.renumber (warning : Warning) : Warning :=
  { warning with line := f warning.line }

def CheckError.renumber : CheckError → CheckError
  | fault found => fault (found.renumber f)
  | unknownLine state => unknownLine state

theorem DefinitionParts.rules_renumber (parts : DefinitionParts) (line : JoinedLine) :
    parts.rules (line.renumber f) =
      Outcome.translate (Fault.renumber f) (List.map (Rule.renumber f)) (parts.rules line) := by
  unfold DefinitionParts.rules
  cases readTokens parts.tokens with
  | error cause => rfl
  | ok tokens =>
    cases readAction parts.action with
    | error cause => rfl
    | ok action =>
      change Except.ok _ = Except.ok _
      rw [List.map_map]
      rfl

namespace Grammar

/-- The grammar with all lines renumbered, those of the rules and those of the states. -/
def renumber (g : Grammar) : Grammar where
  states := g.states.mapValues (List.map (Rule.renumber f))
  stateLines := g.stateLines.mapValues f

def renumberEntry (entry : String × List Rule) : String × List Rule :=
  (entry.1, entry.2.map (Rule.renumber f))

theorem entries_renumber (g : Grammar) :
    (g.renumber f).states.entries = g.states.entries.map (renumberEntry f) :=
  rfl

theorem declare_renumber (g : Grammar) (name : String) (line : Int) :
    (g.renumber f).declare name (f line) = (g.declare name line).renumber f := by
  have hstates := OrderedMap.insert_mapValues (List.map (Rule.renumber f)) g.states name []
  have hlines := OrderedMap.insert_mapValues f g.stateLines name line
  unfold declare renumber
  rw [OrderedMap.contains_mapValues]
  split
  · rfl
  · rw [← hstates, ← hlines]
    rfl

theorem addRules_renumber (g : Grammar) (state : String) (rules : List Rule) :
    (g.renumber f).addRules state (rules.map (Rule.renumber f)) =
      (g.addRules state rules).renumber f := by
  unfold addRules renumber
  dsimp only
  rw [OrderedMap.modify_mapValues]
  intro kept
  exact List.map_append.symm

def Progress.renumber (p : Progress) : Progress :=
  ⟨p.grammar.renumber f, p.current⟩

theorem Progress.step_renumber (p : Progress) (line : JoinedLine) :
    (p.renumber f).step (line.renumber f) =
      Outcome.translate (Fault.renumber f) (Progress.renumber f) (p.step line) := by
  have htext : (line.renumber f).text = line.text := rfl
  unfold step
  rw [htext]
  cases Statement.of? line.text with
  | none => rfl
  | some statement =>
    cases statement with
    | declaration state =>
      have hdeclare := p.grammar.declare_renumber f state line.line
      exact congrArg (fun g => Except.ok (Progress.mk g (some state))) hdeclare
    | definition parts =>
      have hcurrent : (p.renumber f).current = p.current := rfl
      dsimp only
      rw [hcurrent]
      cases p.current with
      | none => rfl
      | some state =>
        dsimp only
        rw [parts.rules_renumber f line]
        apply Outcome.bind_translate
        intro rules _
        have hadd := p.grammar.addRules_renumber f state rules
        exact congrArg (fun g => Except.ok (Progress.mk g (some state))) hadd

/-- Reading renumbered lines comes to the same grammar or fault at the new numbers. -/
theorem ofLines_renumber (lines : List JoinedLine) :
    ofLines (lines.map (JoinedLine.renumber f)) =
      Outcome.translate (Fault.renumber f) (renumber f) (ofLines lines) := by
  have hrun := Outcome.foldlM_translate (Progress.step_renumber f) lines Progress.initial
  have hinitial : Progress.initial.renumber f = Progress.initial := rfl
  rw [hinitial] at hrun
  unfold ofLines
  rw [hrun]
  apply Outcome.map_translate
  intro p
  rfl

section Check

variable (g : Grammar)

theorem stateNames_renumber : (g.renumber f).stateNames = g.stateNames :=
  OrderedMap.keys_mapValues _ g.states

theorem contains_renumber (state : String) :
    (g.renumber f).states.contains state = g.states.contains state :=
  OrderedMap.contains_mapValues _ g.states state

theorem lineOf_renumber (state : String) :
    (g.renumber f).lineOf state =
      Outcome.translate (CheckError.renumber f) f (g.lineOf state) := by
  have hget : (g.renumber f).stateLines.get? state = (g.stateLines.get? state).map f :=
    OrderedMap.get?_mapValues f g.stateLines state
  unfold lineOf
  rw [hget]
  cases g.stateLines.get? state <;> rfl

theorem checkReserved_renumber : (g.renumber f).checkReserved =
    Outcome.translate (CheckError.renumber f) id g.checkReserved := by
  unfold checkReserved
  rw [contains_renumber, lineOf_renumber]
  split
  · apply Outcome.bind_translate
    intro line _
    rfl
  · rfl

theorem checkTarget_renumber (state : String) (rule : Rule) :
    (g.renumber f).checkTarget state (rule.renumber f) =
      Outcome.translate (CheckError.renumber f) id (g.checkTarget state rule) := by
  have haction : (rule.renumber f).action = rule.action := rfl
  unfold checkTarget
  rw [haction]
  cases rule.action.target? with
  | none => rfl
  | some target =>
    dsimp only
    rw [contains_renumber]
    split <;> rfl

theorem rules_renumber :
    (g.renumber f).rules = g.rules.map fun entry => (entry.1, entry.2.renumber f) := by
  unfold rules
  rw [entries_renumber, List.flatMap_map, List.map_flatMap]
  simp only [renumberEntry, List.map_map, Function.comp_def]

theorem ruleCount_renumber : (g.renumber f).ruleCount = g.ruleCount := by
  unfold ruleCount
  rw [rules_renumber, List.length_map]

theorem emptyStates_renumber : (g.renumber f).emptyStates = g.emptyStates := by
  have hempty : ((fun entry : String × List Rule => entry.2.isEmpty) ∘ renumberEntry f) =
      fun entry => entry.2.isEmpty := by
    funext entry
    exact List.isEmpty_map
  unfold emptyStates
  rw [entries_renumber, List.filter_map, List.map_map, hempty]
  rfl

theorem check_renumber : (g.renumber f).check =
    Outcome.translate (CheckError.renumber f) (List.map (Warning.renumber f)) g.check := by
  have htargets : (g.rules.map fun entry => (entry.1, entry.2.renumber f)).forM
        (fun entry => (g.renumber f).checkTarget entry.1 entry.2) =
      Outcome.translate (CheckError.renumber f) id
        (g.rules.forM fun entry => g.checkTarget entry.1 entry.2) := by
    apply Outcome.forM_translate
    intro entry
    exact g.checkTarget_renumber f entry.1 entry.2
  unfold check
  rw [checkReserved_renumber, rules_renumber, emptyStates_renumber]
  apply Outcome.bind_translate
  intro _ _
  rw [htargets]
  apply Outcome.bind_translate
  intro _ _
  apply Outcome.mapM_translate
  intro state
  rw [lineOf_renumber]
  apply Outcome.bind_translate
  intro line _
  rfl

end Check

end Grammar

end CommandGrammar
