import CommandGrammar.Proofs.Call.Numbering
import CommandGrammar.Tables.Build
import Mathlib.Data.List.Nodup

set_option autoImplicit false
set_option relaxedAutoImplicit false

namespace CommandGrammar

/-- Where a rule leads, if its call has the number `id`: a state, and the number of a call. -/
def Rule.tableTarget (state : String) (id : Nat) (rule : Rule) : String × Int :=
  match rule.action with
  | .stay => (state, 0)
  | .transition target => (target, 0)
  | .call _ => (callState, id)
  | .dispatch callId _ => (callState, callId)

def TableRow.ofNumbered (state : String) (id : Nat) (rule : Rule) : TableRow where
  pattern := TableRow.patternOf rule.token
  identifier := rule.identifier.getD ""
  nextState := (rule.tableTarget state id).1
  callId := (rule.tableTarget state id).2

theorem TableRow.ofRule_numbered (state : String) (id : Nat) (rule : Rule) :
    TableRow.ofRule state (rule.numbered id) = .ok (TableRow.ofNumbered state id rule) := by
  unfold TableRow.ofRule TableRow.targetOf TableRow.ofNumbered Rule.tableTarget Rule.numbered
  cases h : rule.action <;> simp [h, Rule.setAction, bind, Except.bind, pure, Except.pure]

namespace Grammar

def rowTables (g : Grammar) : List (String × List TableRow) :=
  g.states.entries.mapIdx fun k entry =>
    (entry.1, entry.2.mapIdx fun i rule => TableRow.ofNumbered entry.1 (g.callsBefore k i) rule)

def tablesWith (g : Grammar) (calls : List NumberedCall) : ParserTables where
  states := g.stateNames ++ [callState]
  stateIds := ParserTables.numberStates (g.stateNames ++ [callState])
  tables := g.rowTables
  calls := calls

theorem tablesOf_numberCalls (g : Grammar) :
    ParserTables.tablesOf g.numberCalls = .ok g.rowTables := by
  unfold ParserTables.tablesOf rowTables
  rw [entries_numberCalls]
  apply Outcome.mapM_mapIdx
  intro k entry _
  rw [Outcome.bind_eq_ok]
  refine ⟨_, Outcome.mapM_mapIdx ?_, rfl⟩
  intro i rule _
  exact TableRow.ofRule_numbered entry.1 (g.callsBefore k i) rule

theorem map_fst_rowTables (g : Grammar) : g.rowTables.map Prod.fst = g.stateNames := by
  rw [rowTables, Places.map_mapIdx]
  exact Places.mapIdx_const Prod.fst g.states.entries

theorem getElem?_rowTables {g : Grammar} {k : Nat} {state : String} {rules : List Rule}
    (h : g.states.entries[k]? = some (state, rules)) :
    g.rowTables[k]? = some (state, rules.mapIdx fun i rule =>
      TableRow.ofNumbered state (g.callsBefore k i) rule) := by
  rw [rowTables, List.getElem?_mapIdx, h]
  rfl

theorem mem_rowTables_iff (g : Grammar) {state : String} {rows : List TableRow} :
    (state, rows) ∈ g.rowTables ↔ ∃ (k : Nat) (rules : List Rule),
      g.states.entries[k]? = some (state, rules) ∧
      rows = rules.mapIdx fun i rule => TableRow.ofNumbered state (g.callsBefore k i) rule := by
  constructor
  · intro h
    obtain ⟨k, hk⟩ := List.mem_iff_getElem?.mp h
    rw [rowTables, List.getElem?_mapIdx] at hk
    obtain ⟨⟨name, rules⟩, hentry, he⟩ := Option.map_eq_some_iff.mp hk
    cases he
    exact ⟨k, rules, hentry, rfl⟩
  · rintro ⟨k, rules, hentry, rfl⟩
    exact List.mem_iff_getElem?.mpr ⟨k, getElem?_rowTables hentry⟩

/-- With calls that are numbered from zero without a gap the tables are built; otherwise the
numbers are reported. -/
theorem build_numberCalls (g : Grammar) (calls : List NumberedCall) :
    ParserTables.build g.numberCalls calls =
      if calls.map NumberedCall.id = (List.range calls.length).map Int.ofNat then
        .ok (g.tablesWith calls)
      else .error (.scatteredCallIds (calls.map NumberedCall.id)) := by
  unfold ParserTables.build
  rw [tablesOf_numberCalls, stateNames_numberCalls]
  rfl

end Grammar

namespace ParserTables

theorem exists_get?_numberStates {states : List String} {state : String} (h : state ∈ states) :
    ∃ id, (numberStates states).get? state = some id := by
  rw [numberStates, OrderedMap.get?_ofList, ← Option.isSome_iff_exists, List.lookup_isSome_iff]
  obtain ⟨n, hn⟩ := List.mem_iff_getElem?.mp h
  refine ⟨(state, (n : Int)), ?_, by simp⟩
  rw [List.mem_reverse, List.mem_map]
  exact ⟨(state, n), List.mem_zipIdx_iff_getElem?.mpr hn, rfl⟩

theorem map_fst_zipIdx (states : List String) :
    (states.zipIdx.map fun (state, id) => (state, (id : Int))).map Prod.fst = states := by
  have hfst : (Prod.fst ∘ fun p : String × Nat => (p.1, (p.2 : Int))) = Prod.fst := rfl
  rw [List.map_map, hfst, List.zipIdx_map_fst]

theorem entries_numberStates {states : List String} (nodup : states.Nodup) :
    (numberStates states).entries = states.zipIdx.map fun (state, id) => (state, (id : Int)) := by
  apply OrderedMap.entries_ofList
  rw [map_fst_zipIdx]
  exact nodup

theorem get?_numberStates {states : List String} (nodup : states.Nodup) {state : String}
    {id : Int} : (numberStates states).get? state = some id ↔
      ∃ n : Nat, states[n]? = some state ∧ id = n := by
  rw [OrderedMap.get?_eq_some_iff, entries_numberStates nodup, List.mem_map]
  constructor
  · rintro ⟨⟨name, n⟩, hn, he⟩
    cases he
    exact ⟨n, List.mem_zipIdx_iff_getElem?.mp hn, rfl⟩
  · rintro ⟨n, hn, rfl⟩
    exact ⟨(state, n), List.mem_zipIdx_iff_getElem?.mpr hn, rfl⟩

end ParserTables

end CommandGrammar
