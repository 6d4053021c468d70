import CommandGrammar.Failure
import CommandGrammar.Proofs.OrderedMap
import CommandGrammar.Proofs.Outcome

set_option autoImplicit false
set_option relaxedAutoImplicit false

namespace CommandGrammar.ParserTables

/-- A row leads to a state with a number, and to a call of the table if the call decides. -/
def RowLeads (t : ParserTables) (row : TableRow) : Prop :=
  row.nextState ∈ t.stateIds.keys ∧
    (row.nextState = callState → 0 ≤ row.callId ∧ row.callId < t.calls.length)

/-- The last state is the one that stands for a call, the states have their places for numbers, the
tables are those of the other states in order, and every row leads somewhere. -/
structure Consistent (t : ParserTables) : Prop where
  sentinel : t.states.getLast? = some callState
  numbers : ∀ (n : Nat) state, t.states[n]? = some state → t.stateIds.get? state = some (n : Int)
  order : t.tables.map Prod.fst = t.declaredStates
  rows : ∀ table ∈ t.tables, ∀ row ∈ table.2, t.RowLeads row

variable (t : ParserTables)

theorem stateId_eq_ok {state : String} {id : Int} :
    t.stateId state = .ok id ↔ t.stateIds.get? state = some id := by
  unfold stateId
  split
  · next found h => simp [h]
  · next h => simp [h]

theorem checkSentinel_eq_ok : t.checkSentinel = .ok () ↔ t.states.getLast? = some callState := by
  unfold checkSentinel
  split <;> simp [*]

theorem checkNumbers_eq_ok : t.checkNumbers = .ok () ↔
    ∀ (n : Nat) state, t.states[n]? = some state → t.stateIds.get? state = some (n : Int) := by
  unfold checkNumbers
  rw [Outcome.bind_eq_ok]
  constructor
  · rintro ⟨ids, hids, h⟩ n state hn
    obtain ⟨id, hid, hget⟩ := Outcome.getElem?_of_mapM hids hn
    rw [t.stateId_eq_ok] at hget
    split at h
    · next heq =>
      obtain ⟨hlt, -⟩ := List.getElem?_eq_some_iff.mp hn
      rw [heq, List.getElem?_map, List.getElem?_range hlt] at hid
      rw [hget, ← hid]
      rfl
    · cases h
  · intro h
    refine ⟨(List.range t.states.length).map Int.ofNat, ?_, if_pos rfl⟩
    rw [Outcome.mapM_eq_ok, List.forall₂_iff_get]
    refine ⟨by simp, ?_⟩
    intro n hn hm
    rw [t.stateId_eq_ok]
    simpa using h n _ (List.getElem?_eq_getElem hn)

theorem checkOrder_eq_ok : t.checkOrder = .ok () ↔ t.tables.map Prod.fst = t.declaredStates := by
  unfold checkOrder
  split <;> simp [*]

theorem checkRow_eq_ok (state : String) (row : TableRow) :
    t.checkRow state row = .ok () ↔ t.RowLeads row := by
  unfold checkRow RowLeads
  rw [← OrderedMap.contains_iff]
  cases t.stateIds.contains row.nextState with
  | false => simp
  | true =>
    simp only [Bool.not_true, Bool.false_eq_true, if_false, true_and]
    split
    · next h =>
      constructor
      · intro hok
        cases hok
      · intro hleads
        exact absurd (hleads h.1) h.2
    · next h =>
      constructor
      · intro _ hcall
        by_contra hrange
        exact h ⟨hcall, hrange⟩
      · intro _
        rfl

theorem checkRows_eq_ok : t.checkRows = .ok () ↔
    ∀ table ∈ t.tables, ∀ row ∈ table.2, t.RowLeads row := by
  unfold checkRows
  rw [Outcome.forM_eq_ok]
  refine forall₂_congr fun table _ => ?_
  rw [Outcome.forM_eq_ok]
  exact forall₂_congr fun row _ => t.checkRow_eq_ok table.1 row

theorem check_eq_ok_iff : t.check = .ok () ↔ t.Consistent := by
  unfold check
  constructor
  · intro h
    obtain ⟨⟨⟩, hsentinel, h⟩ := Outcome.bind_eq_ok.mp h
    obtain ⟨⟨⟩, hnumbers, h⟩ := Outcome.bind_eq_ok.mp h
    obtain ⟨⟨⟩, horder, hrows⟩ := Outcome.bind_eq_ok.mp h
    exact ⟨t.checkSentinel_eq_ok.mp hsentinel, t.checkNumbers_eq_ok.mp hnumbers,
      t.checkOrder_eq_ok.mp horder, t.checkRows_eq_ok.mp hrows⟩
  · intro h
    rw [t.checkSentinel_eq_ok.mpr h.sentinel, t.checkNumbers_eq_ok.mpr h.numbers,
      t.checkOrder_eq_ok.mpr h.order]
    exact t.checkRows_eq_ok.mpr h.rows

theorem className_of_check_eq_error
    (numbered : ∀ state ∈ t.states, ∃ id, t.stateIds.get? state = some id)
    {e : Inconsistency} (h : t.check = .error e) : (Failure.write e).className = "ValueError" := by
  have hfound : ∀ state ∈ t.states, ∃ id, t.stateId state = .ok id := by
    intro state hstate
    obtain ⟨id, hid⟩ := numbered state hstate
    exact ⟨id, t.stateId_eq_ok.mpr hid⟩
  obtain ⟨ids, hids⟩ := Outcome.exists_mapM hfound
  rcases Outcome.bind_eq_error.mp h with h | ⟨_, _, h⟩
  · unfold checkSentinel at h
    split at h <;> cases h
    rfl
  rcases Outcome.bind_eq_error.mp h with h | ⟨_, _, h⟩
  · unfold checkNumbers at h
    rw [hids] at h
    rcases Outcome.bind_eq_error.mp h with h | ⟨_, _, h⟩
    · cases h
    · split at h <;> cases h
      rfl
  rcases Outcome.bind_eq_error.mp h with h | ⟨_, _, h⟩
  · unfold checkOrder at h
    split at h <;> cases h
    rfl
  obtain ⟨table, _, h⟩ := Outcome.exists_mem_of_forM_eq_error h
  obtain ⟨row, _, h⟩ := Outcome.exists_mem_of_forM_eq_error h
  unfold checkRow at h
  split at h
  · cases h
    rfl
  · split at h <;> cases h
    rfl

theorem check_withCalls {calls : List NumberedCall} (h : calls.length = t.calls.length) :
    { t with calls := calls }.check = t.check := by
  have hrow : { t with calls := calls }.checkRow = t.checkRow := by
    funext state row
    unfold checkRow
    rw [h]
  unfold check checkRows
  rw [hrow]
  rfl

end CommandGrammar.ParserTables
