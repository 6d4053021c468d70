import CommandGrammar.Tables.Basic

set_option autoImplicit false
set_option relaxedAutoImplicit false

namespace CommandGrammar

open Text

inductive Inconsistency where
  | sentinelNotLast (states : List String)
  | unnumberedState (state : String)
  | statesMisnumbered
  | tablesMisordered
  | unknownNextState (state next : String)
  | callOutOfRange (state : String) (callId : Int) (callCount : Nat)
  deriving DecidableEq, Repr

/-- The wording of each disagreement. A state without a number is reported by its quoted name. -/
def Inconsistency.message : Inconsistency → String
  | sentinelNotLast states =>
    "emit_c: state list must end with " ++ callState ++ ": " ++ bracketed (states.map quoted)
  | unnumberedState state => quoted state
  | statesMisnumbered => "emit_c: state ids are not 0..N-1 in state order"
  | tablesMisordered => "emit_c: token tables are not in state declaration order"
  | unknownNextState state next =>
    "emit_c: state " ++ state ++ ": unknown next state " ++ next
  | callOutOfRange state callId callCount =>
    "emit_c: state " ++ state ++ ": call id " ++ decimal callId ++ " out of range (calls="
      ++ decimal callCount ++ ")"

namespace ParserTables

def checkSentinel (t : ParserTables) : Except Inconsistency Unit :=
  if t.states.getLast? = some callState then .ok () else .error (.sentinelNotLast t.states)

def stateId (t : ParserTables) (state : String) : Except Inconsistency Int :=
  match t.stateIds.get? state with
  | some id => .ok id
  | none => .error (.unnumberedState state)

def checkNumbers (t : ParserTables) : Except Inconsistency Unit := do
  let ids ← t.states.mapM t.stateId
  if ids = (List.range t.states.length).map Int.ofNat then .ok () else .error .statesMisnumbered

def checkOrder (t : ParserTables) : Except Inconsistency Unit :=
  if t.tables.map Prod.fst = t.declaredStates then .ok () else .error .tablesMisordered

/-- A row leads to a known state, and to a call of the table if the call decides. -/
def checkRow (t : ParserTables) (state : String) (row : TableRow) : Except Inconsistency Unit :=
  if !t.stateIds.contains row.nextState then .error (.unknownNextState state row.nextState)
  else if row.nextState = callState ∧ ¬(0 ≤ row.callId ∧ row.callId < t.calls.length) then
    .error (.callOutOfRange state row.callId t.calls.length)
  else .ok ()

def checkRows (t : ParserTables) : Except Inconsistency Unit :=
  t.tables.forM fun (state, rows) => rows.forM (t.checkRow state)

def check (t : ParserTables) : Except Inconsistency Unit := do
  t.checkSentinel
  t.checkNumbers
  t.checkOrder
  t.checkRows

end ParserTables

end CommandGrammar
