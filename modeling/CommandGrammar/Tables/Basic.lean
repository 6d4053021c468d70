import CommandGrammar.Call.Table

/-!
Parser tables.

The tables number the states, give each declared state a list of rows, one per rule, and hold the
call table. They are what the three headers are written from. The state that stands for "the call
decides" is numbered last and has no rows.

The parts are stored next to each other, so a value of this type may be inconsistent; `check` in
the module on consistency says when it is not.
-/

set_option autoImplicit false
set_option relaxedAutoImplicit false

namespace CommandGrammar

/-- One token that a state accepts: its pattern, the name it is captured under or the empty name,
the next state, and the number of its call if the call decides. -/
structure TableRow where
  pattern : String
  identifier : String
  nextState : String
  callId : Int
  deriving DecidableEq, Repr

/-- States with their numbers, the rows of each declared state, and the calls. -/
structure ParserTables where
  states : List String
  stateIds : NameMap Int
  tables : List (String × List TableRow)
  calls : List NumberedCall
  deriving DecidableEq

namespace ParserTables

def declaredStates (t : ParserTables) : List String := t.states.dropLast

def rowCount (t : ParserTables) : Nat :=
  (t.tables.flatMap Prod.snd).length

def stateIdText (t : ParserTables) (state : String) : String :=
  match t.stateIds.get? state with
  | some id => Text.decimal id
  | none => ""

end ParserTables

end CommandGrammar
