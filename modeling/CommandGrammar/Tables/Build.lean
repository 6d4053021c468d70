import CommandGrammar.Grammar.Display
import CommandGrammar.Tables.Basic

/-!
Building the tables of a grammar whose calls are numbered.

Each rule becomes one row. A literal loses its closing apostrophe: the parser at run time tells a
literal by the opening one and takes the rest as the text. The calls must be numbered from zero
without a gap, and no call may be left unnumbered.
-/

set_option autoImplicit false
set_option relaxedAutoImplicit false

namespace CommandGrammar

open Text

inductive BuildError where
  | unresolvedCall (clause : CallClause) (state : String) (line : Int)
  | scatteredCallIds (callIds : List Int)
  deriving DecidableEq, Repr

def BuildError.message : BuildError → String
  | unresolvedCall clause state line =>
    "ir: unresolved action " ++ (Action.call clause).display ++ " in state " ++ state ++ " (line "
      ++ decimal line ++ ")"
  | scatteredCallIds callIds =>
    "ir: call ids are not contiguous from 0: " ++ bracketed (callIds.map decimal)

namespace TableRow

/-- The pattern of a token: a literal without its closing apostrophe, or the name of a class. -/
def patternOf (token : String) : String :=
  match token.toList with
  | '\'' :: cs =>
    if cs.getLast? == some '\'' then String.ofList ('\'' :: cs.dropLast) else token
  | _ => token

/-- The next state of a rule, and the number of its call; zero if it has none. -/
def targetOf (state : String) (rule : Rule) : Except BuildError (String × Int) :=
  match rule.action with
  | .stay => .ok (state, 0)
  | .transition target => .ok (target, 0)
  | .dispatch callId _ => .ok (callState, callId)
  | .call clause => .error (.unresolvedCall clause state rule.line)

def ofRule (state : String) (rule : Rule) : Except BuildError TableRow := do
  let (nextState, callId) ← targetOf state rule
  return ⟨patternOf rule.token, rule.identifier.getD "", nextState, callId⟩

end TableRow

namespace ParserTables

/-- The states of a grammar, numbered from zero, with the state that stands for "the call
decides" at the end. A name that comes up twice keeps the later number. -/
def numberStates (states : List String) : NameMap Int :=
  .ofList (states.zipIdx.map fun (state, id) => (state, (id : Int)))

def tablesOf (g : Grammar) : Except BuildError (List (String × List TableRow)) :=
  g.states.entries.mapM fun (state, rules) => do
    let rows ← rules.mapM (TableRow.ofRule state)
    return (state, rows)

def build (g : Grammar) (calls : List NumberedCall) : Except BuildError ParserTables := do
  let states := g.stateNames ++ [callState]
  let tables ← tablesOf g
  let callIds := calls.map NumberedCall.id
  if callIds = (List.range calls.length).map Int.ofNat then
    return ⟨states, numberStates states, tables, calls⟩
  else
    .error (.scatteredCallIds callIds)

def initial : ParserTables :=
  ⟨[callState], numberStates [callState], [], []⟩

end ParserTables

end CommandGrammar
