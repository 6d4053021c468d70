import CommandGrammar.Fault
import CommandGrammar.Grammar.Basic

/-!
Checking a grammar as a whole.

No state may have the name that is reserved for calls, and every state that a rule names must be
declared. A state without rules only earns a warning.

A grammar that was not read from a text may lack the line of a state. The check reports the name
then if it comes to need the line.
-/

set_option autoImplicit false
set_option relaxedAutoImplicit false

namespace CommandGrammar

/-- Why a check fails: a fault of the grammar, or a state whose line is not known. -/
inductive CheckError where
  | fault (f : Fault)
  | unknownLine (state : String)
  deriving DecidableEq, Repr

structure Warning where
  state : String
  line : Int
  deriving DecidableEq, Repr

def Warning.message (w : Warning) : String :=
  "state " ++ w.state ++ " (line " ++ Text.decimal w.line ++ ") has no token definitions"

namespace Grammar

def lineOf (g : Grammar) (state : String) : Except CheckError Int :=
  match g.stateLines.get? state with
  | some line => .ok line
  | none => .error (.unknownLine state)

def checkReserved (g : Grammar) : Except CheckError Unit :=
  if g.states.contains callState then do
    let line ← g.lineOf callState
    .error (.fault ⟨.reservedState callState, line, none⟩)
  else .ok ()

def checkTarget (g : Grammar) (state : String) (rule : Rule) : Except CheckError Unit :=
  match rule.action.target? with
  | none => .ok ()
  | some target =>
    if g.states.contains target then .ok ()
    else .error (.fault ⟨.undeclaredState state rule.token target, rule.line, none⟩)

def emptyStates (g : Grammar) : List String :=
  (g.states.entries.filter fun entry => entry.2.isEmpty).map Prod.fst

def check (g : Grammar) : Except CheckError (List Warning) := do
  g.checkReserved
  g.rules.forM fun (state, rule) => g.checkTarget state rule
  g.emptyStates.mapM fun state => do
    let line ← g.lineOf state
    return ⟨state, line⟩

end Grammar

end CommandGrammar
