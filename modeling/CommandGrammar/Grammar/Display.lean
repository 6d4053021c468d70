import CommandGrammar.Grammar.Basic
import CommandGrammar.Text.Lines
import CommandGrammar.Text.Quoted

set_option autoImplicit false
set_option relaxedAutoImplicit false

namespace CommandGrammar

open Text

/-- The text of a call: its expression and the state that it names, or `None`. -/
def CallClause.display (clause : CallClause) : String :=
  let returnState := match clause.returnState with
    | none => "None"
    | some state => quoted state
  "CallSpec(template=" ++ quoted clause.template ++ ", return_state=" ++ returnState ++ ")"

def Action.display : Action → String
  | stay => "Stay()"
  | transition target => "Transition(target=" ++ quoted target ++ ")"
  | call clause => "Call(spec=" ++ clause.display ++ ")"
  | dispatch callId returnState =>
    "Dispatch(call_id=" ++ decimal callId ++ ", return_state=" ++ quoted returnState ++ ")"

/-- The text of a rule, much as a grammar writes it. An empty identifier is left out. -/
def Rule.display (r : Rule) : String :=
  let identifier := match r.identifier with
    | none => ""
    | some name => if name = "" then "" else name ++ " = "
  identifier ++ r.token ++ " -> " ++ r.action.display

def Grammar.displayState (name : String) (rules : List Rule) : List String :=
  ("state " ++ name ++ ": (" ++ decimal rules.length ++ " rules)")
    :: rules.map fun rule => "    " ++ rule.display

def Grammar.display (g : Grammar) : String :=
  joinLines (g.states.entries.flatMap fun entry => displayState entry.1 entry.2)

end CommandGrammar
