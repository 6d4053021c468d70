import CommandGrammar.OrderedMap

/-!
Command grammars.

A grammar is a list of states in the order of their declaration, each with rules. A rule accepts
one token and says what follows: stay in the state, go to another, or call a function and then go
to a state. Once the calls have been numbered, a rule names its call by number instead
(`dispatch`).

The states and the lines of their declarations are two maps. A grammar that is built by `declare`
and the operations after it keeps the same keys in both.
-/

set_option autoImplicit false
set_option relaxedAutoImplicit false

namespace CommandGrammar

/-- The name of the state that stands for "the call decides". -/
def callState : String := "__CALL"

/-- The state that a call returns to when it names none. -/
def initialState : String := "INITIAL"

/-- A call as it is written: the expression, and the state to return to if one is named. -/
structure CallClause where
  template : String
  returnState : Option String
  deriving DecidableEq, Repr

/-- The state to return to; an absent or empty name means the default. -/
def CallClause.returnTarget (clause : CallClause) : String :=
  match clause.returnState with
  | none => initialState
  | some state => if state = "" then initialState else state

inductive Action where
  | stay
  | transition (target : String)
  | call (clause : CallClause)
  | dispatch (callId : Int) (returnState : String)
  deriving DecidableEq, Repr

def Action.target? : Action → Option String
  | stay => none
  | transition target => some target
  | call clause => some clause.returnTarget
  | dispatch _ returnState => some returnState

/-- A rule: the token it accepts, the name under which the token is captured, what follows, and
the line that it was read from. -/
structure Rule where
  token : String
  identifier : Option String
  action : Action
  line : Int
  deriving DecidableEq, Repr

namespace Rule

def isLiteral (r : Rule) : Bool :=
  r.token.toList.head? == some '\''

def setAction (r : Rule) (action : Action) : Rule :=
  { r with action }

end Rule

/-- States with their rules, and the lines that declare them. -/
structure Grammar where
  states : NameMap (List Rule)
  stateLines : NameMap Int
  deriving DecidableEq

namespace Grammar

def empty : Grammar := ⟨∅, ∅⟩

instance : EmptyCollection Grammar := ⟨empty⟩

instance : Inhabited Grammar := ⟨empty⟩

def stateNames (g : Grammar) : List String := g.states.keys

/-- All rules with their states, in the order of the states and then of the rules. -/
def rules (g : Grammar) : List (String × Rule) :=
  g.states.entries.flatMap fun entry => entry.2.map fun rule => (entry.1, rule)

def ruleCount (g : Grammar) : Nat :=
  g.rules.length

/-- Declares a state. A state that is known stays as it is. -/
def declare (g : Grammar) (name : String) (line : Int) : Grammar :=
  if g.states.contains name then g
  else ⟨g.states.insert name [], g.stateLines.insert name line⟩

def addRules (g : Grammar) (state : String) (rules : List Rule) : Grammar :=
  { g with states := g.states.modify state (· ++ rules) }

def setAction (g : Grammar) (state : String) (index : Nat) (action : Action) : Grammar :=
  { g with states := g.states.modify state fun rules => rules.modify index (·.setAction action) }

end Grammar

end CommandGrammar
