import CommandGrammar.Diagnostic

set_option autoImplicit false
set_option relaxedAutoImplicit false

namespace CommandGrammar

open Text

inductive Cause where
  | strayContinuation
  | malformedDefinition
  | definitionOutsideState
  | noTokens
  | malformedToken (token : String)
  | malformedCall (action : String)
  | malformedAction (action : String)
  | reservedState (name : String)
  | undeclaredState (state token target : String)
  deriving DecidableEq, Repr

def Cause.description : Cause → String
  | strayContinuation => "continuation line has no preceding definition"
  | malformedDefinition =>
    "malformed token definition (expected '[identifier =] tokens -> action')"
  | definitionOutsideState => "token definition outside of any 'state NAME:' block"
  | noTokens => "token definition without tokens"
  | malformedToken token =>
    "malformed token " ++ quoted token ++ " (expected 'literal' or a token class name)"
  | malformedCall action =>
    "malformed call action " ++ quoted action ++ " (expected 'call f(...)[; STATE]')"
  | malformedAction action =>
    "malformed action " ++ quoted action ++ " (expected STATE or 'call ...')"
  | reservedState name => "state name " ++ name ++ " is reserved"
  | undeclaredState state token target =>
    "state " ++ state ++ ": token " ++ token ++ " refers to undeclared state " ++ target

structure Fault where
  cause : Cause
  line : Int
  excerpt : Option Excerpt
  deriving DecidableEq, Repr

def Fault.diagnostic (f : Fault) : Diagnostic :=
  ⟨f.cause.description, f.line, f.excerpt⟩

end CommandGrammar
