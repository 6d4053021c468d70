import CommandGrammar.Tables.Consistency

set_option autoImplicit false
set_option relaxedAutoImplicit false

namespace CommandGrammar.Header

open Text

def enumeratorLine (t : ParserTables) (state : String) : String :=
  "    " ++ state ++ " = " ++ t.stateIdText state ++ ","

def enumLines (t : ParserTables) : List String :=
  ["typedef enum \x7b"] ++ t.states.map (enumeratorLine t) ++ ["\x7d cmdp_state;"]

def enums (t : ParserTables) : Except Inconsistency String := do
  t.check
  return endLines (enumLines t)

end CommandGrammar.Header
