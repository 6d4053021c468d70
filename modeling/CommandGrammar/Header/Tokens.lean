import CommandGrammar.Header.Literal
import CommandGrammar.Tables.Consistency

set_option autoImplicit false
set_option relaxedAutoImplicit false

namespace CommandGrammar.Header

open Text

def rowLine (row : TableRow) : String :=
  "    \x7b " ++ literal row.pattern ++ ", " ++ literal row.identifier ++ ", " ++ row.nextState
    ++ ", \x7b " ++ decimal row.callId ++ " \x7d \x7d,"

def arrayLines (state : String) (rows : List TableRow) : List String :=
  ["cmdp_token tokens_" ++ state ++ "[" ++ decimal rows.length ++ "] = \x7b"]
    ++ rows.map rowLine ++ ["\x7d;"]

def indexLine (state : String) (rows : List TableRow) : String :=
  "    \x7b tokens_" ++ state ++ ", " ++ decimal rows.length ++ " \x7d,"

def tokenLines (t : ParserTables) : List String :=
  t.tables.flatMap (fun table => arrayLines table.1 table.2)
    ++ ["cmdp_token_ptr tokens[" ++ decimal t.tables.length ++ "] = \x7b"]
    ++ t.tables.map (fun table => indexLine table.1 table.2) ++ ["\x7d;"]

def tokens (t : ParserTables) : Except Inconsistency String := do
  t.check
  return endLines (tokenLines t)

end CommandGrammar.Header
