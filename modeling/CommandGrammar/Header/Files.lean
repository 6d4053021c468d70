import CommandGrammar.Header.Calls
import CommandGrammar.Header.Enums
import CommandGrammar.Header.Tokens

set_option autoImplicit false
set_option relaxedAutoImplicit false

namespace CommandGrammar.Header

structure File where
  name : String
  text : String
  deriving DecidableEq, Repr

/-- The headers for the states, the calls and the tokens, in this order. -/
def files (options : Options) (t : ParserTables) : Except Inconsistency (List File) := do
  let enums ← enums t
  let calls ← calls options t
  let tokens ← tokens t
  return [
    ⟨options.namePrefix ++ "enums.h", enums⟩,
    ⟨options.namePrefix ++ "call.h", calls⟩,
    ⟨options.namePrefix ++ "tokens.h", tokens⟩]

end CommandGrammar.Header
