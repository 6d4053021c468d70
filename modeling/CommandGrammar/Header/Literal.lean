set_option autoImplicit false
set_option relaxedAutoImplicit false

namespace CommandGrammar.Header

def escapeChar (c : Char) : List Char :=
  if c = '\\' || c = '"' then ['\\', c] else [c]

def escape (text : String) : String :=
  String.ofList (text.toList.flatMap escapeChar)

def literal (text : String) : String :=
  "\"" ++ escape text ++ "\""

end CommandGrammar.Header
