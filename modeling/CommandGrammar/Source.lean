import CommandGrammar.Text.Lines
import CommandGrammar.Text.Utf8

set_option autoImplicit false
set_option relaxedAutoImplicit false

namespace CommandGrammar.Source

open Text

def text (octets : List UInt8) : Except Utf8.Fault String :=
  (Utf8.decode octets).map fun cs => String.ofList (unifyNewlines cs)

def lines (octets : List UInt8) : Except Utf8.Fault (List String) :=
  (text octets).map Text.lines

end CommandGrammar.Source
