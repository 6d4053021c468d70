set_option autoImplicit false
set_option relaxedAutoImplicit false

namespace CommandGrammar.Text

def cutLast (separator : Char) : List Char → Option (List Char × List Char)
  | [] => none
  | c :: cs =>
    match cutLast separator cs with
    | some (before, after) => some (c :: before, after)
    | none => if c = separator then some ([], cs) else none

end CommandGrammar.Text
