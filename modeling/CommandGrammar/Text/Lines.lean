/-!
Lines of a text.

The lines of a grammar are separated by line feeds alone, once `unifyNewlines` has turned every
carriage return, with or without a line feed after it, into one line feed. `displayLines` is the
finer division used for showing a text, which also breaks at the separators that Unicode knows and
has no empty last line.
-/

set_option autoImplicit false
set_option relaxedAutoImplicit false

namespace CommandGrammar.Text

/-- Turns a carriage return, and a carriage return with a line feed, into a line feed. -/
def unifyNewlines : List Char → List Char
  | [] => []
  | '\r' :: '\n' :: cs => '\n' :: unifyNewlines cs
  | '\r' :: cs => '\n' :: unifyNewlines cs
  | c :: cs => c :: unifyNewlines cs

/-- The lines between line feeds; a text without a line feed is one line. -/
def lines (text : String) : List String :=
  (text.toList.splitOn '\n').map String.ofList

def isLineBreak (c : Char) : Bool :=
  c ∈ ['\n', '\r', '\x0b', '\x0c', '\x1c', '\x1d', '\x1e', '\u0085', '\u2028', '\u2029']

/-- The displayed lines, with the line read so far in reverse; a carriage return takes a line
feed after it along. -/
def displayLinesFrom (line : List Char) : List Char → List (List Char)
  | [] => if line.isEmpty then [] else [line.reverse]
  | '\r' :: '\n' :: cs => line.reverse :: displayLinesFrom [] cs
  | c :: cs =>
    if isLineBreak c then line.reverse :: displayLinesFrom [] cs
    else displayLinesFrom (c :: line) cs

def displayLines (text : String) : List String :=
  (displayLinesFrom [] text.toList).map String.ofList

def joinLines (lines : List String) : String :=
  "\n".intercalate lines

def endLines (lines : List String) : String :=
  String.join (lines.map (· ++ "\n"))

end CommandGrammar.Text
