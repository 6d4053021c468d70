import CommandGrammar.Text.Lines
import CommandGrammar.Text.Quoted

set_option autoImplicit false
set_option relaxedAutoImplicit false

namespace CommandGrammar

open Text

/-- A text and the column in it, counted from one, that a diagnostic points at. -/
structure Excerpt where
  text : String
  column : Int
  deriving DecidableEq, Repr

/-- The text with a caret below the column; columns before the first count as the first. -/
def Excerpt.render (e : Excerpt) : String :=
  joinLines [e.text, String.ofList (List.replicate (e.column - 1).toNat ' ' ++ ['^'])]

structure Diagnostic where
  description : String
  line : Int
  excerpt : Option Excerpt
  deriving DecidableEq, Repr

/-- The message: its line, its description and the excerpt below it. -/
def Diagnostic.body (d : Diagnostic) : String :=
  let heading := "line " ++ decimal d.line ++ ": " ++ d.description
  match d.excerpt with
  | none => heading
  | some e => joinLines [heading, e.render]

def Diagnostic.render (d : Diagnostic) : String :=
  d.body ++ " (line " ++ decimal d.line ++ ")"

end CommandGrammar
