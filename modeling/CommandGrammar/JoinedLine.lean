import CommandGrammar.Text.Blank
import CommandGrammar.Fault

/-!
Joined lines.

Blank lines and comments, whose first character that is not blank is `#`, count for nothing. A
line that begins with `->`, blanks aside, continues the line before it and is appended to it as it
stands. What comes about in this way is a joined line; its number is that of its first physical
line, counted from one.

That a joined line is complete shows only when the next one begins, so `join` holds one line back.
Each line comes with the number of physical lines that had been read when it was complete.
-/

set_option autoImplicit false
set_option relaxedAutoImplicit false

namespace CommandGrammar

open Text

/-- A line of a grammar after joining, with the number of the physical line that begins it. -/
structure JoinedLine where
  text : String
  line : Int
  deriving DecidableEq, Repr

namespace JoinedLine

inductive Role where
  | skipped
  | continuation
  | opening
  deriving DecidableEq, Repr

/-- The role of a physical line, read off its first characters that are not blank. -/
def Role.of (text : String) : Role :=
  match trimStart text.toList with
  | [] => .skipped
  | '#' :: _ => .skipped
  | '-' :: '>' :: _ => .continuation
  | _ => .opening

structure Completion where
  line : JoinedLine
  consumed : Nat
  deriving DecidableEq, Repr

/-- The fault of a continuation that nothing precedes; it points at the arrow. -/
def strayFault (text : String) (line : Int) : Fault :=
  let indent := text.toList.takeWhile isBlank
  ⟨.strayContinuation, line, some ⟨text, indent.length + 1⟩⟩

/-- Joins the remaining lines after `read` of them, with `pending` held back. -/
def joinFrom (read : Nat) :
    Option JoinedLine → List String → Except Fault (List Completion)
  | none, [] => .ok []
  | some pending, [] => .ok [⟨pending, read⟩]
  | pending, text :: rest =>
    match Role.of text, pending with
    | .skipped, _ => joinFrom (read + 1) pending rest
    | .continuation, none => .error (strayFault text (read + 1))
    | .continuation, some pending =>
      joinFrom (read + 1) (some ⟨pending.text ++ text, pending.line⟩) rest
    | .opening, none => joinFrom (read + 1) (some ⟨text, read + 1⟩) rest
    | .opening, some pending =>
      (joinFrom (read + 1) (some ⟨text, read + 1⟩) rest).map (⟨pending, read + 1⟩ :: ·)

/-- The joined lines of the physical lines, each with the number of lines read when it was
complete. -/
def completions (texts : List String) : Except Fault (List Completion) :=
  joinFrom 0 none texts

def join (texts : List String) : Except Fault (List JoinedLine) :=
  (completions texts).map (·.map Completion.line)

end JoinedLine

end CommandGrammar
