import CommandGrammar.Proofs.Grammar.Canonical
import CommandGrammar.Proofs.Tables.Acceptance
import CommandGrammar.Proofs.Tables.Renumbering

set_option autoImplicit false
set_option relaxedAutoImplicit false

namespace CommandGrammar

def NumberedCall.withoutLine (call : NumberedCall) : NumberedCall :=
  { call with line := 0 }

def ParserTables.withoutLines (t : ParserTables) : ParserTables :=
  { t with calls := t.calls.map NumberedCall.withoutLine }

namespace Grammar

variable (g : Grammar)

theorem entries_withoutLines :
    g.withoutLines.states.entries = g.states.entries.map (renumberEntry fun _ => 0) :=
  rfl

theorem stateNames_withoutLines : g.withoutLines.stateNames = g.stateNames :=
  g.map_fst_content

theorem tablesWith_withoutLines (calls : List NumberedCall) :
    g.withoutLines.tablesWith (calls.map NumberedCall.withoutLine) =
      (g.tablesWith calls).withoutLines := by
  unfold tablesWith
  rw [rowTables_of_renumberEntry _ g.entries_withoutLines, stateNames_withoutLines]
  rfl

variable {g}

theorem numberedCalls_withoutLines {conv : Convention} {calls : List NumberedCall}
    (h : g.numberedCalls conv = .ok calls) :
    g.withoutLines.numberedCalls conv = .ok (calls.map NumberedCall.withoutLine) := by
  rw [numberedCalls_of_renumberEntry _ g.entries_withoutLines, h]
  rfl

end Grammar

theorem Header.files_withoutLines (t : ParserTables) (options : Options) :
    files options t.withoutLines = files options t :=
  files_renumber (fun _ => 0) t options

end CommandGrammar
