import CommandGrammar.Compilation
import CommandGrammar.Proofs.Logged
import CommandGrammar.Proofs.Text.OneLine
import CommandGrammar.Proofs.Tables.Acceptance
import CommandGrammar.Proofs.Tables.Renumbering

set_option autoImplicit false
set_option relaxedAutoImplicit false

namespace CommandGrammar

open Text

def Text.insertLine (source line : String) (index : Nat) : String :=
  joinLines ((lines source).take index ++ line :: (lines source).drop index)

def Compilation.withHeaders (conv : Convention) (options : Header.Options) (source : String) :
    Logged Note Failure (Compilation × List Header.File) := do
  let c ← ofLines conv (lines source)
  let headers ← .ofExcept ((Header.files options c.tables).mapError .write)
  return (c, headers)

section Renumbering

variable (f : Int → Int)

def Note.renumber : Note → Note
  | warned warning => warned (warning.renumber f)
  | note => note

def Failure.renumber : Failure → Failure
  | read fault => read (fault.renumber f)
  | check e => check (e.renumber f)
  | build e => build (e.renumber f)
  | e => e

def Compilation.renumber (c : Compilation) : Compilation where
  grammar := c.grammar.renumber f
  resolved := c.resolved.renumber f
  calls := c.calls.map (NumberedCall.renumber f)
  tables := c.tables.renumber f

end Renumbering

theorem Text.lines_insertLine {source line : String} (oneLine : OneLine line) (index : Nat) :
    lines (insertLine source line index) =
      (lines source).take index ++ line :: (lines source).drop index := by
  apply lines_joinLines
  · intro text htext
    rcases List.mem_append.mp htext with hbefore | hafter
    · exact newline_not_mem_of_mem_lines (List.mem_of_mem_take hbefore)
    · rcases List.mem_cons.mp hafter with rfl | hafter
      · exact oneLine
      · exact newline_not_mem_of_mem_lines (List.mem_of_mem_drop hafter)
  · simp

theorem Compilation.ofLines_renumber {f : Int → Int} {texts texts' : List String}
    (joined : JoinedLine.join texts' = Outcome.translate (Fault.renumber f)
      (List.map (JoinedLine.renumber f)) (JoinedLine.join texts)) (conv : Convention) :
    ofLines conv texts' =
      (ofLines conv texts).translate (Note.renumber f) (Failure.renumber f) (renumber f) := by
  unfold ofLines
  refine Logged.ofExcept_bind_translate joined (fun _ => rfl) fun lines _ => ?_
  refine Logged.tell_bind_translate ?_ ?_
  · rw [List.length_map]
    rfl
  refine Logged.ofExcept_bind_translate (Grammar.ofLines_renumber f lines) (fun _ => rfl)
    fun grammar _ => ?_
  refine Logged.tell_bind_translate ?_ ?_
  · rw [grammar.ruleCount_renumber f, Grammar.entries_renumber, List.length_map]
    rfl
  refine Logged.ofExcept_bind_translate (grammar.check_renumber f) (fun _ => rfl)
    fun warnings _ => ?_
  refine Logged.tell_bind_translate ?_ ?_
  · rw [List.map_append, List.map_map, List.map_map]
    rfl
  refine Logged.ofExcept_bind_translate (grammar.resolve_renumber f conv) (fun _ => rfl) ?_
  rintro ⟨resolved, calls⟩ _
  refine Logged.tell_bind_translate ?_ ?_
  · rw [List.length_map]
    rfl
  refine Logged.ofExcept_bind_translate (ParserTables.build_renumber f resolved calls)
    (fun _ => rfl) fun tables _ => ?_
  exact Logged.tell_bind_translate rfl rfl

theorem Compilation.withHeaders_renumber {f : Int → Int} {source source' : String}
    (joined : JoinedLine.join (lines source') = Outcome.translate (Fault.renumber f)
      (List.map (JoinedLine.renumber f)) (JoinedLine.join (lines source)))
    (conv : Convention) (options : Header.Options) :
    withHeaders conv options source' =
      (withHeaders conv options source).translate (Note.renumber f) (Failure.renumber f)
        fun (c, headers) => (c.renumber f, headers) := by
  unfold withHeaders
  rw [ofLines_renumber joined conv]
  apply Logged.bind_translate
  intro c _
  have htables : (c.renumber f).tables = c.tables.renumber f := rfl
  have hfiles : Header.files options (c.renumber f).tables =
      Outcome.translate (fun e => e) (fun headers => headers)
        (Header.files options c.tables) := by
    rw [htables, Header.files_renumber]
    cases Header.files options c.tables <;> rfl
  refine Logged.ofExcept_bind_translate hfiles (fun _ => rfl) fun headers _ => ?_
  rfl

theorem JoinedLine.join_insertLine {source line : String} {index : Nat}
    (place : index ≤ (lines source).length) (oneLine : OneLine line) (skipped : SkippedLine line) :
    join (lines (insertLine source line index)) =
      Outcome.translate (Fault.renumber (shifted (index + 1)))
        (List.map (JoinedLine.renumber (shifted (index + 1)))) (join (lines source)) := by
  have hjoin := join_inserted (Role.of_eq_skipped_iff.mpr skipped)
    ((lines source).take index) ((lines source).drop index)
  rw [List.length_take_of_le place, List.take_append_drop] at hjoin
  rw [lines_insertLine oneLine]
  exact hjoin

/-- A blank line or a comment that is put in leaves no trace but the shifted numbers of lines: the
text is compiled exactly if it was before, to the same headers, and is otherwise rejected for the
same reason. -/
theorem inserted_line_leaves_no_trace {source line : String} {index : Nat}
    (place : index ≤ (lines source).length) (oneLine : OneLine line) (skipped : SkippedLine line)
    (conv : Convention) (options : Header.Options) :
    Compilation.withHeaders conv options (insertLine source line index) =
      (Compilation.withHeaders conv options source).translate
        (Note.renumber (JoinedLine.shifted (index + 1)))
        (Failure.renumber (JoinedLine.shifted (index + 1)))
        fun (c, headers) => (c.renumber (JoinedLine.shifted (index + 1)), headers) :=
  Compilation.withHeaders_renumber (JoinedLine.join_insertLine place oneLine skipped) conv options

/-- A comment between a definition of the turnstile and its continuation. -/
theorem comment_leaves_no_trace : 4 ≤ (lines turnstileSource).length ∧ OneLine "\t# a coin" ∧
    SkippedLine "\t# a coin" ∧
    Compilation.withHeaders {} {} (insertLine turnstileSource "\t# a coin" 4) =
      (Compilation.withHeaders {} {} turnstileSource).translate
        (Note.renumber (JoinedLine.shifted 5)) (Failure.renumber (JoinedLine.shifted 5))
        fun (c, headers) => (c.renumber (JoinedLine.shifted 5), headers) := by
  have place : 4 ≤ (lines turnstileSource).length := by decide
  have oneLine : OneLine "\t# a coin" := by unfold OneLine; decide
  have skipped : SkippedLine "\t# a coin" := JoinedLine.Role.of_eq_skipped_iff.mp (by decide)
  exact ⟨place, oneLine, skipped, inserted_line_leaves_no_trace place oneLine skipped {} {}⟩

end CommandGrammar
