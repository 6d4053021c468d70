import CommandGrammar.Proofs.Recompilation

set_option autoImplicit false
set_option relaxedAutoImplicit false

namespace CommandGrammar

namespace Compilation

def accept (texts : List String) : Logged Note Failure Grammar := do
  let lines ← .ofExcept ((JoinedLine.join texts).mapError .read)
  .tell [.joined lines.length]
  let grammar ← .ofExcept ((Grammar.ofLines lines).mapError .read)
  .tell [.read grammar.states.entries.length grammar.ruleCount]
  let warnings ← .ofExcept (grammar.check.mapError .check)
  .tell (warnings.map .warned ++ [.checked])
  return grammar

def acceptFile (octets : Except FileError (List UInt8)) : Logged Note Failure Grammar := do
  let octets ← .ofExcept (octets.mapError .file)
  let texts ← .ofExcept ((Source.lines octets).mapError .decode)
  accept texts

def ofAccepted (conv : Convention) (grammar : Grammar) : Logged Note Failure Compilation := do
  let (resolved, calls) ← .ofExcept ((grammar.resolve conv).mapError .resolve)
  .tell [.resolved calls.length]
  let tables ← .ofExcept ((ParserTables.build resolved calls).mapError .build)
  .tell [.built tables.states.length tables.rowCount]
  return { grammar, resolved, calls, tables }

theorem ofLines_eq (conv : Convention) (texts : List String) :
    ofLines conv texts = accept texts >>= ofAccepted conv := by
  unfold ofLines accept
  simp only [bind_assoc, pure_bind]
  rfl

theorem ofFile_eq (conv : Convention) (octets : Except FileError (List UInt8)) :
    ofFile conv octets = acceptFile octets >>= ofAccepted conv := by
  unfold ofFile acceptFile
  simp only [bind_assoc, ofLines_eq]

theorem exists_of_acceptFile {octets : Except FileError (List UInt8)} {g : Grammar}
    (h : (acceptFile octets).result = .ok g) :
    ∃ source warnings, Grammar.read source = .ok g ∧ g.check = .ok warnings := by
  obtain ⟨found, -, h⟩ := Logged.result_bind_eq_ok.mp h
  obtain ⟨texts, htexts, h⟩ := Logged.result_bind_eq_ok.mp h
  obtain ⟨source, -, rfl⟩ := Outcome.map_eq_ok.mp (Outcome.mapError_eq_ok.mp htexts)
  unfold accept at h
  simp only [Logged.result_bind_eq_ok, Logged.result_tell_bind, Logged.ofExcept,
    Outcome.mapError_eq_ok] at h
  obtain ⟨lines, hlines, read, hread, warnings, hcheck, h⟩ := h
  cases h
  exact ⟨source, warnings, Outcome.bind_eq_ok.mpr ⟨lines, hlines, hread⟩, hcheck⟩

theorem exists_ofAccepted {octets : Except FileError (List UInt8)} {g : Grammar}
    (h : (acceptFile octets).result = .ok g) (conv : Convention) :
    ∃ calls, g.numberedCalls conv = .ok calls ∧ (g.tablesWith calls).Consistent ∧
      (ofAccepted conv g).result = .ok (g.compiledWith calls) := by
  obtain ⟨source, warnings, hread, hcheck⟩ := exists_of_acceptFile h
  obtain ⟨calls, hcalls, hresolve, hbuild, hconsistent⟩ := Grammar.exists_tables
    (Grammar.wellFormed_of_read hread) (Grammar.closed_of_check hcheck) conv
  refine ⟨calls, hcalls, hconsistent, ?_⟩
  unfold ofAccepted
  simp only [Logged.result_bind_eq_ok, Logged.result_tell_bind, Logged.ofExcept,
    Outcome.mapError_eq_ok]
  exact ⟨_, hresolve, _, hbuild, rfl⟩

end Compilation

end CommandGrammar
