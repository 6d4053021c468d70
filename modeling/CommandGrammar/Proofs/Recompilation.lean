import CommandGrammar.Compilation
import CommandGrammar.Proofs.Grammar.Grouping
import CommandGrammar.Proofs.Grammar.ReadBack
import CommandGrammar.Proofs.Logged
import CommandGrammar.Proofs.Tables.LineNumbers

set_option autoImplicit false
set_option relaxedAutoImplicit false

namespace CommandGrammar

namespace Grammar

variable {g : Grammar}

/-- Every state of the grammar has the line of its declaration, and no other line is kept. -/
def Coherent (g : Grammar) : Prop := g.stateLines.keys = g.stateNames

theorem coherent_of_read {source : String} (h : read source = .ok g) : g.Coherent := by
  obtain ⟨lines, -, h⟩ := Outcome.bind_eq_ok.mp h
  exact (groups_of_ofLines h).keys

theorem lineOf_isOk (h : g.Coherent) {state : String} (hstate : state ∈ g.stateNames) :
    ∃ line, g.lineOf state = .ok line := by
  rw [← h] at hstate
  obtain ⟨line, hline⟩ := (OrderedMap.mem_keys_iff _).mp hstate
  refine ⟨line, ?_⟩
  unfold lineOf
  rw [(OrderedMap.get?_eq_some_iff _).mpr hline]

theorem mem_stateNames_of_mem_emptyStates {state : String} (h : state ∈ g.emptyStates) :
    state ∈ g.stateNames := by
  obtain ⟨entry, hentry, rfl⟩ := List.mem_map.mp h
  exact mem_stateNames (List.mem_filter.mp hentry).1

theorem check_isOk_iff (h : g.Coherent) : (∃ warnings, g.check = .ok warnings) ↔ g.Closed := by
  constructor
  · rintro ⟨warnings, hcheck⟩
    exact closed_of_check hcheck
  · intro closed
    have htargets : ∀ p ∈ g.rules, g.checkTarget p.1 p.2 = .ok () := by
      rintro ⟨state, rule⟩ hrule
      obtain ⟨rules, hentry, hmem⟩ := g.mem_rules_iff.mp hrule
      exact (g.checkTarget_eq_ok state rule).mpr (closed.targets _ hentry rule hmem)
    obtain ⟨warnings, hwarnings⟩ : ∃ warnings, (g.emptyStates.mapM fun state => do
        let line ← g.lineOf state
        return (⟨state, line⟩ : Warning)) = .ok warnings := by
      apply Outcome.exists_mapM
      intro state hstate
      obtain ⟨line, hline⟩ := lineOf_isOk h (mem_stateNames_of_mem_emptyStates hstate)
      exact ⟨⟨state, line⟩, Outcome.bind_eq_ok.mpr ⟨line, hline, rfl⟩⟩
    refine ⟨warnings, Outcome.bind_eq_ok.mpr ⟨(), g.checkReserved_eq_ok.mpr closed.reserved, ?_⟩⟩
    exact Outcome.bind_eq_ok.mpr ⟨(), Outcome.forM_eq_ok.mpr htargets, hwarnings⟩

theorem closed_withoutLines : g.withoutLines.Closed ↔ g.Closed := by
  have hentries : g.withoutLines.states.entries = g.states.entries.map entryContent := rfl
  constructor
  · rintro ⟨reserved, targets⟩
    rw [stateNames_withoutLines] at reserved targets
    refine ⟨reserved, fun entry hentry rule hrule => ?_⟩
    exact targets _ (List.mem_map_of_mem hentry) rule.withoutLine (List.mem_map_of_mem hrule)
  · rintro ⟨reserved, targets⟩
    refine ⟨by rwa [stateNames_withoutLines], ?_⟩
    rw [stateNames_withoutLines, hentries]
    intro entry' hentry' rule' hrule'
    obtain ⟨entry, hentry, rfl⟩ := List.mem_map.mp hentry'
    obtain ⟨rule, hrule, rfl⟩ := List.mem_map.mp hrule'
    exact targets entry hentry rule hrule

end Grammar

/-- A text is compiled if it is read, passes the check, and its calls and tables come out. -/
theorem Compilation.ofLines_eq_ok_iff {conv : Convention} {source : String} {c : Compilation} :
    (ofLines conv (Text.lines source)).result = .ok c ↔
      Grammar.read source = .ok c.grammar ∧ (∃ warnings, c.grammar.check = .ok warnings) ∧
        c.grammar.resolve conv = .ok (c.resolved, c.calls) ∧
        ParserTables.build c.resolved c.calls = .ok c.tables := by
  unfold ofLines Grammar.read
  simp only [Logged.result_bind_eq_ok, Logged.result_tell_bind, Logged.ofExcept,
    Outcome.mapError_eq_ok, Outcome.bind_eq_ok, Prod.exists]
  constructor
  · rintro ⟨lines, hlines, g, hg, warnings, hcheck, r, calls, hresolve, t, hbuild, h⟩
    cases h
    exact ⟨⟨lines, hlines, hg⟩, ⟨warnings, hcheck⟩, hresolve, hbuild⟩
  · rintro ⟨⟨lines, hlines, hg⟩, ⟨warnings, hcheck⟩, hresolve, hbuild⟩
    exact ⟨lines, hlines, _, hg, warnings, hcheck, _, _, hresolve, _, hbuild, rfl⟩

def Grammar.compiledWith (g : Grammar) (calls : List NumberedCall) : Compilation where
  grammar := g
  resolved := g.numberCalls
  calls := calls
  tables := g.tablesWith calls

theorem Compilation.exists_ofLines {source : String} {g : Grammar}
    (hread : Grammar.read source = .ok g) (hcheck : ∃ warnings, g.check = .ok warnings)
    (conv : Convention) : ∃ calls, g.numberedCalls conv = .ok calls ∧
      (g.tablesWith calls).Consistent ∧
      (ofLines conv (Text.lines source)).result = .ok (g.compiledWith calls) := by
  obtain ⟨warnings, hwarnings⟩ := hcheck
  obtain ⟨calls, hcalls, hresolve, hbuild, hconsistent⟩ := Grammar.exists_tables
    (Grammar.wellFormed_of_read hread) (Grammar.closed_of_check hwarnings) conv
  refine ⟨calls, hcalls, hconsistent, ?_⟩
  exact ofLines_eq_ok_iff.mpr ⟨hread, ⟨warnings, hwarnings⟩, hresolve, hbuild⟩

theorem Header.files_eq_of_withoutLines_eq {g g' : Grammar}
    (same : g'.withoutLines = g.withoutLines) {conv : Convention} {calls calls' : List NumberedCall}
    (hcalls : g.numberedCalls conv = .ok calls) (hcalls' : g'.numberedCalls conv = .ok calls')
    (options : Options) :
    files options (g'.tablesWith calls') = files options (g.tablesWith calls) := by
  have hlisted := Grammar.numberedCalls_withoutLines hcalls
  have hlisted' := Grammar.numberedCalls_withoutLines hcalls'
  rw [same, hlisted] at hlisted'
  have htables : (g'.tablesWith calls').withoutLines = (g.tablesWith calls).withoutLines := by
    rw [← Grammar.tablesWith_withoutLines, ← Grammar.tablesWith_withoutLines, same,
      Except.ok.inj hlisted']
  rw [← files_withoutLines, htables, files_withoutLines]

/-- The canonical text of a well-formed grammar is read as the grammar, up to the numbers of lines;
whatever is read is well formed; and a text that is read and passes the check gives the same headers
as its canonical text, under every convention and with all options. -/
theorem canonical_text_compiles_alike :
    (∀ g : Grammar, g.WellFormed →
      ∃ g', Grammar.read g.canonical = .ok g' ∧ g'.withoutLines = g.withoutLines) ∧
    (∀ source g, Grammar.read source = .ok g → g.WellFormed) ∧
    ∀ source g warnings, Grammar.read source = .ok g → g.check = .ok warnings →
      ∀ conv options, ∃ c c' files,
        (Compilation.ofLines conv (Text.lines source)).result = .ok c ∧
        (Compilation.ofLines conv (Text.lines g.canonical)).result = .ok c' ∧
        c.grammar = g ∧ c'.grammar.withoutLines = g.withoutLines ∧
        Header.files options c.tables = .ok files ∧
        Header.files options c'.tables = .ok files := by
  refine ⟨fun g wf => Grammar.read_canonical wf, fun source g => Grammar.wellFormed_of_read, ?_⟩
  intro source g warnings hread hcheck conv options
  obtain ⟨g', hread', same⟩ := Grammar.read_canonical (Grammar.wellFormed_of_read hread)
  have closed' : g'.Closed := by
    rw [← Grammar.closed_withoutLines, same, Grammar.closed_withoutLines]
    exact Grammar.closed_of_check hcheck
  have hcheck' := (Grammar.check_isOk_iff (Grammar.coherent_of_read hread')).mpr closed'
  obtain ⟨calls, hcalls, hconsistent, hc⟩ :=
    Compilation.exists_ofLines hread ⟨warnings, hcheck⟩ conv
  obtain ⟨calls', hcalls', -, hc'⟩ := Compilation.exists_ofLines hread' hcheck' conv
  have hfiles := Header.files_of_consistent hconsistent options
  have hfiles' := (Header.files_eq_of_withoutLines_eq same hcalls hcalls' options).trans hfiles
  exact ⟨_, _, _, hc, hc', rfl, same, hfiles, hfiles'⟩

/-- A text with an arrow in a literal, and with arrows, semicolons and equality signs in a call. -/
def arrowSource : String :=
  "state A:\n # quoted\n x = '- >', y\n -> call f ('->'; \"a = b\" ;) ; A\n"

def arrows : Grammar where
  states := ⟨[("A", [
    ⟨"'->'", some "x", .call ⟨"f ('->'; \"a = b\" ;)", some "A"⟩, 3⟩,
    ⟨"y", some "x", .call ⟨"f ('->'; \"a = b\" ;)", some "A"⟩, 3⟩])], List.nodup_singleton "A"⟩
  stateLines := ⟨[("A", 1)], List.nodup_singleton "A"⟩

theorem read_arrowSource : Grammar.read arrowSource = .ok arrows := by decide +kernel

example : arrows.canonical = "state A:\n  x = '- >' -> call f ('->'; \"a = b\" ;); A\n" ++
    "  x = y -> call f ('->'; \"a = b\" ;); A\n" := by decide +kernel

/-- The text with arrows gives the same headers as its canonical text. -/
theorem arrows_compile_alike : arrows.WellFormed ∧
    (∃ g', Grammar.read arrows.canonical = .ok g' ∧ g'.withoutLines = arrows.withoutLines) ∧
    ∃ c c' files, (Compilation.ofLines {} (Text.lines arrowSource)).result = .ok c ∧
      (Compilation.ofLines {} (Text.lines arrows.canonical)).result = .ok c' ∧
      c.grammar = arrows ∧ c'.grammar.withoutLines = arrows.withoutLines ∧
      Header.files {} c.tables = .ok files ∧ Header.files {} c'.tables = .ok files := by
  obtain ⟨back, wellFormed, alike⟩ := canonical_text_compiles_alike
  have wf := wellFormed arrowSource arrows read_arrowSource
  have hcheck : arrows.check = .ok [] := by decide
  exact ⟨wf, back arrows wf, alike arrowSource arrows [] read_arrowSource hcheck {} {}⟩

end CommandGrammar
