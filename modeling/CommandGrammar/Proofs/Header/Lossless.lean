import CommandGrammar.Proofs.Header.Contents

set_option autoImplicit false
set_option relaxedAutoImplicit false

namespace CommandGrammar

open Text

namespace Header

structure Texts where
  enums : String
  calls : String
  tokens : String
  deriving DecidableEq, Repr

/-- The texts of the headers for tables, if the tables are consistent. -/
def Texts.ofTables (options : Options) (t : ParserTables) : Texts where
  enums := endLines (enumLines t)
  calls := endLines (callLines options t)
  tokens := endLines (tokenLines t)

def Texts.contents? (options : Options) (texts : Texts) : Option Contents :=
  decode options texts.enums texts.calls texts.tokens

/-- A source that is accepted, with the resolved grammar, the tables and the headers it gives. -/
structure Written (conv : Convention) (options : Options) (source : String) (r : Grammar)
    (t : ParserTables) (texts : Texts) : Prop where
  accepted : ∃ g warnings calls, Grammar.read source = .ok g ∧ g.check = .ok warnings ∧
    g.resolve conv = .ok (r, calls) ∧ ParserTables.build r calls = .ok t
  enums : Header.enums t = .ok texts.enums
  calls : Header.calls options t = .ok texts.calls
  tokens : Header.tokens t = .ok texts.tokens

variable {conv : Convention} {options : Options}

theorem Written.of_read {source : String} {g : Grammar} {warnings : List Warning}
    {calls : List NumberedCall} (hread : Grammar.read source = .ok g)
    (hcheck : g.check = .ok warnings) (hcalls : g.numberedCalls conv = .ok calls) :
    Written conv options source g.numberCalls (g.tablesWith calls)
      (Texts.ofTables options (g.tablesWith calls)) := by
  have closed := Grammar.closed_of_check hcheck
  have hconsistent := Grammar.consistent_tablesWith closed
    (Grammar.wellFormed_of_read hread).undispatched (Grammar.length_numberedCalls hcalls).ge
  have hresolve : g.resolve conv = .ok (g.numberCalls, calls) :=
    Grammar.resolve_eq_ok.mpr ⟨rfl, hcalls⟩
  have hbuild : ParserTables.build g.numberCalls calls = .ok (g.tablesWith calls) := by
    rw [Grammar.build_numberCalls, if_pos (Grammar.map_id_numberedCalls hcalls)]
  exact {
    accepted := ⟨g, warnings, calls, hread, hcheck, hresolve, hbuild⟩
    enums := enums_of_consistent hconsistent
    calls := calls_of_consistent hconsistent options
    tokens := tokens_of_consistent hconsistent }

theorem Written.grammar {source : String} {r : Grammar} {t : ParserTables} {texts : Texts}
    (h : Written conv options source r t texts) :
    ∃ (g : Grammar) (calls : List NumberedCall), g.WellFormed ∧ g.Closed ∧
      g.numberedCalls conv = .ok calls ∧ r = g.numberCalls ∧ t = g.tablesWith calls ∧
      texts = Texts.ofTables options t := by
  obtain ⟨g, warnings, calls, hread, hcheck, hresolve, hbuild⟩ := h.accepted
  obtain ⟨rfl, hcalls⟩ := Grammar.resolve_eq_ok.mp hresolve
  rw [Grammar.build_numberCalls, if_pos (Grammar.map_id_numberedCalls hcalls)] at hbuild
  have htables : t = g.tablesWith calls := (Except.ok.inj hbuild).symm
  subst htables
  have hwritten : Written conv options source g.numberCalls (g.tablesWith calls) _ :=
    .of_read hread hcheck hcalls
  refine ⟨g, calls, Grammar.wellFormed_of_read hread, Grammar.closed_of_check hcheck, hcalls, rfl,
    rfl, ?_⟩
  have henums : texts.enums = _ := Except.ok.inj (h.enums.symm.trans hwritten.enums)
  have hdispatch : texts.calls = _ := Except.ok.inj (h.calls.symm.trans hwritten.calls)
  have htokens : texts.tokens = _ := Except.ok.inj (h.tokens.symm.trans hwritten.tokens)
  cases texts
  rw [Texts.mk.injEq]
  exact ⟨henums, hdispatch, htokens⟩

theorem Written.contents (hconv : conv.OneLine) (hnamePrefix : OneLine options.namePrefix)
    (htestMacro : OneLine options.testMacro) {source : String} {r : Grammar} {t : ParserTables}
    {texts : Texts} (h : Written conv options source r t texts) :
    texts.contents? options = some (Contents.ofTables t) := by
  obtain ⟨g, calls, wf, closed, hcalls, rfl, rfl, rfl⟩ := h.grammar
  exact decode_endLines (Grammar.legible_tablesWith wf closed hconv hcalls) hnamePrefix htestMacro

theorem Written.eq_of_contents {source source' : String} {r r' : Grammar} {t t' : ParserTables}
    {texts texts' : Texts} (h : Written conv options source r t texts)
    (h' : Written conv options source' r' t' texts')
    (same : Contents.ofTables t = Contents.ofTables t') :
    t.states = t'.states ∧ t.stateIds = t'.stateIds ∧ t.tables = t'.tables ∧
      r.tokens = r'.tokens ∧
      List.Forall₂ (fun call call' => call' = { call with line := call'.line })
        t.calls t'.calls := by
  obtain ⟨g, calls, wf, closed, hcalls, rfl, rfl, -⟩ := h.grammar
  obtain ⟨g', calls', wf', closed', hcalls', rfl, rfl, -⟩ := h'.grammar
  have tells := Grammar.tells_ofTables wf closed calls
  have tells' := Grammar.tells_ofTables wf' closed' calls'
  have hentries : g.rowEntries = g'.rowEntries := by
    rw [← Grammar.tables_ofTables wf calls, ← Grammar.tables_ofTables wf' calls', same]
  refine ⟨?_, ?_, ?_, ?_, ?_⟩
  · rw [← tells.states, ← tells'.states, same]
  · apply OrderedMap.ext
    rw [← tells.numbers, ← tells'.numbers, same]
  · rw [← tells.rows, ← tells'.rows, same]
  · rw [← tells.tokens, ← tells'.tokens, same]
  · exact Grammar.forall₂_calls wf' closed' hcalls hcalls' hentries (congrArg Contents.calls same)

/-- The headers are lossless. Under a convention and options without line feeds, the headers of
every accepted source are decoded into all that is in its tables; so sources with the same headers
have the same states, rows and calls, but for the lines that the calls were written on. -/
theorem contents_of_headers (hconv : conv.OneLine) (hnamePrefix : OneLine options.namePrefix)
    (htestMacro : OneLine options.testMacro) :
    (∀ source g warnings, Grammar.read source = .ok g → g.check = .ok warnings →
      ∃ r t texts contents, Written conv options source r t texts ∧
        texts.contents? options = some contents ∧ contents.Tells r t) ∧
    ∀ source source' r r' t t' texts, Written conv options source r t texts →
      Written conv options source' r' t' texts →
      t.states = t'.states ∧ t.stateIds = t'.stateIds ∧ t.tables = t'.tables ∧
        r.tokens = r'.tokens ∧
        List.Forall₂ (fun call call' => call' = { call with line := call'.line })
          t.calls t'.calls := by
  refine ⟨?_, ?_⟩
  · intro source g warnings hread hcheck
    have wf := Grammar.wellFormed_of_read hread
    have closed := Grammar.closed_of_check hcheck
    obtain ⟨calls, hcalls⟩ := wf.exists_numberedCalls conv
    have hwritten : Written conv options source _ _ _ := .of_read hread hcheck hcalls
    exact ⟨_, _, _, _, hwritten, hwritten.contents hconv hnamePrefix htestMacro,
      Grammar.tells_ofTables wf closed calls⟩
  · intro source source' r r' t t' texts h h'
    have hdecoded := h.contents hconv hnamePrefix htestMacro
    rw [h'.contents hconv hnamePrefix htestMacro] at hdecoded
    exact h.eq_of_contents h' (Option.some.inj hdecoded).symm

/-- The only call of the turnstile, where it is written on a given line. -/
def passCall (line : Int) : NumberedCall where
  id := 0
  invocation := "pass(&current_match, result, \"a\", get_string(\"n\"))"
  format := "pass(%s, %s)"
  arguments := "\"a\", get_string(\"n\")"
  returnState := "INITIAL"
  state := "OPEN"
  token := "word"
  line

def retoldSource : String :=
  "state INITIAL:\n 'coin' -> OPEN\n t -> OPEN\n" ++
    "state OPEN:\n n = word -> call pass(\"a\", $n)\n end ->"

def retold : Grammar where
  states := ⟨[
    ("INITIAL", [
      ⟨"'coin'", none, .transition "OPEN", 2⟩,
      ⟨"t", none, .transition "OPEN", 3⟩]),
    ("OPEN", [
      ⟨"word", some "n", .call ⟨"pass(\"a\", $n)", none⟩, 5⟩,
      ⟨"end", none, .stay, 6⟩])], by decide⟩
  stateLines := ⟨[("INITIAL", 1), ("OPEN", 4)], by decide⟩

theorem written_turnstile : Written {} {} turnstileSource turnstile.numberCalls
    (turnstile.tablesWith [passCall 4]) (Texts.ofTables {} (turnstile.tablesWith [passCall 4])) :=
  .of_read read_turnstileSource check_turnstile (by decide +kernel)

theorem written_retold : Written {} {} retoldSource retold.numberCalls
    (retold.tablesWith [passCall 5]) (Texts.ofTables {} (turnstile.tablesWith [passCall 4])) :=
  .of_read (by decide +kernel) (by decide : retold.check = .ok []) (by decide +kernel)

/-- The turnstile and its other telling have the same headers; their calls differ in the line. -/
theorem contents_of_turnstile : ({} : Convention).OneLine ∧
    OneLine ({} : Options).namePrefix ∧ OneLine ({} : Options).testMacro ∧
    Written {} {} turnstileSource turnstile.numberCalls (turnstile.tablesWith [passCall 4])
      (Texts.ofTables {} (turnstile.tablesWith [passCall 4])) ∧
    Written {} {} retoldSource retold.numberCalls (retold.tablesWith [passCall 5])
      (Texts.ofTables {} (turnstile.tablesWith [passCall 4])) ∧
    (∃ r t texts contents, Written {} {} turnstileSource r t texts ∧
      texts.contents? {} = some contents ∧ contents.Tells r t) ∧
    (turnstile.tablesWith [passCall 4]).tables = (retold.tablesWith [passCall 5]).tables ∧
    List.Forall₂ (fun call call' => call' = { call with line := call'.line })
      [passCall 4] [passCall 5] := by
  have hconv : ({} : Convention).OneLine := ⟨by decide, by decide⟩
  have hnamePrefix : OneLine ({} : Options).namePrefix := by decide
  have htestMacro : OneLine ({} : Options).testMacro := by decide
  obtain ⟨hdecoded, hequal⟩ := contents_of_headers hconv hnamePrefix htestMacro
  have hsame := hequal _ _ _ _ _ _ _ written_turnstile written_retold
  exact ⟨hconv, hnamePrefix, htestMacro, written_turnstile, written_retold,
    hdecoded _ _ _ read_turnstileSource check_turnstile, hsame.2.2.1, hsame.2.2.2.2⟩

end Header

end CommandGrammar
