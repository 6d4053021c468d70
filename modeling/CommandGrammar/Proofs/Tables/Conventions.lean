import CommandGrammar.Proofs.Tables.Damage

/-!
Two conventions for the same grammar.

A convention enters the compilation at one point, where the text of a call is put together. So the
compilations of a grammar under two conventions differ in the texts of the calls alone, and of the
headers only the one with the dispatch function can tell them apart.
-/

set_option autoImplicit false
set_option relaxedAutoImplicit false

namespace CommandGrammar

/-- The second entry differs from the first at most in the text of the call and in the arguments of
its message. -/
def NumberedCall.Alike (a b : NumberedCall) : Prop :=
  b = { a with invocation := b.invocation, arguments := b.arguments }

theorem NumberedCall.alike_of_ofSite {conv conv' : Convention} {site : CallSite} {id : Nat}
    {a b : NumberedCall} (ha : ofSite conv site id = .ok a) (hb : ofSite conv' site id = .ok b) :
    a.Alike b := by
  obtain ⟨_, -, rfl⟩ := ofSite_eq_ok.mp ha
  obtain ⟨_, -, rfl⟩ := ofSite_eq_ok.mp hb
  rfl

theorem Grammar.alike_numberedCalls {g : Grammar} {conv conv' : Convention}
    {calls calls' : List NumberedCall} (h : g.numberedCalls conv = .ok calls)
    (h' : g.numberedCalls conv' = .ok calls') :
    List.Forall₂ NumberedCall.Alike calls calls' := by
  apply Outcome.forall₂_of_mapM _ h h'
  rintro ⟨site, id⟩ a b ha hb
  exact NumberedCall.alike_of_ofSite ha hb

namespace Header

structure Refused (options : Options) (t : ParserTables) (e : Inconsistency) : Prop where
  enums : enums t = .error e
  calls : calls options t = .error e
  tokens : tokens t = .error e
  files : files options t = .error e

structure WrittenAs (options : Options) (t : ParserTables) (enumText callText tokenText : String) :
    Prop where
  enums : enums t = .ok enumText
  calls : calls options t = .ok callText
  tokens : tokens t = .ok tokenText
  files : files options t = .ok [
    ⟨options.namePrefix ++ "enums.h", enumText⟩,
    ⟨options.namePrefix ++ "call.h", callText⟩,
    ⟨options.namePrefix ++ "tokens.h", tokenText⟩]

variable {t : ParserTables}

theorem refused_of_check {e : Inconsistency} (h : t.check = .error e) (options : Options) :
    Refused options t e :=
  have hall := error_of_check h options
  ⟨hall.1, hall.2.1, hall.2.2.1, hall.2.2.2⟩

theorem writtenAs_of_check (h : t.check = .ok ()) (options : Options) :
    WrittenAs options t (Text.endLines (enumLines t)) (Text.endLines (callLines options t))
      (Text.endLines (tokenLines t)) :=
  have consistent := t.check_eq_ok_iff.mp h
  ⟨enums_of_consistent consistent, calls_of_consistent consistent options,
    tokens_of_consistent consistent, files_of_consistent consistent options⟩

theorem same_but_calls {calls : List NumberedCall} (h : calls.length = t.calls.length)
    (options options' : Options) :
    (∃ e, Refused options t e ∧ Refused options' { t with calls := calls } e) ∨
    ∃ enumText callText callText' tokenText, WrittenAs options t enumText callText tokenText ∧
      WrittenAs options' { t with calls := calls } enumText callText' tokenText := by
  have hcheck := t.check_withCalls h
  cases hresult : t.check with
  | error e =>
    rw [hresult] at hcheck
    exact .inl ⟨e, refused_of_check hresult options, refused_of_check hcheck options'⟩
  | ok found =>
    rw [hresult] at hcheck
    have hwritten := writtenAs_of_check hresult options
    have hwritten' := writtenAs_of_check hcheck options'
    exact .inr ⟨_, _, _, _, hwritten, hwritten'⟩

end Header

/-- Under two conventions and two choices of names a grammar that was read from a text has the same
numbering and entries that differ in the texts of the calls alone. The headers are either all
refused both times, for the same reason, or all written both times, and then those for the states
and for the tokens are the same. -/
theorem conventions_shape_calls_only {source : String} {g : Grammar}
    (hread : Grammar.read source = .ok g) (conv conv' : Convention)
    (options options' : Header.Options) :
    ∃ r calls calls' t t', g.resolve conv = .ok (r, calls) ∧ g.resolve conv' = .ok (r, calls') ∧
      List.Forall₂ NumberedCall.Alike calls calls' ∧
      ParserTables.build r calls = .ok t ∧ ParserTables.build r calls' = .ok t' ∧
      ((∃ e, Header.Refused options t e ∧ Header.Refused options' t' e) ∨
        ∃ enumText callText callText' tokenText,
          Header.WrittenAs options t enumText callText tokenText ∧
          Header.WrittenAs options' t' enumText callText' tokenText) := by
  have wf := Grammar.wellFormed_of_read hread
  obtain ⟨calls, hcalls⟩ := wf.exists_numberedCalls conv
  obtain ⟨calls', hcalls'⟩ := wf.exists_numberedCalls conv'
  have halike := Grammar.alike_numberedCalls hcalls hcalls'
  refine ⟨g.numberCalls, calls, calls', g.tablesWith calls, g.tablesWith calls', ?_⟩
  refine ⟨Grammar.resolve_eq_ok.mpr ⟨rfl, hcalls⟩, Grammar.resolve_eq_ok.mpr ⟨rfl, hcalls'⟩,
    halike, ?_, ?_, ?_⟩
  · rw [Grammar.build_numberCalls, if_pos (Grammar.map_id_numberedCalls hcalls)]
  · rw [Grammar.build_numberCalls, if_pos (Grammar.map_id_numberedCalls hcalls')]
  · exact Header.same_but_calls halike.length_eq.symm options options'

/-- The turnstile under the standard convention, and under one without a context whose accessor
holds brackets, a line feed and a dollar sign. -/
theorem conventions_of_turnstile : Grammar.read turnstileSource = .ok turnstile ∧
    ∃ r calls calls' t t', turnstile.resolve {} = .ok (r, calls) ∧
      turnstile.resolve ⟨[], ")(\n$x"⟩ = .ok (r, calls') ∧
      List.Forall₂ NumberedCall.Alike calls calls' ∧
      ParserTables.build r calls = .ok t ∧ ParserTables.build r calls' = .ok t' ∧
      ((∃ e, Header.Refused {} t e ∧ Header.Refused ⟨"", "DEBUG"⟩ t' e) ∨
        ∃ enumText callText callText' tokenText,
          Header.WrittenAs {} t enumText callText tokenText ∧
          Header.WrittenAs ⟨"", "DEBUG"⟩ t' enumText callText' tokenText) :=
  ⟨read_turnstileSource,
    conventions_shape_calls_only read_turnstileSource {} ⟨[], ")(\n$x"⟩ {} ⟨"", "DEBUG"⟩⟩

end CommandGrammar
