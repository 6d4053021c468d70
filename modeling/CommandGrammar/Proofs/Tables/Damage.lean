import CommandGrammar.Proofs.Tables.Acceptance

/-!
Damage to a call table.

Two examinations guard the call table, and it takes both. Entries that are missing in the middle,
repeated or out of order leave their numbers with a gap or a repetition, and no tables are built.
If only the last entries are missing the numbers are in order, but then some row leads to a call
beyond the end of the table, and no header is written.
-/

set_option autoImplicit false
set_option relaxedAutoImplicit false

namespace CommandGrammar

namespace Grammar

variable {g : Grammar} {conv : Convention} {calls damaged : List NumberedCall}

theorem getElem?_of_mem_numberedCalls (h : g.numberedCalls conv = .ok calls) {call : NumberedCall}
    {n : Nat} (hmem : call ∈ calls) (hid : call.id = n) : calls[n]? = some call := by
  obtain ⟨place, hplace⟩ := List.mem_iff_getElem?.mp hmem
  have hids := congrArg (fun ids => ids[place]?) (map_id_numberedCalls h)
  obtain ⟨hlt, -⟩ := List.getElem?_eq_some_iff.mp hplace
  simp only [List.getElem?_map, hplace, List.getElem?_range hlt, Option.map_some,
    Option.some.injEq] at hids
  have hn : n = place := by
    have : (n : Int) = place := hid.symm.trans hids
    omega
  rw [hn]
  exact hplace

/-- Entries of a table whose numbers are in order are the first ones of the table. -/
theorem prefix_of_contiguous (h : g.numberedCalls conv = .ok calls)
    (kept : ∀ call ∈ damaged, call ∈ calls)
    (ids : damaged.map NumberedCall.id = (List.range damaged.length).map Int.ofNat) :
    damaged <+: calls := by
  rw [List.prefix_iff_getElem?]
  intro n hn
  have hid := congrArg (fun ids => ids[n]?) ids
  simp only [List.getElem?_map, List.getElem?_eq_getElem hn, List.getElem?_range hn,
    Option.map_some, Option.some.injEq] at hid
  exact getElem?_of_mem_numberedCalls h (kept _ (List.getElem_mem hn)) hid

theorem not_consistent_of_missing (h : calls.length < g.callSites.length) :
    ¬(g.tablesWith calls).Consistent := by
  intro hconsistent
  -- the first number without an entry belongs to a rule, and its row leads beyond the table
  obtain ⟨k, i, state, rules, rule, clause, hk, hi, haction, hn⟩ :=
    exists_place_of_lt_length_callSites h
  have hrow : TableRow.ofNumbered state (g.callsBefore k i) rule ∈
      rules.mapIdx fun i rule => TableRow.ofNumbered state (g.callsBefore k i) rule := by
    apply List.mem_of_getElem? (i := i)
    rw [List.getElem?_mapIdx, hi]
    rfl
  have hleads := hconsistent.rows _ (List.mem_of_getElem? (getElem?_rowTables hk)) _ hrow
  unfold ParserTables.RowLeads TableRow.ofNumbered Rule.tableTarget at hleads
  rw [haction, hn] at hleads
  have hlt : ((calls.length : Nat) : Int) < calls.length := (hleads.2 rfl).2
  omega

theorem check_tablesWith_of_missing (h : calls.length < g.callSites.length) :
    ∃ e, (g.tablesWith calls).check = .error e ∧ (Failure.write e).className = "ValueError" := by
  cases hcheck : (g.tablesWith calls).check with
  | ok found =>
    exact absurd ((g.tablesWith calls).check_eq_ok_iff.mp hcheck) (not_consistent_of_missing h)
  | error e =>
    refine ⟨e, rfl, ParserTables.className_of_check_eq_error _ ?_ hcheck⟩
    intro state hstate
    exact ParserTables.exists_get?_numberStates hstate

end Grammar

theorem Header.error_of_check {t : ParserTables} {e : Inconsistency} (h : t.check = .error e)
    (options : Header.Options) : Header.enums t = .error e ∧ Header.calls options t = .error e ∧
      Header.tokens t = .error e ∧ Header.files options t = .error e := by
  have henums : Header.enums t = .error e := by
    rw [Header.enums, h]
    rfl
  refine ⟨henums, ?_, ?_, ?_⟩
  · rw [Header.calls, h]
    rfl
  · rw [Header.tokens, h]
    rfl
  · rw [Header.files, henums]
    rfl

/-- A list of entries taken from the call table of a grammar, with any of them left out, repeated or
moved, is either refused when the tables are built or when any header is to be written, unless it is
the call table itself. -/
theorem damaged_calls_refused {g r : Grammar} {conv : Convention}
    {calls damaged : List NumberedCall} (hresolve : g.resolve conv = .ok (r, calls))
    (kept : ∀ call ∈ damaged, call ∈ calls) (changed : damaged ≠ calls) :
    (∃ e, ParserTables.build r damaged = .error e ∧
      (Failure.build e).className = "ValueError") ∨
    ∃ t, ParserTables.build r damaged = .ok t ∧ ∀ options, ∃ e,
      (Failure.write e).className = "ValueError" ∧ Header.enums t = .error e ∧
      Header.calls options t = .error e ∧ Header.tokens t = .error e ∧
      Header.files options t = .error e := by
  obtain ⟨rfl, hcalls⟩ := Grammar.resolve_eq_ok.mp hresolve
  rw [Grammar.build_numberCalls]
  split
  · next ids =>
    right
    refine ⟨g.tablesWith damaged, rfl, ?_⟩
    intro options
    have hinitial := Grammar.prefix_of_contiguous hcalls kept ids
    have hshorter : damaged.length < g.callSites.length := by
      rw [← Grammar.length_numberedCalls hcalls]
      rcases Nat.lt_or_eq_of_le hinitial.length_le with hlt | heq
      · exact hlt
      · exact absurd (hinitial.eq_of_length heq) changed
    obtain ⟨e, hcheck, hclass⟩ := Grammar.check_tablesWith_of_missing hshorter
    exact ⟨e, hclass, Header.error_of_check hcheck options⟩
  · left
    exact ⟨_, rfl, rfl⟩

def twinCalls : Grammar where
  states := ⟨[("A", [
    ⟨"'on'", none, .call ⟨"beep()", some "A"⟩, 2⟩,
    ⟨"'off'", none, .call ⟨"beep()", some "A"⟩, 3⟩])], by decide⟩
  stateLines := ⟨[("A", 1)], by decide⟩

def beepCall (id : Int) (token : String) (line : Int) : NumberedCall :=
  ⟨id, "beep(&current_match, result)", "beep()", "", "A", "A", token, line⟩

theorem resolve_twinCalls : twinCalls.resolve {} =
    .ok (twinCalls.numberCalls, [beepCall 0 "'on'" 2, beepCall 1 "'off'" 3]) := by
  decide +kernel

/-- The second call does the same as the first, and still cannot be left out. -/
theorem twinCalls_refused :
    twinCalls.resolve {} =
      .ok (twinCalls.numberCalls, [beepCall 0 "'on'" 2, beepCall 1 "'off'" 3]) ∧
    beepCall 0 "'on'" 2 ∈ [beepCall 0 "'on'" 2, beepCall 1 "'off'" 3] ∧
    [beepCall 0 "'on'" 2] ≠ [beepCall 0 "'on'" 2, beepCall 1 "'off'" 3] ∧
    ((∃ e, ParserTables.build twinCalls.numberCalls [beepCall 0 "'on'" 2] = .error e ∧
      (Failure.build e).className = "ValueError") ∨
    ∃ t, ParserTables.build twinCalls.numberCalls [beepCall 0 "'on'" 2] = .ok t ∧
      ∀ options, ∃ e, (Failure.write e).className = "ValueError" ∧ Header.enums t = .error e ∧
        Header.calls options t = .error e ∧ Header.tokens t = .error e ∧
        Header.files options t = .error e) :=
  ⟨resolve_twinCalls, by simp, by simp,
    damaged_calls_refused resolve_twinCalls (by simp) (by simp)⟩

end CommandGrammar
