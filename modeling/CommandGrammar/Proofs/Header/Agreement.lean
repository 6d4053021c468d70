import CommandGrammar.Proofs.Header.RoundTrip
import CommandGrammar.Proofs.Tables.Acceptance
import CommandGrammar.Proofs.Text.Trimming

set_option autoImplicit false
set_option relaxedAutoImplicit false

namespace CommandGrammar

open Text

/-- The rows and the calls of the tables name states of the tables only, and every call that a row
names is there once. -/
structure ParserTables.Linked (t : ParserTables) : Prop where
  rows : ∀ table ∈ t.tables, ∀ row ∈ table.2, row.nextState ∈ t.states
  returns : ∀ call ∈ t.calls, call.returnState ∈ t.states ∧ call.returnState ≠ callState
  labels : (t.calls.map NumberedCall.id).Nodup
  dispatched : ∀ table ∈ t.tables, ∀ row ∈ table.2, row.nextState = callState →
    row.callId ∈ t.calls.map NumberedCall.id

namespace Header

def Enumerates (lines : List String) (name : String) : Prop :=
  ∃ id : Int, "    " ++ name ++ " = " ++ decimal id ++ "," ∈ lines

/-- The header of the tokens has a row with a next state and the number of a call. -/
def LeadsTo (lines : List String) (next : String) (callId : Int) : Prop :=
  ∃ pattern identifier, rowLine ⟨pattern, identifier, next, callId⟩ ∈ lines

/-- Every state that is named is enumerated, no case sets the state that stands for a call, and
every call that a row names has exactly one case. -/
structure Agree (enums tokens : List String) (cases : List CallEntry) : Prop where
  rows : ∀ next callId, LeadsTo tokens next callId → Enumerates enums next
  returns : ∀ entry ∈ cases, Enumerates enums entry.returnState ∧ entry.returnState ≠ callState
  labels : (cases.map CallEntry.id).Nodup
  dispatched : ∀ callId, LeadsTo tokens callState callId →
    (cases.map CallEntry.id).count callId = 1

/-- The dispatch function can be read as a list of cases, and the headers agree. -/
def HeadersAgree (options : Options) (enums dispatch tokens : List String) : Prop :=
  ∃ cases, calls? options (dispatch.map String.toList) = some cases ∧ Agree enums tokens cases

theorem not_mem_decimal {c : Char} (digit : c.isDigit = false) (sign : c ≠ '-') (n : Int) :
    c ∉ (decimal n).toList := by
  cases n with
  | ofNat m =>
    rw [Int.ofNat_eq_natCast, toList_decimal_ofNat]
    exact not_mem_toDigits digit m
  | negSucc m =>
    have hdigits : c ∉ Nat.toDigits 10 (m + 1) := not_mem_toDigits digit _
    rw [toList_decimal_negSucc]
    simp [hdigits, sign]

/-- A number after a character that is not part of it can be told apart from what stands before. -/
theorem eq_of_append_decimal {c : Char} (digit : c.isDigit = false) (sign : c ≠ '-')
    {front front' : List Char} {n n' : Int}
    (h : front ++ c :: (decimal n).toList = front' ++ c :: (decimal n').toList) :
    front = front' ∧ n = n' := by
  have hcut := cutLast_append front (not_mem_decimal digit sign n)
  rw [h, cutLast_append front' (not_mem_decimal digit sign n')] at hcut
  obtain ⟨hfront, hnumber⟩ := Prod.mk.inj (Option.some.inj hcut)
  have hread := number?_decimal n
  rw [← hnumber, number?_decimal] at hread
  exact ⟨hfront.symm, (Option.some.inj hread).symm⟩

variable {t : ParserTables}

theorem toList_enumerator (name : String) (id : Int) :
    ("    " ++ name ++ " = " ++ decimal id ++ ",").toList =
      "    ".toList ++ (((name.toList ++ [' ', '=']) ++ ' ' :: (decimal id).toList) ++ [',']) := by
  simp

theorem enumerator_inj {name name' : String} {id id' : Int}
    (h : "    " ++ name ++ " = " ++ decimal id ++ "," =
      "    " ++ name' ++ " = " ++ decimal id' ++ ",") : name = name' ∧ id = id' := by
  have hlist := congrArg String.toList h
  rw [toList_enumerator, toList_enumerator] at hlist
  have hparts := List.append_cancel_right (List.append_cancel_left hlist)
  obtain ⟨hname, hid⟩ := eq_of_append_decimal (by decide) (by decide) hparts
  exact ⟨String.toList_inj.mp (List.append_cancel_right hname), hid⟩

theorem enumerates_enumLines (h : t.Consistent) (name : String) :
    Enumerates (enumLines t) name ↔ name ∈ t.states := by
  have hline : ∀ state ∈ t.states, ∃ id : Int,
      enumeratorLine t state = "    " ++ state ++ " = " ++ decimal id ++ "," := by
    intro state hstate
    obtain ⟨n, hn⟩ := List.mem_iff_getElem?.mp hstate
    refine ⟨n, ?_⟩
    rw [enumeratorLine, ParserTables.stateIdText, h.numbers n state hn]
  constructor
  · rintro ⟨id, hmem⟩
    have hlist := toList_enumerator name id
    simp only [enumLines, List.mem_append, List.mem_singleton, List.mem_map] at hmem
    rcases hmem with (he | ⟨state, hstate, he⟩) | he
    · have hhead := congrArg (fun line => line.toList.head?) he
      rw [hlist] at hhead
      cases hhead
    · obtain ⟨id', hid⟩ := hline state hstate
      rw [hid] at he
      exact (enumerator_inj he).1 ▸ hstate
    · have hhead := congrArg (fun line => line.toList.head?) he
      rw [hlist] at hhead
      cases hhead
  · intro hstate
    obtain ⟨id, hid⟩ := hline name hstate
    refine ⟨id, ?_⟩
    rw [← hid]
    simp only [enumLines, List.mem_append, List.mem_map]
    exact .inl (.inr ⟨name, hstate, rfl⟩)

theorem literal_inj {text text' rest rest' : List Char}
    (h : text.flatMap escapeChar ++ '"' :: rest = text'.flatMap escapeChar ++ '"' :: rest') :
    text = text' ∧ rest = rest' := by
  have hread := literal?_closed text rest
  rw [h, literal?_closed] at hread
  obtain ⟨htext, hrest⟩ := Prod.mk.inj (Option.some.inj hread)
  exact ⟨htext.symm, hrest.symm⟩

theorem rowLine_injective {row row' : TableRow} (h : rowLine row = rowLine row') : row = row' := by
  have hlist := congrArg String.toList h
  rw [toList_rowLine, toList_rowLine] at hlist
  obtain ⟨hpattern, hlist⟩ := literal_inj (List.append_cancel_left hlist)
  obtain ⟨hidentifier, hlist⟩ := literal_inj (List.append_cancel_left hlist)
  have htail : ∀ next number : List Char,
      next ++ (", \x7b ".toList ++ (number ++ " \x7d \x7d,".toList)) =
        ((next ++ ", \x7b".toList) ++ ' ' :: number) ++ " \x7d \x7d,".toList := by
    simp
  have hrest := List.append_cancel_left hlist
  rw [htail, htail] at hrest
  obtain ⟨hnext, hcall⟩ :=
    eq_of_append_decimal (by decide) (by decide) (List.append_cancel_right hrest)
  have hstate := List.append_cancel_right hnext
  obtain ⟨pattern, identifier, next, callId⟩ := row
  obtain ⟨pattern', identifier', next', callId'⟩ := row'
  rw [TableRow.mk.injEq]
  exact ⟨String.toList_inj.mp hpattern, String.toList_inj.mp hidentifier,
    String.toList_inj.mp hstate, hcall⟩

theorem rowLine_mem_tokenLines (row : TableRow) :
    rowLine row ∈ tokenLines t ↔ ∃ table ∈ t.tables, row ∈ table.2 := by
  constructor
  · intro hmem
    -- a row differs from every other line at its first or at its seventh character
    have hfirst : (rowLine row).toList.head? = some ' ' := by
      rw [toList_rowLine]
      rfl
    have hseventh : (rowLine row).toList[6]? = some '"' := by
      rw [toList_rowLine]
      rfl
    have hother : ∀ line c, rowLine row = line → line.toList.head? = some c → c = ' ' := by
      rintro line c rfl hc
      exact Option.some.inj (hc.symm.trans hfirst)
    have harray : ∀ state rows, (arrayOpening state rows).toList.head? = some 'c' := by
      intro state rows
      rw [toList_arrayOpening]
      rfl
    have hindex : (indexOpening t).toList.head? = some 'c' := by
      rw [toList_indexOpening]
      rfl
    simp only [tokenLines, List.mem_append, List.mem_flatMap, List.mem_map,
      List.mem_singleton] at hmem
    rcases hmem with ((⟨table, htable, hline⟩ | he) | ⟨table, htable, he⟩) | he
    · simp only [arrayLines, List.mem_append, List.mem_map, List.mem_singleton] at hline
      rcases hline with (he | ⟨found, hfound, he⟩) | he
      · exact absurd (hother _ 'c' he (harray _ _)) (by decide)
      · exact ⟨table, htable, rowLine_injective he ▸ hfound⟩
      · exact absurd (hother _ '\x7d' he rfl) (by decide)
    · exact absurd (hother _ 'c' he hindex) (by decide)
    · rw [← he, toList_indexLine] at hseventh
      cases hseventh
    · exact absurd (hother _ '\x7d' he rfl) (by decide)
  · rintro ⟨table, htable, hmem⟩
    simp only [tokenLines, arrayLines, List.mem_append, List.mem_flatMap, List.mem_map]
    exact .inl (.inl (.inl ⟨table, htable, .inl (.inr ⟨row, hmem, rfl⟩)⟩))

theorem leadsTo_tokenLines {next : String} {callId : Int} :
    LeadsTo (tokenLines t) next callId ↔
      ∃ table ∈ t.tables, ∃ row ∈ table.2, row.nextState = next ∧ row.callId = callId := by
  constructor
  · rintro ⟨pattern, identifier, hmem⟩
    obtain ⟨table, htable, hrow⟩ := (rowLine_mem_tokenLines _).mp hmem
    exact ⟨table, htable, _, hrow, rfl, rfl⟩
  · rintro ⟨table, htable, row, hrow, rfl, rfl⟩
    exact ⟨row.pattern, row.identifier, (rowLine_mem_tokenLines row).mpr ⟨table, htable, hrow⟩⟩

theorem headersAgree_iff_linked (h : t.Consistent) (options : Options) :
    HeadersAgree options (enumLines t) (callLines options t) (tokenLines t) ↔ t.Linked := by
  have hids : (t.calls.map CallEntry.ofCall).map CallEntry.id = t.calls.map NumberedCall.id := by
    rw [List.map_map]
    rfl
  unfold HeadersAgree
  rw [calls?_callLines]
  constructor
  · rintro ⟨_, ⟨⟩, hrows, hreturns, hlabels, hdispatched⟩
    rw [hids] at hlabels hdispatched
    refine ⟨?_, ?_, hlabels, ?_⟩
    · intro table htable row hrow
      have hleads := leadsTo_tokenLines.mpr ⟨table, htable, row, hrow, rfl, rfl⟩
      exact (enumerates_enumLines h _).mp (hrows _ _ hleads)
    · intro call hcall
      have hentry := hreturns _ (List.mem_map_of_mem hcall)
      exact ⟨(enumerates_enumLines h _).mp hentry.1, hentry.2⟩
    · intro table htable row hrow hnext
      have hleads := leadsTo_tokenLines.mpr ⟨table, htable, row, hrow, hnext, rfl⟩
      have hcount := hdispatched _ hleads
      exact List.count_pos_iff.mp (by omega)
  · rintro ⟨hrows, hreturns, hlabels, hdispatched⟩
    refine ⟨_, rfl, ?_, ?_, by rwa [hids], ?_⟩
    · intro next callId hleads
      obtain ⟨table, htable, row, hrow, rfl, -⟩ := leadsTo_tokenLines.mp hleads
      exact (enumerates_enumLines h _).mpr (hrows table htable row hrow)
    · intro entry hentry
      obtain ⟨call, hcall, rfl⟩ := List.mem_map.mp hentry
      have hreturn := hreturns call hcall
      exact ⟨(enumerates_enumLines h _).mpr hreturn.1, hreturn.2⟩
    · intro callId hleads
      obtain ⟨table, htable, row, hrow, hnext, rfl⟩ := leadsTo_tokenLines.mp hleads
      rw [hids]
      exact List.count_eq_one_of_mem hlabels (hdispatched table htable row hrow hnext)

theorem consistent_of_files {options : Options} {headers : List File}
    (h : files options t = .ok headers) : t.Consistent := by
  obtain ⟨enums, henums, -⟩ := Outcome.bind_eq_ok.mp h
  obtain ⟨⟨⟩, hcheck, -⟩ := Outcome.bind_eq_ok.mp henums
  exact t.check_eq_ok_iff.mp hcheck

/-- If headers are written at all, they agree exactly if the tables are linked. -/
theorem written_headers_agree_iff {options : Options} {headers : List File}
    (h : files options t = .ok headers) :
    headers = [
      ⟨options.namePrefix ++ "enums.h", endLines (enumLines t)⟩,
      ⟨options.namePrefix ++ "call.h", endLines (callLines options t)⟩,
      ⟨options.namePrefix ++ "tokens.h", endLines (tokenLines t)⟩] ∧
    (HeadersAgree options (enumLines t) (callLines options t) (tokenLines t) ↔ t.Linked) := by
  have hconsistent := consistent_of_files h
  refine ⟨?_, headersAgree_iff_linked hconsistent options⟩
  rw [files_of_consistent hconsistent options] at h
  exact (Except.ok.inj h).symm

/-- Tables with a row that leads to a state which has a number but is not in the list. -/
def straying : ParserTables where
  states := ["A", callState]
  stateIds := ⟨[("A", 0), (callState, 1), ("GHOST", 5)], by decide⟩
  tables := [("A", [⟨"'x", "", "GHOST", 0⟩])]
  calls := []

/-- Headers are written from the tables with the stray row, and they do not agree. -/
theorem straying_headers_disagree : (∃ headers, files {} straying = .ok headers) ∧
    LeadsTo (tokenLines straying) "GHOST" 0 ∧ ¬Enumerates (enumLines straying) "GHOST" ∧
    ¬HeadersAgree {} (enumLines straying) (callLines {} straying) (tokenLines straying) := by
  have hconsistent : straying.Consistent := straying.check_eq_ok_iff.mp (by decide)
  have habsent : "GHOST" ∉ straying.states := by decide
  refine ⟨⟨_, files_of_consistent hconsistent {}⟩, ?_, ?_, ?_⟩
  · exact leadsTo_tokenLines.mpr ⟨_, List.mem_cons_self, _, List.mem_cons_self, rfl, rfl⟩
  · rwa [enumerates_enumLines hconsistent]
  · rw [headersAgree_iff_linked hconsistent]
    intro h
    exact habsent (h.rows _ List.mem_cons_self _ List.mem_cons_self)

def returning : ParserTables where
  states := ["A", callState]
  stateIds := ⟨[("A", 0), (callState, 1)], by decide⟩
  tables := [("A", [⟨"'x", "", callState, 0⟩])]
  calls := [⟨0, "f(result)", "f()", "", "A", "A", "'x'", 2⟩]

/-- The headers of the tables with one call agree. -/
theorem returning_headers_agree : files {} returning = .ok [
      ⟨"GENERATED_enums.h", endLines (enumLines returning)⟩,
      ⟨"GENERATED_call.h", endLines (callLines {} returning)⟩,
      ⟨"GENERATED_tokens.h", endLines (tokenLines returning)⟩] ∧
    HeadersAgree {} (enumLines returning) (callLines {} returning) (tokenLines returning) := by
  have hconsistent : returning.Consistent := returning.check_eq_ok_iff.mp (by decide)
  have hfiles := files_of_consistent hconsistent {}
  have hlinked : returning.Linked := ⟨by decide, by decide, by decide, by decide⟩
  exact ⟨hfiles, (written_headers_agree_iff hfiles).2.mpr hlinked⟩

end Header

end CommandGrammar
