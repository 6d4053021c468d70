import CommandGrammar.Proofs.Grammar.Reading
import CommandGrammar.Proofs.Tables.Acceptance
import Mathlib.Data.List.Induction

set_option autoImplicit false
set_option relaxedAutoImplicit false

namespace CommandGrammar

open Text

/-- The tokens of a definition: the texts between commas, once all blanks are gone. -/
def DefinitionParts.tokenTexts (parts : DefinitionParts) : List String :=
  ((parts.tokens.filter fun c => !isBlank c).splitOn ',').map String.ofList

theorem DefinitionParts.tokenTexts_of_form {parts : DefinitionParts} {tokens : List String}
    (h : TokensForm parts.tokens tokens) : parts.tokenTexts = tokens := by
  rw [tokenTexts, splitOn_of_text h]
  simp [List.map_map, Function.comp_def]

theorem eraseDups_concat (names : List String) (name : String) : (names ++ [name]).eraseDups =
    if name ∈ names then names.eraseDups else names.eraseDups ++ [name] := by
  rw [List.eraseDups_append]
  split
  · next hknown =>
    have hdrop : [name].removeAll names = [] := by simpa [List.removeAll] using hknown
    rw [hdrop, List.eraseDups_nil, List.append_nil]
  · next hnew =>
    have hkeep : [name].removeAll names = [name] := by simpa [List.removeAll] using hnew
    rw [hkeep]
    rfl

namespace JoinedLine

def declared? (line : JoinedLine) : Option String :=
  match Statement.of? line.text with
  | some (.declaration state) => some state
  | _ => none

/-- The rules that a line writes: one for each of its tokens from left to right, all with its
identifier, its action and its number. -/
def written (line : JoinedLine) : List Rule :=
  match Statement.of? line.text with
  | some (.definition parts) =>
    match readAction parts.action with
    | .ok action => Grammar.rulesOf parts.name? parts.tokenTexts action line.line
    | .error _ => []
  | _ => []

def tokens (line : JoinedLine) : List String :=
  match Statement.of? line.text with
  | some (.definition parts) => parts.tokenTexts
  | _ => []

def latest? (lines : List JoinedLine) : Option String :=
  (lines.filterMap declared?).getLast?

/-- The lines of a state in order: those before which it was declared last. -/
def linesOf (state : String) (lines : List JoinedLine) : List JoinedLine :=
  (lines.zipIdx.filter fun place => latest? (lines.take place.2) = some state).map Prod.fst

theorem linesOf_concat (state : String) (lines : List JoinedLine) (line : JoinedLine) :
    linesOf state (lines ++ [line]) =
      linesOf state lines ++ if latest? lines = some state then [line] else [] := by
  have hearlier : ∀ place ∈ lines.zipIdx,
      decide (latest? ((lines ++ [line]).take place.2) = some state) =
        decide (latest? (lines.take place.2) = some state) := by
    intro place hplace
    have hlength : place.2 ≤ lines.length := (List.snd_lt_of_mem_zipIdx hplace).le
    rw [List.take_append_of_le_length hlength]
  have hlast : (lines ++ [line]).take (0 + lines.length) = lines := by
    rw [Nat.zero_add, List.take_left]
  rw [linesOf, List.zipIdx_append, List.filter_append, List.map_append, List.filter_congr hearlier,
    List.zipIdx_singleton, List.filter_singleton, hlast]
  by_cases h : latest? lines = some state
  · simp [linesOf, h]
  · simp [linesOf, h]

theorem mem_declared_of_latest? {lines : List JoinedLine} {state : String}
    (h : latest? lines = some state) : state ∈ lines.filterMap declared? :=
  List.mem_of_getLast? h

theorem linesOf_of_not_mem {state : String} {lines : List JoinedLine}
    (h : state ∉ lines.filterMap declared?) : linesOf state lines = [] := by
  rw [linesOf, List.map_eq_nil_iff, List.filter_eq_nil_iff]
  intro place _ hlatest
  have hdeclared := mem_declared_of_latest? (of_decide_eq_true hlatest)
  have hfront := (List.take_prefix place.2 lines).filterMap declared?
  exact h (hfront.subset hdeclared)

theorem find?_declares_concat {state : String} {lines : List JoinedLine}
    (h : state ∈ lines.filterMap declared?) (line : JoinedLine) :
    ((lines ++ [line]).find? fun line => line.declared? = some state) =
      lines.find? fun line => line.declared? = some state := by
  obtain ⟨first, hfirst, hdeclares⟩ := List.mem_filterMap.mp h
  have hsome : (lines.find? fun line => line.declared? = some state).isSome :=
    List.find?_isSome.mpr ⟨first, hfirst, decide_eq_true hdeclares⟩
  rw [List.find?_append, Option.or_of_isSome hsome]

theorem find?_declares_of_not_mem {state : String} {lines : List JoinedLine}
    (h : state ∉ lines.filterMap declared?) :
    (lines.find? fun line => line.declared? = some state) = none := by
  rw [List.find?_eq_none]
  intro line hline hdeclares
  exact h (List.mem_filterMap.mpr ⟨line, hline, of_decide_eq_true hdeclares⟩)

section Says

variable {line : JoinedLine} {state : String} {parts : DefinitionParts}

theorem declared?_of_declaration (h : Statement.of? line.text = some (.declaration state)) :
    line.declared? = some state := by
  rw [declared?, h]

theorem written_of_declaration (h : Statement.of? line.text = some (.declaration state)) :
    line.written = [] := by
  rw [written, h]

theorem tokens_of_declaration (h : Statement.of? line.text = some (.declaration state)) :
    line.tokens = [] := by
  rw [tokens, h]

theorem declared?_of_definition (h : Statement.of? line.text = some (.definition parts)) :
    line.declared? = none := by
  rw [declared?, h]

theorem tokens_of_definition (h : Statement.of? line.text = some (.definition parts)) :
    line.tokens = parts.tokenTexts := by
  rw [tokens, h]

theorem written_of_rules (h : Statement.of? line.text = some (.definition parts))
    {rules : List Rule} (hrules : parts.rules line = .ok rules) : line.written = rules ∧
      ∃ tokens action, TokensForm parts.tokens tokens ∧ ActionForm parts.action action ∧
        rules = Grammar.rulesOf parts.name? tokens action line.line := by
  obtain ⟨tokens, action, htokens, haction, rfl⟩ := Grammar.rules_eq_ok_iff.mp hrules
  have hform := readTokens_eq_ok_iff.mp htokens
  have hline := (definitionParts_parts (Statement.of?_eq_definition h)).2
  refine ⟨?_, tokens, action, hform, (readAction_eq_ok_iff hline).mp haction, rfl⟩
  rw [written, h]
  dsimp only
  rw [haction, parts.tokenTexts_of_form hform]

end Says

end JoinedLine

namespace Grammar

open JoinedLine

/-- The grammar holds the rules that the lines write, by state and in order. -/
structure Groups (lines : List JoinedLine) (g : Grammar) : Prop where
  reads : ∀ line ∈ lines, line.declared?.isSome ∨ ∃ parts tokens action,
    Statement.of? line.text = some (.definition parts) ∧ TokensForm parts.tokens tokens ∧
      ActionForm parts.action action ∧ line.written = rulesOf parts.name? tokens action line.line
  names : g.stateNames = (lines.filterMap declared?).eraseDups
  keys : g.stateLines.keys = g.stateNames
  firstLine : ∀ state ∈ g.stateNames, g.stateLines.get? state =
    (lines.find? fun line => line.declared? = some state).map JoinedLine.line
  rules : ∀ state ∈ g.stateNames,
    g.states.get? state = some ((linesOf state lines).flatMap written)
  count : g.ruleCount = (lines.flatMap JoinedLine.tokens).length

section Count

variable (g : Grammar)

theorem ruleCount_eq_length : g.ruleCount = (g.states.entries.flatMap Prod.snd).length := by
  simp [ruleCount, Grammar.rules, List.length_flatMap]

theorem ruleCount_declare (state : String) (line : Int) :
    (g.declare state line).ruleCount = g.ruleCount := by
  by_cases hknown : state ∈ g.stateNames
  · rw [declare_of_mem hknown]
  · rw [declare_of_not_mem hknown, ruleCount_eq_length, ruleCount_eq_length,
      OrderedMap.entries_insert_of_not_mem hknown]
    simp

theorem length_flatMap_added {state : String} (rules : List Rule)
    {entries : List (String × List Rule)} (nodup : (entries.map Prod.fst).Nodup)
    (member : state ∈ entries.map Prod.fst) :
    (entries.flatMap fun entry => if entry.1 = state then entry.2 ++ rules else entry.2).length =
      (entries.flatMap Prod.snd).length + rules.length := by
  induction entries with
  | nil => cases member
  | cons entry entries ih =>
    rw [List.map_cons, List.nodup_cons] at nodup
    rw [List.flatMap_cons, List.flatMap_cons, List.length_append, List.length_append]
    by_cases h : entry.1 = state
    · have hothers : ∀ other ∈ entries,
          (if other.1 = state then other.2 ++ rules else other.2).length = other.2.length := by
        intro other hother
        rw [if_neg]
        rintro he
        exact nodup.1 (h.trans he.symm ▸ List.mem_map_of_mem hother)
      rw [if_pos h, List.length_append,
        Places.length_flatMap_of_forall₂ _ Prod.snd (List.forall₂_same.mpr hothers)]
      omega
    · have hrest : state ∈ entries.map Prod.fst :=
        (List.mem_cons.mp member).resolve_left (Ne.symm h)
      rw [if_neg h, ih nodup.2 hrest]
      omega

theorem ruleCount_addRules {state : String} (member : state ∈ g.stateNames) (rules : List Rule) :
    (g.addRules state rules).ruleCount = g.ruleCount + rules.length := by
  rw [ruleCount_eq_length, ruleCount_eq_length, ← length_flatMap_added rules g.states.nodup member,
    addRules, OrderedMap.modify, List.flatMap_map]

theorem rowCount_tablesWith (calls : List NumberedCall) :
    (g.tablesWith calls).rowCount = g.ruleCount := by
  rw [ruleCount_eq_length]
  symm
  apply Places.length_flatMap_of_forall₂ Prod.snd Prod.snd
  apply Places.forall₂_mapIdx
  intro _ entry
  exact List.length_mapIdx.symm

end Count

section Step

variable {lines : List JoinedLine} {g : Grammar} {line : JoinedLine} {state : String}

theorem Groups.mem_names_iff (h : Groups lines g) :
    state ∈ g.stateNames ↔ state ∈ lines.filterMap declared? := by
  rw [h.names, List.mem_eraseDups]

theorem groups_nil : Groups [] ∅ where
  reads := by simp
  names := rfl
  keys := rfl
  firstLine := by
    intro state hstate
    cases hstate
  rules := by
    intro state hstate
    cases hstate
  count := rfl

theorem Groups.reads_concat (h : Groups lines g)
    (hline : line.declared?.isSome ∨ ∃ parts tokens action,
      Statement.of? line.text = some (.definition parts) ∧ TokensForm parts.tokens tokens ∧
        ActionForm parts.action action ∧
        line.written = rulesOf parts.name? tokens action line.line) :
    ∀ other ∈ lines ++ [line], other.declared?.isSome ∨ ∃ parts tokens action,
      Statement.of? other.text = some (.definition parts) ∧ TokensForm parts.tokens tokens ∧
        ActionForm parts.action action ∧
        other.written = rulesOf parts.name? tokens action other.line := by
  intro other hother
  rcases List.mem_append.mp hother with hother | hother
  · exact h.reads other hother
  · rw [List.mem_singleton.mp hother]
    exact hline

theorem flatMap_linesOf_concat (state : String) (lines : List JoinedLine) (line : JoinedLine) :
    (linesOf state (lines ++ [line])).flatMap written =
      (linesOf state lines).flatMap written ++
        if latest? lines = some state then line.written else [] := by
  rw [linesOf_concat, List.flatMap_append]
  by_cases h : latest? lines = some state
  · simp [h]
  · simp [h]

section Declaration

variable (h : Groups lines g) (hline : Statement.of? line.text = some (.declaration state))

include hline

theorem declared_concat :
    (lines ++ [line]).filterMap declared? = lines.filterMap declared? ++ [state] := by
  rw [List.filterMap_append, List.filterMap_cons_some (declared?_of_declaration hline),
    List.filterMap_nil]

theorem written_concat (other : String) : (linesOf other (lines ++ [line])).flatMap written =
    (linesOf other lines).flatMap written := by
  rw [flatMap_linesOf_concat, written_of_declaration hline, ite_self, List.append_nil]

theorem tokens_concat :
    (lines ++ [line]).flatMap JoinedLine.tokens = lines.flatMap JoinedLine.tokens := by
  rw [List.flatMap_append, List.flatMap_singleton, tokens_of_declaration hline, List.append_nil]

include h

theorem Groups.declare_known (hknown : state ∈ g.stateNames) :
    Groups (lines ++ [line]) (g.declare state line.line) := by
  rw [declare_of_mem hknown]
  refine ⟨?_, ?_, h.keys, ?_, ?_, ?_⟩
  · exact h.reads_concat
      (.inl (Option.isSome_iff_exists.mpr ⟨state, declared?_of_declaration hline⟩))
  · rw [declared_concat hline, eraseDups_concat, if_pos (h.mem_names_iff.mp hknown), h.names]
  · intro other hother
    rw [find?_declares_concat (h.mem_names_iff.mp hother), h.firstLine other hother]
  · intro other hother
    rw [written_concat hline, h.rules other hother]
  · rw [tokens_concat hline, h.count]

theorem Groups.declare_new (hnew : state ∉ g.stateNames) :
    Groups (lines ++ [line]) (g.declare state line.line) := by
  have hdeclared := declared?_of_declaration hline
  have hfresh : state ∉ lines.filterMap declared? := fun hm => hnew (h.mem_names_iff.mpr hm)
  have hgrammar := declare_of_not_mem hnew line.line
  have hstates : (g.declare state line.line).stateNames = g.stateNames ++ [state] := by
    rw [hgrammar]
    exact (OrderedMap.keys_insert g.states state []).trans (if_neg hnew)
  have hcases : ∀ other ∈ (g.declare state line.line).stateNames,
      other = state ∨ (other ≠ state ∧ other ∈ g.stateNames) := by
    intro other hother
    rw [hstates, List.mem_append, List.mem_singleton] at hother
    by_cases he : other = state
    · exact .inl he
    · exact .inr ⟨he, hother.resolve_right he⟩
  refine ⟨?_, ?_, ?_, ?_, ?_, ?_⟩
  · exact h.reads_concat (.inl (Option.isSome_iff_exists.mpr ⟨state, hdeclared⟩))
  · rw [hstates, declared_concat hline, eraseDups_concat, if_neg hfresh, h.names]
  · have hlines : state ∉ g.stateLines.keys := h.keys ▸ hnew
    rw [hstates, hgrammar, OrderedMap.keys_insert, if_neg hlines, h.keys]
  · intro other hother
    rw [hgrammar, OrderedMap.get?_insert]
    obtain rfl | ⟨hne, hold⟩ := hcases other hother
    · rw [if_pos rfl, List.find?_append, find?_declares_of_not_mem hfresh]
      simp [hdeclared]
    · rw [if_neg hne, find?_declares_concat (h.mem_names_iff.mp hold), h.firstLine other hold]
  · intro other hother
    rw [hgrammar, OrderedMap.get?_insert, written_concat hline]
    obtain rfl | ⟨hne, hold⟩ := hcases other hother
    · rw [if_pos rfl, linesOf_of_not_mem hfresh]
      rfl
    · rw [if_neg hne, h.rules other hold]
  · rw [ruleCount_declare, tokens_concat hline, h.count]

theorem Groups.declare : Groups (lines ++ [line]) (g.declare state line.line) := by
  by_cases hknown : state ∈ g.stateNames
  · exact h.declare_known hline hknown
  · exact h.declare_new hline hknown

end Declaration

theorem Groups.addRules (h : Groups lines g) (hcurrent : latest? lines = some state)
    {parts : DefinitionParts} (hline : Statement.of? line.text = some (.definition parts))
    {rules : List Rule} (hrules : parts.rules line = .ok rules) :
    Groups (lines ++ [line]) (g.addRules state rules) := by
  have hnames : (lines ++ [line]).filterMap declared? = lines.filterMap declared? := by
    rw [List.filterMap_append, List.filterMap_cons_none (declared?_of_definition hline),
      List.filterMap_nil, List.append_nil]
  have hmember : state ∈ g.stateNames := h.mem_names_iff.mpr (mem_declared_of_latest? hcurrent)
  have hstates : (g.addRules state rules).stateNames = g.stateNames :=
    OrderedMap.keys_modify g.states state _
  obtain ⟨hwritten, tokens, action, htokens, haction, hform⟩ := written_of_rules hline hrules
  refine ⟨?_, ?_, ?_, ?_, ?_, ?_⟩
  · refine h.reads_concat (.inr ⟨parts, tokens, action, hline, htokens, haction, ?_⟩)
    rw [hwritten, hform]
  · rw [hstates, hnames, h.names]
  · rw [hstates]
    exact h.keys
  · intro other hother
    rw [hstates] at hother
    rw [find?_declares_concat (h.mem_names_iff.mp hother)]
    exact h.firstLine other hother
  · intro other hother
    rw [hstates] at hother
    have hget := OrderedMap.get?_modify g.states state other (· ++ rules)
    rw [h.rules other hother, Option.map_some] at hget
    rw [flatMap_linesOf_concat, hcurrent, hwritten]
    -- the line adds to the rules of the state declared last, and to no others
    by_cases hother' : other = state
    · rw [if_pos hother'] at hget
      rw [if_pos (congrArg some hother'.symm)]
      exact hget
    · rw [if_neg hother'] at hget
      rw [if_neg (fun he => hother' (Option.some.inj he).symm), List.append_nil]
      exact hget
  · have hlength : rules.length = line.tokens.length := by
      rw [tokens_of_definition hline, parts.tokenTexts_of_form htokens, hform, rulesOf,
        List.length_map]
    rw [ruleCount_addRules g hmember, h.count, List.flatMap_append, List.flatMap_singleton,
      List.length_append, hlength]

theorem groups_of_foldlM {p : Progress} (h : lines.foldlM Progress.step .initial = .ok p) :
    Groups lines p.grammar ∧ p.current = latest? lines := by
  induction lines using List.reverseRecOn generalizing p with
  | nil =>
    cases h
    exact ⟨groups_nil, rfl⟩
  | append_singleton lines line ih =>
    rw [List.foldlM_append] at h
    obtain ⟨before, hbefore, hlast⟩ := Outcome.bind_eq_ok.mp h
    obtain ⟨hgroups, hcurrent⟩ := ih hbefore
    rw [List.foldlM_cons] at hlast
    obtain ⟨_, hstep, hnil⟩ := Outcome.bind_eq_ok.mp hlast
    cases hnil
    obtain ⟨state, hline, rfl⟩ | ⟨parts, state, rules, hline, hstate, hrules, rfl⟩ :=
      step_eq_ok_cases hstep
    · refine ⟨hgroups.declare hline, ?_⟩
      rw [latest?, List.filterMap_append,
        List.filterMap_cons_some (declared?_of_declaration hline), List.filterMap_nil,
        List.getLast?_concat]
    · refine ⟨hgroups.addRules (hcurrent.symm.trans hstate) hline hrules, ?_⟩
      rw [latest?, List.filterMap_append,
        List.filterMap_cons_none (declared?_of_definition hline), List.filterMap_nil,
        List.append_nil]
      exact hcurrent

end Step

theorem groups_of_ofLines {lines : List JoinedLine} {g : Grammar} (h : ofLines lines = .ok g) :
    Groups lines g := by
  obtain ⟨p, hp, rfl⟩ := Outcome.map_eq_ok.mp h
  exact (groups_of_foldlM hp).1

/-- Lines that are read are grouped by state without loss, repetition or change of order, and
the tables that the grammar is built into have a row for each token on the lines. -/
theorem ofLines_groups_by_state {lines : List JoinedLine} {g : Grammar}
    (h : ofLines lines = .ok g) : Groups lines g ∧
      ∀ conv : Convention, ∃ resolved calls tables, g.resolve conv = .ok (resolved, calls) ∧
        ParserTables.build resolved calls = .ok tables ∧ tables.rowCount = g.ruleCount := by
  refine ⟨groups_of_ofLines h, fun conv => ?_⟩
  obtain ⟨calls, hcalls⟩ := (wellFormed_of_ofLines h).exists_numberedCalls conv
  refine ⟨g.numberCalls, calls, g.tablesWith calls, resolve_eq_ok.mpr ⟨rfl, hcalls⟩, ?_,
    g.rowCount_tablesWith calls⟩
  rw [build_numberCalls, if_pos (map_id_numberedCalls hcalls)]

def interleavedLines : List JoinedLine := [
  ⟨"state INITIAL:", 1⟩,
  ⟨"  'coin', t -> OPEN", 2⟩,
  ⟨"state OPEN:", 5⟩,
  ⟨"  n = word -> call pass($n)", 6⟩,
  ⟨"state INITIAL:", 8⟩,
  ⟨"  end ->", 9⟩]

def interleaved : Grammar where
  states := ⟨[
    ("INITIAL", [
      ⟨"'coin'", none, .transition "OPEN", 2⟩,
      ⟨"t", none, .transition "OPEN", 2⟩,
      ⟨"end", none, .stay, 9⟩]),
    ("OPEN", [⟨"word", some "n", .call ⟨"pass($n)", none⟩, 6⟩])], by decide⟩
  stateLines := ⟨[("INITIAL", 1), ("OPEN", 5)], by decide⟩

theorem interleaved_grouped : ofLines interleavedLines = .ok interleaved ∧
    Groups interleavedLines interleaved ∧
    ∀ conv : Convention, ∃ resolved calls tables,
      interleaved.resolve conv = .ok (resolved, calls) ∧
        ParserTables.build resolved calls = .ok tables ∧
        tables.rowCount = interleaved.ruleCount := by
  have hread : ofLines interleavedLines = .ok interleaved := by decide +kernel
  exact ⟨hread, ofLines_groups_by_state hread⟩

end Grammar

end CommandGrammar
