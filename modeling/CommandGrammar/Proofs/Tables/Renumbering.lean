import CommandGrammar.Header.Files
import CommandGrammar.Proofs.Grammar.Renumbering
import CommandGrammar.Proofs.Tables.Build
import CommandGrammar.Proofs.Tables.Consistency

set_option autoImplicit false
set_option relaxedAutoImplicit false

namespace CommandGrammar

variable (f : Int → Int)

def CallSite.renumber (site : CallSite) : CallSite :=
  { site with rule := site.rule.renumber f }

def NumberedCall.renumber (call : NumberedCall) : NumberedCall :=
  { call with line := f call.line }

def ParserTables.renumber (t : ParserTables) : ParserTables :=
  { t with calls := t.calls.map (NumberedCall.renumber f) }

def BuildError.renumber : BuildError → BuildError
  | unresolvedCall clause state line => unresolvedCall clause state (f line)
  | scatteredCallIds callIds => scatteredCallIds callIds

namespace CallSite

theorem ofRule_renumber (state : String) (rule : Rule) :
    ofRule state (rule.renumber f) = (ofRule state rule).map (renumber f) := by
  obtain ⟨token, identifier, action, line⟩ := rule
  cases action <;> rfl

theorem ofRules_renumber (state : String) (rules : List Rule) :
    ofRules state (rules.map (Rule.renumber f)) = (ofRules state rules).map (renumber f) := by
  unfold ofRules
  rw [List.flatMap_map, List.map_flatMap]
  simp only [ofRule_renumber]

theorem ofEntries_renumber (entries : List (String × List Rule)) :
    ofEntries (entries.map (Grammar.renumberEntry f)) = (ofEntries entries).map (renumber f) := by
  unfold ofEntries
  rw [List.flatMap_map, List.map_flatMap]
  simp only [Grammar.renumberEntry, ofRules_renumber]

end CallSite

theorem NumberedCall.ofSite_renumber (conv : Convention) (site : CallSite) (id : Nat) :
    ofSite conv (site.renumber f) id =
      Outcome.translate (fun e => e) (renumber f) (ofSite conv site id) := by
  have hclause : (site.renumber f).clause = site.clause := rfl
  unfold ofSite
  rw [hclause]
  cases conv.invocation site.clause.template <;> rfl

namespace Grammar

section Entries

variable {g g' : Grammar} (h : g'.states.entries = g.states.entries.map (renumberEntry f))
include h

theorem callSites_of_renumberEntry : g'.callSites = g.callSites.map (CallSite.renumber f) := by
  rw [callSites_eq, callSites_eq, h]
  exact CallSite.ofEntries_renumber f g.states.entries

theorem callsBefore_of_renumberEntry (k i : Nat) : g'.callsBefore k i = g.callsBefore k i := by
  unfold callsBefore
  rw [h, ← List.map_take, CallSite.ofEntries_renumber, List.length_map, List.getElem?_map]
  cases g.states.entries[k]? with
  | none => rfl
  | some entry =>
    simp only [Option.map_some, renumberEntry, ← List.map_take, CallSite.ofRules_renumber,
      List.length_map]

theorem rowTables_of_renumberEntry : g'.rowTables = g.rowTables := by
  unfold rowTables
  rw [h, Places.mapIdx_map]
  simp only [renumberEntry, callsBefore_of_renumberEntry f h, Places.mapIdx_map]
  rfl

theorem numberedCalls_of_renumberEntry (conv : Convention) :
    g'.numberedCalls conv =
      Outcome.translate (fun e => e) (List.map (NumberedCall.renumber f))
        (g.numberedCalls conv) := by
  unfold numberedCalls
  rw [callSites_of_renumberEntry f h, List.zipIdx_map, List.mapM_map]
  apply Outcome.mapM_translate
  rintro ⟨site, id⟩
  exact NumberedCall.ofSite_renumber f conv site id

end Entries

variable (g : Grammar)

theorem numbered_renumber (rule : Rule) (id : Nat) :
    (rule.renumber f).numbered id = (rule.numbered id).renumber f := by
  obtain ⟨token, identifier, action, line⟩ := rule
  cases action <;> rfl

theorem numberCalls_renumber : (g.renumber f).numberCalls = g.numberCalls.renumber f := by
  have hstates : (g.renumber f).numberCalls.states = (g.numberCalls.renumber f).states := by
    apply OrderedMap.ext
    rw [entries_numberCalls, entries_renumber, entries_renumber, entries_numberCalls,
      Places.mapIdx_map, Places.map_mapIdx]
    simp only [renumberEntry, callsBefore_of_renumberEntry f (g.entries_renumber f),
      Places.mapIdx_map, Places.map_mapIdx, numbered_renumber]
  exact congrArg (fun states => Grammar.mk states (g.stateLines.mapValues f)) hstates

theorem resolve_renumber (conv : Convention) :
    (g.renumber f).resolve conv = Outcome.translate (fun e => e)
      (fun found => (found.1.renumber f, found.2.map (NumberedCall.renumber f)))
      (g.resolve conv) := by
  unfold resolve
  rw [numberedCalls_of_renumberEntry f (g.entries_renumber f), numberCalls_renumber]
  apply Outcome.bind_translate
  intro calls _
  rfl

end Grammar

theorem TableRow.ofRule_renumber (state : String) (rule : Rule) :
    ofRule state (rule.renumber f) =
      Outcome.translate (BuildError.renumber f) id (ofRule state rule) := by
  obtain ⟨token, identifier, action, line⟩ := rule
  cases action <;> rfl

namespace ParserTables

theorem rows_renumber (state : String) (rules : List Rule) :
    (rules.map (Rule.renumber f)).mapM (TableRow.ofRule state) =
      Outcome.translate (BuildError.renumber f) id (rules.mapM (TableRow.ofRule state)) := by
  rw [List.mapM_map, ← List.map_id_fun]
  apply Outcome.mapM_translate
  exact TableRow.ofRule_renumber f state

theorem tablesOf_renumber (g : Grammar) :
    tablesOf (g.renumber f) = Outcome.translate (BuildError.renumber f) id (tablesOf g) := by
  unfold tablesOf
  rw [Grammar.entries_renumber, List.mapM_map, ← List.map_id_fun]
  apply Outcome.mapM_translate
  rintro ⟨state, rules⟩
  dsimp only [Function.comp_apply, Grammar.renumberEntry]
  rw [rows_renumber]
  apply Outcome.bind_translate
  intro rows _
  rfl

theorem build_renumber (g : Grammar) (calls : List NumberedCall) :
    build (g.renumber f) (calls.map (NumberedCall.renumber f)) =
      Outcome.translate (BuildError.renumber f) (renumber f) (build g calls) := by
  have hids : (calls.map (NumberedCall.renumber f)).map NumberedCall.id =
      calls.map NumberedCall.id := List.map_map
  unfold build
  rw [tablesOf_renumber, g.stateNames_renumber f, hids, List.length_map]
  apply Outcome.bind_translate
  intro tables _
  dsimp only
  split <;> rfl

end ParserTables

theorem Header.files_renumber (t : ParserTables) (options : Options) :
    files options (t.renumber f) = files options t := by
  have hcheck : (t.renumber f).check = t.check := t.check_withCalls (List.length_map _)
  have hlines : callLines options (t.renumber f) = callLines options t := by
    have hcalls : (t.renumber f).calls = t.calls.map (NumberedCall.renumber f) := rfl
    unfold callLines
    rw [hcalls, List.flatMap_map]
    rfl
  unfold files enums calls tokens
  rw [hcheck, hlines]
  rfl

end CommandGrammar
