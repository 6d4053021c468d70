import CommandGrammar.Proofs.Header.Decoder
import CommandGrammar.Proofs.OrderedMap

set_option autoImplicit false
set_option relaxedAutoImplicit false

namespace CommandGrammar

open Text

/-- A row whose next state is a word, and whose texts stay on one line. -/
structure TableRow.Legible (row : TableRow) : Prop where
  pattern : OneLine row.pattern
  identifier : OneLine row.identifier
  nextState : isWord isStateChar row.nextState.toList = true

structure NumberedCall.Legible (call : NumberedCall) : Prop where
  invocation : OneLine call.invocation
  format : OneLine call.format
  arguments : OneLine call.arguments
  returnState : OneLine call.returnState

/-- Tables whose numbered states are their states, with words for names and legible parts. -/
structure ParserTables.Legible (t : ParserTables) : Prop where
  keys : t.stateIds.keys = t.states
  states : ∀ state ∈ t.states, isWord isStateChar state.toList = true
  names : ∀ table ∈ t.tables, isWord isStateChar table.1.toList = true
  rows : ∀ table ∈ t.tables, ∀ row ∈ table.2, row.Legible
  calls : ∀ call ∈ t.calls, call.Legible

namespace Header

variable {t : ParserTables}

def RowEntry.ofRow (row : TableRow) : RowEntry :=
  ⟨restored row.pattern.toList, row.identifier, row.nextState, row.callId⟩

def CallEntry.ofCall (call : NumberedCall) : CallEntry :=
  ⟨call.id, call.invocation, call.format, call.arguments, call.returnState⟩

theorem enumerator?_enumeratorLine {state : String} {id : Int}
    (hname : isWord isStateChar state.toList = true) (hid : t.stateIds.get? state = some id) :
    enumerator? (enumeratorLine t state).toList = some (state, id) := by
  have hline : (enumeratorLine t state).toList = "    ".toList ++
      (state.toList ++ (" = ".toList ++ ((decimal id).toList ++ ",".toList))) := by
    unfold enumeratorLine ParserTables.stateIdText
    rw [hid]
    simp only [String.toList_append, List.append_assoc]
  have hword := wordBefore?_append " = " (by decide) hname
  simp only [enumerator?, hline, after?_append, hword, before?_append, number?_decimal,
    Option.bind_eq_bind, Option.bind_some, String.ofList_toList]
  rfl

theorem toList_rowLine (row : TableRow) : (rowLine row).toList = "    \x7b \"".toList ++
    (row.pattern.toList.flatMap escapeChar ++ '"' :: (", \"".toList ++
    (row.identifier.toList.flatMap escapeChar ++ '"' :: (", ".toList ++
    (row.nextState.toList ++ (", \x7b ".toList ++
    ((decimal row.callId).toList ++ " \x7d \x7d,".toList))))))) := by
  unfold rowLine literal escape
  simp only [String.toList_append, String.toList_ofList, List.append_assoc]
  rfl

theorem row?_rowLine {row : TableRow} (h : row.Legible) :
    row? (rowLine row).toList = some (RowEntry.ofRow row) := by
  have hword := wordBefore?_append ", \x7b " (by decide) h.nextState
  simp only [row?, toList_rowLine, after?_append, literal?_closed, hword, before?_append,
    number?_decimal, Option.bind_eq_bind, Option.bind_some, String.ofList_toList]
  rfl

def arrayOpening (state : String) (rows : List TableRow) : String :=
  "cmdp_token tokens_" ++ state ++ "[" ++ decimal rows.length ++ "] = \x7b"

theorem toList_arrayOpening (state : String) (rows : List TableRow) :
    (arrayOpening state rows).toList = "cmdp_token tokens_".toList ++ (state.toList ++
      ("[".toList ++ ((decimal (rows.length : Int)).toList ++ "] = \x7b".toList))) := by
  unfold arrayOpening
  simp only [String.toList_append, List.append_assoc]

theorem array?_arrayLines {state : String} (hname : isWord isStateChar state.toList = true)
    {rows : List TableRow} (h : ∀ row ∈ rows, row.Legible) :
    array? ((arrayOpening state rows).toList :: rows.map fun row => (rowLine row).toList) =
      some (state, rows.map RowEntry.ofRow) := by
  have hword := wordBefore?_append "[" (by decide) hname
  have hrows := mapM_map_eq_some row? fun row hrow => row?_rowLine (h row hrow)
  simp only [array?, toList_arrayOpening, after?_append, hword, before?_append, number?_decimal,
    hrows, List.length_map, Option.bind_eq_bind, Option.bind_some, String.ofList_toList, if_true]

theorem toList_indexLine (state : String) (rows : List TableRow) :
    (indexLine state rows).toList = "    \x7b tokens_".toList ++ (state.toList ++
      (", ".toList ++ ((decimal (rows.length : Int)).toList ++ " \x7d,".toList))) := by
  unfold indexLine
  simp only [String.toList_append, List.append_assoc]

theorem indexRow?_indexLine {state : String} (hname : isWord isStateChar state.toList = true)
    (rows : List TableRow) :
    indexRow? (indexLine state rows).toList = some (state, (rows.length : Int)) := by
  have hword := wordBefore?_append ", " (by decide) hname
  simp only [indexRow?, toList_indexLine, after?_append, hword, before?_append, number?_decimal,
    Option.bind_eq_bind, Option.bind_some, String.ofList_toList]
  rfl

def indexOpening (t : ParserTables) : String :=
  "cmdp_token_ptr tokens[" ++ decimal t.tables.length ++ "] = \x7b"

theorem toList_indexOpening (t : ParserTables) :
    (indexOpening t).toList = "cmdp_token_ptr tokens[".toList ++
      ((decimal (t.tables.length : Int)).toList ++ "] = \x7b".toList) := by
  unfold indexOpening
  simp only [String.toList_append, List.append_assoc]

theorem index?_indexLines (h : t.Legible) :
    index? ((indexOpening t).toList ::
        t.tables.map fun table => (indexLine table.1 table.2).toList) =
      some (t.tables.map fun table => (table.1, (table.2.length : Int))) := by
  have hentries := mapM_map_eq_some indexRow? fun table htable =>
    indexRow?_indexLine (h.names table htable) table.2
  simp only [index?, toList_indexOpening, between?_append, number?_decimal, hentries,
    List.length_map, Option.bind_eq_bind, Option.bind_some, if_true]

def tokenBlocks (t : ParserTables) : List (List (List Char)) :=
  (t.tables.map fun table => (arrayOpening table.1 table.2).toList ::
    table.2.map fun row => (rowLine row).toList) ++
  [(indexOpening t).toList :: t.tables.map fun table => (indexLine table.1 table.2).toList]

theorem tokenLines_eq (t : ParserTables) :
    (tokenLines t).map String.toList = (tokenBlocks t).flatMap (· ++ ["\x7d;".toList]) := by
  have harrays : ∀ tables : List (String × List TableRow),
      (tables.flatMap fun table => arrayLines table.1 table.2).map String.toList =
      (tables.map fun table => (arrayOpening table.1 table.2).toList ::
        table.2.map fun row => (rowLine row).toList).flatMap (· ++ ["\x7d;".toList]) := by
    intro tables
    rw [List.map_flatMap, List.flatMap_map]
    congr 1
    funext table
    simp only [arrayLines, List.map_append, List.map_map, List.map_cons, List.map_nil]
    rfl
  unfold tokenLines tokenBlocks
  rw [List.flatMap_append, ← harrays]
  simp only [List.map_append, List.map_map, List.append_assoc, List.flatMap_cons, List.flatMap_nil,
    List.map_cons, List.map_nil]
  rfl

theorem closing_not_mem_tokenBlocks (t : ParserTables) :
    ∀ block ∈ tokenBlocks t, "\x7d;".toList ∉ block := by
  have hopening : ∀ state rows, "\x7d;".toList ≠ (arrayOpening state rows).toList := by
    intro state rows
    rw [toList_arrayOpening]
    exact ne_of_after?_eq_none (by decide) _
  have hrow : ∀ row, "\x7d;".toList ≠ (rowLine row).toList := by
    intro row
    rw [toList_rowLine]
    exact ne_of_after?_eq_none (by decide) _
  have hindex : "\x7d;".toList ≠ (indexOpening t).toList := by
    rw [toList_indexOpening]
    exact ne_of_after?_eq_none (by decide) _
  have hentry : ∀ state rows, "\x7d;".toList ≠ (indexLine state rows).toList := by
    intro state rows
    rw [toList_indexLine]
    exact ne_of_after?_eq_none (by decide) _
  intro block hblock hclosing
  rcases List.mem_append.mp hblock with hblock | hblock
  · obtain ⟨table, _, rfl⟩ := List.mem_map.mp hblock
    rcases List.mem_cons.mp hclosing with he | hclosing
    · exact hopening _ _ he
    · obtain ⟨row, _, he⟩ := List.mem_map.mp hclosing
      exact hrow row he.symm
  · rw [List.mem_singleton.mp hblock] at hclosing
    rcases List.mem_cons.mp hclosing with he | hclosing
    · exact hindex he
    · obtain ⟨table, _, he⟩ := List.mem_map.mp hclosing
      exact hentry _ _ he.symm

theorem tokens?_tokenLines (h : t.Legible) :
    tokens? ((tokenLines t).map String.toList) = some
      (t.tables.map fun table => (table.1, table.2.map RowEntry.ofRow),
        t.tables.map fun table => (table.1, (table.2.length : Int))) := by
  have harrays := mapM_map_eq_some array? fun table htable =>
    array?_arrayLines (h.names table htable) (h.rows table htable)
  unfold tokens?
  dsimp only
  rw [tokenLines_eq, ended_flatMap (closing_not_mem_tokenBlocks t), tokenBlocks,
    List.dropLast_concat, List.getLast?_concat, harrays, Option.bind_some, index?_indexLines h]
  rfl

theorem enums?_enumLines (h : t.Legible) :
    enums? ((enumLines t).map String.toList) = some t.stateIds.entries := by
  have hentries : (t.states.map (enumeratorLine t)).map String.toList =
      t.stateIds.entries.map fun entry => (enumeratorLine t entry.1).toList := by
    rw [← h.keys, OrderedMap.keys, List.map_map, List.map_map]
    rfl
  have hread : (t.stateIds.entries.map fun entry => (enumeratorLine t entry.1).toList).mapM
      enumerator? = some (t.stateIds.entries.map id) := by
    apply mapM_map_eq_some
    rintro ⟨state, id⟩ hentry
    refine enumerator?_enumeratorLine (h.states state ?_) ?_
    · rw [← h.keys, OrderedMap.mem_keys_iff]
      exact ⟨id, hentry⟩
    · exact (OrderedMap.get?_eq_some_iff _).mpr hentry
  have hlines : (enumLines t).map String.toList = ["typedef enum \x7b".toList] ++
      ((t.stateIds.entries.map fun entry => (enumeratorLine t entry.1).toList) ++
        ["\x7d cmdp_state;".toList]) := by
    unfold enumLines
    rw [List.map_append, List.map_append, hentries, List.append_assoc]
    rfl
  rw [enums?, hlines, inside?_append, Option.bind_some, hread, List.map_id]

theorem arguments?_append (arguments : String) :
    arguments? ((if arguments = "" then "" else ", " ++ arguments).toList ++ ");".toList) =
      some arguments.toList := by
  unfold arguments?
  split
  · next hnone =>
    rw [hnone]
    rfl
  · next hsome =>
    have hne : ");".toList ≠ ", ".toList ++ (arguments.toList ++ ");".toList) :=
      ne_of_after?_eq_none (by decide) _
    rw [String.toList_append, List.append_assoc, if_neg hne.symm, between?_append]

theorem print?_printStatement (call : NumberedCall) :
    print? (printStatement call).toList = some (call.format, call.arguments) := by
  have hline : (printStatement call).toList = "            printf(\"".toList ++
      (call.format.toList.flatMap escapeChar ++ ("\\n\"".toList ++
      ((if call.arguments = "" then "" else ", " ++ call.arguments).toList ++ ");".toList))) := by
    unfold printStatement escape
    simp only [String.toList_append, String.toList_ofList, List.append_assoc]
  -- the line feed at the end of the format is written as an escape, and read as one character
  have hclosed : ∀ rest, literal? ("\\n\"".toList ++ rest) = some ("\n".toList, rest) := by
    intro rest
    rfl
  rw [hline, print?, after?_append]
  simp only [Option.bind_eq_bind, Option.bind_some]
  rw [literal?_escape, hclosed]
  simp only [Option.map_some, Option.bind_some]
  rw [before?_append, arguments?_append]
  simp only [Option.bind_some, String.ofList_toList]
  rfl

theorem cases?_caseLines (options : Options) (call : NumberedCall) (lines : List (List Char)) :
    cases? options ((caseLines options call).map String.toList ++ lines) =
      (cases? options lines).map fun calls => CallEntry.ofCall call :: calls := by
  have hlabel : ("        case " ++ decimal call.id ++ ":").toList =
      "        case ".toList ++ ((decimal call.id).toList ++ ":".toList) := by
    simp only [String.toList_append, List.append_assoc]
  have hreal : ("            " ++ call.invocation ++ ";").toList =
      "            ".toList ++ (call.invocation.toList ++ ";".toList) := by
    simp only [String.toList_append, List.append_assoc]
  have hstate : ("            state = " ++ call.returnState ++ ";").toList =
      "            state = ".toList ++ (call.returnState.toList ++ ";".toList) := by
    simp only [String.toList_append, List.append_assoc]
  rw [caseLines]
  simp only [List.map_cons, List.map_nil, List.cons_append, List.nil_append]
  rw [cases?, case?, hlabel, hreal, hstate, between?_append, between?_append, between?_append,
    print?_printStatement, Option.bind_some, number?_decimal]
  simp only [Option.bind_eq_bind, Option.bind_some, String.ofList_toList, List.map_cons,
    List.map_nil, if_true]
  cases cases? options lines with
  | none => rfl
  | some calls => rfl

theorem cases?_flatMap (options : Options) (calls : List NumberedCall) :
    cases? options ((calls.flatMap (caseLines options)).map String.toList) =
      some (calls.map CallEntry.ofCall) := by
  induction calls with
  | nil => rfl
  | cons call calls ih =>
    rw [List.flatMap_cons, List.map_append, cases?_caseLines, ih]
    rfl

theorem calls?_callLines (options : Options) (t : ParserTables) :
    calls? options ((callLines options t).map String.toList) =
      some (t.calls.map CallEntry.ofCall) := by
  rw [calls?, callLines, List.map_append, List.map_append, List.append_assoc, inside?_append,
    Option.bind_some, cases?_flatMap]

theorem oneLine_of_isStateName {name : String} (h : isWord isStateChar name.toList = true) :
    OneLine name :=
  oneLine_of_all (by decide) (isWord_iff.mp h).2

theorem oneLine_escape {text : String} (h : OneLine text) : OneLine (escape text) := by
  rw [escape, oneLine_ofList]
  intro hm
  obtain ⟨c, hc, hnewline⟩ := List.mem_flatMap.mp hm
  unfold escapeChar at hnewline
  split at hnewline
  · simp only [List.mem_cons, List.not_mem_nil, or_false] at hnewline
    rcases hnewline with he | he
    · cases he
    · exact h (he ▸ hc)
  · rw [List.mem_singleton] at hnewline
    exact h (hnewline ▸ hc)

theorem oneLine_enumLines (h : t.Legible) : ∀ line ∈ enumLines t, OneLine line := by
  intro line hline
  unfold enumLines at hline
  rcases List.mem_append.mp hline with hline | hline
  · rcases List.mem_append.mp hline with hline | hline
    · rw [List.mem_singleton.mp hline]
      decide
    · obtain ⟨state, hstate, rfl⟩ := List.mem_map.mp hline
      have hid : OneLine (t.stateIdText state) := by
        unfold ParserTables.stateIdText
        split
        · exact oneLine_decimal _
        · decide
      simp only [enumeratorLine, oneLine_append]
      exact ⟨⟨⟨⟨by decide, oneLine_of_isStateName (h.states state hstate)⟩, by decide⟩, hid⟩,
        by decide⟩
  · rw [List.mem_singleton.mp hline]
    decide

theorem oneLine_rowLine {row : TableRow} (h : row.Legible) : OneLine (rowLine row) := by
  have hpattern := oneLine_escape h.pattern
  have hidentifier := oneLine_escape h.identifier
  have hnext := oneLine_of_isStateName h.nextState
  have hid := oneLine_decimal row.callId
  unfold rowLine literal
  simp only [oneLine_append, hpattern, hidentifier, hnext, hid]
  decide

theorem oneLine_tokenLines (h : t.Legible) : ∀ line ∈ tokenLines t, OneLine line := by
  have hcount : ∀ n : Nat, OneLine (decimal n) := fun n => oneLine_decimal n
  intro line hline
  unfold tokenLines at hline
  simp only [List.mem_append, List.mem_flatMap, List.mem_map, List.mem_singleton] at hline
  rcases hline with ((⟨table, htable, hline⟩ | rfl) | ⟨table, htable, rfl⟩) | rfl
  · have hname := oneLine_of_isStateName (h.names table htable)
    unfold arrayLines at hline
    simp only [List.mem_append, List.mem_map, List.mem_singleton] at hline
    rcases hline with (rfl | ⟨row, hrow, rfl⟩) | rfl
    · simp only [oneLine_append, hname, hcount]
      decide
    · exact oneLine_rowLine (h.rows table htable row hrow)
    · decide
  · simp only [oneLine_append, hcount]
    decide
  · have hname := oneLine_of_isStateName (h.names table htable)
    unfold indexLine
    simp only [oneLine_append, hname, hcount]
    decide
  · decide

theorem oneLine_caseLines {options : Options} (htestMacro : OneLine options.testMacro)
    {call : NumberedCall} (h : call.Legible) : ∀ line ∈ caseLines options call, OneLine line := by
  have hid := oneLine_decimal call.id
  have hformat := oneLine_escape h.format
  have harguments : OneLine (if call.arguments = "" then "" else ", " ++ call.arguments) := by
    split
    · decide
    · exact oneLine_append.mpr ⟨by decide, h.arguments⟩
  intro line hline
  simp only [caseLines, List.mem_cons, List.not_mem_nil, or_false] at hline
  rcases hline with rfl | rfl | rfl | rfl | rfl | rfl | rfl | rfl
  · simp only [oneLine_append, hid]
    decide
  · simp only [oneLine_append, htestMacro]
    decide
  · simp only [oneLine_append, h.invocation]
    decide
  · decide
  · unfold printStatement
    dsimp only
    generalize (if call.arguments = "" then "" else ", " ++ call.arguments) = arguments
      at harguments ⊢
    simp only [oneLine_append, hformat, harguments]
    decide
  · decide
  · simp only [oneLine_append, h.returnState]
    decide
  · decide

theorem oneLine_callLines {options : Options} (hnamePrefix : OneLine options.namePrefix)
    (htestMacro : OneLine options.testMacro) (h : t.Legible) :
    ∀ line ∈ callLines options t, OneLine line := by
  intro line hline
  unfold callLines at hline
  rcases List.mem_append.mp hline with hline | hline
  · rcases List.mem_append.mp hline with hline | hline
    · simp only [dispatchOpening, Options.callFunction, List.mem_cons, List.not_mem_nil,
        or_false] at hline
      rcases hline with rfl | rfl
      · simp only [oneLine_append, hnamePrefix]
        decide
      · decide
    · obtain ⟨call, hcall, hline⟩ := List.mem_flatMap.mp hline
      exact oneLine_caseLines htestMacro (h.calls call hcall) line hline
  · have hclosing : ∀ line ∈ dispatchClosing, OneLine line := by decide
    exact hclosing line hline

def Contents.ofTables (t : ParserTables) : Contents where
  states := t.stateIds.entries
  tables := t.tables.map fun table => (table.1, table.2.map RowEntry.ofRow)
  index := t.tables.map fun table => (table.1, (table.2.length : Int))
  calls := t.calls.map CallEntry.ofCall

theorem decode_endLines (h : t.Legible) {options : Options}
    (hnamePrefix : OneLine options.namePrefix) (htestMacro : OneLine options.testMacro) :
    decode options (endLines (enumLines t)) (endLines (callLines options t))
      (endLines (tokenLines t)) = some (Contents.ofTables t) := by
  unfold decode
  rw [ended_endLines (oneLine_enumLines h),
    ended_endLines (oneLine_callLines hnamePrefix htestMacro h),
    ended_endLines (oneLine_tokenLines h), enums?_enumLines h, calls?_callLines,
    tokens?_tokenLines h]
  rfl

end Header

end CommandGrammar
