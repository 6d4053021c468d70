import CommandGrammar.Proofs.Header.Agreement
import CommandGrammar.Proofs.Tables.Conventions

/-!
The layout of the headers for the states and the tokens.

A layout holds what the two headers declare: enumerators with their values, arrays of rows with
their sizes, and an index with its size. Any of these can be written, whether they go together or
not, and a layout can be told from its lines. Of the layouts that are written from tables it is
shown that their parts go together, although the states, their numbers and the rows are kept apart
in the tables and the examination compares them only in part.
-/

set_option autoImplicit false
set_option relaxedAutoImplicit false

namespace CommandGrammar

open Text

namespace Header

structure ArrayDeclaration where
  state : String
  size : Int
  rows : List TableRow

namespace ArrayDeclaration

def opening (a : ArrayDeclaration) : String :=
  "cmdp_token tokens_" ++ a.state ++ "[" ++ decimal a.size ++ "] = \x7b"

def block (a : ArrayDeclaration) : List String :=
  a.opening :: a.rows.map rowLine

end ArrayDeclaration

/-- What the headers for the states and the tokens declare: the enumerators with their values, the
arrays, and the index of the arrays with its size. An entry of the index is an array and its
size. -/
structure Layout where
  enumerators : List (String × Int)
  arrays : List ArrayDeclaration
  indexSize : Int
  index : List (String × Int)

namespace Layout

def enumerator (entry : String × Int) : String :=
  "    " ++ entry.1 ++ " = " ++ decimal entry.2 ++ ","

def indexEntry (entry : String × Int) : String :=
  "    \x7b tokens_" ++ entry.1 ++ ", " ++ decimal entry.2 ++ " \x7d,"

variable (layout : Layout)

def enumLines : List String :=
  ["typedef enum \x7b"] ++ layout.enumerators.map enumerator ++ ["\x7d cmdp_state;"]

def indexOpening : String :=
  "cmdp_token_ptr tokens[" ++ decimal layout.indexSize ++ "] = \x7b"

def blocks : List (List String) :=
  layout.arrays.map ArrayDeclaration.block ++
    [layout.indexOpening :: layout.index.map indexEntry]

def tokenLines : List String :=
  layout.blocks.flatMap (· ++ ["\x7d;"])

end Layout

theorem enumerator_injective : Function.Injective Layout.enumerator := by
  rintro ⟨name, id⟩ ⟨name', id'⟩ h
  obtain ⟨rfl, rfl⟩ := enumerator_inj h
  rfl

theorem toList_indexEntry (entry : String × Int) : (Layout.indexEntry entry).toList =
    "    \x7b tokens_".toList ++ (((entry.1.toList ++ [',']) ++ ' ' :: (decimal entry.2).toList) ++
      " \x7d,".toList) := by
  unfold Layout.indexEntry
  simp only [String.toList_append, List.append_assoc]
  rfl

theorem indexEntry_injective : Function.Injective Layout.indexEntry := by
  rintro ⟨state, size⟩ ⟨state', size'⟩ h
  have hlist := congrArg String.toList h
  rw [toList_indexEntry, toList_indexEntry] at hlist
  have hparts := List.append_cancel_right (List.append_cancel_left hlist)
  obtain ⟨hstate, hsize⟩ := eq_of_append_decimal (by decide) (by decide) hparts
  exact Prod.ext (String.toList_inj.mp (List.append_cancel_right hstate)) hsize

theorem toList_opening (a : ArrayDeclaration) : a.opening.toList = "cmdp_token tokens_".toList ++
    ((a.state.toList ++ '[' :: (decimal a.size).toList) ++ "] = \x7b".toList) := by
  unfold ArrayDeclaration.opening
  simp only [String.toList_append, List.append_assoc]
  rfl

theorem block_injective : Function.Injective ArrayDeclaration.block := by
  intro a b h
  obtain ⟨hopening, hrows⟩ := List.cons.inj h
  have hlist := congrArg String.toList hopening
  rw [toList_opening, toList_opening] at hlist
  have hparts := List.append_cancel_right (List.append_cancel_left hlist)
  obtain ⟨hstate, hsize⟩ := eq_of_append_decimal (by decide) (by decide) hparts
  obtain ⟨state, size, rows⟩ := a
  obtain ⟨state', size', rows'⟩ := b
  rw [ArrayDeclaration.mk.injEq]
  exact ⟨String.toList_inj.mp hstate, hsize,
    List.map_injective_iff.mpr (fun _ _ => rowLine_injective) hrows⟩

namespace Layout

theorem toList_indexOpening (layout : Layout) : layout.indexOpening.toList =
    ("cmdp_token_ptr tokens".toList ++ '[' :: (decimal layout.indexSize).toList) ++
      "] = \x7b".toList := by
  unfold indexOpening
  simp only [String.toList_append, List.append_assoc]
  rfl

theorem indexSize_of_indexOpening {layout other : Layout}
    (h : layout.indexOpening = other.indexOpening) : layout.indexSize = other.indexSize := by
  have hlist := congrArg String.toList h
  rw [toList_indexOpening, toList_indexOpening] at hlist
  exact (eq_of_append_decimal (by decide) (by decide) (List.append_cancel_right hlist)).2

theorem closing_not_mem_blocks (layout : Layout) : ∀ block ∈ layout.blocks, "\x7d;" ∉ block := by
  -- the lines of a declaration begin with a letter or a blank
  have hother : ∀ (line : String) (c : Char), line.toList.head? = some c → c ≠ '\x7d' →
      line ≠ "\x7d;" := by
    rintro line c hc hne rfl
    exact hne (Option.some.inj hc).symm
  have hopening : ∀ a : ArrayDeclaration, a.opening ≠ "\x7d;" := fun a =>
    hother _ 'c' (by rw [toList_opening]; rfl) (by decide)
  have hrow : ∀ row, rowLine row ≠ "\x7d;" := fun row =>
    hother _ ' ' (by rw [toList_rowLine]; rfl) (by decide)
  have hindex : layout.indexOpening ≠ "\x7d;" :=
    hother _ 'c' (by rw [toList_indexOpening]; rfl) (by decide)
  have hentry : ∀ entry, indexEntry entry ≠ "\x7d;" := fun entry =>
    hother _ ' ' (by rw [toList_indexEntry]; rfl) (by decide)
  intro block hblock hclosing
  rcases List.mem_append.mp hblock with hblock | hblock
  · obtain ⟨a, -, rfl⟩ := List.mem_map.mp hblock
    rcases List.mem_cons.mp hclosing with he | hclosing
    · exact hopening a he.symm
    · obtain ⟨row, -, he⟩ := List.mem_map.mp hclosing
      exact hrow row he
  · rw [List.mem_singleton.mp hblock] at hclosing
    rcases List.mem_cons.mp hclosing with he | hclosing
    · exact hindex he.symm
    · obtain ⟨entry, -, he⟩ := List.mem_map.mp hclosing
      exact hentry entry he

theorem eq_of_lines {layout other : Layout} (enums : other.enumLines = layout.enumLines)
    (tokens : other.tokenLines = layout.tokenLines) : other = layout := by
  have henumerators : other.enumerators = layout.enumerators :=
    List.map_injective_iff.mpr enumerator_injective
      (List.append_cancel_left (List.append_cancel_right enums))
  have hblocks : other.blocks = layout.blocks := by
    rw [← ended_flatMap other.closing_not_mem_blocks, ← ended_flatMap layout.closing_not_mem_blocks]
    exact congrArg (ended "\x7d;") tokens
  obtain ⟨harrays, hindex⟩ := List.append_inj' hblocks rfl
  obtain ⟨hopening, hentries⟩ := List.cons.inj (List.cons.inj hindex).1
  have harrays : other.arrays = layout.arrays :=
    List.map_injective_iff.mpr block_injective harrays
  have hentries : other.index = layout.index :=
    List.map_injective_iff.mpr indexEntry_injective hentries
  have hsize := indexSize_of_indexOpening hopening
  cases other
  cases layout
  simp_all

/-- The parts of a layout go together. The enumerators are distinct, have their places for values,
and end with the one that stands for a call. There is one array for each of the others, in their
order, and its size is the number of its rows. The entry of the index at the value of an enumerator
is the array of that enumerator with its size, and the size of the index is the value of the last
enumerator. A row that leaves it to a call has the number of one of the calls. -/
structure Coherent (layout : Layout) (callCount : Nat) : Prop where
  distinct : (layout.enumerators.map Prod.fst).Nodup
  values : ∀ (n : Nat) name value, layout.enumerators[n]? = some (name, value) → value = n
  sentinel : (layout.enumerators.map Prod.fst).getLast? = some callState
  arrays : layout.arrays.map ArrayDeclaration.state =
    (layout.enumerators.map Prod.fst).filter (· ≠ callState)
  sizes : ∀ a ∈ layout.arrays, a.size = a.rows.length
  indexed : ∀ (n : Nat) state size, layout.index[n]? = some (state, size) ↔
    (state, (n : Int)) ∈ layout.enumerators ∧ ∃ a ∈ layout.arrays, a.state = state ∧ a.size = size
  indexLength : layout.index.length = layout.indexSize
  indexSize : (callState, layout.indexSize) ∈ layout.enumerators
  calls : ∀ a ∈ layout.arrays, ∀ row ∈ a.rows, row.nextState = callState →
    0 ≤ row.callId ∧ row.callId < callCount

end Layout

end Header

namespace ParserTables

variable {t : ParserTables}

/-- A number belongs to one state only, so states that have their places for numbers are
distinct. -/
theorem Consistent.nodup (h : t.Consistent) : t.states.Nodup := by
  rw [List.nodup_iff_getElem?_ne_getElem?]
  intro i j hij hj he
  have hstate := List.getElem?_eq_getElem hj
  have hfirst := h.numbers i _ (he.trans hstate)
  rw [h.numbers j _ hstate, Option.some.injEq, Int.ofNat_inj] at hfirst
  exact Nat.ne_of_gt hij hfirst

theorem Consistent.states_eq (h : t.Consistent) : t.states = t.declaredStates ++ [callState] :=
  (List.dropLast_append_getLast? callState h.sentinel).symm

theorem Consistent.callState_not_mem (h : t.Consistent) : callState ∉ t.declaredStates := by
  have hnodup := h.nodup
  rw [h.states_eq] at hnodup
  intro hmem
  exact (List.nodup_append.mp hnodup).2.2 _ hmem _ (List.mem_singleton_self callState) rfl

theorem Consistent.getElem?_states (h : t.Consistent) {n : Nat} {table : String × List TableRow}
    (htable : t.tables[n]? = some table) : t.states[n]? = some table.1 := by
  have hdeclared : t.declaredStates[n]? = some table.1 := by
    rw [← h.order, List.getElem?_map, htable]
    rfl
  obtain ⟨hlt, -⟩ := List.getElem?_eq_some_iff.mp hdeclared
  rw [h.states_eq, List.getElem?_append_left hlt]
  exact hdeclared

/-- What tables may not be if anything is to be written: a state is listed twice or does not have
its place for a number, the tables are not those of the declared states in order, or a row leaves it
to a call that is not there. -/
inductive Broken (t : ParserTables) : Prop where
  | repeated : ¬t.states.Nodup → Broken t
  | misnumbered {n : Nat} {state : String} : t.states[n]? = some state →
      t.stateIds.get? state ≠ some (n : Int) → Broken t
  | misordered : t.tables.map Prod.fst ≠ t.declaredStates → Broken t
  | outOfRange {table : String × List TableRow} {row : TableRow} : table ∈ t.tables →
      row ∈ table.2 → row.nextState = callState →
      ¬(0 ≤ row.callId ∧ row.callId < t.calls.length) → Broken t

theorem Consistent.not_broken (h : t.Consistent) : ¬t.Broken := by
  intro broken
  cases broken with
  | repeated hrepeated => exact hrepeated h.nodup
  | misnumbered hstate hnumber => exact hnumber (h.numbers _ _ hstate)
  | misordered horder => exact horder h.order
  | outOfRange htable hrow hcall hrange => exact hrange ((h.rows _ htable _ hrow).2 hcall)

end ParserTables

namespace Header

variable {t : ParserTables}

def Layout.ofTables (t : ParserTables) : Layout where
  enumerators := t.states.zipIdx.map fun place => (place.1, (place.2 : Int))
  arrays := t.tables.map fun table => ⟨table.1, table.2.length, table.2⟩
  indexSize := t.tables.length
  index := t.tables.map fun table => (table.1, (table.2.length : Int))

namespace Layout

theorem map_fst_enumerators (t : ParserTables) :
    (ofTables t).enumerators.map Prod.fst = t.states := by
  unfold ofTables
  rw [List.map_map]
  exact List.zipIdx_map_fst 0 t.states

theorem getElem?_enumerators {n : Nat} {name : String} {value : Int} :
    (ofTables t).enumerators[n]? = some (name, value) ↔ t.states[n]? = some name ∧ value = n := by
  unfold ofTables
  rw [List.getElem?_map, List.getElem?_zipIdx, Option.map_map, Option.map_eq_some_iff]
  simp [eq_comm]

theorem mem_enumerators {name : String} {n : Nat} :
    (name, (n : Int)) ∈ (ofTables t).enumerators ↔ t.states[n]? = some name := by
  rw [List.mem_iff_getElem?]
  constructor
  · rintro ⟨m, hm⟩
    obtain ⟨hname, hn⟩ := getElem?_enumerators.mp hm
    rwa [Int.ofNat_inj.mp hn]
  · intro hname
    exact ⟨n, getElem?_enumerators.mpr ⟨hname, rfl⟩⟩

theorem mem_arrays {a : ArrayDeclaration} : a ∈ (ofTables t).arrays ↔
    ∃ table ∈ t.tables, a = ⟨table.1, table.2.length, table.2⟩ := by
  simp only [ofTables, List.mem_map, eq_comm]

theorem getElem?_index {n : Nat} {state : String} {size : Int} :
    (ofTables t).index[n]? = some (state, size) ↔
      ∃ rows, t.tables[n]? = some (state, rows) ∧ size = rows.length := by
  simp only [ofTables, List.getElem?_map, Option.map_eq_some_iff, Prod.mk.injEq, Prod.exists]
  constructor
  · rintro ⟨state, rows, htable, rfl, rfl⟩
    exact ⟨rows, htable, rfl⟩
  · rintro ⟨rows, htable, rfl⟩
    exact ⟨state, rows, htable, rfl, rfl⟩

theorem enumLines_ofTables (h : t.Consistent) : (ofTables t).enumLines = Header.enumLines t := by
  have hlines : (ofTables t).enumerators.map enumerator = t.states.map (enumeratorLine t) := by
    apply List.ext_getElem?
    intro n
    rw [List.getElem?_map, List.getElem?_map]
    cases hstate : t.states[n]? with
    | none =>
      have hnone : (ofTables t).enumerators[n]? = none := by simpa [ofTables] using hstate
      rw [hnone]
      rfl
    | some state =>
      rw [getElem?_enumerators.mpr ⟨hstate, rfl⟩, Option.map_some, Option.map_some, enumeratorLine,
        ParserTables.stateIdText, h.numbers n state hstate]
      rfl
  unfold enumLines Header.enumLines
  rw [hlines]

theorem tokenLines_ofTables (t : ParserTables) :
    (ofTables t).tokenLines = Header.tokenLines t := by
  unfold tokenLines blocks Header.tokenLines
  rw [List.flatMap_append, List.append_assoc, List.append_assoc]
  congr 1
  · simp only [ofTables, List.flatMap_map]
    rfl
  · simp only [ofTables, List.map_map, List.flatMap_singleton]
    rfl

theorem coherent_ofTables (h : t.Consistent) : (ofTables t).Coherent t.calls.length := by
  have hnodup := h.nodup
  constructor
  case distinct => rwa [map_fst_enumerators]
  case values =>
    intro n name value hentry
    exact (getElem?_enumerators.mp hentry).2
  case sentinel =>
    rw [map_fst_enumerators]
    exact h.sentinel
  case arrays =>
    have hdeclared : ∀ state ∈ t.declaredStates, decide (state ≠ callState) = true := by
      intro state hstate
      rw [decide_eq_true_eq]
      rintro rfl
      exact h.callState_not_mem hstate
    rw [map_fst_enumerators, h.states_eq, List.filter_append, List.filter_eq_self.mpr hdeclared,
      ← h.order]
    simp [ofTables]
  case sizes =>
    intro a ha
    obtain ⟨table, -, rfl⟩ := mem_arrays.mp ha
    rfl
  case indexed =>
    intro n state size
    rw [getElem?_index, mem_enumerators]
    constructor
    · rintro ⟨rows, htable, rfl⟩
      exact ⟨h.getElem?_states htable, _,
        mem_arrays.mpr ⟨_, List.mem_of_getElem? htable, rfl⟩, rfl, rfl⟩
    · rintro ⟨hstate, a, ha, rfl, rfl⟩
      -- the table of the array stands at the only place of its state
      obtain ⟨⟨name, rows⟩, htable, rfl⟩ := mem_arrays.mp ha
      obtain ⟨m, hm⟩ := List.mem_iff_getElem?.mp htable
      obtain ⟨hlt, -⟩ := List.getElem?_eq_some_iff.mp hstate
      have hplace : n = m :=
        (List.getElem?_inj hlt hnodup).mp (hstate.trans (h.getElem?_states hm).symm)
      exact ⟨rows, hplace ▸ hm, rfl⟩
  case indexLength => simp [ofTables]
  case indexSize =>
    apply mem_enumerators.mpr
    rw [h.states_eq, ← h.order]
    simp
  case calls =>
    intro a ha row hrow hcall
    obtain ⟨table, htable, rfl⟩ := mem_arrays.mp ha
    exact (h.rows table htable row hrow).2 hcall

end Layout

/-- Headers that are written have parts that go together, and can be told in one way only from their
lines. From broken tables nothing is written, and every header is refused for the same reason. -/
theorem headers_go_together (t : ParserTables) (options : Options) :
    (∀ headers, files options t = .ok headers →
      t.states.Nodup ∧ t.states.count callState = 1 ∧ t.states.getLast? = some callState ∧
      ∃ layout : Layout,
        headers = [
          ⟨options.namePrefix ++ "enums.h", endLines layout.enumLines⟩,
          ⟨options.namePrefix ++ "call.h", endLines (callLines options t)⟩,
          ⟨options.namePrefix ++ "tokens.h", endLines layout.tokenLines⟩] ∧
        layout.enumerators.map Prod.fst = t.states ∧ layout.Coherent t.calls.length ∧
        ∀ other : Layout, other.enumLines = layout.enumLines →
          other.tokenLines = layout.tokenLines → other = layout) ∧
    (t.Broken → ∃ e, Refused options t e) := by
  constructor
  · intro headers hheaders
    have h := consistent_of_files hheaders
    have hmember : callState ∈ t.states := List.mem_of_getLast? h.sentinel
    refine ⟨h.nodup, List.count_eq_one_of_mem h.nodup hmember, h.sentinel, .ofTables t, ?_,
      Layout.map_fst_enumerators t, Layout.coherent_ofTables h, ?_⟩
    · rw [files_of_consistent h options] at hheaders
      rw [Layout.enumLines_ofTables h, Layout.tokenLines_ofTables]
      exact (Except.ok.inj hheaders).symm
    · intro other enums tokens
      exact Layout.eq_of_lines enums tokens
  · intro broken
    cases hcheck : t.check with
    | ok => exact absurd broken (t.check_eq_ok_iff.mp hcheck).not_broken
    | error e => exact ⟨e, refused_of_check hcheck options⟩

/-- Tables that list a state twice, under the number of its second place. -/
def doubled : ParserTables where
  states := ["A", "A", callState]
  stateIds := ⟨[("A", 1), (callState, 2)], by decide⟩
  tables := [("A", []), ("A", [])]
  calls := []

/-- The headers of the tables with one call go together, and those of the tables with a state that
is listed twice are refused. -/
theorem returning_headers_go_together :
    (∃ (headers : List File) (layout : Layout), files {} returning = .ok headers ∧
      ⟨"GENERATED_tokens.h", endLines layout.tokenLines⟩ ∈ headers ∧
      layout.enumerators.map Prod.fst = ["A", callState] ∧ layout.Coherent 1) ∧
    doubled.Broken ∧ ∃ e, Refused {} doubled e := by
  have hconsistent : returning.Consistent := returning.check_eq_ok_iff.mp (by decide)
  have hfiles := files_of_consistent hconsistent {}
  obtain ⟨-, -, -, layout, hheaders, hnames, hcoherent, -⟩ :=
    (headers_go_together returning {}).1 _ hfiles
  have hbroken : doubled.Broken := .repeated (by decide)
  refine ⟨⟨_, layout, hfiles, ?_, hnames, hcoherent⟩, hbroken,
    (headers_go_together doubled {}).2 hbroken⟩
  rw [hheaders]
  exact List.mem_cons_of_mem _ (List.mem_cons_of_mem _ List.mem_cons_self)

end Header

end CommandGrammar
