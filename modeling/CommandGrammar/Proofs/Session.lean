import CommandGrammar.Proofs.Grammar.Editing
import CommandGrammar.Session
import Mathlib.Logic.Relation

set_option autoImplicit false
set_option relaxedAutoImplicit false

namespace CommandGrammar

/-- A grammar that changes make of an empty grammar, or of one that was read. -/
def Grammar.Built (g : Grammar) : Prop :=
  ∃ start edits, Start start ∧ start.edit edits = some g

theorem Grammar.Start.built {g : Grammar} (h : Start g) : g.Built :=
  ⟨g, [], h, rfl⟩

theorem Grammar.Built.apply {g g' : Grammar} (h : g.Built) (edit : Edit)
    (hchange : edit.apply g = some g') : g'.Built := by
  obtain ⟨start, edits, hstart, hedits⟩ := h
  refine ⟨start, edits ++ [edit], hstart, ?_⟩
  have happend : start.edit (edits ++ [edit]) = (start.edit edits).bind fun g => g.edit [edit] :=
    List.foldlM_append
  rw [happend, hedits]
  exact Grammar.edit_cons.mpr ⟨g', hchange, rfl⟩

theorem Grammar.Built.coherent {g : Grammar} (h : g.Built) : g.Coherent := by
  obtain ⟨start, edits, hstart, hedits⟩ := h
  exact (coherent_and_extends_of_edit hstart.coherent hedits).1

namespace Session

/-- What a session may come to in one step. The calls and the tables may become anything. -/
inductive Step (s : Session) : Session → Prop where
  | declare (side : Side) (name : String) (line : Int) : Step s (s.edit side (·.declare name line))
  | append {side : Side} {state : String} (rule : Rule) :
      (s.model side).states.contains state → Step s (s.edit side (·.addRules state [rule]))
  | setAction {side : Side} {state : String} {rules : List Rule} {index : Nat} (action : Action) :
      (s.model side).states.get? state = some rules → index < rules.length →
      Step s (s.edit side (·.setAction state index action))
  | read {source : String} {s' : Session} : s.read source = .ok s' → Step s s'
  | resolve {side : Side} {conv : Convention} {s' : Session} :
      s.resolve side conv = .ok s' → Step s s'
  | adopt : Step s s.adopt
  | calls (calls : List NumberedCall) : Step s { s with calls }
  | tables (tables : ParserTables) : Step s { s with tables }

def Reachable : Session → Prop :=
  Relation.ReflTransGen Step initial

variable {s s' : Session}

theorem model_edit (s : Session) (side other : Side) (f : Grammar → Grammar) :
    (s.edit side f).model other =
      if other = side ∨ s.separate = none then f (s.model other) else s.model other := by
  obtain ⟨g, separate, calls, tables⟩ := s
  cases separate <;> cases side <;> cases other <;> rfl

theorem model_edit_cases (s : Session) (side other : Side) (f : Grammar → Grammar) :
    (s.edit side f).model other = s.model other ∨
      (s.edit side f).model other = f (s.model side) := by
  rw [model_edit]
  split
  · next hseen =>
    rcases hseen with rfl | hone
    · exact .inr rfl
    · -- both sides have the same grammar
      have hsame : ∀ side, s.model side = s.grammar := by
        rintro (_ | _)
        · rfl
        · exact congrArg (Option.getD · s.grammar) hone
      rw [hsame other, hsame side]
      exact .inr rfl
  · exact .inl rfl

theorem built_of_edit {side : Side} {f : Grammar → Grammar}
    (built : ∀ side, (s.model side).Built) (edit : Grammar.Edit)
    (h : edit.apply (s.model side) = some (f (s.model side))) (other : Side) :
    ((s.edit side f).model other).Built := by
  rcases model_edit_cases s side other f with hkept | hedited
  · rw [hkept]
    exact built other
  · rw [hedited]
    exact (built side).apply edit h

theorem read_eq_ok {source : String} :
    s.read source = .ok s' ↔ ∃ g, Grammar.read source = .ok g ∧ s' = s.replace g := by
  unfold read
  cases Grammar.read source <;> simp [bind, Except.bind, pure, Except.pure, eq_comm]

theorem resolve_eq_ok {side : Side} {conv : Convention} :
    s.resolve side conv = .ok s' ↔ ∃ g calls, (s.model side).resolve conv = .ok (g, calls) ∧
      s' = { s with separate := some g, calls } := by
  unfold resolve
  rcases (s.model side).resolve conv with e | ⟨g, calls⟩ <;>
    simp [bind, Except.bind, pure, Except.pure, eq_comm]

theorem built_of_step (h : Step s s') (built : ∀ side, (s.model side).Built) (side : Side) :
    (s'.model side).Built := by
  cases h with
  | declare on name line => exact built_of_edit built (.declare name line) rfl side
  | @append on state rule hstate =>
    refine built_of_edit built (.append state rule) ?_ side
    exact if_pos hstate
  | @setAction on state rules index action hrules hindex =>
    refine built_of_edit built (.setAction state index action) ?_ side
    rw [Grammar.Edit.apply, hrules]
    exact if_pos hindex
  | read hread =>
    obtain ⟨g, hg, rfl⟩ := read_eq_ok.mp hread
    cases side with
    | working => exact (Grammar.Start.read hg).built
    | resolved => exact built .resolved
  | @resolve on conv _ hresolve =>
    obtain ⟨g, calls, hg, rfl⟩ := resolve_eq_ok.mp hresolve
    cases side with
    | working => exact built .working
    | resolved =>
      refine (built on).apply (.resolve conv) ?_
      rw [Grammar.Edit.apply, hg]
      rfl
  | adopt =>
    cases side with
    | working => exact built .resolved
    | resolved => exact built .resolved
  | calls calls => exact built side
  | tables tables => exact built side

theorem built_of_reachable (h : Reachable s) (side : Side) : (s.model side).Built := by
  induction h generalizing side with
  | refl =>
    cases side with
    | working => exact Grammar.Start.empty.built
    | resolved => exact Grammar.Start.empty.built
  | tail _ hstep ih => exact built_of_step hstep ih side

/-- Every change of the working grammar can be made in a session. Calls are numbered by adopting the
resolved grammar. -/
theorem Reachable.exists_apply {g : Grammar} {edit : Grammar.Edit} (h : Reachable s)
    (happly : edit.apply s.grammar = some g) : ∃ s', Reachable s' ∧ s'.grammar = g := by
  cases edit with
  | declare name line =>
    cases happly
    exact ⟨_, h.tail (.declare .working name line), rfl⟩
  | append state rule =>
    rw [Grammar.Edit.apply] at happly
    split at happly
    · next hstate =>
      cases happly
      have hstep : Step s (s.edit .working (·.addRules state [rule])) := .append rule hstate
      exact ⟨_, h.tail hstep, rfl⟩
    · cases happly
  | setAction state index action =>
    rw [Grammar.Edit.apply] at happly
    split at happly
    · next rules hrules =>
      split at happly
      · next hindex =>
        cases happly
        have hstep : Step s (s.edit .working (·.setAction state index action)) :=
          .setAction action hrules hindex
        exact ⟨_, h.tail hstep, rfl⟩
      · cases happly
    · cases happly
  | resolve conv =>
    rw [Grammar.Edit.apply] at happly
    split at happly
    · next resolved calls hresolve =>
      cases happly
      -- the numbered grammar comes about on the other side first
      have hresolved : s.resolve .working conv =
          .ok { s with separate := some g, calls } := resolve_eq_ok.mpr ⟨g, calls, hresolve, rfl⟩
      exact ⟨_, (h.tail (.resolve hresolved)).tail .adopt, rfl⟩
    · cases happly

theorem Reachable.exists_edit {g : Grammar} {edits : List Grammar.Edit} (h : Reachable s)
    (hedits : s.grammar.edit edits = some g) : ∃ s', Reachable s' ∧ s'.grammar = g := by
  induction edits generalizing s with
  | nil =>
    cases hedits
    exact ⟨s, h, rfl⟩
  | cons edit edits ih =>
    obtain ⟨next, hnext, hrest⟩ := Grammar.edit_cons.mp hedits
    obtain ⟨s', hs', rfl⟩ := h.exists_apply hnext
    exact ih hs' hrest

/-- The grammars that come up in sessions are those that changes make of an empty grammar or of one
that was read. -/
theorem exists_reachable_iff_built {g : Grammar} :
    (∃ s side, Reachable s ∧ s.model side = g) ↔ g.Built := by
  constructor
  · rintro ⟨s, side, h, rfl⟩
    exact built_of_reachable h side
  · rintro ⟨start, edits, hstart, hedits⟩
    have hbegun : ∃ s, Reachable s ∧ s.grammar = start := by
      cases hstart with
      | empty => exact ⟨initial, .refl, rfl⟩
      | read hread => exact ⟨_, .single (.read (read_eq_ok.mpr ⟨start, hread, rfl⟩)), rfl⟩
    obtain ⟨s, hs, rfl⟩ := hbegun
    obtain ⟨s', hs', hg⟩ := hs.exists_edit hedits
    exact ⟨s', .working, hs', hg⟩

theorem fault_of_reachable {side : Side} {e : CheckError} (h : Reachable s)
    (hcheck : (s.model side).check = .error e) : ∃ fault, e = .fault fault :=
  Grammar.fault_of_check_eq_error (built_of_reachable h side).coherent hcheck

end Session

end CommandGrammar
