import CommandGrammar.Tables.Build
import Mathlib.Data.Option.Basic
import Mathlib.Order.Basic

set_option autoImplicit false
set_option relaxedAutoImplicit false

namespace CommandGrammar

/-- A token that a state accepts: its pattern, and the name it is captured under or the empty
name. -/
structure Offer where
  pattern : String
  identifier : String
  deriving DecidableEq, Repr

/-- What a pick leads to: the call that is made, if any, and the next state. -/
structure Move (σ : Type) where
  call : Option String
  next : σ
  deriving DecidableEq, Repr

/-- A machine that is driven by picks among the offers of its state. -/
structure Machine (σ : Type) where
  offers : σ → Option (List Offer)
  pick : σ → Nat → Option (Move σ)

namespace Machine

variable {σ τ : Type}

/-- The calls made by a series of picks and the state after it, unless a pick is not possible. -/
def run (m : Machine σ) : σ → List Nat → Option (List String × σ)
  | s, [] => some ([], s)
  | s, i :: picks =>
    (m.pick s i).bind fun move =>
      (m.run move.next picks).map fun rest => (move.call.toList ++ rest.1, rest.2)

/-- Two machines offer the same, and on both exactly the offered picks are possible. -/
def Matched (m : Machine σ) (n : Machine τ) (s : σ) (k : τ) : Prop :=
  ∃ offers, m.offers s = some offers ∧ n.offers k = some offers ∧
    ∀ i, ((m.pick s i).isSome ↔ i < offers.length) ∧ ((n.pick k i).isSome ↔ i < offers.length)

/-- A relation between states that moves on equal picks make the same call and keep. -/
def Follows (m : Machine σ) (n : Machine τ) (R : σ → τ → Prop) : Prop :=
  ∀ s k i, R s k →
    Option.Rel (fun here there => here.call = there.call ∧ R here.next there.next)
      (m.pick s i) (n.pick k i)

section Related

variable {α β γ δ : Type} {R : α → β → Prop} {x : Option α} {y : Option β}

theorem rel_bind {S : γ → δ → Prop} {f : α → Option γ} {g : β → Option δ}
    (hxy : Option.Rel R x y) (hfg : ∀ a b, R a b → Option.Rel S (f a) (g b)) :
    Option.Rel S (x.bind f) (y.bind g) := by
  cases hxy with
  | none => exact .none
  | some hab => exact hfg _ _ hab

theorem rel_map {S : γ → δ → Prop} {f : α → γ} {g : β → δ} (hxy : Option.Rel R x y)
    (hfg : ∀ a b, R a b → S (f a) (g b)) : Option.Rel S (x.map f) (y.map g) := by
  cases hxy with
  | none => exact .none
  | some hab => exact .some (hfg _ _ hab)

theorem rel_mono {S : α → β → Prop} (hxy : Option.Rel R x y) (h : ∀ a b, R a b → S a b) :
    Option.Rel S x y := by
  cases hxy with
  | none => exact .none
  | some hab => exact .some (h _ _ hab)

end Related

/-- What single moves keep, series of picks keep, and they make the same calls. -/
theorem Follows.run {m : Machine σ} {n : Machine τ} {R : σ → τ → Prop} (follows : m.Follows n R)
    (picks : List Nat) {s : σ} {k : τ} (related : R s k) :
    Option.Rel (fun here there => here.1 = there.1 ∧ R here.2 there.2)
      (m.run s picks) (n.run k picks) := by
  induction picks generalizing s k with
  | nil => exact .some ⟨rfl, related⟩
  | cons i picks ih =>
    refine rel_bind (follows s k i related) ?_
    rintro here there ⟨hcall, hnext⟩
    refine rel_map (ih hnext) ?_
    rintro ends ends' ⟨hcalls, hlast⟩
    refine ⟨?_, hlast⟩
    rw [hcall, hcalls]

end Machine

def Rule.offer (rule : Rule) : Offer :=
  ⟨TableRow.patternOf rule.token, rule.identifier.getD ""⟩

def Rule.move (conv : Convention) (state : String) (rule : Rule) : Option (Move String) :=
  match rule.action with
  | .stay => some ⟨none, state⟩
  | .transition target => some ⟨none, target⟩
  | .call clause =>
    (conv.callText clause.template).toOption.map fun text => ⟨some text, clause.returnTarget⟩
  | .dispatch _ _ => none

def Grammar.machine (g : Grammar) (conv : Convention) : Machine String where
  offers state := (g.states.get? state).map (List.map Rule.offer)
  pick state i := (g.states.get? state).bind fun rules => rules[i]?.bind (Rule.move conv state)

theorem Grammar.offers_machine {g : Grammar} {state : String} {rules : List Rule}
    (h : g.states.get? state = some rules) (conv : Convention) :
    (g.machine conv).offers state = some (rules.map Rule.offer) := by
  change (g.states.get? state).map _ = _
  rw [h, Option.map_some]

theorem Grammar.pick_machine {g : Grammar} {state : String} {rules : List Rule}
    (h : g.states.get? state = some rules) (conv : Convention) (i : Nat) :
    (g.machine conv).pick state i = rules[i]?.bind (Rule.move conv state) := by
  change (g.states.get? state).bind _ = _
  rw [h, Option.bind_some]

def TableRow.offer (row : TableRow) : Offer :=
  ⟨row.pattern, row.identifier⟩

namespace ParserTables

def at? {α : Type} (xs : List α) : Int → Option α
  | .ofNat n => xs[n]?
  | .negSucc _ => none

/-- The move of a row: to its next state, or to the one that its call returns to. -/
def move (t : ParserTables) (row : TableRow) : Option (Move Int) :=
  if row.nextState = callState then
    (at? t.calls row.callId).bind fun call =>
      (t.stateIds.get? call.returnState).map fun next => ⟨some call.invocation, next⟩
  else (t.stateIds.get? row.nextState).map fun next => ⟨none, next⟩

def machine (t : ParserTables) : Machine Int where
  offers number := (at? t.tables number).map fun table => table.2.map TableRow.offer
  pick number i := (at? t.tables number).bind fun table => table.2[i]?.bind t.move

variable {t : ParserTables} {number : Int} {state : String} {rows : List TableRow}

theorem offers_machine (h : at? t.tables number = some (state, rows)) :
    t.machine.offers number = some (rows.map TableRow.offer) := by
  change (at? t.tables number).map _ = _
  rw [h, Option.map_some]

theorem pick_machine (h : at? t.tables number = some (state, rows)) (i : Nat) :
    t.machine.pick number i = rows[i]?.bind t.move := by
  change (at? t.tables number).bind _ = _
  rw [h, Option.bind_some]

end ParserTables

end CommandGrammar
