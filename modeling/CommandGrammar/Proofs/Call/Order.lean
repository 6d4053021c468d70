import CommandGrammar.Failure
import CommandGrammar.Proofs.Call.Invocation
import CommandGrammar.Proofs.Call.Resolution

set_option autoImplicit false
set_option relaxedAutoImplicit false

namespace CommandGrammar

/-- The place of a rule: that of its state among the states, and its own among the rules there. -/
structure RulePlace where
  state : Nat
  rule : Nat
  deriving DecidableEq, Repr

/-- The place comes first, in the order of the states and then of the rules. -/
def RulePlace.Before (p q : RulePlace) : Prop :=
  p.state < q.state ∨ p.state = q.state ∧ p.rule < q.rule

theorem RulePlace.Before.ne {p q : RulePlace} (h : p.Before q) : p ≠ q := by
  rintro rfl
  unfold Before at h
  omega

theorem RulePlace.Before.trans {p q r : RulePlace} (hpq : p.Before q) (hqr : q.Before r) :
    p.Before r := by
  unfold Before at *
  omega

theorem CallSite.mem_ofRule_iff {state : String} {rule : Rule} {site : CallSite} :
    site ∈ ofRule state rule ↔
      site.state = state ∧ site.rule = rule ∧ rule.action = .call site.clause := by
  obtain ⟨state', rule', clause'⟩ := site
  unfold ofRule
  split
  · next clause hcall => simp [hcall, eq_comm]
  · next hother =>
    simp only [List.not_mem_nil, false_iff]
    rintro ⟨-, -, hcall⟩
    exact hother clause' hcall

/-- The entry of a call under a number: what is known of the call, and the texts that its template
gives. -/
structure NumberedCall.EntryFor (conv : Convention) (site : CallSite) (n : Nat)
    (call : NumberedCall) : Prop where
  id : call.id = n
  returnState : call.returnState = site.clause.returnTarget
  state : call.state = site.state
  token : call.token = site.rule.token
  line : call.line = site.rule.line
  invocation : conv.callText site.clause.template = .ok call.invocation
  format : call.format = Template.printFormat site.clause.template
  arguments : conv.argumentText site.clause.template = .ok call.arguments

theorem NumberedCall.entryFor_of_ofSite {conv : Convention} {site : CallSite} {n : Nat}
    {call : NumberedCall} (h : ofSite conv site n = .ok call) : call.EntryFor conv site n := by
  obtain ⟨invocation, hinvocation, rfl⟩ := ofSite_eq_ok.mp h
  refine ⟨rfl, rfl, rfl, rfl, rfl, ?_, rfl, ?_⟩
  · exact Outcome.map_eq_ok.mpr ⟨invocation, hinvocation, rfl⟩
  · exact Outcome.map_eq_ok.mpr ⟨invocation, hinvocation, rfl⟩

namespace Grammar

variable (g : Grammar)

def ruleAt? (place : RulePlace) : Option (String × Rule) :=
  g.states.entries[place.state]?.bind fun entry =>
    entry.2[place.rule]?.map fun rule => (entry.1, rule)

def CallAt (place : RulePlace) (site : CallSite) : Prop :=
  g.ruleAt? place = some (site.state, site.rule) ∧ site.rule.action = .call site.clause

/-- These are the calls of the grammar with their places: all of them, each once, and in order. -/
structure CallsInOrder (placed : List (RulePlace × CallSite)) : Prop where
  ordered : placed.Pairwise fun c d => c.1.Before d.1
  complete : ∀ place site, (place, site) ∈ placed ↔ g.CallAt place site

theorem CallsInOrder.nodup {g : Grammar} {placed : List (RulePlace × CallSite)}
    (h : g.CallsInOrder placed) : placed.Nodup :=
  h.ordered.imp fun hbefore he => hbefore.ne (congrArg Prod.fst he)

theorem CallsInOrder.unique {g : Grammar} {placed other : List (RulePlace × CallSite)}
    (h : g.CallsInOrder placed) (h' : g.CallsInOrder other) : other = placed := by
  have hperm : other.Perm placed := by
    rw [List.perm_ext_iff_of_nodup h'.nodup h.nodup]
    rintro ⟨place, site⟩
    rw [h'.complete, h.complete]
  refine hperm.eq_of_pairwise ?_ h'.ordered h.ordered
  intro c d _ _ hbefore hafter
  exact absurd rfl (hbefore.trans hafter).ne

/-- A rule of the state at place `k` as the site of a call, with its place, if it is one. -/
def placedCallsOfRule (k : Nat) (state : String) (rule : Rule × Nat) :
    List (RulePlace × CallSite) :=
  (CallSite.ofRule state rule.1).map fun site => (⟨k, rule.2⟩, site)

def placedCallsOf (entry : (String × List Rule) × Nat) : List (RulePlace × CallSite) :=
  entry.1.2.zipIdx.flatMap (placedCallsOfRule entry.2 entry.1.1)

def placedCalls : List (RulePlace × CallSite) :=
  g.states.entries.zipIdx.flatMap placedCallsOf

theorem ruleAt?_eq_some_iff {place : RulePlace} {state : String} {rule : Rule} :
    g.ruleAt? place = some (state, rule) ↔
      ∃ rules, g.states.entries[place.state]? = some (state, rules) ∧
        rules[place.rule]? = some rule := by
  simp [ruleAt?, Option.bind_eq_some_iff]

theorem ruleAt?_numberCalls (place : RulePlace) :
    g.numberCalls.ruleAt? place = (g.ruleAt? place).map fun found =>
      (found.1, found.2.numbered (g.callsBefore place.state place.rule)) := by
  unfold ruleAt?
  rw [entries_numberCalls, List.getElem?_mapIdx]
  cases g.states.entries[place.state]? with
  | none => rfl
  | some entry =>
    simp only [Option.map_some, Option.bind_some, List.getElem?_mapIdx, Option.map_map]
    rfl

theorem mem_placedCallsOf_iff {entry : (String × List Rule) × Nat} {place : RulePlace}
    {site : CallSite} : (place, site) ∈ placedCallsOf entry ↔
      place.state = entry.2 ∧ entry.1.2[place.rule]? = some site.rule ∧ site.state = entry.1.1 ∧
        site.rule.action = .call site.clause := by
  simp only [placedCallsOf, placedCallsOfRule, List.mem_flatMap, List.mem_map, Prod.exists,
    List.mem_zipIdx_iff_getElem?, Prod.mk.injEq]
  constructor
  · rintro ⟨rule, i, hi, site', hsite, rfl, rfl⟩
    obtain ⟨hstate, rfl, hcall⟩ := CallSite.mem_ofRule_iff.mp hsite
    exact ⟨rfl, hi, hstate, hcall⟩
  · rintro ⟨hk, hi, hstate, hcall⟩
    exact ⟨site.rule, place.rule, hi, site, CallSite.mem_ofRule_iff.mpr ⟨hstate, rfl, hcall⟩,
      hk ▸ rfl, rfl⟩

theorem callsInOrder_placedCalls : g.CallsInOrder g.placedCalls where
  ordered := by
    apply Places.pairwise_flatMap_zipIdx
    · rintro ⟨state, rules⟩ k
      apply Places.pairwise_flatMap_zipIdx
      · intro rule i
        unfold placedCallsOfRule CallSite.ofRule
        split <;> simp
      · intro rule i rule' j hlt c hc d hd
        obtain ⟨_, _, rfl⟩ := List.mem_map.mp hc
        obtain ⟨_, _, rfl⟩ := List.mem_map.mp hd
        exact .inr ⟨rfl, hlt⟩
    · rintro entry k entry' l hlt ⟨p, site⟩ hc ⟨q, site'⟩ hd
      obtain ⟨rfl, -⟩ := mem_placedCallsOf_iff.mp hc
      obtain ⟨rfl, -⟩ := mem_placedCallsOf_iff.mp hd
      exact .inl hlt
  complete := by
    intro place site
    simp only [placedCalls, List.mem_flatMap, Prod.exists, List.mem_zipIdx_iff_getElem?,
      mem_placedCallsOf_iff, CallAt, ruleAt?_eq_some_iff]
    constructor
    · rintro ⟨state, rules, k, hk, rfl, hi, rfl, hcall⟩
      exact ⟨⟨rules, hk, hi⟩, hcall⟩
    · rintro ⟨⟨rules, hk, hi⟩, hcall⟩
      exact ⟨site.state, rules, place.state, hk, rfl, hi, rfl, hcall⟩

theorem length_placedCallsOfRule (k : Nat) (state : String) (rule : Rule) (i : Nat) :
    (placedCallsOfRule k state (rule, i)).length = (CallSite.ofRule state rule).length :=
  List.length_map _

theorem length_placedCallsOf (entry : String × List Rule) (k : Nat) :
    (placedCallsOf (entry, k)).length = (CallSite.ofRules entry.1 entry.2).length :=
  Places.length_flatMap_zipIdx (length_placedCallsOfRule k entry.1) entry.2

theorem map_snd_placedCallsOf (entry : String × List Rule) (k : Nat) :
    (placedCallsOf (entry, k)).map Prod.snd = CallSite.ofRules entry.1 entry.2 := by
  unfold placedCallsOf
  rw [List.map_flatMap]
  apply Places.flatMap_zipIdx
  intro rule i
  rw [placedCallsOfRule, List.map_map]
  exact List.map_id _

theorem map_snd_placedCalls : g.placedCalls.map Prod.snd = g.callSites := by
  rw [callSites_eq, placedCalls, List.map_flatMap]
  exact Places.flatMap_zipIdx map_snd_placedCallsOf g.states.entries

/-- The position of a call in the list is the number of calls before its place. -/
theorem getElem?_placedCalls {place : RulePlace} {site : CallSite} (h : g.CallAt place site) :
    g.placedCalls[g.callsBefore place.state place.rule]? = some (place, site) := by
  obtain ⟨hplace, hcall⟩ := h
  obtain ⟨rules, hk, hi⟩ := g.ruleAt?_eq_some_iff.mp hplace
  have hsite : CallSite.ofRule site.state site.rule = [site] := by
    simp [CallSite.ofRule, hcall]
  have hrules : (placedCallsOf ((site.state, rules), place.state))[
      (CallSite.ofRules site.state (rules.take place.rule)).length]? = some (place, site) := by
    have hpart : 0 < (CallSite.ofRule site.state site.rule).length := by simp [hsite]
    refine (Places.getElem?_flatMap_zipIdx_add (j := 0)
      (length_placedCallsOfRule place.state site.state) hi hpart).trans ?_
    simp [placedCallsOfRule, hsite]
  obtain ⟨hlt, -⟩ := List.getElem?_eq_some_iff.mp hrules
  rw [length_placedCallsOf] at hlt
  rw [callsBefore, hk, placedCalls, CallSite.ofEntries]
  exact (Places.getElem?_flatMap_zipIdx_add length_placedCallsOf hk hlt).trans hrules

theorem callsBefore_of_placedCalls {n : Nat} {place : RulePlace} {site : CallSite}
    (h : g.placedCalls[n]? = some (place, site)) : g.callsBefore place.state place.rule = n := by
  have hinOrder := g.callsInOrder_placedCalls
  have hcall : g.CallAt place site :=
    (hinOrder.complete place site).mp (List.mem_of_getElem? h)
  obtain ⟨hlt, -⟩ := List.getElem?_eq_some_iff.mp h
  have hsame := h.trans (g.getElem?_placedCalls hcall).symm
  exact ((List.getElem?_inj hlt hinOrder.nodup).mp hsame).symm

/-- The grammar `r` and the entries are what numbering makes of the listed calls: all is kept but
the actions of the rules with calls. -/
structure NumbersCalls (conv : Convention) (placed : List (RulePlace × CallSite)) (r : Grammar)
    (calls : List NumberedCall) : Prop where
  sizes : r.sizes = g.sizes
  stateLines : r.stateLines = g.stateLines
  rules : ∀ place state rule, g.ruleAt? place = some (state, rule) → ∃ action,
    r.ruleAt? place = some (state, rule.setAction action) ∧
      ((∀ clause, rule.action ≠ .call clause) → action = rule.action)
  count : calls.length = placed.length
  numbered : ∀ (n : Nat) place site, placed[n]? = some (place, site) →
    r.ruleAt? place =
        some (site.state, site.rule.setAction (.dispatch n site.clause.returnTarget)) ∧
      ∃ call, calls[n]? = some call ∧ call.EntryFor conv site n

theorem numbersCalls_numberCalls {conv : Convention} {calls : List NumberedCall}
    (hcalls : g.numberedCalls conv = .ok calls) :
    g.NumbersCalls conv g.placedCalls g.numberCalls calls where
  sizes := g.sizes_numberCalls
  stateLines := g.stateLines_numberCalls
  rules := by
    intro place state rule hrule
    rw [ruleAt?_numberCalls, hrule]
    by_cases hcall : ∀ clause, rule.action ≠ .call clause
    · exact ⟨rule.action, by rw [Option.map_some, Rule.numbered_of_not_call _ hcall]; rfl,
        fun _ => rfl⟩
    · obtain ⟨action, hnumbered⟩ := rule.exists_numbered (g.callsBefore place.state place.rule)
      exact ⟨action, by rw [Option.map_some, hnumbered], fun hother => absurd hother hcall⟩
  count := by
    rw [length_numberedCalls hcalls, ← map_snd_placedCalls, List.length_map]
  numbered := by
    intro n place site hplaced
    have hsite : g.callSites[n]? = some site := by
      rw [← map_snd_placedCalls, List.getElem?_map, hplaced]
      rfl
    obtain ⟨hrule, hcall⟩ :=
      (g.callsInOrder_placedCalls.complete place site).mp (List.mem_of_getElem? hplaced)
    obtain ⟨call, hentry, hof⟩ := getElem?_numberedCalls hcalls hsite
    refine ⟨?_, call, hentry, NumberedCall.entryFor_of_ofSite hof⟩
    rw [ruleAt?_numberCalls, hrule, g.callsBefore_of_placedCalls hplaced, Option.map_some,
      Rule.numbered, hcall]

theorem exists_numberedCalls {conv : Convention}
    (h : ∀ site ∈ g.callSites, Invocation.IsCall (conv.substitute site.clause.template)) :
    ∃ calls, g.numberedCalls conv = .ok calls := by
  apply Outcome.exists_mapM
  rintro ⟨site, id⟩ hsite
  obtain ⟨invocation, hinvocation⟩ :=
    (conv.exists_invocation_iff _).mpr (h site (List.fst_mem_of_mem_zipIdx hsite))
  exact ⟨_, NumberedCall.ofSite_eq_ok.mpr ⟨invocation, hinvocation, rfl⟩⟩

theorem numberedCalls_eq_error {conv : Convention} {before after : List CallSite} {site : CallSite}
    (hsites : g.callSites = before ++ site :: after)
    (hbefore : ∀ c ∈ before, Invocation.IsCall (conv.substitute c.clause.template))
    (hsite : ¬Invocation.IsCall (conv.substitute site.clause.template)) :
    g.numberedCalls conv = .error ⟨conv.substitute site.clause.template⟩ := by
  unfold numberedCalls
  rw [hsites, List.zipIdx_append, List.zipIdx_cons]
  apply Outcome.mapM_of_first_error
  · rintro ⟨c, id⟩ hc
    obtain ⟨invocation, hinvocation⟩ :=
      (conv.exists_invocation_iff _).mpr (hbefore c (List.fst_mem_of_mem_zipIdx hc))
    exact ⟨_, NumberedCall.ofSite_eq_ok.mpr ⟨invocation, hinvocation, rfl⟩⟩
  · exact Outcome.bind_eq_error.mpr (.inl (conv.invocation_eq_error hsite))

end Grammar

/-- The calls of a grammar stand in one order. If each of their templates stands for a call, they
are numbered in this order, and all else is left as it is; otherwise the first template that does
not is reported, as it reads with its captures replaced. -/
theorem calls_numbered_in_order (g : Grammar) (conv : Convention) :
    ∃ placed, g.CallsInOrder placed ∧ (∀ other, g.CallsInOrder other → other = placed) ∧
      ((∀ c ∈ placed, Invocation.IsCall (conv.substitute c.2.clause.template)) ∧
          (∃ r calls, g.resolve conv = .ok (r, calls) ∧ g.NumbersCalls conv placed r calls) ∨
        ∃ before place site after, placed = before ++ (place, site) :: after ∧
          (∀ c ∈ before, Invocation.IsCall (conv.substitute c.2.clause.template)) ∧
          ¬Invocation.IsCall (conv.substitute site.clause.template) ∧
          ∃ e, g.resolve conv = .error e ∧ (Failure.resolve e).className = "ValueError" ∧
            (Failure.resolve e).message = "calls: not a function call expression: " ++
              Text.quoted (conv.substitute site.clause.template)) := by
  have horder := g.callsInOrder_placedCalls
  refine ⟨g.placedCalls, horder, fun _ => horder.unique, ?_⟩
  have hsites := g.map_snd_placedCalls
  by_cases hall : ∀ c ∈ g.placedCalls, Invocation.IsCall (conv.substitute c.2.clause.template)
  · have hcalled : ∀ site ∈ g.callSites,
        Invocation.IsCall (conv.substitute site.clause.template) := by
      rw [← hsites]
      exact List.forall_mem_map.mpr hall
    obtain ⟨calls, hcalls⟩ := g.exists_numberedCalls hcalled
    exact .inl ⟨hall, g.numberCalls, calls, Grammar.resolve_eq_ok.mpr ⟨rfl, hcalls⟩,
      g.numbersCalls_numberCalls hcalls⟩
  · obtain ⟨before, ⟨place, site⟩, after, hplaced, hbefore, hsite⟩ := Places.exists_first hall
    rw [hplaced, List.map_append, List.map_cons] at hsites
    have hfailed := g.numberedCalls_eq_error hsites.symm (List.forall_mem_map.mpr hbefore) hsite
    refine .inr ⟨before, place, site, after, hplaced, hbefore, hsite, _, ?_, rfl, rfl⟩
    exact Outcome.bind_eq_error.mpr (.inl hfailed)

end CommandGrammar
